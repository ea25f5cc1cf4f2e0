import TpmAttest.ClientSession
import TpmAttest.SequentialRuns

/-! # An honest client

Where the shim gets a nonce and makes its report, its client is told valid exactly if the
nonce has not expired and the report verifies against the server's tables (`honest_client`):
nothing on the way, neither the encoder nor the decoders nor the readers of the response,
turns a verdict into the other one.
-/
namespace TpmAttest

open Python Transactional Program Shim

/-- The reply to `POST /attest`, for a request that is served alone.  The page is what the
framework sends for a body that is no report, and for an exception. -/
def Http.attestReply (http : Http) (page : Bytes) (platform : Platform) (policy : Policy) (env : Env)
    (db : Database) (payload : Bytes) : Reply :=
  match http.parseReport payload with
  | none => .httpError 422 "Unprocessable Entity" page
  | some report =>
    match ((attest platform policy report env).run exec db).1 with
    | .error _ => .httpError 500 "Internal Server Error" page
    | .ok resp =>
      if resp.status = 200 then .body (http.render resp.content)
      else .httpError resp.status "Bad Request" (http.render resp.content)

section
variable {http : Http} {platform : Platform} {policy : Policy} {env : Env}
  {db : Database} {payload : Bytes} {report : AttestationReport}

/-- A nonce passes its check while it has not expired. -/
theorem nonceVerdict_iff {nonce : String} {expiry : DateTime}
    (hrow : db.activeNonces nonce = some expiry.isoformat) :
    nonceVerdict env.now (purgeNonces db.activeNonces env.now.isoformat nonce) = .ok none ↔
      ¬ expiry < env.now := by
  constructor
  · intro h hlt
    have hpurged : purgeNonces db.activeNonces env.now.isoformat nonce = none := by
      have htext : expiry.isoformat < env.now.isoformat := by rwa [DateTime.isoformat_lt_iff]
      unfold purgeNonces
      rw [hrow, Option.filter_some, decide_eq_false (not_not.mpr htext)]
      rfl
    rw [hpurged] at h
    cases h
  · exact nonceVerdict_unexpired hrow

/-- The reply, read by the shim. -/
theorem readReply_attestReply (py : Interpreter) (page : Bytes) (hhttp : http.Faithful) (hlimit : 0 < py.loadsLimit .attest)
    (hparse : http.parseReport payload = some report) {resp : Response}
    (hrun : ((attest platform policy report env).run exec db).1 = .ok resp)
    (hfits : resp.content.Fits) :
    readReply py (http.attestReply page platform policy env db payload) = .ok resp.content := by
  have hread := readReply_of_ok py (hhttp.render resp _ hfits hlimit)
  unfold Http.attestReply
  rw [hparse]
  dsimp only
  rw [hrun]
  dsimp only
  by_cases hstatus : resp.status = 200
  · rw [if_pos hstatus]
    exact hread
  · rw [if_neg hstatus]
    exact hread

end

/-- **An honest client is told the truth.** -/
theorem honest_client (http : Http) (hhttp : http.Faithful) (page : Bytes) (py : Interpreter)
    (floatBack : Decimal → FloatValue) (hfloats : FloatsRead py.floatRepr floatBack) (game : Bridge)
    (sha256 : Bytes → Digest) (platform : Platform) (policy : Policy) (db : Database) (hdb : Valid db)
    (token : String) (expiry : DateTime) (hrow : db.activeNonces token = some expiry.isoformat)
    (env : Env) (expiresAt : DateTime)
    (hexpires : env.later.addSeconds (tokenLifetimeMinutes * 60) = .ok expiresAt)
    (call : AgentCall) (conn : Connection) (cache : ImaCache) (received : Bytes) (r : ShimReport)
    (h : Smooth py sha256 call conn cache token received r) (hfits : r.Fits)
    (hdepth : max 1 (handshakeOf py (decodeReplace received)).nesting < http.bodyLimit)
    (hlimit : 0 < py.loadsLimit .attest)
    (hanswered : ∀ payload ∈ (handleClient py sha256 call.machineId conn cache).posted,
      conn.attest = http.attestReply page platform policy env db payload) :
    ∃ pcrs body valid s, readPcrs call.pcrread = .ok pcrs ∧
      (handleClient py sha256 call.machineId conn cache).posted = [body] ∧
      http.parseReport body = some (r.received pcrs) ∧
      (handleClient py sha256 call.machineId conn cache).sent = [responseBytes valid s] ∧
      Agreement game valid (responseBytes valid s) ∧
      (valid = true ↔ ¬ expiry < env.now ∧ Verifies platform policy (r.received pcrs) db) := by
  obtain ⟨hnonce, -, ⟨pcrs, hpcrs, hitems⟩, -⟩ := collected_parts h.collected
  obtain ⟨payload, cache', hdumps, hhandle⟩ := handleClient_smooth h
  have hhandshake : (handshakeOf py (decodeReplace received)).Fits :=
    fits_handshake (parseHandshake_of_readable py h.handshake)
  have hparse := (parseReport_posted hhttp hfloats hitems hfits hhandshake hdumps).2 hdepth
  have hattest : conn.attest = http.attestReply page platform policy env db (encode payload) :=
    hanswered (encode payload) (by rw [hhandle, posted_finish]; exact List.mem_singleton_self _)
  obtain ⟨verdict, hverdict, -⟩ := verifyReport_returns policy (r.received pcrs) env hdb
  -- the report verifies exactly if the server has no reason to reject it
  have hnone : verdict = none ↔ ¬ expiry < env.now ∧ Verifies platform policy (r.received pcrs) db := by
    have hnonce' : (r.received pcrs).nonce = token := hnonce
    have hverified := @verified_iff platform policy (r.received pcrs) db env
    rw [hnonce', nonceVerdict_iff hrow, hverdict] at hverified
    rw [← hverified]
    exact ⟨fun h => by rw [h], fun h => Except.ok.inj h⟩
  rw [hhandle, hattest, posted_finish]
  cases verdict with
  | none =>
    have hrun : ((attest platform policy (r.received pcrs) env).run exec db).1 =
        .ok (.valid env.uuid expiresAt.isoformat) := by
      rw [run_attest_verified hverdict, hexpires]
      rfl
    have hread := readReply_attestReply py page hhttp hlimit hparse hrun
      ⟨trivial, trivial, trivial, trivial⟩
    refine ⟨pcrs, encode payload, true, text env.uuid, hpcrs, rfl, hparse, ?_,
      agreement_response game _ _, ?_⟩
    · rw [hread]
      refine sent_finish_verdict h.formats ?_
      simp only [verdictOf, getItem_ofMembers]
      rfl
    · exact iff_of_true rfl (hnone.mp rfl)
  | some reason =>
    have hrun : ((attest platform policy (r.received pcrs) env).run exec db).1 =
        .ok (.invalid reason) := by rw [run_attest, hverdict]
    have hread := readReply_attestReply py page hhttp hlimit hparse hrun
      ⟨trivial, trivial, trivial⟩
    refine ⟨pcrs, encode payload, false, text reason.text, hpcrs, rfl, hparse, ?_,
      agreement_response game _ _, ?_⟩
    · rw [hread]
      refine sent_finish_verdict h.formats ?_
      simp only [verdictOf, getItem_ofMembers]
      rfl
    · exact iff_of_false Bool.false_ne_true fun h' => by cases hnone.mpr h'

/-- Two minutes after noon. -/
def bootExpiry : DateTime :=
  { noon with
    minute := 2
    time_valid := ⟨noon.time_valid.1, Nat.le_of_ble_eq_true rfl, noon.time_valid.2.2⟩ }

/-- The tables of a server that has issued the nonce of the sample session. -/
def bootDatabase : Database :=
  (commit exec (.insertNonce bootCall.nonce bootExpiry.isoformat) .empty).2

theorem valid_bootDatabase : Valid bootDatabase := by
  have hop : Footprint lenientPlatform ⟨.challenge, { sampleEnv with token := bootCall.nonce }⟩
      (.insertNonce bootCall.nonce bootExpiry.isoformat) := ⟨rfl, rfl, bootExpiry, rfl⟩
  exact valid_commit hop valid_empty

theorem honest_client_boot : ∃ r attest pcrs body valid s, bootReport false = some r ∧
    readPcrs bootCall.pcrread = .ok pcrs ∧
    (handleClient sampleInterpreter sha256 "desktop" (bootConnection false attest) .empty).posted =
      [body] ∧
    sampleHttp.parseReport body = some (r.received pcrs) ∧
    (handleClient sampleInterpreter sha256 "desktop" (bootConnection false attest) .empty).sent =
      [responseBytes valid s] ∧
    Agreement sampleBridge valid (responseBytes valid s) ∧
    (valid = true ↔ ¬ bootExpiry < noon ∧
      Verifies lenientPlatform laxPolicy (r.received pcrs) bootDatabase) := by
  obtain ⟨r, hr⟩ := bootReport_made false
  obtain ⟨expiresAt, hexpires⟩ : ∃ expiresAt,
      sampleEnv.later.addSeconds (tokenLifetimeMinutes * 60) = .ok expiresAt := by
    have hok : (sampleEnv.later.addSeconds (tokenLifetimeMinutes * 60)).isOk = true := by decide +kernel
    cases hadd : sampleEnv.later.addSeconds (tokenLifetimeMinutes * 60) with
    | ok expiresAt => exact ⟨expiresAt, rfl⟩
    | error e =>
      rw [hadd] at hok
      cases hok
  have hsmooth (attest : Reply) : Smooth sampleInterpreter sha256 bootCall (bootConnection false attest)
      .empty bootCall.nonce (encode "\x7b\x7d") r := @smooth_boot false r hr attest
  obtain ⟨payload, cache, hdumps, hhandle⟩ := handleClient_smooth (hsmooth (.unreachable ""))
  -- what is posted does not depend on the reply
  refine ⟨r, sampleHttp.attestReply [] lenientPlatform laxPolicy sampleEnv bootDatabase (encode payload), ?_⟩
  obtain ⟨pcrs, body, valid, s, hsession⟩ := honest_client sampleHttp faithful_sampleHttp []
    sampleInterpreter _ floatsRead_sample sampleBridge sha256 lenientPlatform laxPolicy bootDatabase
    valid_bootDatabase bootCall.nonce bootExpiry rfl sampleEnv expiresAt hexpires bootCall _ .empty _ r
    (hsmooth _) (fits_bootReport hr) (by decide +kernel) (by decide) (by
      intro payload' hposted
      obtain ⟨payload'', cache', hdumps', hhandle'⟩ := handleClient_smooth (hsmooth
        (sampleHttp.attestReply [] lenientPlatform laxPolicy sampleEnv bootDatabase (encode payload)))
      rw [hdumps] at hdumps'
      obtain rfl := Option.some.inj hdumps'
      rw [hhandle', posted_finish] at hposted
      rw [List.mem_singleton.mp hposted]
      rfl)
  exact ⟨pcrs, body, valid, s, hr, hsession⟩

end TpmAttest
