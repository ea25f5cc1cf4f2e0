import TpmAttest.ClientSession

/-! # A client that is told valid

If any of the game's readers takes the shim's response for valid, then the report that the
shim collected on this connection, for the nonce that this connection was given, has been
accepted by the server, and no other request is accepted for this nonce (`told_valid`).
The requests of other clients may interleave in any way, the database may fail, the
framework may answer with pages of its own, and the client may have sent anything for a
handshake.
-/
namespace TpmAttest

open Python Transactional Program Shim

/-- The connection is that of a client whose daemon has collected its report as `call` says,
and whose two requests were those of the threads `i` and `j`. -/
structure Session {ι : Type} (http : Http) (py : Interpreter) (sha256 : Bytes → Digest)
    (arrivals : ι → Arrival) (c : Config Database ι Tx.Ret Exn Response) (call : AgentCall)
    (conn : Connection) (cache : ImaCache) (i j : ι) : Prop where
  readers : conn.readers = .ofReadings call.readings
  challenge : (arrivals i).request = .challenge
  given : http.Delivers (c.threads i) conn.challenge
  fits : ∀ r, (collectReportIncremental sha256 call.readings (arrivals i).env.token cache).1 =
    .ok r → r.Fits
  answered : ∀ payload ∈ (handleClient py sha256 call.machineId conn cache).posted,
    http.AnswersReport (arrivals j).request (c.threads j) payload conn.attest

/-- What stands behind a positive verdict on a connection that got its nonce from the thread
`i` and its verdict from the thread `j`. -/
structure Attested {ι : Type} (platform : Platform) (sha256 : Bytes → Digest) (arrivals : ι → Arrival)
    (tr : List (ServerEvent ι)) (c : Config Database ι Tx.Ret Exn Response) (i j : ι)
    (call : AgentCall) (cache : ImaCache) : Prop where
  /-- The thread `j` has answered that its report is valid. -/
  accepted : ∃ token expiresAt, c.threads j = .ret (.valid token expiresAt)
  /-- This report is the one that was collected for the nonce. -/
  report : ∃ r pcrs, (collectReportIncremental sha256 call.readings (arrivals i).env.token cache).1 =
    .ok r ∧ readPcrs call.pcrread = .ok pcrs ∧ (arrivals j).request = .attest (r.received pcrs)
  /-- The quote that the TPM made for it verifies with the key of a row of the machine. -/
  quote : ∃ run msg sig key row, call.quote (arrivals i).env.token = .ok run ∧ run.returncode = 0 ∧
    run.msg = .ok msg ∧ run.sig = .ok sig ∧ keyOf platform row = some key ∧
    platform.checkquote key msg sig (arrivals i).env.token = true ∧
    (call.machineId ≠ "" → ⟨j, .selectMachine call.machineId, .ok row⟩ ∈ tr) ∧
    (call.machineId = "" → row = none)
  /-- The thread `j` has consumed the nonce and got past the check, after the thread `i` had
  inserted it, and in time; and no other event of the run gets past the check with it. -/
  nonce : ∃ t₁ ev t₂ expiry, tr = t₁ ++ ev :: t₂ ∧ ev.thread = j ∧
    Accepts ev (arrivals i).env.token (arrivals j).env.now ∧
    (⟨i, .insertNonce (arrivals i).env.token expiry.isoformat, .ok ()⟩ : ServerEvent ι) ∈ t₁ ∧
    ¬ expiry < (arrivals j).env.now ∧ ∀ ev' ∈ t₁ ++ t₂, ∀ now, ¬ Accepts ev' (arrivals i).env.token now

section
variable {ι : Type} [DecidableEq ι] {platform : Platform} {policy : Policy} {db : Database}
  {arrivals : ι → Arrival} {faults : Exn → Prop} {tr t₁ t₂ : List (ServerEvent ι)}
  {c : Config Database ι Tx.Ret Exn Response} {ev : ServerEvent ι} {i : ι} {now : DateTime}

/-- An accepted token was inserted by its request before, and is not accepted again. -/
theorem accepted_once (hdb : ∀ nonce, db.activeNonces nonce = none) (hfresh : FreshTokens arrivals)
    (h : Run exec faults unguarded (start platform policy db arrivals) tr c)
    (htr : tr = t₁ ++ ev :: t₂) (hreq : (arrivals i).request = .challenge)
    (ha : Accepts ev (arrivals i).env.token now) :
    (∃ expiry, (⟨i, .insertNonce (arrivals i).env.token expiry.isoformat, .ok ()⟩ : ServerEvent ι) ∈ t₁ ∧
        ¬ expiry < now) ∧
      ∀ ev' ∈ t₁ ++ t₂, ∀ now', ¬ Accepts ev' (arrivals i).env.token now' := by
  obtain ⟨expiry, ⟨k, hk⟩, hexpiry⟩ := issued_of_accepts hdb hfresh h htr ha
  obtain ⟨hreq', htoken, -⟩ := footprint_of_run h _ (htr ▸ List.mem_append_left _ hk)
  obtain rfl := hfresh i k hreq hreq' htoken
  exact ⟨⟨expiry, hk, hexpiry⟩, accepted_unique hdb hfresh h htr ha⟩

end

/-- **What is behind a response**: a rejection, or a report that the server has accepted. -/
theorem Session.sent {ι : Type} [DecidableEq ι] {http : Http} {py : Interpreter}
    {sha256 : Bytes → Digest} {arrivals : ι → Arrival} {c : Config Database ι Tx.Ret Exn Response}
    {call : AgentCall} {conn : Connection} {cache : ImaCache} {i j : ι}
    (hsession : Session http py sha256 arrivals c call conn cache i j) (hhttp : http.Faithful)
    {floatBack : Decimal → FloatValue} (hfloats : FloatsRead py.floatRepr floatBack)
    {platform : Platform} {policy : Policy} {db : Database}
    (hdb : ∀ nonce, db.activeNonces nonce = none) (hfresh : FreshTokens arrivals)
    {tr : List (ServerEvent ι)}
    (h : Run exec databaseFaults unguarded (start platform policy db arrivals) tr c) {resp : Bytes}
    (hsent : resp ∈ (handleClient py sha256 call.machineId conn cache).sent) :
    (∃ s, IsResponse py resp false (.str s)) ∨
      ∃ s, IsResponse py resp true (.str s) ∧ Attested platform sha256 arrivals tr c i j call cache := by
  obtain ⟨hreaders, hchallenge, hgiven, hfits, hanswered⟩ := hsession
  rcases sent_cases hsent with ⟨reason, hresponse⟩ |
    ⟨nonce, handshake, report, items, payload, hposted, hresponse⟩
  · exact Or.inl ⟨_, hresponse⟩
  · have hanswers := hanswered (encode payload) (by rw [hposted.posted]; exact List.mem_singleton_self _)
    rcases verdict_of_answer (arrivals j).env hhttp hanswers
      (fun report hreq resp hret => isVerdict_of_run h hreq hret) hposted.reply with
      ⟨reason, hverdict⟩ | ⟨received, expiresAt, hparse, hrequest, hret, hverdict⟩
    · rw [hverdict] at hresponse
      exact Or.inl ⟨_, hresponse⟩
    · obtain ⟨-, rfl⟩ := token_of_getChallenge hhttp hgiven
        (fun resp hret => (challenge_of_run h hchallenge hret).1) hposted.challenge
      -- the report that was collected is the one that was received
      obtain ⟨r, hr, rfl⟩ := collected_of_posted hreaders hposted.collected
      obtain ⟨hnonce, hmachine, ⟨pcrs, hpcrs, hitems⟩, run, msg, sig, hrun, hcode, hmsg, hsig, hmsg64,
        hsig64⟩ := collected_parts hr
      obtain rfl : received = r.received pcrs := (parseReport_posted hhttp hfloats hitems
        (hfits r hr) hposted.fits hposted.dumps).1 received hparse
      rw [hverdict] at hresponse
      refine Or.inr ⟨_, hresponse, ⟨_, _, hret⟩, ⟨r, pcrs, hr, hpcrs, hrequest⟩, ?_, ?_⟩
      · -- the key that verified the quote
        obtain ⟨row, key, hkey, ⟨quoteMsg, quoteSig, msg', sig', hquoteMsg, hquoteSig, hdecodeMsg,
          hdecodeSig, hcheck⟩, hrow⟩ := signed_of_run h hrequest hret
        have hquoteMsg' := (truthy_eq_some.mp hquoteMsg).1
        have hquoteSig' := (truthy_eq_some.mp hquoteSig).1
        change some r.quoteMsgB64 = some quoteMsg at hquoteMsg'
        change some r.quoteSigB64 = some quoteSig at hquoteSig'
        rw [hmsg64, Option.some_inj] at hquoteMsg'
        rw [hsig64, Option.some_inj] at hquoteSig'
        rw [← hquoteMsg', b64decode_b64encode] at hdecodeMsg
        rw [← hquoteSig', b64decode_b64encode] at hdecodeSig
        obtain rfl := Except.ok.inj hdecodeMsg
        obtain rfl := Except.ok.inj hdecodeSig
        change platform.checkquote key msg sig r.nonce = true at hcheck
        rw [hnonce] at hcheck
        have hid : (r.received pcrs).machineId = some call.machineId := congrArg some hmachine
        rw [hid] at hrow
        refine ⟨run, msg, sig, key, row, hrun, hcode, hmsg, hsig, hkey, hcheck, ?_, ?_⟩
        · intro hne
          rwa [truthy_eq_some.mpr ⟨rfl, hne⟩] at hrow
        · intro hempty
          rw [hempty] at hrow
          exact hrow
      · -- the event that accepted the nonce
        obtain ⟨row, hmem, hverdict'⟩ := (verified_of_run h (congrArg Request.report hrequest) hret
          (Or.inl ⟨_, _, rfl⟩)).nonce
        change (⟨j, .consumeNonce r.nonce _, .ok row⟩ : ServerEvent ι) ∈ tr at hmem
        rw [hnonce] at hmem
        obtain ⟨t₁, t₂, htr⟩ := List.append_of_mem hmem
        have haccepts : Accepts (⟨j, .consumeNonce (arrivals i).env.token (arrivals j).env.now,
          .ok row⟩ : ServerEvent ι) (arrivals i).env.token (arrivals j).env.now :=
            ⟨j, row, rfl, hverdict'⟩
        obtain ⟨⟨expiry, hissued, hexpiry⟩, honce⟩ := accepted_once hdb hfresh h htr hchallenge haccepts
        exact ⟨t₁, _, t₂, expiry, htr, rfl, haccepts, hissued, hexpiry, honce⟩

/-- **A client that is told valid.** -/
theorem told_valid {ι : Type} [DecidableEq ι] (http : Http) (hhttp : http.Faithful) (py : Interpreter)
    (floatBack : Decimal → FloatValue) (hfloats : FloatsRead py.floatRepr floatBack) (game : Bridge)
    (sha256 : Bytes → Digest) (platform : Platform) (policy : Policy) (db : Database)
    (hdb : ∀ nonce, db.activeNonces nonce = none) (arrivals : ι → Arrival)
    (hfresh : FreshTokens arrivals) (tr : List (ServerEvent ι))
    (c : Config Database ι Tx.Ret Exn Response)
    (h : Run exec databaseFaults unguarded (start platform policy db arrivals) tr c)
    (call : AgentCall) (conn : Connection) (cache : ImaCache) (i j : ι)
    (hsession : Session http py sha256 arrivals c call conn cache i j)
    (resp : Bytes) (hsent : resp ∈ (handleClient py sha256 call.machineId conn cache).sent)
    (htaken : TakenForValid game resp) :
    Attested platform sha256 arrivals tr c i j call cache := by
  rcases hsession.sent hhttp hfloats hdb hfresh h hsent with ⟨s, hresponse⟩ | ⟨s, hresponse, hattested⟩
  · exact absurd (valid_of_taken (agreement_of_isResponse game hresponse) htaken) Bool.false_ne_true
  · exact hattested

/-- The report of a sample session, as the server reads it. -/
def bootReceived (second : Bool) : AttestationReport :=
  match bootReport second, readPcrs bootCall.pcrread with
  | some r, .ok pcrs => r.received pcrs
  | _, _ => sampleReport ""

/-- The requests of the two sample sessions: of each the challenge, and the report. -/
def bootRequests : Bool × Bool → Arrival
  | (second, false) => ⟨.challenge, { sampleEnv with token := bootNonce second }⟩
  | (second, true) => ⟨.attest (bootReceived second), sampleEnv⟩

/-- The reports are verified alternately. -/
def bootRun : List (ServerEvent (Bool × Bool)) ×
    Config Database (Bool × Bool) Tx.Ret Exn Response :=
  replay exec (start lenientPlatform laxPolicy .empty bootRequests)
    [(false, false), (true, false), (false, true), (true, true), (false, true), (true, true),
      (true, true), (false, true), (true, true), (false, true)]

/-- The answer to each report. -/
def bootAnswer : Response := .valid "token" "2024-06-01T12:05:00+00:00"

/-- A sample session, when the server answers so. -/
def answeredConnection (second : Bool) : Connection :=
  bootConnection second (.body (sampleHttp.render bootAnswer.content))

theorem freshTokens_boot : FreshTokens bootRequests := by
  rintro ⟨second, attests⟩ ⟨second', attests'⟩ hi hj htoken
  cases attests
  · cases attests'
    · have hinjective : ∀ s s', bootNonce s = bootNonce s' → s = s' := by decide
      rw [hinjective second second' htoken]
    · cases hj
  · cases hi

theorem given_boot (second : Bool) :
    sampleHttp.Delivers (bootRun.2.threads (second, false)) (answeredConnection second).challenge :=
  ⟨.challenge (bootNonce second) challengeLifetimeSeconds,
    returned_eq_some.mp (by revert second; decide +kernel), rfl, rfl⟩

theorem accepted_boot (second : Bool) : bootRun.2.threads (second, true) = .ret bootAnswer :=
  returned_eq_some.mp (by revert second; decide +kernel)

theorem fits_boot (second : Bool) (r : ShimReport) (h : (collectReportIncremental sha256
    bootCall.readings (bootRequests (second, false)).env.token (bootCache second)).1 = .ok r) : r.Fits :=
  @fits_bootReport second r (by rw [bootReport]; exact congrArg Except.toOption h)

theorem answers_boot (second : Bool) : ∀ payload ∈ (handleClient sampleInterpreter sha256
    bootCall.machineId (answeredConnection second) (bootCache second)).posted,
      sampleHttp.AnswersReport (bootRequests (second, true)).request (bootRun.2.threads (second, true))
        payload (answeredConnection second).attest := by
  intro payload hposted
  obtain ⟨r, hr⟩ := bootReport_made second
  have hsmooth : Smooth sampleInterpreter sha256 bootCall (answeredConnection second)
      (bootCache second) (bootNonce second) _ r := smooth_boot hr _
  obtain ⟨-, -, ⟨pcrs, hpcrs, hitems⟩, -⟩ := collected_parts hsmooth.collected
  obtain ⟨payload', cache, hdumps, hhandle⟩ := handleClient_smooth hsmooth
  rw [hhandle, posted_finish] at hposted
  rw [List.mem_singleton.mp hposted]
  have hhandshake : (handshakeOf sampleInterpreter (decodeReplace (encode "\x7b\x7d"))).Fits :=
    fits_handshake (parseHandshake_of_readable sampleInterpreter hsmooth.handshake)
  have hparse := (parseReport_posted faithful_sampleHttp floatsRead_sample hitems (fits_bootReport hr)
    hhandshake hdumps).2 (by decide +kernel)
  unfold Http.AnswersReport
  rw [hparse]
  refine ⟨?_, bootAnswer, accepted_boot second, rfl, rfl⟩
  show Request.attest (bootReceived second) = _
  rw [bootReceived, hr, hpcrs]

theorem session_boot (second : Bool) : Session sampleHttp sampleInterpreter sha256 bootRequests
    bootRun.2 bootCall (answeredConnection second) (bootCache second) (second, false) (second, true) where
  readers := rfl
  challenge := rfl
  given := given_boot second
  fits := fits_boot second
  answered := answers_boot second

theorem sent_boot (second : Bool) : responseBytes true (text "token") ∈ (handleClient
    sampleInterpreter sha256 bootCall.machineId (answeredConnection second) (bootCache second)).sent := by
  obtain ⟨r, hr⟩ := bootReport_made second
  obtain ⟨payload, cache, -, hhandle⟩ :=
    handleClient_smooth (smooth_boot hr (answeredConnection second).attest)
  have hread : readReply sampleInterpreter (answeredConnection second).attest = .ok bootAnswer.content :=
    readReply_of_ok sampleInterpreter (faithful_sampleHttp.render bootAnswer 900
      ⟨trivial, trivial, trivial, trivial⟩ (by decide))
  have hverdict : verdictOf (bootAnswer.members.map fun p => (text p.1, p.2)) =
      (true, .str (text "token")) := by
    simp only [verdictOf, getItem_ofMembers]
    rfl
  have hsent := @sent_finish_verdict sampleInterpreter cache [encode payload] _ _ _
    (fun _ _ => rfl) hverdict
  change handleClient sampleInterpreter sha256 bootCall.machineId (answeredConnection second)
    (bootCache second) = _ at hhandle
  rw [hhandle]
  change _ ∈ (finish sampleInterpreter false cache [encode payload]
    (readReply sampleInterpreter (answeredConnection second).attest)).sent
  rw [hread]
  exact hsent ▸ List.mem_singleton_self _

theorem told_valid_boot : Attested lenientPlatform sha256 bootRequests bootRun.1 bootRun.2 (false, false)
    (false, true) bootCall .empty :=
  told_valid sampleHttp faithful_sampleHttp sampleInterpreter _ floatsRead_sample sampleBridge
    sha256 lenientPlatform laxPolicy .empty (fun _ => rfl) bootRequests freshTokens_boot bootRun.1
    bootRun.2 ((replay_run exec _ _).faulty databaseFaults) bootCall (answeredConnection false) .empty
    (false, false) (false, true) (session_boot false) (responseBytes true (text "token"))
    (sent_boot false) (Or.inr (Or.inl (responseIsValid_response true _)))

end TpmAttest
