import TpmAttest.AgentReport
import TpmAttest.ReportTransport
import TpmAttest.QuoteKeys
import TpmAttest.VerdictAgreement

/-! # A session of a game client

From the game's socket to the server's requests: what has to have happened before the shim
sends a response, what the server's two endpoints answer, and which response the game's
readers take for valid.
-/
namespace TpmAttest

open Python Transactional Program Shim

/-! ## What the shim has done -/

section
variable {py : Interpreter} {sha256 : Bytes → Digest} {machineId : String} {conn : Connection}
  {cache : ImaCache} {resp : Bytes}

theorem fits_handshake {raw : Text} {handshake : Json}
    (h : parseHandshake py raw = .ok handshake) : handshake.Fits := by
  have hok : handshake = handshakeOf py raw := by
    by_cases hreadable : ReadableHandshake py raw
    · rw [parseHandshake_of_readable py hreadable] at h
      exact (Except.ok.inj h).symm
    · obtain ⟨e, he⟩ := parseHandshake_of_not_readable py hreadable
      rw [he] at h
      cases h
  rw [hok, handshakeOf]
  unfold loadsText
  by_cases hbom : raw.head? = some (codePoint 0xfeff)
  · rw [if_pos hbom]
    trivial
  · rw [if_neg hbom]
    cases hread : decodeJson (py.loadsLimit .handshake) raw with
    | ok value => exact (writable_of_decodeJson hread).1
    | error e => trivial

/-- A report that is made was collected. -/
theorem collected_of_generateReport {readers : Readers} {nonce : Json} {cache' : ImaCache}
    {report : List (Text × Json)}
    (h : Shim.generateReport py sha256 machineId readers nonce cache = (.ok report, cache')) :
    (readers.collectReport sha256 machineId nonce cache).1 = .ok report := by
  unfold Shim.generateReport at h
  cases hlog : first16 nonce >>= fun head => py.log .collecting [head] with
  | error e =>
    rw [hlog] at h
    cases h
  | ok u =>
    rw [hlog] at h
    rcases hcollect : readers.collectReport sha256 machineId nonce cache with ⟨e | items, cache''⟩
    · rw [hcollect] at h
      cases h
    · rw [hcollect] at h
      dsimp only at h
      rcases log_eq py .collected [nonce] with ⟨-, hlog'⟩ | ⟨-, hlog'⟩
      · rw [hlog'] at h
        exact congrArg Except.ok (Except.ok.inj (congrArg Prod.fst h))
      · rw [hlog'] at h
        cases congrArg Prod.fst h

/-- The handler got as far as the server's answer. -/
structure Posted (py : Interpreter) (sha256 : Bytes → Digest) (machineId : String)
    (conn : Connection) (cache : ImaCache) (nonce handshake : Json) (report items : List (Text × Json))
    (payload : String) : Prop where
  fits : handshake.Fits
  challenge : getChallenge py conn.challenge = .ok nonce
  collected : (conn.readers.collectReport sha256 machineId nonce cache).1 = .ok report
  dumps : dumps py.floatRepr py.reportLimit
    (.dict (report ++ [(text "eac_handshake", handshake)])) = some payload
  posted : (handleClient py sha256 machineId conn cache).posted = [encode payload]
  reply : readReply py conn.attest = .ok (.dict items)

theorem posted_respond {sendFails : Bool} {posted : List Bytes} {payload : Json} :
    (respond py sendFails cache posted payload).posted = posted := by
  unfold respond
  cases dumps py.floatRepr py.responseLimit payload <;> rfl

theorem posted_finish {sendFails : Bool} {posted : List Bytes} {posting : Except PyExn Json} :
    (finish py sendFails cache posted posting).posted = posted := by
  unfold finish
  cases posting >>= fun result => do py.log .result [result]; return result with
  | error e =>
    by_cases he : e.isRuntimeError = true
    · dsimp only
      rw [if_pos he]
      exact posted_respond
    · dsimp only
      rw [if_neg he]
      rfl
  | ok result =>
    dsimp only
    cases chooseResponse py result with
    | error e => rfl
    | ok verdict => exact posted_respond

/-- The last stage, from the server's answer on. -/
theorem sent_finish_dict {sendFails : Bool} {posted : List Bytes} {posting : Except PyExn Json}
    (h : resp ∈ (finish py sendFails cache posted posting).sent) :
    (∃ reason, IsResponse py resp false (.str (text reason))) ∨
      ∃ items, posting = .ok (.dict items) ∧
        IsResponse py resp (verdictOf items).1 (verdictOf items).2 := by
  have hrefused : ∀ e reason, resp ∈ (if PyExn.isRuntimeError e then
      refuse py sendFails cache posted reason else escape e cache posted).sent →
      ∃ reason, IsResponse py resp false (.str (text reason)) := by
    intro e reason h
    by_cases he : e.isRuntimeError = true
    · rw [if_pos he] at h
      exact ⟨reason, sent_respond h⟩
    · rw [if_neg he] at h
      cases h
  unfold finish at h
  cases posting with
  | error e => exact Or.inl (hrefused e _ h)
  | ok result =>
    dsimp only [Bind.bind, Except.bind] at h
    rcases log_eq py .result [result] with ⟨-, hlog⟩ | ⟨-, hlog⟩
    · rw [hlog] at h
      dsimp only [Pure.pure, Except.pure] at h
      cases result with
      | dict items =>
        right
        refine ⟨items, rfl, ?_⟩
        dsimp only [chooseResponse, Shim.verdict, Bind.bind, Except.bind] at h
        rcases log_eq py (if (verdictOf items).1 then .token else .reason) [(verdictOf items).2] with
          ⟨-, hlog'⟩ | ⟨-, hlog'⟩
        · rw [hlog'] at h
          exact sent_respond h
        · rw [hlog'] at h
          cases h
      | _ => cases h
    · rw [hlog] at h
      exact Or.inl (hrefused .recursionError _ h)

/-- **What is behind a response**: the shim's own refusal, or the server's answer. -/
theorem sent_cases (h : resp ∈ (handleClient py sha256 machineId conn cache).sent) :
    (∃ reason, IsResponse py resp false (.str (text reason))) ∨
      ∃ nonce handshake report items payload,
        Posted py sha256 machineId conn cache nonce handshake report items payload ∧
          IsResponse py resp (verdictOf items).1 (verdictOf items).2 := by
  have hrefused : ∀ (catches : Bool) e cache reason, resp ∈ (if catches then
      refuse py conn.sendFails cache [] reason else escape e cache []).sent →
      ∃ reason, IsResponse py resp false (.str (text reason)) := by
    intro catches e cache reason h
    cases catches with
    | true => exact ⟨reason, sent_respond h⟩
    | false => cases h
  cases hreceived : conn.received with
  | none =>
    unfold handleClient at h
    rw [hreceived] at h
    cases h
  | some received =>
    cases hhandshake : parseHandshake py (decodeReplace received) with
    | error e =>
      unfold handleClient at h
      rw [hreceived] at h
      dsimp only at h
      rw [hhandshake] at h
      cases h
    | ok handshake =>
      cases hnonce : getChallenge py conn.challenge with
      | error e =>
        unfold handleClient at h
        rw [hreceived] at h
        dsimp only at h
        rw [hhandshake, hnonce] at h
        exact Or.inl (hrefused _ e _ _ h)
      | ok nonce =>
        have hhandle : handleClient py sha256 machineId conn cache =
            serveNonce py sha256 machineId conn handshake nonce cache := by
          unfold handleClient
          rw [hreceived]
          dsimp only
          rw [hhandshake, hnonce]
        have hserve := hhandle
        unfold serveNonce at hserve
        rcases hreport : Shim.generateReport py sha256 machineId conn.readers nonce cache with
          ⟨e | report, cache'⟩
        · rw [hreport] at hserve
          rw [hserve] at h
          exact Or.inl (hrefused _ e _ _ h)
        · rw [hreport] at hserve
          dsimp only at hserve
          rw [hserve] at h
          rcases sent_finish_dict h with hown | ⟨items, hposting, hresponse⟩
          · exact Or.inl hown
          · right
            unfold postReport at hposting hserve
            cases hdumps : dumps py.floatRepr py.reportLimit
                (.dict (report ++ [(text "eac_handshake", handshake)])) with
            | none =>
              rw [hdumps] at hposting
              cases hposting
            | some payload =>
              rw [hdumps] at hposting hserve
              refine ⟨nonce, handshake, report, items, payload,
                ⟨fits_handshake hhandshake, hnonce, ?_, hdumps, ?_, hposting⟩, hresponse⟩
              · exact collected_of_generateReport hreport
              · rw [hserve]
                exact posted_finish

end

/-! ## What was collected -/

section
variable {sha256 : Bytes → Digest} {call : AgentCall} {cache : ImaCache} {token : String}

theorem runTpmQuote_ok {quote : String → Except Exn QuoteRun} {blobs : String × String}
    (h : runTpmQuote quote token = .ok blobs) :
    ∃ run msg sig, quote token = .ok run ∧ run.returncode = 0 ∧ run.msg = .ok msg ∧
      run.sig = .ok sig ∧ blobs = (b64encode msg, b64encode sig) := by
  unfold runTpmQuote at h
  cases hrun : quote token with
  | error e =>
    rw [hrun] at h
    cases h
  | ok run =>
    rw [hrun] at h
    by_cases hcode : run.returncode = 0
    · dsimp only [Bind.bind, Except.bind] at h
      rw [if_neg (not_not.mpr hcode)] at h
      cases hmsg : run.msg with
      | error e =>
        rw [hmsg] at h
        cases h
      | ok msg =>
        cases hsig : run.sig with
        | error e =>
          rw [hmsg, hsig] at h
          cases h
        | ok sig =>
          rw [hmsg, hsig] at h
          exact ⟨run, msg, sig, rfl, hcode, hmsg, hsig, (Except.ok.inj h).symm⟩
    · dsimp only [Bind.bind, Except.bind] at h
      rw [if_pos hcode] at h
      cases h

/-- What a collected report is made of. -/
theorem collected_parts {r : ShimReport}
    (h : (collectReportIncremental sha256 call.readings token cache).1 = .ok r) :
    r.nonce = token ∧ r.machineId = call.machineId ∧
      (∃ pcrs, readPcrs call.pcrread = .ok pcrs ∧ r.pcrs = pcrs.items) ∧
      ∃ run msg sig, call.quote token = .ok run ∧ run.returncode = 0 ∧ run.msg = .ok msg ∧
        run.sig = .ok sig ∧ r.quoteMsgB64 = b64encode msg ∧ r.quoteSigB64 = b64encode sig := by
  have hcall := @collectReportIncremental_eq sha256 { call with nonce := token } cache
  change collectReportIncremental sha256 call.readings token cache = _ at hcall
  rw [hcall] at h
  have hreads : AgentCall.readings { call with nonce := token } = call.readings := rfl
  rw [hreads] at h
  have hpcrs : call.readings.pcrs = (readPcrs call.pcrread).map (·.items) := rfl
  rw [hpcrs] at h
  cases hread : readPcrs call.pcrread with
  | error e =>
    rw [hread] at h
    cases h
  | ok pcrs =>
    rw [hread] at h
    cases hsummary : readImaSummary call.summaryLog with
    | error e =>
      rw [hsummary] at h
      cases h
    | ok imaSummary =>
      rw [hsummary] at h
      dsimp only [Except.map] at h
      cases htree : (updateTree sha256 call.countLog call.entriesLog cache).1 with
      | error e =>
        rw [htree] at h
        cases h
      | ok tree =>
        rw [htree] at h
        change (runTpmQuote call.quote token).map _ = _ at h
        cases hquote : runTpmQuote call.quote token with
        | error e =>
          rw [hquote] at h
          cases h
        | ok blobs =>
          rw [hquote] at h
          obtain rfl := Except.ok.inj h
          obtain ⟨run, msg, sig, hrun, hcode, hmsg, hsig, rfl⟩ := runTpmQuote_ok hquote
          exact ⟨rfl, rfl, ⟨pcrs, rfl, rfl⟩, run, msg, sig, hrun, hcode, hmsg, hsig, rfl, rfl⟩

/-- What the shim posts for a nonce is what it has collected. -/
theorem collected_of_posted {readers : Readers} {report : List (Text × Json)}
    (hreaders : readers = .ofReadings call.readings)
    (h : (readers.collectReport sha256 call.machineId (.str (text token)) cache).1 = .ok report) :
    ∃ r, (collectReportIncremental sha256 call.readings token cache).1 = .ok r ∧
      report = reportItems r (.str (text r.nonce)) := by
  have hcollect := Readers.collectReport_ofReadings sha256 call.readings token cache
  change (Readers.ofReadings call.readings).collectReport sha256 call.machineId _ cache = _ at hcollect
  rw [hreaders, hcollect] at h
  dsimp only at h
  cases hr : (collectReportIncremental sha256 call.readings token cache).1 with
  | error e =>
    rw [hr] at h
    cases h
  | ok r =>
    rw [hr] at h
    exact ⟨r, rfl, (Except.ok.inj h).symm⟩

end

/-! ## What the server answers -/

section
variable {platform : Platform} {policy : Policy} {env : Env} {G : (op : Tx) → Except Exn op.Ret → Prop}

theorem challenge_answers : (challenge env).Ensures G (fun _ => True)
    (fun resp => resp = .challenge env.token challengeLifetimeSeconds ∧
      ∃ expiry : DateTime, G (.insertNonce env.token expiry.isoformat) (.ok ())) fun _ => True := by
  have hissue : (issueNonce env).Ensures G (fun _ => True)
      (fun nonce => nonce = env.token ∧
        ∃ expiry : DateTime, G (.insertNonce env.token expiry.isoformat) (.ok ())) fun _ => True := by
    refine (ensures_ofExcept (Q := fun _ => True) (fun _ _ => trivial) fun _ _ => trivial).bind
      fun expiry _ => ?_
    exact (ensures_perform (Q := fun r => G (.insertNonce env.token expiry.isoformat) (.ok r)) trivial
      (fun _ h => h) fun _ _ => trivial).bind fun _ h => ⟨rfl, expiry, h⟩
  refine hissue.bind fun nonce hnonce => ?_
  obtain ⟨rfl, hinserted⟩ := hnonce
  exact ⟨rfl, hinserted⟩

/-- The responses of `/attest`. -/
def IsVerdict (env : Env) (resp : Response) : Prop :=
  (∃ expiresAt, resp = .valid env.uuid expiresAt) ∨ ∃ reason, resp = .invalid reason

theorem attest_answers (report : AttestationReport) : (attest platform policy report env).Ensures G
    (fun _ => True) (IsVerdict env) fun _ => True := by
  refine (ensures_true (verifyReport platform policy report env)).bind fun failure _ => ?_
  cases failure with
  | some reason => exact Or.inr ⟨reason, rfl⟩
  | none => exact (ensures_true (ofExcept _)).bind fun expiresAt _ => Or.inl ⟨_, rfl⟩

variable {ι : Type} [DecidableEq ι] {db : Database} {arrivals : ι → Arrival} {faults : Exn → Prop}
  {guard : Guard Database ι Tx.Ret Exn Response} {tr : List (ServerEvent ι)}
  {c : Config Database ι Tx.Ret Exn Response} {i : ι} {resp : Response}

theorem challenge_of_run (h : Run exec faults guard (start platform policy db arrivals) tr c)
    (hreq : (arrivals i).request = .challenge) (hret : c.threads i = .ret resp) :
    resp = .challenge (arrivals i).env.token challengeLifetimeSeconds ∧
      ∃ expiry : DateTime,
        (⟨i, .insertNonce (arrivals i).env.token expiry.isoformat, .ok ()⟩ : ServerEvent ι) ∈ tr := by
  have hpath := h.path i
  rw [hret] at hpath
  have hstart : (start platform policy db arrivals).threads i = challenge (arrivals i).env := by
    show serve platform policy (arrivals i).env (arrivals i).request = _
    rw [hreq]
    rfl
  rw [hstart] at hpath
  exact (hpath.ensures (challenge_answers (G := fun op r => (⟨i, op, r⟩ : ServerEvent ι) ∈ tr))
    fun o ho => mem_history.mp ho).2

theorem isVerdict_of_run (h : Run exec faults guard (start platform policy db arrivals) tr c)
    {report : AttestationReport} (hreq : (arrivals i).request = .attest report)
    (hret : c.threads i = .ret resp) : IsVerdict (arrivals i).env resp := by
  have hpath := h.path i
  rw [hret] at hpath
  have hstart : (start platform policy db arrivals).threads i =
      attest platform policy report (arrivals i).env := by
    show serve platform policy (arrivals i).env (arrivals i).request = _
    rw [hreq]
    rfl
  rw [hstart] at hpath
  exact (hpath.ensures (attest_answers (G := fun _ _ => True) report) fun _ _ => trivial).2

end

/-! ## What the shim is told -/

section
variable {http : Http} {r : Response} {limit : Nat} {value : Json}

/-- The content of a response is read back, whatever the limit. -/
theorem loads_render (hhttp : http.Faithful) (hfits : r.content.Fits)
    (h : loads limit (http.render r.content) = .ok value) : value = r.content := by
  have hread := hhttp.render r (limit + 1) hfits (Nat.succ_pos limit)
  rw [loads_le (Nat.le_succ limit) h] at hread
  exact Except.ok.inj hread

/-- How the body that the shim posts is answered: by the request that it becomes, or by the
framework. -/
def Http.AnswersReport (http : Http) (request : Request) (p : ServerM Response) (payload : Bytes)
    (reply : Reply) : Prop :=
  match http.parseReport payload with
  | some report => request = .attest report ∧ http.Delivers p reply
  | none => (∃ code reason b, reply = .httpError code reason b ∧ http.errorPage b) ∨
      (∃ reason, reply = .unreachable reason) ∨ reply = .failed

theorem fits_challenge (nonce : String) :
    (Response.challenge nonce challengeLifetimeSeconds).content.Fits := by
  refine ⟨trivial, ?_, trivial⟩
  show (Nat.toDigits 10 challengeLifetimeSeconds).length ≤ 4300
  decide

theorem nonceOf_of_getChallenge {py : Interpreter} {reply : Reply} {nonce : Json}
    (h : getChallenge py reply = .ok nonce) : nonceOf py reply = some nonce := by
  rcases getChallenge_cases py reply with ⟨nonce', hrun, haccepted, -⟩ | ⟨⟨e, hrun, -⟩, -⟩ |
    ⟨⟨e, hrun, -⟩, -⟩
  · rw [h] at hrun
    obtain rfl := Except.ok.inj hrun
    exact haccepted.1
  · rw [h] at hrun
    cases hrun
  · rw [h] at hrun
    cases hrun

/-- A nonce that the shim accepts is the token of the request that gave it. -/
theorem token_of_getChallenge {py : Interpreter} {reply : Reply} {nonce : Json} {token : String}
    {p : ServerM Response} (hhttp : http.Faithful) (hdelivers : http.Delivers p reply)
    (hp : ∀ resp, p = .ret resp → resp = .challenge token challengeLifetimeSeconds)
    (h : getChallenge py reply = .ok nonce) :
    p = .ret (.challenge token challengeLifetimeSeconds) ∧ nonce = .str (text token) := by
  cases reply with
  | body b =>
    obtain ⟨resp, hret, -, rfl⟩ := hdelivers
    obtain rfl := hp resp hret
    refine ⟨hret, ?_⟩
    have haccepted := (nonceOf_of_getChallenge h)
    unfold nonceOf at haccepted
    dsimp only at haccepted
    cases hread : loads (py.loadsLimit .challenge)
        (http.render (Response.challenge token challengeLifetimeSeconds).content) with
    | error e =>
      rw [hread] at haccepted
      cases haccepted
    | ok data =>
      rw [hread, loads_render hhttp (fits_challenge token) hread] at haccepted
      have hnonce : (Response.challenge token challengeLifetimeSeconds).members.lookup "nonce" =
          some (.str (text token)) := rfl
      change some ((getItem "nonce" (List.map _ (Response.members _))).getD .null) = _ at haccepted
      rw [getItem_ofMembers, hnonce] at haccepted
      exact (Option.some.inj haccepted).symm
  | httpError code reason b => cases h
  | unreachable reason => cases h
  | failed => cases h

/-- The verdict that the shim reads from the answer to its report. -/
theorem verdict_of_answer {py : Interpreter} {reply : Reply} {items : List (Text × Json)}
    {request : Request} {p : ServerM Response} {payload : Bytes} (env : Env) (hhttp : http.Faithful)
    (hanswers : http.AnswersReport request p payload reply)
    (hp : ∀ report, request = .attest report → ∀ resp, p = .ret resp → IsVerdict env resp)
    (h : readReply py reply = .ok (.dict items)) :
    (∃ reason, verdictOf items = (false, .str (text reason))) ∨
      ∃ report expiresAt, http.parseReport payload = some report ∧ request = .attest report ∧
        p = .ret (.valid env.uuid expiresAt) ∧ verdictOf items = (true, .str (text env.uuid)) := by
  obtain ⟨b, hb, hread⟩ := readReply_eq_ok py h
  -- a page of the framework
  have hpage : http.errorPage b → ∃ reason, verdictOf items = (false, .str (text reason)) := by
    intro hpage
    obtain ⟨hvalid, hreason⟩ := hhttp.errorPage b _ items hpage hread
    refine ⟨"attestation failed", ?_⟩
    unfold verdictOf
    rw [hvalid, hreason]
    rfl
  have hcontent : ∀ report resp, http.parseReport payload = some report → request = .attest report →
      p = .ret resp → b = http.render resp.content →
      (∃ reason, verdictOf items = (false, .str (text reason))) ∨
        ∃ report expiresAt, http.parseReport payload = some report ∧ request = .attest report ∧
          p = .ret (.valid env.uuid expiresAt) ∧ verdictOf items = (true, .str (text env.uuid)) := by
    rintro report resp hparse hrequest hret rfl
    rcases hp report hrequest resp hret with ⟨expiresAt, rfl⟩ | ⟨reason, rfl⟩
    · have hitems := loads_render hhttp (r := .valid env.uuid expiresAt)
        ⟨trivial, trivial, trivial, trivial⟩ hread
      obtain rfl := Json.dict.inj hitems
      refine Or.inr ⟨report, expiresAt, hparse, hrequest, hret, ?_⟩
      simp only [verdictOf, getItem_ofMembers]
      rfl
    · have hitems := loads_render hhttp (r := .invalid reason) ⟨trivial, trivial, trivial⟩ hread
      obtain rfl := Json.dict.inj hitems
      refine Or.inl ⟨reason.text, ?_⟩
      simp only [verdictOf, getItem_ofMembers]
      rfl
  unfold Http.AnswersReport at hanswers
  cases hparse : http.parseReport payload with
  | none =>
    rw [hparse] at hanswers
    rcases hanswers with ⟨code, reason, b', rfl, herror⟩ | ⟨reason, rfl⟩ | rfl
    · rcases hb with hb | ⟨code', reason', hb⟩
      · cases hb
      · obtain ⟨-, -, rfl⟩ := Reply.httpError.inj hb
        exact Or.inl (hpage herror)
    · cases h
    · cases h
  | some report =>
    rw [hparse] at hanswers
    obtain ⟨hrequest, hdelivers⟩ := hanswers
    rw [hparse] at hcontent
    rcases hb with rfl | ⟨code, reason, rfl⟩
    · obtain ⟨resp, hret, -, hbody⟩ := hdelivers
      exact hcontent report resp rfl hrequest hret hbody
    · rcases hdelivers with ⟨resp, hret, -, hbody⟩ | herror
      · exact hcontent report resp rfl hrequest hret hbody
      · exact Or.inl (hpage herror)

end

/-! ## The readers of the response -/

/-- One of the game's readers takes the bytes for a response that says valid: the hook, from
any part that it has received, the mock client, or the bridge. -/
def TakenForValid (game : Bridge) (resp : Bytes) : Prop :=
  (∃ n, EacHook.parseJsonBool (resp.take n) (JsonGrammar.bytes "valid") = true) ∨
    responseIsValid resp = true ∨
    ∃ valid, (game.beginAttestation resp).map (·.1) = .ok valid ∧ valid.truthy = true

theorem isResponse_eq {py : Interpreter} {resp : Bytes} {valid : Bool} {s : Text}
    (h : IsResponse py resp valid (.str s)) : resp = responseBytes valid s := by
  obtain ⟨data, hdata, rfl⟩ := h
  unfold dumps at hdata
  obtain ⟨-, hdata⟩ := Option.ite_none_right_eq_some.mp hdata
  rw [← Option.some.inj hdata, encode_response]

theorem agreement_of_isResponse {py : Interpreter} {resp : Bytes} {valid : Bool} {s : Text}
    (game : Bridge) (h : IsResponse py resp valid (.str s)) : Agreement game valid resp := by
  rw [isResponse_eq h]
  exact agreement_response game valid s

theorem valid_of_taken {game : Bridge} {resp : Bytes} {valid : Bool} (h : Agreement game valid resp)
    (htaken : TakenForValid game resp) : valid = true := by
  rcases htaken with ⟨n, hhook⟩ | hmock | ⟨value, hbridge, htruthy⟩
  · rcases Nat.eq_zero_or_pos n with rfl | hn
    · rw [List.take_zero] at hhook
      exact absurd hhook (by decide)
    · exact h.safe n hn hhook
  · rw [← h.mock, hmock]
  · rw [h.bridge] at hbridge
    obtain rfl := Except.ok.inj hbridge
    exact htruthy

/-! ## A session in which the shim succeeds -/

/-- The shim gets a nonce and makes a report, and nothing that it logs is nested too deep. -/
structure Smooth (py : Interpreter) (sha256 : Bytes → Digest) (call : AgentCall) (conn : Connection)
    (cache : ImaCache) (token : String) (received : Bytes) (r : ShimReport) : Prop where
  receives : conn.received = some received
  sends : conn.sendFails = false
  readers : conn.readers = .ofReadings call.readings
  formats : ∀ site args, py.formats site args = true
  handshake : ReadableHandshake py (decodeReplace received)
  nesting : (handshakeOf py (decodeReplace received)).nesting < py.reportLimit
  challenge : getChallenge py conn.challenge = .ok (.str (text token))
  collected : (collectReportIncremental sha256 call.readings token cache).1 = .ok r

section
variable {py : Interpreter} {sha256 : Bytes → Digest} {call : AgentCall} {conn : Connection}
  {cache : ImaCache} {token : String} {received : Bytes} {r : ShimReport}

/-- The shim accepts a token of 64 characters. -/
theorem getChallenge_token {http : Http} (hhttp : http.Faithful) (htoken : token.length = 64)
    (hlimit : 0 < py.loadsLimit .challenge) (hformats : ∀ site args, py.formats site args = true) :
    getChallenge py (.body (http.render (Response.challenge token challengeLifetimeSeconds).content)) =
      .ok (.str (text token)) := by
  have hread := hhttp.render (.challenge token challengeLifetimeSeconds) _ (fits_challenge token) hlimit
  have hlen : len (.str (text token)) = .ok 64 := by
    show Except.ok (text token).length = _
    rw [text, List.length_map, String.length_toList, htoken]
  have hnonce : (Response.challenge token challengeLifetimeSeconds).members.lookup "nonce" =
      some (.str (text token)) := rfl
  have hcheck : checkNonce py (.str (text token)) = .ok (.str (text token)) := by
    rcases checkNonce_of_first16 py hlen rfl with ⟨h, -⟩ | ⟨-, hno⟩
    · exact h
    · exact absurd ⟨hlen, _, rfl, hformats _ _⟩ hno
  have hget : (getItem "nonce" ((Response.challenge token challengeLifetimeSeconds).members.map
      fun p => (text p.1, p.2))).getD .null = .str (text token) := by
    rw [getItem_ofMembers, hnonce]
    rfl
  unfold getChallenge
  dsimp only [Interpreter.loadsAt]
  rw [hread]
  show checkNonce py ((getItem "nonce" ((Response.challenge token challengeLifetimeSeconds).members.map
      fun p => (text p.1, p.2))).getD .null) = _
  rw [hget, hcheck]

/-- **The report is posted**, and what is left is the server's answer. -/
theorem handleClient_smooth (h : Smooth py sha256 call conn cache token received r) :
    ∃ payload cache', dumps py.floatRepr py.reportLimit
        (.dict (postedItems r (handshakeOf py (decodeReplace received)))) = some payload ∧
      handleClient py sha256 call.machineId conn cache =
        finish py false cache' [encode payload] (readReply py conn.attest) := by
  have hcollect := Readers.collectReport_ofReadings sha256 call.readings token cache
  change (Readers.ofReadings call.readings).collectReport sha256 call.machineId _ cache = _ at hcollect
  rw [h.collected] at hcollect
  have hlog : ∀ site args, py.log site args = .ok () := fun site args => if_pos (h.formats site args)
  have hgenerate : Shim.generateReport py sha256 call.machineId conn.readers (.str (text token)) cache =
      (.ok (reportItems r (.str (text r.nonce))),
        (collectReportIncremental sha256 call.readings token cache).2) := by
    unfold Shim.generateReport
    rw [h.readers]
    dsimp only [first16, Bind.bind, Except.bind]
    rw [hlog, hcollect]
    dsimp only [Except.mapError, Except.map]
    rw [hlog]
  have hnesting := nesting_report r (text r.nonce) (handshakeOf py (decodeReplace received))
  have hlimit : (Json.dict (postedItems r (handshakeOf py (decodeReplace received)))).nesting ≤
      py.reportLimit := by
    rw [postedItems, hnesting]
    have htwo := py.two_le_reportLimit
    have hdepth := h.nesting
    omega
  obtain ⟨payload, hdumps⟩ : ∃ payload, dumps py.floatRepr py.reportLimit
      (.dict (postedItems r (handshakeOf py (decodeReplace received)))) = some payload :=
    ⟨_, if_pos hlimit⟩
  refine ⟨payload, (collectReportIncremental sha256 call.readings token cache).2, hdumps, ?_⟩
  unfold handleClient
  rw [h.receives]
  dsimp only
  rw [parseHandshake_of_readable py h.handshake, h.challenge]
  show serveNonce py sha256 call.machineId conn _ (.str (text token)) cache = _
  unfold serveNonce
  rw [hgenerate]
  dsimp only [postReport]
  rw [show reportItems r (.str (text r.nonce)) ++ [(text "eac_handshake",
    handshakeOf py (decodeReplace received))] = postedItems r _ from rfl, hdumps, h.sends]

/-- The verdict is passed on. -/
theorem sent_finish_verdict {posted : List Bytes} {items : List (Text × Json)} {valid : Bool}
    {s : Text} (hformats : ∀ site args, py.formats site args = true)
    (hverdict : verdictOf items = (valid, .str s)) :
    (finish py false cache posted (.ok (.dict items))).sent = [responseBytes valid s] := by
  have hlog : ∀ site args, py.log site args = .ok () := fun site args => if_pos (hformats site args)
  have hnesting : (response valid (.str s)).nesting ≤ py.responseLimit := by
    rw [nesting_response]
    exact py.responseLimit_pos
  have hdumps : dumps py.floatRepr py.responseLimit (response valid (.str s)) =
      some (String.ofList (jsonChars py.floatRepr (response valid (.str s)))) := if_pos hnesting
  unfold finish
  dsimp only [Bind.bind, Except.bind]
  rw [hlog]
  dsimp only [Pure.pure, Except.pure, chooseResponse, Shim.verdict, Bind.bind, Except.bind]
  rw [hlog, hverdict]
  dsimp only [respond]
  rw [hdumps]
  show [encode _] = _
  rw [encode_response]

end

/-! ## Two sample sessions -/

/-- A machine just after boot. -/
def bootCall : AgentCall := .onLog bootLog false

/-- The nonces of its first two connections. -/
def bootNonce (second : Bool) : String :=
  if second then "fedcba9876543210fedcba9876543210fedcba9876543210fedcba9876543210"
  else bootCall.nonce

theorem length_bootNonce : ∀ second, (bootNonce second).length = 64 := by decide

/-- What the first connection leaves in the cache. -/
def bootCache (second : Bool) : ImaCache :=
  if second then (collectReportIncremental sha256 bootCall.readings bootCall.nonce .empty).2 else .empty

/-- The report that the shim makes on a connection, if it makes one. -/
def bootReport (second : Bool) : Option ShimReport :=
  (collectReportIncremental sha256 bootCall.readings (bootNonce second) (bootCache second)).1.toOption

/-- A client that sends an empty handshake, and the server's two replies. -/
def bootConnection (second : Bool) (attest : Reply) : Connection where
  received := some (encode "\x7b\x7d")
  sendFails := false
  challenge := .body (sampleHttp.render
    (Response.challenge (bootNonce second) challengeLifetimeSeconds).content)
  readers := .ofReadings bootCall.readings
  attest := attest

theorem bootReport_made (second : Bool) : ∃ r, bootReport second = some r :=
  Option.isSome_iff_exists.mp (by revert second; decide +kernel)

theorem fits_bootReport {second : Bool} {r : ShimReport} (h : bootReport second = some r) : r.Fits := by
  have hfits : ∀ second, ∀ n ∈ (bootReport second).toList.flatMap fun r => [r.imaSummary.totalEntries,
      r.imaSummary.uniqueFiles, r.imaSummary.modulesMeasured, (r.imaMerkleDepth : Int),
      (r.imaLeafCount : Int)], (Nat.toDigits 10 n.natAbs).length ≤ 4300 := by decide +kernel
  have hnumbers := hfits second
  rw [h] at hnumbers
  intro n hn
  exact hnumbers n (by simpa using hn)

theorem smooth_boot {second : Bool} {r : ShimReport} (h : bootReport second = some r) (attest : Reply) :
    Smooth sampleInterpreter sha256 bootCall (bootConnection second attest) (bootCache second)
      (bootNonce second) (encode "\x7b\x7d") r where
  receives := rfl
  sends := rfl
  readers := rfl
  formats _ _ := rfl
  handshake := by
    have hread : loadsText 900 (decodeReplace (encode "\x7b\x7d")) = .ok (.dict []) := by rfl
    unfold ReadableHandshake
    rw [show loadsText (sampleInterpreter.loadsLimit .handshake) (decodeReplace (encode "\x7b\x7d")) =
      .ok (.dict []) from hread]
    rfl
  nesting := by decide +kernel
  challenge := getChallenge_token faithful_sampleHttp (length_bootNonce second) (by decide) fun _ _ => rfl
  collected := by
    unfold bootReport at h
    cases hr : (collectReportIncremental sha256 bootCall.readings (bootNonce second)
      (bootCache second)).1 with
    | error e =>
      rw [hr] at h
      cases h
    | ok r' =>
      rw [hr] at h
      exact congrArg Except.ok (Option.some.inj h)

end TpmAttest
