import TpmAttest.Server

/-! # Runs of the server

Requests arrive in any number and are served concurrently, one transaction at a
time (`start`).  This file says once what each request may do to the database:
`serve_ensures` bounds its transactions and says what its answer rests on.
-/
namespace TpmAttest

open Python Transactional Program

/-- A request with the values it will draw. -/
structure Arrival where
  request : Request
  env : Env

variable {ι : Type} (platform : Platform) (policy : Policy)

/-- The requests that have arrived, none of them served yet. -/
def start (db : Database) (arrivals : ι → Arrival) : Config Database ι Tx.Ret Exn Response :=
  ⟨db, fun i => serve platform policy (arrivals i).env (arrivals i).request⟩

/-- The report that a request submits. -/
def Request.report : Request → Option AttestationReport
  | .attest report => some report
  | .enroll report => some report
  | _ => none

/-- A root that passes the structural check: 64 characters that `int(…, 16)`
reads. -/
def RootOk (root : String) : Prop := root.length = 64 ∧ (intHex root).isSome

/-- The transactions a request may perform. -/
def Footprint (arrival : Arrival) : Tx → Prop
  | .insertNonce nonce expiresAt =>
    arrival.request = .challenge ∧ nonce = arrival.env.token ∧
      ∃ expiry : DateTime, expiresAt = expiry.isoformat
  | .consumeNonce nonce now =>
    ∃ report, arrival.request.report = some report ∧ nonce = report.nonce ∧ now = arrival.env.now
  | .selectMachine machineId =>
    ∃ report, arrival.request.report = some report ∧ report.machineId = some machineId
  | .upsertMachine machineId row =>
    ∃ req, arrival.request = .register req ∧ machineId = req.machineId ∧
      row.ekCertB64 = req.ekCertB64
  | .selectActiveRoot => ∃ report, arrival.request.report = some report
  | .selectActivePcrJson => ∃ report, arrival.request.report = some report
  | .deactivateAll => ∃ report, arrival.request = .enroll report
  | .restoreBaseline root => ∃ report, arrival.request = .enroll report ∧ root ≠ ""
  | .pinBaseline root pcrs _ =>
    ∃ report, arrival.request = .enroll report ∧ RootOk report.imaMerkleRoot ∧
      root = platform.lower (platform.lower report.imaMerkleRoot) ∧ pcrs = report.pcrs

/-! ## What the checks ensure -/

/-- The lookups of a report's checks. -/
def IsLookup (report : AttestationReport) : Tx → Prop
  | .selectMachine machineId => report.machineId = some machineId
  | .selectActiveRoot => True
  | .selectActivePcrJson => True
  | _ => False

/-- What the outcomes `G` of a report's lookups are when its checks after the
nonce all pass. -/
structure Passed (G : (op : Tx) → Except Exn op.Ret → Prop) (report : AttestationReport) :
    Prop where
  quotePresent : report.quoteAvailable = true
  quoteSigned : ∃ key msg sig, platform.checkquote key msg sig report.nonce = true
  strictEk : policy.strictEkVerification = true → ∃ machineId row,
    report.machineId = some machineId ∧ G (.selectMachine machineId) (.ok (some row)) ∧
      row.ekVerified = true
  imaRoot : checkImaRoot platform report = none
  pinnedRoot : ∃ root, G .selectActiveRoot (.ok root) ∧ rootVerdict platform report root = none
  pinnedPcr7 : policy.requirePcr7Pinning = true → ∃ row : Option Dict,
    G .selectActivePcrJson (.ok row) ∧
      pcr7Verdict platform report (row.bind fun pcrMap => pcrMap.get "7") = none

/-- What the outcomes are when `verifyReport` returns no reason. -/
structure Verified (G : (op : Tx) → Except Exn op.Ret → Prop) (report : AttestationReport)
    (env : Env) : Prop where
  nonce : ∃ row, G (.consumeNonce report.nonce env.now) (.ok row) ∧
    nonceVerdict env.now row = .ok none
  passed : Passed platform policy G report

theorem truthy_eq_some {s : Option String} {t : String} :
    truthy s = some t ↔ s = some t ∧ t ≠ "" := by
  unfold truthy
  rw [Option.filter_eq_some_iff]
  simp

/-- The verdict on a row that holds a time. -/
theorem nonceVerdict_isoformat (now expiry : DateTime) :
    nonceVerdict now (some expiry.isoformat) =
      .ok (if expiry < now then some (.nonceExpired (now.secondsAfter expiry)) else none) := by
  rw [nonceVerdict, DateTime.fromisoformat_isoformat]
  rfl

section Verdicts
variable {platform} {report : AttestationReport}

theorem rootVerdict_eq_none {root : String} :
    rootVerdict platform report (some root) = none ↔
      platform.lower report.imaMerkleRoot = platform.lower root := by
  simp [rootVerdict]

theorem pcr7Verdict_eq_none {pinned : Option String} :
    pcr7Verdict platform report pinned = none ↔ ∀ value, pinned = some value →
      platform.lower ((report.pcrs.get "7").getD "") = platform.lower value := by
  cases pinned with
  | none => simp [pcr7Verdict]
  | some value => simp [pcr7Verdict]

end Verdicts

section Checks
variable {platform policy} {report : AttestationReport} {G : (op : Tx) → Except Exn op.Ret → Prop}
  {P : Tx → Prop} {E : Exn → Prop}

/-- A check put before others. -/
theorem inOrder_cons {check : ServerM (Option Reason)} {checks : List (ServerM (Option Reason))}
    {R S : Prop} (h : check.Ensures G P (fun r => r = none → R) E)
    (hs : (inOrder checks).Ensures G P (fun r => r = none → S) E) :
    (inOrder (check :: checks)).Ensures G P (fun r => r = none → R ∧ S) E := by
  refine h.bind fun r hr => ?_
  cases r with
  | some reason => exact fun hnone => by cases hnone
  | none => exact hs.mono (fun _ => id) (fun _ hS hnone => ⟨hr rfl, hS hnone⟩) fun _ => id

theorem inOrder_nil : (inOrder []).Ensures G P (fun r => r = none → True) E := fun _ => trivial

/-- A path through checks goes through the first one, and ends there unless it
passes. -/
theorem inOrder_cons_path {check : ServerM (Option Reason)}
    {checks : List (ServerM (Option Reason))} {l : List (Observation Tx.Ret Exn)}
    {outcome : Except Exn (Option Reason)}
    (h : Path (inOrder (check :: checks)) l (ofExcept outcome)) :
    ∃ l₁ l₂ r, l = l₁ ++ l₂ ∧ Path check l₁ (ofExcept r) ∧
      ((l₂ = [] ∧ r ≠ .ok none ∧ outcome = r) ∨
        (r = .ok none ∧ Path (inOrder checks) l₂ (ofExcept outcome))) := by
  have hfin : (ofExcept outcome : ServerM (Option Reason)).Finished := finished_ofExcept outcome
  have hinj : ∀ r : Except Exn (Option Reason),
      (ofExcept outcome : ServerM (Option Reason)) = ofExcept r → outcome = r :=
    fun r => ofExcept_injective
  rcases h.bind hfin with ⟨e, he, hpath⟩ | ⟨verdict, l₁, l₂, rfl, hpath, hrest⟩
  · exact ⟨l, [], .error e, by simp, hpath, Or.inl ⟨rfl, by simp, hinj (.error e) he⟩⟩
  · refine ⟨l₁, l₂, .ok verdict, rfl, hpath, ?_⟩
    cases verdict with
    | none => exact Or.inr ⟨rfl, hrest⟩
    | some reason =>
      obtain ⟨rfl, hret⟩ := Path.of_finished (p := .ret (some reason)) trivial hrest
      exact Or.inl ⟨rfl, by simp, hinj (.ok (some reason)) hret⟩

section
variable (hE : ∀ op e, IsLookup report op → G op (.error e) → E e)
include hE

theorem lookupMachine_ensures :
    (lookupMachine report.machineId).Ensures G (IsLookup report) (fun _ => True) E := by
  unfold lookupMachine
  split
  · rename_i machineId h
    have hop : IsLookup report (.selectMachine machineId) := (truthy_eq_some.mp h).1
    exact ensures_perform hop (fun _ _ => trivial) fun e => hE _ e hop
  · trivial

theorem checkStrictEk_ensures :
    (checkStrictEk platform policy report).Ensures G (IsLookup report)
      (fun r => r = none → policy.strictEkVerification = true → ∃ machineId row,
        report.machineId = some machineId ∧ G (.selectMachine machineId) (.ok (some row)) ∧
          row.ekVerified = true) E := by
  unfold checkStrictEk
  split
  · split
    · exact fun hnone => by cases hnone
    · rename_i machineId h
      obtain ⟨hid, -⟩ := truthy_eq_some.mp h
      refine (ensures_perform (Q := fun row => G (.selectMachine machineId) (.ok row)) hid
        (fun _ h => h) fun e => hE _ e hid).bind fun row hrow hverdict _ => ?_
      cases row with
      | none => cases hverdict
      | some row =>
        refine ⟨machineId, row, hid, hrow, ?_⟩
        by_contra hek
        simp [strictEkVerdict, hek] at hverdict
  · rename_i hstrict
    exact fun _ h => absurd h hstrict

theorem checkMeasurements_ensures :
    (checkMeasurements platform report).Ensures G (IsLookup report)
      (fun r => r = none → checkImaRoot platform report = none) E := by
  unfold checkMeasurements
  split
  · exact fun hnone => by cases hnone
  · refine (lookupMachine_ensures hE).bind fun row _ hverdict => ?_
    rw [Option.or_eq_none_iff, Option.or_eq_none_iff] at hverdict
    exact hverdict.2.2

theorem checkPinnedRoot_ensures :
    (checkPinnedRoot platform report).Ensures G (IsLookup report)
      (fun r => r = none →
        ∃ root, G .selectActiveRoot (.ok root) ∧ rootVerdict platform report root = none) E :=
  (ensures_perform (Q := fun root => G .selectActiveRoot (.ok root)) trivial (fun _ h => h)
    fun e => hE _ e trivial).bind fun root hroot hverdict => ⟨root, hroot, hverdict⟩

theorem checkPinnedPcr7_ensures :
    (checkPinnedPcr7 platform policy report).Ensures G (IsLookup report)
      (fun r => r = none → policy.requirePcr7Pinning = true → ∃ row : Option Dict,
        G .selectActivePcrJson (.ok row) ∧
          pcr7Verdict platform report (row.bind fun pcrMap => pcrMap.get "7") = none) E := by
  have hpinned : (getPinnedPcr "7").Ensures G (IsLookup report)
      (fun pinned => ∃ row : Option Dict, G .selectActivePcrJson (.ok row) ∧
        pinned = row.bind fun pcrMap => pcrMap.get "7") E :=
    (ensures_perform (Q := fun row => G .selectActivePcrJson (.ok row)) trivial (fun _ h => h)
      fun e => hE _ e trivial).bind fun row hrow => ⟨row, hrow, rfl⟩
  unfold checkPinnedPcr7
  split
  · refine hpinned.bind fun pinned hpin hverdict _ => ?_
    obtain ⟨row, hrow, rfl⟩ := hpin
    exact ⟨row, hrow, hverdict⟩
  · rename_i hpin
    exact fun _ h => absurd h hpin

end

theorem decodeField_ensures (s : String) :
    (decodeField s).Ensures G P (fun _ => True) fun _ => True :=
  ensures_ofExcept (fun _ _ => trivial) fun _ _ => trivial

/-- The signature check raises nothing: its `except` catches the errors of the
lookup as well. -/
theorem verifyQuoteSignature_ensures :
    (verifyQuoteSignature platform report).Ensures G (IsLookup report)
      (fun r => r = none → ∃ key msg sig, platform.checkquote key msg sig report.nonce = true) E := by
  have hcheck : ∀ m s, (checkQuote platform report m s).Ensures G (IsLookup report)
      (fun r => r = none → ∃ key msg sig, platform.checkquote key msg sig report.nonce = true)
      fun _ => True := by
    intro m s
    refine (decodeField_ensures m).bind fun msg _ => (decodeField_ensures s).bind fun sig _ =>
      (lookupMachine_ensures fun _ _ _ _ => trivial).bind fun row _ => ?_
    have hkey : (akPublicKey platform row).Ensures G (IsLookup report) (fun _ => True)
        fun _ => True := by
      cases row with
      | none => trivial
      | some row => exact (decodeField_ensures _).bind fun _ _ => trivial
    refine hkey.bind fun key _ hverdict => ?_
    cases key with
    | none => cases hverdict
    | some key =>
      refine ⟨key, msg, sig, ?_⟩
      by_contra hquote
      simp [hquote] at hverdict
  unfold verifyQuoteSignature
  split
  · exact (hcheck _ _).handle fun _ _ hnone => by cases hnone
  · exact fun hnone => by cases hnone

/-- **The checks after the nonce**: they only look up, they raise only what a
lookup raises, and when they pass the outcomes are as `Passed` says. -/
theorem reportChecks_ensures (hE : ∀ op e, IsLookup report op → G op (.error e) → E e) :
    (inOrder (reportChecks platform policy report)).Ensures G (IsLookup report)
      (fun r => r = none → Passed platform policy G report) E := by
  have hpresent : (ret (checkQuotePresent report) : ServerM _).Ensures G (IsLookup report)
      (fun r => r = none → report.quoteAvailable = true) E := by
    intro hverdict
    by_contra hq
    simp [checkQuotePresent, hq] at hverdict
  have hminimum : (ret (checkMinimumEntries policy report) : ServerM _).Ensures G (IsLookup report)
      (fun r => r = none → True) E := fun _ => trivial
  refine (inOrder_cons hpresent (inOrder_cons verifyQuoteSignature_ensures
    (inOrder_cons (checkStrictEk_ensures hE) (inOrder_cons (checkMeasurements_ensures hE)
      (inOrder_cons (checkPinnedRoot_ensures hE) (inOrder_cons (checkPinnedPcr7_ensures hE)
        (inOrder_cons hminimum inOrder_nil))))))).mono (fun _ => id) ?_
    fun _ => id
  intro r h hnone
  obtain ⟨h1, h2, h3, h4, h5, h6, -⟩ := h hnone
  exact ⟨h1, h2, h3, h4, h5, h6⟩

end Checks

/-! ## What the endpoints ensure -/

theorem rootOk_of_checkImaRoot {platform : Platform} {report : AttestationReport}
    (h : checkImaRoot platform report = none) : RootOk report.imaMerkleRoot := by
  unfold checkImaRoot at h
  split_ifs at h with hlen hhex
  exact ⟨not_not.mp hlen, by simpa [Option.isSome_iff_ne_none] using hhex⟩

/-- What the outcomes are when a request is answered so. -/
def ResponseOk (G : (op : Tx) → Except Exn op.Ret → Prop) (arrival : Arrival) : Response → Prop
  | .valid _ _ => ∃ report, arrival.request = .attest report ∧
      Verified platform policy G report arrival.env
  | .enrolled _ => ∃ report, arrival.request = .enroll report ∧
      Verified platform policy G report arrival.env
  | _ => True

section Endpoints
variable {platform policy} {G : (op : Tx) → Except Exn op.Ret → Prop} {E : Exn → Prop}
  (hE : ∀ op e, G op (.error e) → E e)
  (hparse : ∀ nonce now row e, G (.consumeNonce nonce now) (.ok row) →
    nonceVerdict now row = .error e → E e)
include hE hparse

theorem verifyReport_ensures (report : AttestationReport) (env : Env) :
    (verifyReport platform policy report env).Ensures G
      (fun op => op = .consumeNonce report.nonce env.now ∨ IsLookup report op)
      (fun r => r = none → Verified platform policy G report env) E := by
  have hnonce : (consumeNonce report.nonce env.now).Ensures G
      (fun op => op = .consumeNonce report.nonce env.now ∨ IsLookup report op)
      (fun r => r = none → ∃ row, G (.consumeNonce report.nonce env.now) (.ok row) ∧
        nonceVerdict env.now row = .ok none) E := by
    refine (ensures_perform (Q := fun row => G (.consumeNonce report.nonce env.now) (.ok row))
      (Or.inl rfl) (fun _ h => h) fun e => hE _ e).bind fun row hrow => ?_
    refine ensures_ofExcept ?_ fun e => hparse _ _ row e hrow
    rintro r hr rfl
    exact ⟨row, hrow, hr⟩
  have hchecks : (inOrder (reportChecks platform policy report)).Ensures G
      (fun op => op = .consumeNonce report.nonce env.now ∨ IsLookup report op)
      (fun r => r = none → Passed platform policy G report) E :=
    (reportChecks_ensures fun op e _ => hE op e).mono (fun _ => Or.inr) (fun _ => id) fun _ => id
  refine (inOrder_cons hnonce hchecks).mono (fun _ => id) ?_ fun _ => id
  intro r h hnone
  obtain ⟨h1, h2⟩ := h hnone
  exact ⟨h1, h2⟩

omit hE hparse in
theorem footprint_of_verify {request : Request} {env : Env} {report : AttestationReport}
    (h : request.report = some report) {op : Tx}
    (hop : op = .consumeNonce report.nonce env.now ∨ IsLookup report op) :
    Footprint platform ⟨request, env⟩ op := by
  rcases hop with rfl | hop
  · exact ⟨report, h, rfl, rfl⟩
  · cases op with
    | selectMachine machineId => exact ⟨report, h, hop⟩
    | selectActiveRoot => exact ⟨report, h⟩
    | selectActivePcrJson => exact ⟨report, h⟩
    | _ => exact hop.elim

/-- `/enroll` raises nothing of its own. -/
theorem enroll_ensures (report : AttestationReport) (env : Env) :
    (enroll platform policy report env).Ensures G (Footprint platform ⟨.enroll report, env⟩)
      (ResponseOk platform policy G ⟨.enroll report, env⟩) E := by
  have hop : ∀ op, op = .consumeNonce report.nonce env.now ∨ IsLookup report op →
      Footprint platform ⟨.enroll report, env⟩ op := fun _ => footprint_of_verify rfl
  refine (ensures_perform (Q := fun _ => True) ⟨report, rfl⟩ (fun _ _ => trivial)
    fun e => hE _ e).bind fun currentRoot _ => ?_
  refine (ensures_perform (Q := fun _ => True) ⟨report, rfl⟩ (fun _ _ => trivial)
    fun e => hE _ e).bind fun _ _ => ?_
  refine ((verifyReport_ensures hE hparse report env).mono hop (fun _ => id)
    fun _ => id).bind fun failure hverified => ?_
  cases failure with
  | some reason =>
    unfold enrollResponse restoreBaseline
    refine Ensures.bind (Q := fun _ => True) ?_ fun _ _ => trivial
    split
    · rename_i root hroot
      exact ensures_perform ⟨report, rfl, (truthy_eq_some.mp hroot).2⟩ (fun _ _ => trivial)
        fun e => hE _ e
    · trivial
  | none =>
    -- the root that is pinned has passed the structural check
    have hv := hverified rfl
    refine (ensures_perform (Q := fun _ => True)
      ⟨report, rfl, rootOk_of_checkImaRoot hv.passed.imaRoot, rfl, rfl⟩ (fun _ _ => trivial)
      fun e => hE _ e).bind fun _ _ => ?_
    exact ⟨report, rfl, hv⟩

/-- **What every request ensures**: it keeps to its footprint; a positive answer
means that the report was verified; and it raises what the database raises, a
stored expiry that cannot be read, or the overflow of a date. -/
theorem serve_ensures (hoverflow : ∀ text, E (.overflowError text)) (arrival : Arrival) :
    (serve platform policy arrival.env arrival.request).Ensures G (Footprint platform arrival)
      (ResponseOk platform policy G arrival) E := by
  have hadd : ∀ (d : DateTime) n e, d.addSeconds n = .error e → E e := by
    intro d n e h
    obtain ⟨text, rfl⟩ := DateTime.addSeconds_error h
    exact hoverflow text
  obtain ⟨request, env⟩ := arrival
  cases request with
  | health => trivial
  | challenge =>
    refine Ensures.bind (Q := fun _ => True) ?_ fun _ _ => trivial
    refine (ensures_ofExcept (Q := fun _ => True) (fun _ _ => trivial) (hadd _ _)).bind
      fun expiry _ => ?_
    exact (ensures_perform (Q := fun _ => True) ⟨rfl, rfl, expiry, rfl⟩ (fun _ _ => trivial)
      fun e => hE _ e).bind fun _ _ => trivial
  | register req =>
    have hstore : ∀ verified info, (storeMachine req verified info env).Ensures G
        (Footprint platform ⟨.register req, env⟩)
        (ResponseOk platform policy G ⟨.register req, env⟩) E :=
      fun verified info => (ensures_perform (Q := fun _ => True) ⟨req, rfl, rfl, rfl⟩
        (fun _ _ => trivial) fun e => hE _ e).bind fun _ _ => trivial
    change (register platform policy req env).Ensures _ _ _ _
    unfold register
    split
    · exact hstore _ _
    · dsimp only
      split
      · exact hstore _ _
      · trivial
  | attest report =>
    have hop : ∀ op, op = .consumeNonce report.nonce env.now ∨ IsLookup report op →
        Footprint platform ⟨.attest report, env⟩ op := fun _ => footprint_of_verify rfl
    refine ((verifyReport_ensures hE hparse report env).mono hop (fun _ => id)
      fun _ => id).bind fun failure hverified => ?_
    cases failure with
    | some reason => trivial
    | none =>
      refine (ensures_ofExcept (Q := fun _ => True) (fun _ _ => trivial) (hadd _ _)).bind
        fun expiry _ => ?_
      exact ⟨report, rfl, hverified rfl⟩
  | enroll report => exact enroll_ensures hE hparse report env

end Endpoints

/-! ## Runs -/

/-- An event of a run of the server. -/
abbrev ServerEvent (ι : Type) := Event ι Tx.Ret Exn

section Runs
variable [DecidableEq ι] {platform policy} {faults : Exn → Prop}
  {guard : Guard Database ι Tx.Ret Exn Response} {db : Database} {arrivals : ι → Arrival}
  {tr : List (ServerEvent ι)} {c : Config Database ι Tx.Ret Exn Response}

/-- Every transaction of a run is in the footprint of its request. -/
theorem footprint_of_run (h : Run exec faults guard (start platform policy db arrivals) tr c) :
    ∀ ev ∈ tr, Footprint platform (arrivals ev.thread) ev.op := by
  have hserve : ∀ i, (serve platform policy (arrivals i).env (arrivals i).request).Ensures
      (fun _ _ => True) (Footprint platform (arrivals i))
      (ResponseOk platform policy (fun _ _ => True) (arrivals i)) fun _ => True :=
    fun i => serve_ensures (fun _ _ _ => trivial) (fun _ _ _ _ _ _ => trivial) (fun _ => trivial) _
  exact h.ensures fun i => (hserve i).mono (fun _ => id) (fun _ _ => trivial) fun _ => id

/-- A positive answer rests on the events of its request. -/
theorem response_of_run (h : Run exec faults guard (start platform policy db arrivals) tr c)
    {i : ι} {resp : Response} (hret : c.threads i = .ret resp) :
    ResponseOk platform policy (fun op r => ⟨i, op, r⟩ ∈ tr) (arrivals i) resp := by
  have hpath := h.path i
  rw [hret] at hpath
  have hserve : (serve platform policy (arrivals i).env (arrivals i).request).Ensures
      (fun op r => (⟨i, op, r⟩ : ServerEvent ι) ∈ tr) (Footprint platform (arrivals i))
      (ResponseOk platform policy (fun op r => (⟨i, op, r⟩ : ServerEvent ι) ∈ tr) (arrivals i))
      fun _ => True :=
    serve_ensures (fun _ _ _ => trivial) (fun _ _ _ _ _ _ => trivial) (fun _ => trivial) _
  exact (hpath.ensures hserve fun o ho => mem_history.mp ho).2

/-- A request that was accepted submitted a report that was verified. -/
theorem verified_of_run (h : Run exec faults guard (start platform policy db arrivals) tr c) {i : ι}
    {report : AttestationReport} (hreq : (arrivals i).request.report = some report)
    {resp : Response} (hret : c.threads i = .ret resp)
    (hresp : (∃ token expiresAt, resp = .valid token expiresAt) ∨ ∃ root, resp = .enrolled root) :
    Verified platform policy (fun op r => ⟨i, op, r⟩ ∈ tr) report (arrivals i).env := by
  have hok := response_of_run h hret
  rcases hresp with ⟨token, expiresAt, rfl⟩ | ⟨root, rfl⟩
  all_goals
    obtain ⟨report', hreq', hv⟩ := hok
    rw [hreq'] at hreq
    obtain rfl := Option.some.inj hreq
    exact hv

end Runs

/-! ## Sample values -/

/-- A platform on which every quote is good and no bytes are a certificate. -/
def lenientPlatform : Platform := ⟨fun _ _ _ _ => true, some [], fun _ => none, id, fun _ => true⟩

def laxPolicy : Policy := ⟨false, false, 0⟩

def pcr7Policy : Policy := ⟨false, true, 0⟩

def noon : DateTime := { year := 2024, month := 6, day := 1, hour := 12, minute := 0, second := 0, microsecond := 0 }

def sampleEnv : Env := ⟨noon, noon, "c0ffee", "token"⟩

def sampleRoot : String := "0123456789abcdef0123456789abcdef0123456789abcdef0123456789abcdef"

def samplePcrs : Dict := ⟨[("7", "0x1")], by decide⟩

/-- A report that passes every check of the lax policy. -/
def sampleReport (nonce : String) : AttestationReport where
  version := "1.1"
  timestamp := ""
  nonce := nonce
  pcrs := samplePcrs
  imaSummary := ⟨1, 1, true, 0⟩
  imaMerkleRoot := sampleRoot
  imaMerkleDepth := 0
  imaLeafCount := 1
  quoteAvailable := true
  quoteMsgB64 := some "AAAA"
  quoteSigB64 := some "AAAA"
  machineId := none

/-- A nonce, and a report that uses it. -/
def challengeThenAttest : Bool → Arrival
  | false => ⟨.challenge, sampleEnv⟩
  | true => ⟨.attest (sampleReport sampleEnv.token), sampleEnv⟩

end TpmAttest
