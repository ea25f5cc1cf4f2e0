import TpmAttest.EnrolledAttestable

/-! # Zero PCR values

The check of the PCR values compares each with one text, `0x` and 64 zeros, after
`lower`.  So a report is accepted without a zero among its values exactly if it has
none that is a zero written otherwise, or no hexadecimal digest at all
(`noZeroAccepted_iff`); one that has such a value is accepted, if nothing else is
wrong with it (`accepted_of_unchecked`).
-/
namespace TpmAttest

open Python Transactional Program

/-- What follows a prefix `0x`, if there is one. -/
def digestDigits : List Char → List Char
  | z :: x :: s => if z = '0' ∧ (x = 'x' ∨ x = 'X') then s else z :: x :: s
  | s => s

/-- The number that some hexadecimal digits stand for. -/
def digitsValue (s : List Char) : Option Nat :=
  s.foldlM (fun n c => (hexValue c).map (16 * n + ·)) 0

/-- The value is a hexadecimal digest, with or without a prefix, and not zero. -/
def NonzeroDigest (value : String) : Prop :=
  digestDigits value.toList ≠ [] ∧ ∃ n, digitsValue (digestDigits value.toList) = some n ∧ n ≠ 0

/-- The value is `0x` and 64 zeros, up to letter case. -/
def IsZeroDigest (value : String) : Prop :=
  value.toList.map Char.toLower = zeroDigestPrefixed.toList

instance (value : String) : Decidable (IsZeroDigest value) := inferInstanceAs (Decidable (_ = _))

/-- An enrolled machine may have a zero PCR 10. -/
def Exempt (isEnrolled : Bool) (index : String) : Prop := isEnrolled = true ∧ index = "10"

instance (isEnrolled : Bool) (index : String) : Decidable (Exempt isEnrolled index) :=
  inferInstanceAs (Decidable (_ ∧ _))

/-- The answer is that of an accepted report. -/
def Response.Accepts (resp : Response) : Prop :=
  (∃ token expiresAt, resp = .valid token expiresAt) ∨ ∃ root, resp = .enrolled root

/-- No run of the server accepts a report with these PCR values, of a machine that is
enrolled or not, unless they are digests that are not zero. -/
def NoZeroAccepted (pcrs : Dict) (isEnrolled : Bool) : Prop :=
  ∀ (platform : Platform) (db : Database), Reachable platform db →
    ∀ (ι : Type) [DecidableEq ι] (policy : Policy) (arrivals : ι → Arrival)
      (tr : List (ServerEvent ι)) (c : Config Database ι Tx.Ret Exn Response),
      Run exec databaseFaults unguarded (start platform policy db arrivals) tr c →
      ∀ i report resp, (arrivals i).request.report = some report → report.pcrs = pcrs →
        (reportedMachine report c.store).isSome = isEnrolled →
        c.threads i = .ret resp → resp.Accepts →
        ∀ p ∈ pcrs.items, ¬ Exempt isEnrolled p.1 → NonzeroDigest p.2

/-! ## The check -/

theorem zeroDigestPrefixed_plain : zeroDigestPrefixed.toList.all isPlain = true := by decide +kernel

theorem lower_zeroDigestPrefixed (platform : Platform) :
    platform.lower zeroDigestPrefixed = zeroDigestPrefixed := by
  rw [Platform.lower, lower_plain _ zeroDigestPrefixed_plain]
  decide +kernel

/-- The check finds the text, whatever the tables of the platform are. -/
theorem lower_of_isZeroDigest (platform : Platform) {value : String} (h : IsZeroDigest value) :
    platform.lower value = zeroDigestPrefixed := by
  have hplain : value.toList.all isPlain = true := by
    have hall : (value.toList.map Char.toLower).all isPlain = true := by
      rw [h]
      exact zeroDigestPrefixed_plain
    rw [List.all_map] at hall
    have hfun : isPlain ∘ Char.toLower = isPlain := funext isPlain_toLower
    rwa [hfun] at hall
  rw [Platform.lower, lower_plain _ hplain, h, String.ofList_toList]

/-- On the lenient platform it finds nothing else. -/
theorem isZeroDigest_of_lower {value : String}
    (h : lenientPlatform.lower value = zeroDigestPrefixed) : IsZeroDigest value := by
  by_cases hplain : value.toList.all isPlain = true
  · rw [Platform.lower, lower_plain _ hplain] at h
    rw [IsZeroDigest, ← h, String.toList_ofList]
  · exfalso
    apply hplain
    have hself : lenientPlatform.lower value = value := if_neg hplain
    rw [← hself, h]
    exact zeroDigestPrefixed_plain

theorem zeroPcr_eq_none {platform : Platform} {report : AttestationReport} {isEnrolled : Bool} :
    zeroPcr platform report isEnrolled = none ↔ ∀ p ∈ report.pcrs.items,
      platform.lower p.2 = zeroDigestPrefixed → Exempt isEnrolled p.1 := by
  unfold zeroPcr
  rw [Option.map_eq_none_iff, List.find?_eq_none, lower_zeroDigestPrefixed]
  refine forall₂_congr fun p hp => ?_
  rw [decide_eq_true_iff, not_and, not_not]
  exact Iff.rfl

/-! ## What an accepted report has passed -/

section Accepted
variable {platform : Platform} {policy : Policy} {report : AttestationReport}
  {G : (op : Tx) → Except Exn op.Ret → Prop}

theorem ensures_true {α : Type} (p : ServerM α) :
    p.Ensures G (fun _ => True) (fun _ => True) fun _ => True := by
  induction p with
  | ret a => trivial
  | raise e => trivial
  | call op next ih => exact ⟨trivial, fun r _ => ih r⟩

/-- The report has passed the check, for a row of its machine that a lookup gave. -/
def ZeroChecked (platform : Platform) (G : (op : Tx) → Except Exn op.Ret → Prop)
    (report : AttestationReport) : Prop :=
  ∃ row : Option Machine, zeroPcr platform report row.isSome = none ∧
    ∀ machine, row = some machine → ∃ machineId, truthy report.machineId = some machineId ∧
      G (.selectMachine machineId) (.ok (some machine))

theorem checkMeasurements_zeroChecked :
    (checkMeasurements platform report).Ensures G (fun _ => True)
      (fun r => r = none → ZeroChecked platform G report) fun _ => True := by
  have hlookup : (lookupMachine report.machineId).Ensures G (fun _ => True)
      (fun row => ∀ machine, row = some machine → ∃ machineId,
        truthy report.machineId = some machineId ∧
          G (.selectMachine machineId) (.ok (some machine))) fun _ => True := by
    unfold lookupMachine
    split
    · rename_i machineId h
      refine ⟨trivial, fun r hr => ?_⟩
      cases r with
      | error e => trivial
      | ok row =>
        rintro machine rfl
        exact ⟨machineId, h, hr⟩
    · exact fun _ h => by cases h
  unfold checkMeasurements
  split
  · exact fun hnone => by cases hnone
  · refine hlookup.bind fun row hrow hverdict => ?_
    rw [Option.or_eq_none_iff] at hverdict
    exact ⟨row, hverdict.1, hrow⟩

theorem verifyReport_zeroChecked (env : Env) :
    (verifyReport platform policy report env).Ensures G (fun _ => True)
      (fun r => r = none → ZeroChecked platform G report) fun _ => True := by
  have hany : ∀ check : ServerM (Option Reason), check.Ensures G (fun _ => True)
      (fun r => r = none → True) fun _ => True :=
    fun check => (ensures_true check).mono (fun _ => id) (fun _ _ _ => trivial) fun _ => id
  have hmeasured : (checkMeasurements platform report).Ensures G (fun _ => True)
      (fun r => r = none → ZeroChecked platform G report) fun _ => True :=
    checkMeasurements_zeroChecked
  have hchecks := inOrder_cons (hany (consumeNonce report.nonce env.now))
    (inOrder_cons (hany (ret (checkQuotePresent report)))
      (inOrder_cons (hany (verifyQuoteSignature platform report))
        (inOrder_cons (hany (checkStrictEk platform policy report))
          (inOrder_cons hmeasured
            (hany (inOrder [checkPinnedRoot platform report, checkPinnedPcr7 platform policy report,
              ret (checkMinimumEntries policy report)]))))))
  exact hchecks.mono (fun _ => id) (fun r h hnone => (h hnone).2.2.2.2.1) fun _ => id

/-- **What an accepted report has passed**, whatever the database answers. -/
theorem serve_zeroChecked {arrival : Arrival} (hreport : arrival.request.report = some report) :
    (serve platform policy arrival.env arrival.request).Ensures G (fun _ => True)
      (fun resp => resp.Accepts → ZeroChecked platform G report) fun _ => True := by
  have hreject : ∀ {resp : Response}, (∀ token expiresAt, resp ≠ .valid token expiresAt) →
      (∀ root, resp ≠ .enrolled root) → resp.Accepts → ZeroChecked platform G report := by
    rintro resp hvalid henrolled (⟨token, expiresAt, rfl⟩ | ⟨root, rfl⟩)
    · exact absurd rfl (hvalid token expiresAt)
    · exact absurd rfl (henrolled root)
  obtain ⟨request, env⟩ := arrival
  cases request with
  | attest report' =>
    obtain rfl : report' = report := Option.some.inj hreport
    refine (verifyReport_zeroChecked env).bind fun failure hchecked => ?_
    cases failure with
    | some reason => exact hreject (by simp) (by simp)
    | none =>
      refine (ensures_true _).bind fun expiresAt _ => ?_
      exact fun _ => hchecked rfl
  | enroll report' =>
    obtain rfl : report' = report := Option.some.inj hreport
    refine (ensures_true _).bind fun currentRoot _ => (ensures_true _).bind fun _ _ =>
      (verifyReport_zeroChecked env).bind fun failure hchecked => ?_
    cases failure with
    | some reason =>
      refine (ensures_true _).bind fun _ _ => ?_
      exact hreject (by simp) (by simp)
    | none =>
      refine (ensures_true _).bind fun _ _ => ?_
      exact fun _ => hchecked rfl
  | _ => cases hreport

end Accepted

/-! ## Runs -/

section Runs
variable {ι : Type} [DecidableEq ι] {platform : Platform} {policy : Policy} {faults : Exn → Prop}
  {guard : Guard Database ι Tx.Ret Exn Response} {db : Database} {arrivals : ι → Arrival}
  {tr : List (ServerEvent ι)} {c : Config Database ι Tx.Ret Exn Response}

/-- No transaction removes a machine. -/
theorem isSome_enrolledMachines_commit {machineId : String} (op : Tx) {db : Database}
    (h : (db.enrolledMachines machineId).isSome) :
    ((commit exec op db).2.enrolledMachines machineId).isSome := by
  by_cases hupsert : ∃ row, op = .upsertMachine machineId row
  · obtain ⟨row, rfl⟩ := hupsert
    simp
  · rw [enrolledMachines_commit fun row hrow => hupsert ⟨row, hrow⟩]
    exact h

/-- A machine that was found in a run is enrolled from then on. -/
theorem enrolled_of_run (h : Run exec faults guard (start platform policy db arrivals) tr c) {i : ι}
    {machineId : String} {machine : Machine}
    (hfound : (⟨i, .selectMachine machineId, .ok (some machine)⟩ : ServerEvent ι) ∈ tr) :
    (c.store.enrolledMachines machineId).isSome := by
  refine h.invariant (I := fun tr c =>
    (⟨i, .selectMachine machineId, .ok (some machine)⟩ : ServerEvent ι) ∈ tr →
      (c.store.enrolledMachines machineId).isSome) (fun hmem => by cases hmem) ?_ hfound
  intro tr c c' ev _ ih _ hs hmem
  rcases hs.store with ⟨houtcome, hstore⟩ | ⟨⟨e, he, -⟩, hstore⟩
  · rw [hstore]
    refine isSome_enrolledMachines_commit _ ?_
    rcases List.mem_append.mp hmem with hmem | hmem
    · exact ih hmem
    · obtain rfl := List.mem_singleton.mp hmem
      have hrow : some machine = c.store.enrolledMachines machineId := Except.ok.inj houtcome
      rw [← hrow]
      rfl
  · rw [hstore]
    rcases List.mem_append.mp hmem with hmem | hmem
    · exact ih hmem
    · obtain rfl := List.mem_singleton.mp hmem
      cases he

/-- **What is not written as a zero is accepted as no zero**: of an accepted report, no
value is `0x` and 64 zeros, except perhaps PCR 10 of an enrolled machine. -/
theorem not_isZeroDigest_of_run
    (h : Run exec faults guard (start platform policy db arrivals) tr c) {i : ι}
    {report : AttestationReport} (hreport : (arrivals i).request.report = some report)
    {resp : Response} (hret : c.threads i = .ret resp) (hresp : resp.Accepts) :
    ∀ p ∈ report.pcrs.items, IsZeroDigest p.2 →
      Exempt (reportedMachine report c.store).isSome p.1 := by
  have hpath := h.path i
  rw [hret] at hpath
  have hserve : (serve platform policy (arrivals i).env (arrivals i).request).Ensures
      (fun op r => (⟨i, op, r⟩ : ServerEvent ι) ∈ tr) (fun _ => True)
      (fun resp => resp.Accepts →
        ZeroChecked platform (fun op r => (⟨i, op, r⟩ : ServerEvent ι) ∈ tr) report) fun _ => True :=
    serve_zeroChecked hreport
  obtain ⟨row, hzero, hrow⟩ := (hpath.ensures hserve fun o ho => mem_history.mp ho).2 hresp
  intro p hp hvalue
  obtain ⟨hsome, hindex⟩ := zeroPcr_eq_none.mp hzero p hp (lower_of_isZeroDigest platform hvalue)
  refine ⟨?_, hindex⟩
  obtain ⟨machine, hmachine⟩ := Option.isSome_iff_exists.mp hsome
  obtain ⟨machineId, hid, hfound⟩ := hrow machine hmachine
  rw [reportedMachine, hid]
  exact enrolled_of_run h hfound

end Runs

/-! ## Acceptance -/

/-- A registered machine and a nonce, or a nonce alone. -/
def zeroRequests (isEnrolled : Bool) : List (Policy × Arrival) :=
  (if isEnrolled then [(laxPolicy, ⟨.register ⟨"host", "AAAA", none⟩, sampleEnv⟩)] else []) ++
    [(laxPolicy, ⟨.challenge, sampleEnv⟩)]

def zeroDatabase (isEnrolled : Bool) : Database :=
  (serveAll lenientPlatform .empty (zeroRequests isEnrolled)).2

/-- The sample report with other PCR values, of the machine that is enrolled or not. -/
def zeroReport (pcrs : Dict) (isEnrolled : Bool) : AttestationReport :=
  { reportWith pcrs with machineId := if isEnrolled then some "host" else none }

theorem reachable_zeroDatabase (isEnrolled : Bool) :
    Reachable lenientPlatform (zeroDatabase isEnrolled) :=
  (sequential_serveAll lenientPlatform .empty (zeroRequests isEnrolled)).reachable .empty

theorem isSome_reportedMachine (pcrs : Dict) (isEnrolled : Bool) :
    (reportedMachine (zeroReport pcrs isEnrolled) (zeroDatabase isEnrolled)).isSome = isEnrolled := by
  cases isEnrolled with
  | false => rfl
  | true =>
    change ((truthy (some "host")).bind (zeroDatabase true).enrolledMachines).isSome = true
    decide +kernel

/-- **Values that the check does not find are accepted.** -/
theorem accepted_of_unchecked {pcrs : Dict} {isEnrolled : Bool} (hne : pcrs.items.isEmpty = false)
    (h : ∀ p ∈ pcrs.items, IsZeroDigest p.2 → Exempt isEnrolled p.1) :
    ((attest lenientPlatform laxPolicy (zeroReport pcrs isEnrolled) sampleEnv).run exec
      (zeroDatabase isEnrolled)).1 = .ok (.valid "token" "2024-06-01T12:05:00+00:00") := by
  have hnonce : nonceVerdict sampleEnv.now (purgeNonces (zeroDatabase isEnrolled).activeNonces
      sampleEnv.now.isoformat sampleEnv.token) = .ok none := by
    cases isEnrolled with
    | false => decide +kernel
    | true => decide +kernel
  have hkey : quoteKey lenientPlatform (zeroReport pcrs isEnrolled) (zeroDatabase isEnrolled) =
      some (if isEnrolled then [0, 0, 0] else []) := by
    cases isEnrolled with
    | false => rfl
    | true =>
      change (b64decode "AAAA").toOption = _
      decide +kernel
  have hbaseline : (zeroDatabase isEnrolled).baselines.active = none := by
    cases isEnrolled with
    | false => rfl
    | true => rfl
  have hzero : zeroPcr lenientPlatform (zeroReport pcrs isEnrolled) isEnrolled = none :=
    zeroPcr_eq_none.mpr fun p hp hvalue => h p hp (isZeroDigest_of_lower hvalue)
  have hblob : truthy (some "AAAA") = some "AAAA" := by decide
  have hroot : checkImaRoot lenientPlatform (sampleReport sampleEnv.token) = none := by decide +kernel
  have hverified : ((verifyReport lenientPlatform laxPolicy (zeroReport pcrs isEnrolled)
      sampleEnv).run exec (zeroDatabase isEnrolled)).1 = .ok none := by
    refine verified_iff.mpr ⟨hnonce, ?_⟩
    exact {
      available := rfl
      quote := ⟨_, hkey, "AAAA", "AAAA", [0, 0, 0], [0, 0, 0], hblob, hblob, by decide, by decide, rfl⟩
      strictEk := by
        intro hstrict
        cases hstrict
      measurements := by
        rw [isSome_reportedMachine]
        exact ⟨hne, hzero, by simp [checkBootAggregate, zeroReport, reportWith, sampleReport],
          hroot⟩
      pinnedRoot := by
        rw [hbaseline]
        rfl
      pinnedPcr7 := by
        intro hpin
        cases hpin
      minimumEntries := rfl }
  exact (run_attest_verified hverified).trans (by decide +kernel)

/-- The value is a zero that is written otherwise, or no hexadecimal digest. -/
def Unchecked (value : String) : Prop := ¬ NonzeroDigest value ∧ ¬ IsZeroDigest value

/-- A report with such a value is accepted, unless another value is found. -/
theorem not_noZeroAccepted {pcrs : Dict} {isEnrolled : Bool}
    (h : ∀ p ∈ pcrs.items, IsZeroDigest p.2 → Exempt isEnrolled p.1) {p : String × String}
    (hp : p ∈ pcrs.items) (hexempt : ¬ Exempt isEnrolled p.1) (hvalue : ¬ NonzeroDigest p.2) :
    ¬ NoZeroAccepted pcrs isEnrolled := by
  intro hno
  have hne : pcrs.items.isEmpty = false := by
    rw [List.isEmpty_eq_false_iff_exists_mem]
    exact ⟨p, hp⟩
  obtain ⟨tr, hrun⟩ := exists_run exec
    (attest lenientPlatform laxPolicy (zeroReport pcrs isEnrolled) sampleEnv) (zeroDatabase isEnrolled)
  rw [accepted_of_unchecked hne h] at hrun
  have hrun : Run exec noFaults unguarded (start lenientPlatform laxPolicy (zeroDatabase isEnrolled)
      fun _ : Unit => ⟨.attest (zeroReport pcrs isEnrolled), sampleEnv⟩) tr _ := hrun
  -- the request leaves the machines as they are
  have hmachine : (reportedMachine (zeroReport pcrs isEnrolled) (serveAlone lenientPlatform laxPolicy
      ⟨.attest (zeroReport pcrs isEnrolled), sampleEnv⟩ (zeroDatabase isEnrolled)).2).isSome =
        isEnrolled := by
    have hsame : reportedMachine (zeroReport pcrs isEnrolled) (serveAlone lenientPlatform laxPolicy
        ⟨.attest (zeroReport pcrs isEnrolled), sampleEnv⟩ (zeroDatabase isEnrolled)).2 =
          reportedMachine (zeroReport pcrs isEnrolled) (zeroDatabase isEnrolled) :=
      reportedMachine_eq rfl fun machineId _ => enrolledMachines_serveAlone laxPolicy (by simp) _
    rw [hsame]
    exact isSome_reportedMachine pcrs isEnrolled
  exact hvalue (hno lenientPlatform (zeroDatabase isEnrolled) (reachable_zeroDatabase isEnrolled) Unit
    laxPolicy _ tr _ (hrun.faulty databaseFaults) () (zeroReport pcrs isEnrolled) _ rfl rfl hmachine rfl
    (Or.inl ⟨_, _, rfl⟩) p hp hexempt)

/-- **When no zero is accepted**: for PCR values, of an enrolled machine or another,
exactly if a value that counts is `0x` and 64 zeros, or none that counts is a zero
written otherwise or no hexadecimal digest. -/
theorem noZeroAccepted_iff (pcrs : Dict) (isEnrolled : Bool) :
    NoZeroAccepted pcrs isEnrolled ↔
      (∃ p ∈ pcrs.items, ¬ Exempt isEnrolled p.1 ∧ IsZeroDigest p.2) ∨
        ¬ ∃ p ∈ pcrs.items, ¬ Exempt isEnrolled p.1 ∧ Unchecked p.2 := by
  constructor
  · intro hno
    by_contra hfails
    rw [not_or, not_not] at hfails
    obtain ⟨hfound, p, hp, hexempt, hvalue, -⟩ := hfails
    refine not_noZeroAccepted (fun q hq hzero => ?_) hp hexempt hvalue hno
    by_contra hq'
    exact hfound ⟨q, hq, hq', hzero⟩
  · rintro h platform db - ι _ policy arrivals tr c hrun i report resp hreport rfl rfl hret hresp p hp
      hexempt
    have hzero := not_isZeroDigest_of_run hrun hreport hret hresp
    rcases h with ⟨q, hq, hqexempt, hqzero⟩ | hchecked
    · exact absurd (hzero q hq hqzero) hqexempt
    · by_contra hvalue
      exact hchecked ⟨p, hp, hexempt, hvalue, fun hpzero => hexempt (hzero p hp hpzero)⟩

/-- `0x0` is accepted as PCR 0. -/
theorem short_zero_accepted : ¬ NoZeroAccepted ⟨[("0", "0x0")], by decide⟩ false := by
  refine not_noZeroAccepted (p := ("0", "0x0")) (fun q hq hzero => ?_) List.mem_cons_self (by decide) ?_
  · obtain rfl := List.mem_singleton.mp hq
    exact absurd hzero (by decide +kernel)
  · rintro ⟨-, n, hn, hne⟩
    have hvalue : digitsValue (digestDigits "0x0".toList) = some 0 := by decide
    exact hne (Option.some.inj (hn.symm.trans hvalue))

end TpmAttest
