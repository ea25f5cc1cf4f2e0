import TpmAttest.QuoteBinding
import TpmAttest.StrictEk

/-! # Attestations among registrations

An `/attest` looks up its machine up to three times, in separate transactions: for
the AK key of the signature check, for the `ek_verified` bit of strict
verification, and for the enrollment status of the measurement checks.  Each check
performs at most one transaction (`reportChecks_atomic`), so in a run it gives what
it would give alone at the database of its transaction.

The signature check depends on the AK key alone, and the measurement check on
there being a row.  So if the lookups find one AK key, the whole request does what
it would do alone at the point where the bit was read.
-/
namespace TpmAttest

open Python Transactional Program

/-! ## Each check is atomic, and what it depends on -/

section Checks
variable {platform : Platform} {policy : Policy} {report : AttestationReport}

theorem lookupMachine_atomic (machineId : Option String) : (lookupMachine machineId).Atomic := by
  unfold lookupMachine
  split
  · exact atomic_perform _
  · trivial

theorem decodeField_finished (s : String) : (decodeField s).Finished := finished_ofExcept _

theorem verifyQuoteSignature_atomic : (verifyQuoteSignature platform report).Atomic := by
  have hcheck : ∀ m s, (checkQuote platform report m s).Atomic := by
    intro m s
    refine (decodeField_finished m).bind_atomic fun msg => (decodeField_finished s).bind_atomic
      fun sig => (lookupMachine_atomic _).bind fun row => ?_
    have hkey : (akPublicKey platform row).Finished := by
      cases row with
      | none => trivial
      | some row => exact (decodeField_finished _).bind fun _ => trivial
    exact hkey.bind fun key => trivial
  unfold verifyQuoteSignature
  split
  · exact (hcheck _ _).handle fun _ => trivial
  · trivial

/-- The signature check performs nothing, and passes only a report that names no
machine; or it begins with the machine's lookup, whose error it handles. -/
theorem verifyQuoteSignature_shape (platform : Platform) (report : AttestationReport) :
    (∃ verdict, verifyQuoteSignature platform report = ret verdict ∧
        (verdict = none → truthy report.machineId = none)) ∨
      ∃ machineId next, truthy report.machineId = some machineId ∧
        verifyQuoteSignature platform report = .call (.selectMachine machineId) next ∧
          ∀ e, next (.error e) = ret (some .quoteSignatureFailed) := by
  unfold verifyQuoteSignature
  split
  · rename_i m s _ _
    unfold checkQuote decodeField lookupMachine
    cases b64decode m with
    | error e => exact Or.inl ⟨_, rfl, fun h => by cases h⟩
    | ok msg =>
      cases b64decode s with
      | error e => exact Or.inl ⟨_, rfl, fun h => by cases h⟩
      | ok sig =>
        cases truthy report.machineId with
        | none => exact Or.inl ⟨_, rfl, fun _ => rfl⟩
        | some machineId => exact Or.inr ⟨machineId, _, rfl, rfl, fun _ => rfl⟩
  · exact Or.inl ⟨_, rfl, fun h => by cases h⟩

theorem checkStrictEk_atomic : (checkStrictEk platform policy report).Atomic := by
  unfold checkStrictEk
  split
  · split
    · trivial
    · exact (atomic_perform _).bind fun _ => trivial
  · trivial

/-- **Each check performs at most one transaction.** -/
theorem reportChecks_atomic {check : ServerM (Option Reason)}
    (h : check ∈ reportChecks platform policy report) : check.Atomic := by
  simp only [reportChecks, List.mem_cons, List.not_mem_nil, or_false] at h
  rcases h with rfl | rfl | rfl | rfl | rfl | rfl | rfl
  · trivial
  · exact verifyQuoteSignature_atomic
  · exact checkStrictEk_atomic
  · unfold checkMeasurements
    split
    · trivial
    · exact (lookupMachine_atomic _).bind fun _ => trivial
  · exact (atomic_perform _).bind fun _ => trivial
  · unfold checkPinnedPcr7
    split
    · have hpinned : (getPinnedPcr "7").Atomic := (atomic_perform _).bind fun _ => trivial
      exact hpinned.bind fun _ => trivial
    · trivial
  · trivial

/-- The row of the machine that a report names. -/
def namedMachine (report : AttestationReport) (db : Database) : Option Machine :=
  report.machineId.bind db.enrolledMachines

/-- Its AK key. -/
def akKey (report : AttestationReport) (db : Database) : Option String :=
  (namedMachine report db).map (·.akPubB64)

theorem namedMachine_of_truthy {db : Database} {machineId : String}
    (hid : truthy report.machineId = some machineId) :
    namedMachine report db = db.enrolledMachines machineId := by
  rw [namedMachine, (truthy_eq_some.mp hid).1]
  rfl

/-- Databases with one AK key give a lookup one key. -/
theorem lookup_congr {db db' : Database} (h : akKey report db = akKey report db') :
    ((truthy report.machineId).bind db.enrolledMachines).map (·.akPubB64) =
      ((truthy report.machineId).bind db'.enrolledMachines).map (·.akPubB64) := by
  unfold akKey at h
  cases hid : truthy report.machineId with
  | none => rfl
  | some machineId =>
    rw [namedMachine_of_truthy hid, namedMachine_of_truthy hid] at h
    exact h

/-- The signature check depends on the AK key alone. -/
theorem verifyQuoteSignature_congr {db db' : Database} (h : akKey report db = akKey report db') :
    ((verifyQuoteSignature platform report).run exec db).1 =
      ((verifyQuoteSignature platform report).run exec db').1 := by
  have hcheck : ∀ m s, ((checkQuote platform report m s).run exec db).1 =
      ((checkQuote platform report m s).run exec db').1 := by
    intro m s
    unfold checkQuote decodeField
    simp only [bind_eq, run_bind, run_ofExcept, run_lookupMachine]
    cases b64decode m with
    | error e => rfl
    | ok msg =>
      cases b64decode s with
      | error e => rfl
      | ok sig =>
        have h := lookup_congr h
        dsimp only [Except.mapError]
        cases hrow : (truthy report.machineId).bind db.enrolledMachines with
        | none =>
          rw [hrow, Option.map_none, eq_comm, Option.map_eq_none_iff] at h
          rw [h]
          rfl
        | some row =>
          rw [hrow, Option.map_some, eq_comm, Option.map_eq_some_iff] at h
          obtain ⟨row', hrow', hkey⟩ := h
          rw [hrow']
          simp only [akPublicKey, decodeField, hkey]
          cases b64decode row.akPubB64 with
          | error e => rfl
          | ok key => rfl
  unfold verifyQuoteSignature
  split
  · rename_i m s _ _
    have hms := hcheck m s
    rw [run_handle, run_handle]
    generalize (checkQuote platform report m s).run exec db = r at hms ⊢
    generalize (checkQuote platform report m s).run exec db' = r' at hms ⊢
    obtain ⟨outcome, t⟩ := r
    obtain ⟨outcome', t'⟩ := r'
    obtain rfl : outcome = outcome' := hms
    cases outcome with
    | ok verdict => rfl
    | error e => rfl
  · rfl

/-- The measurement checks depend on there being a row. -/
theorem checkMeasurements_congr {db db' : Database} (h : akKey report db = akKey report db') :
    ((checkMeasurements platform report).run exec db).1 =
      ((checkMeasurements platform report).run exec db').1 := by
  have hsome : ((truthy report.machineId).bind db.enrolledMachines).isSome =
      ((truthy report.machineId).bind db'.enrolledMachines).isSome := by
    have hmap := congrArg Option.isSome (lookup_congr h)
    rwa [Option.isSome_map, Option.isSome_map] at hmap
  unfold checkMeasurements
  split
  · rfl
  · rw [bind_eq, run_bind, run_bind, run_lookupMachine, run_lookupMachine]
    simp only [pure_eq, run, hsome]

theorem checkStrictEk_congr {db db' : Database} (h : db.enrolledMachines = db'.enrolledMachines) :
    ((checkStrictEk platform policy report).run exec db).1 =
      ((checkStrictEk platform policy report).run exec db').1 := by
  unfold checkStrictEk
  split
  · split
    · rfl
    · rename_i machineId _
      change Except.ok (strictEkVerdict platform machineId (db.enrolledMachines machineId)) =
        Except.ok (strictEkVerdict platform machineId (db'.enrolledMachines machineId))
      rw [h]
  · rfl

theorem checkPinnedRoot_congr {db db' : Database} (h : db.baselines = db'.baselines) :
    ((checkPinnedRoot platform report).run exec db).1 =
      ((checkPinnedRoot platform report).run exec db').1 := by
  change Except.ok (rootVerdict platform report (db.baselines.active.map (·.imaRoot))) =
    Except.ok (rootVerdict platform report (db'.baselines.active.map (·.imaRoot)))
  rw [h]

theorem checkPinnedPcr7_congr {db db' : Database} (h : db.baselines = db'.baselines) :
    ((checkPinnedPcr7 platform policy report).run exec db).1 =
      ((checkPinnedPcr7 platform policy report).run exec db').1 := by
  unfold checkPinnedPcr7
  split
  · change Except.ok (pcr7Verdict platform report (pinnedPcr db "7")) =
      Except.ok (pcr7Verdict platform report (pinnedPcr db' "7"))
    unfold pinnedPcr
    rw [h]
  · rfl

end Checks

/-! ## Paths through the checks -/

section Paths
variable {check : ServerM (Option Reason)} {checks : List (ServerM (Option Reason))}
  {l : List (Observation Tx.Ret Exn)} {outcome : Except Exn (Option Reason)}

/-- An atomic check does along a path what it does alone on a database that it
cannot tell from that of the path's transaction. -/
theorem run_of_path {V : Database → Prop} {db : Database} (hatomic : check.Atomic)
    (hagree : ∀ s, V s → (check.run exec s).1 = (check.run exec db).1)
    (hl : ∀ o ∈ l, ∃ s, V s ∧ (commit exec o.1 s).1 = o.2)
    (h : Path check l (ofExcept outcome)) : (check.run exec db).1 = outcome := by
  rcases h.atomic exec hatomic with ⟨-, hrun⟩ | ⟨o, rfl, hrun⟩
  · exact hrun db
  · obtain ⟨s, hs, ho⟩ := hl o (List.mem_singleton_self o)
    rw [← hagree s hs, hrun s ho]

/-- Atomic checks do along a path what they do alone on a database that none of
them can tell from the databases of the path's transactions. -/
theorem run_of_inOrder_path {V : Database → Prop} {db : Database}
    (hatomic : ∀ check ∈ checks, check.Atomic)
    (hstore : ∀ check ∈ checks, (check.run exec db).2 = db)
    (hagree : ∀ check ∈ checks, ∀ s, V s → (check.run exec s).1 = (check.run exec db).1)
    (hl : ∀ o ∈ l, ∃ s, V s ∧ (commit exec o.1 s).1 = o.2)
    (h : Path (inOrder checks) l (ofExcept outcome)) :
    ((inOrder checks).run exec db).1 = outcome := by
  induction checks generalizing l with
  | nil =>
    obtain ⟨-, hret⟩ := Path.of_finished (p := .ret none) trivial h
    cases outcome with
    | error e => cases hret
    | ok verdict => cases hret; rfl
  | cons check checks ih =>
    rw [List.forall_mem_cons] at hatomic hstore hagree
    obtain ⟨l₁, l₂, r, rfl, hpath, hrest⟩ := inOrder_cons_path h
    rw [List.forall_mem_append] at hl
    have hr := run_of_path hatomic.1 hagree.1 hl.1 hpath
    rcases hrest with ⟨-, hstop, rfl⟩ | ⟨rfl, hrest⟩
    · exact run_inOrder_stop hr hstop
    · rw [run_inOrder_pass hstore.1 hr]
      exact ih hatomic.2 hstore.2 hagree.2 hl.2 hrest

end Paths

/-! ## The lookups of an attestation -/

/-- The row that a transaction found, if it looked a machine up. -/
def lookupOf : Observation Tx.Ret Exn → Option (Option Machine)
  | ⟨.selectMachine _, .ok row⟩ => some row
  | _ => none

section Lookups
variable {platform : Platform} {policy : Policy} {report : AttestationReport}
  {l : List (Observation Tx.Ret Exn)} {outcome : Except Exn (Option Reason)} {machineId : String}

/-- The signature check of a report that names a machine fails at once, or begins
with the machine's lookup. -/
theorem verifyQuoteSignature_cases (platform : Platform)
    (hid : truthy report.machineId = some machineId) :
    (∃ reason, verifyQuoteSignature platform report = ret (some reason)) ∨
      ∃ next, verifyQuoteSignature platform report = .call (.selectMachine machineId) next := by
  rcases verifyQuoteSignature_shape platform report with
    ⟨verdict, heq, hnone⟩ | ⟨machineId', next, hid', heq, -⟩
  · cases verdict with
    | none => cases hid.symm.trans (hnone rfl)
    | some reason => exact Or.inl ⟨reason, heq⟩
  · obtain rfl := Option.some.inj (hid.symm.trans hid')
    exact Or.inr ⟨next, heq⟩

/-- A finished path of an atomic program that begins with a transaction. -/
theorem path_of_call {p : ServerM (Option Reason)} {op : Tx}
    {next : Except Exn op.Ret → ServerM (Option Reason)} (hp : p = .call op next)
    (hatomic : p.Atomic) (h : Path p l (ofExcept outcome)) : ∃ r, l = [⟨op, r⟩] := by
  subst hp
  have hfin : (ofExcept outcome : ServerM (Option Reason)).Finished := finished_ofExcept outcome
  generalize ofExcept outcome = q at h hfin
  cases h with
  | refl => exact hfin.elim
  | call h =>
    obtain ⟨rfl, -⟩ := Path.of_finished (hatomic _) h
    exact ⟨_, rfl⟩

/-- A signature check that passes has looked its machine up. -/
theorem verifyQuoteSignature_path (hid : truthy report.machineId = some machineId)
    (h : Path (verifyQuoteSignature platform report) l (ofExcept (.ok none))) :
    ∃ r, l = [⟨.selectMachine machineId, r⟩] := by
  rcases verifyQuoteSignature_cases platform hid with ⟨reason, heq⟩ | ⟨next, heq⟩
  · rw [heq] at h
    cases (Path.of_finished (p := .ret (some reason)) trivial h).2
  · exact path_of_call heq verifyQuoteSignature_atomic h

/-- Strict verification looks the machine up that the report names, and is the
verdict on its row. -/
theorem checkStrictEk_path (hstrict : policy.strictEkVerification = true)
    (h : Path (checkStrictEk platform policy report) l (ofExcept outcome)) :
    (l = [] ∧ checkStrictEk platform policy report = ofExcept outcome ∧ outcome ≠ .ok none) ∨
      ∃ machineId r, truthy report.machineId = some machineId ∧
        l = [⟨.selectMachine machineId, r⟩] := by
  have hatomic : (checkStrictEk platform policy report).Atomic := checkStrictEk_atomic
  unfold checkStrictEk at h hatomic ⊢
  rw [if_pos hstrict] at h hatomic ⊢
  cases hid : truthy report.machineId with
  | none =>
    rw [hid] at h
    obtain ⟨rfl, hret⟩ := Path.of_finished (p := .ret (some Reason.noMachineId)) trivial h
    refine Or.inl ⟨rfl, hret.symm, ?_⟩
    rintro rfl
    cases hret
  | some machineId =>
    rw [hid] at h hatomic
    obtain ⟨r, hl⟩ := path_of_call rfl hatomic h
    exact Or.inr ⟨machineId, r, rfl, hl⟩

/-- A signature check performs no second lookup. -/
theorem second_lookup (h : Path (verifyQuoteSignature platform report) l (ofExcept outcome)) :
    (l.filterMap lookupOf)[1]? = none := by
  have hlen : l.length ≤ 1 := by
    rcases h.atomic exec verifyQuoteSignature_atomic with ⟨rfl, -⟩ | ⟨o, rfl, -⟩
    · simp
    · simp
  exact List.getElem?_eq_none ((List.length_filterMap_le _ _).trans hlen)

/-- The checks after the strict one cannot tell two databases with one AK key and
one table of baselines apart. -/
theorem run_eq_of_akKey {check : ServerM (Option Reason)} {db db' : Database}
    (hcheck : check ∈ (reportChecks platform policy report).drop 3)
    (hkey : akKey report db = akKey report db') (hbase : db.baselines = db'.baselines) :
    (check.run exec db).1 = (check.run exec db').1 := by
  simp only [reportChecks, List.drop_succ_cons, List.drop_zero, List.mem_cons, List.not_mem_nil,
    or_false] at hcheck
  rcases hcheck with rfl | rfl | rfl | rfl
  · exact checkMeasurements_congr hkey
  · exact checkPinnedRoot_congr hbase
  · exact checkPinnedPcr7_congr hbase
  · rfl

section
variable {V : Database → Prop} {key : Option String} {t : BaselineTable}
  (hkey : ∀ s, V s → akKey report s = key) (hbase : ∀ s, V s → s.baselines = t)
  (hl : ∀ o ∈ l, ∃ s, V s ∧ (commit exec o.1 s).1 = o.2)
include hkey hbase hl

/-- Without the strict check no check can tell the databases apart. -/
theorem run_of_checks_path_lax (hstrict : policy.strictEkVerification = false)
    (h : Path (inOrder (reportChecks platform policy report)) l (ofExcept outcome))
    {db : Database} (hdb : V db) :
    ((inOrder (reportChecks platform policy report)).run exec db).1 = outcome := by
  refine run_of_inOrder_path (V := V) (fun check => reportChecks_atomic)
    (fun check hcheck => run_reportChecks hcheck db) ?_ hl h
  intro check hcheck s hs
  have hk : akKey report s = akKey report db := (hkey s hs).trans (hkey db hdb).symm
  have hb : s.baselines = db.baselines := (hbase s hs).trans (hbase db hdb).symm
  have hlax : checkStrictEk platform policy report = ret none := by
    simp [checkStrictEk, hstrict]
  rcases List.mem_cons.mp hcheck with rfl | hcheck
  · rfl
  rcases List.mem_cons.mp hcheck with rfl | hcheck
  · exact verifyQuoteSignature_congr hk
  rcases List.mem_cons.mp hcheck with rfl | hcheck
  · rw [hlax]
    rfl
  · exact run_eq_of_akKey hcheck hk hb

/-- The checks from the strict one on, under a strict policy. -/
theorem run_of_strict_path (hstrict : policy.strictEkVerification = true)
    (h : Path (inOrder ((reportChecks platform policy report).drop 2)) l (ofExcept outcome))
    (hne : ∃ s, V s) :
    ∃ db, V db ∧ ((inOrder ((reportChecks platform policy report).drop 2)).run exec db).1 = outcome ∧
      ∀ row, (l.filterMap lookupOf)[0]? = some row →
        row = namedMachine report db := by
  have hcons : (reportChecks platform policy report).drop 2 =
      checkStrictEk platform policy report :: (reportChecks platform policy report).drop 3 := rfl
  have hmem : checkStrictEk platform policy report ∈ reportChecks platform policy report := by
    simp [reportChecks]
  rw [hcons] at h ⊢
  obtain ⟨l₁, l₂, r, rfl, hpath, hrest⟩ := inOrder_cons_path h
  rw [List.forall_mem_append] at hl
  rcases checkStrictEk_path hstrict hpath with ⟨rfl, heq, hr⟩ | ⟨machineId, x, hid, rfl⟩
  · -- no machine is named, and that is the verdict
    obtain ⟨db, hdb⟩ := hne
    rcases hrest with ⟨rfl, -, rfl⟩ | ⟨hnone, -⟩
    · refine ⟨db, hdb, run_inOrder_stop ?_ hr, fun row hrow => by cases hrow⟩
      rw [heq, run_ofExcept]
    · exact absurd hnone hr
  · obtain ⟨db, hdb, hx⟩ := hl.1 _ (List.mem_singleton_self _)
    obtain rfl : .ok (db.enrolledMachines machineId) = x := hx
    have hr : ((checkStrictEk platform policy report).run exec db).1 = r := by
      rcases hpath.atomic exec checkStrictEk_atomic with ⟨hnil, -⟩ | ⟨o, ho, hrun⟩
      · cases hnil
      · obtain rfl := List.singleton_inj.mp ho
        exact hrun db rfl
    refine ⟨db, hdb, ?_, ?_⟩
    · rcases hrest with ⟨-, hstop, rfl⟩ | ⟨rfl, hrest⟩
      · exact run_inOrder_stop hr hstop
      · rw [run_inOrder_pass (run_reportChecks hmem db) hr]
        refine run_of_inOrder_path (V := V)
          (fun check hcheck => reportChecks_atomic (List.mem_of_mem_drop hcheck))
          (fun check hcheck => run_reportChecks (List.mem_of_mem_drop hcheck) db) ?_ hl.2 hrest
        intro check hcheck s hs
        exact run_eq_of_akKey hcheck ((hkey s hs).trans (hkey db hdb).symm)
          ((hbase s hs).trans (hbase db hdb).symm)
    · intro row hrow
      rw [namedMachine_of_truthy hid]
      exact (Option.some.inj hrow).symm

/-- **The checks along a path**, when the databases of its transactions have one AK
key and one table of baselines, give what they give alone on one of these
databases; under a strict policy, on the one that the second lookup read. -/
theorem run_of_checks_path (hne : ∃ s, V s)
    (h : Path (inOrder (reportChecks platform policy report)) l (ofExcept outcome)) :
    ∃ db, V db ∧ ((inOrder (reportChecks platform policy report)).run exec db).1 = outcome ∧
      (policy.strictEkVerification = true → ∀ row, (l.filterMap lookupOf)[1]? = some row →
        row = namedMachine report db) := by
  obtain ⟨s, hs⟩ := hne
  by_cases hstrict : policy.strictEkVerification = true
  · -- the presence of the quote, and its signature
    have hcons : reportChecks platform policy report = ret (checkQuotePresent report) ::
      verifyQuoteSignature platform report :: (reportChecks platform policy report).drop 2 := rfl
    have hmem : verifyQuoteSignature platform report ∈ reportChecks platform policy report := by
      simp [reportChecks]
    rw [hcons] at h ⊢
    obtain ⟨l₀, l', r₀, rfl, hpath₀, hrest₀⟩ := inOrder_cons_path h
    obtain ⟨rfl, hr₀⟩ := Path.of_finished (p := .ret (checkQuotePresent report)) trivial hpath₀
    have hinj : ∀ r, (ofExcept r₀ : ServerM (Option Reason)) = ofExcept r → r₀ = r :=
      fun r => ofExcept_injective
    obtain rfl := hinj (.ok (checkQuotePresent report)) hr₀
    rcases hrest₀ with ⟨rfl, hstop, rfl⟩ | ⟨hpass, hrest₀⟩
    · exact ⟨s, hs, run_inOrder_stop rfl hstop, fun _ row hrow => by cases hrow⟩
    have hrun₀ : ∀ checks db,
        ((inOrder (ret (checkQuotePresent report) :: checks)).run exec db).1 =
          ((inOrder checks).run exec db).1 := fun checks db => run_inOrder_pass rfl hpass
    obtain ⟨l₁, l₂, r₁, rfl, hpath₁, hrest₁⟩ := inOrder_cons_path hrest₀
    rw [List.nil_append, List.forall_mem_append] at hl
    have hr₁ : ∀ db, V db → ((verifyQuoteSignature platform report).run exec db).1 = r₁ :=
      fun db hdb => run_of_path verifyQuoteSignature_atomic
        (fun s hs => verifyQuoteSignature_congr ((hkey s hs).trans (hkey db hdb).symm)) hl.1 hpath₁
    rcases hrest₁ with ⟨rfl, hstop, rfl⟩ | ⟨rfl, hrest₁⟩
    · refine ⟨s, hs, ?_, fun _ row hrow => ?_⟩
      · rw [hrun₀]
        exact run_inOrder_stop (hr₁ s hs) hstop
      · rw [List.nil_append, List.append_nil, second_lookup hpath₁] at hrow
        cases hrow
    · obtain ⟨db, hdb, hrun, hfirst⟩ := run_of_strict_path hkey hbase hl.2 hstrict hrest₁ ⟨s, hs⟩
      refine ⟨db, hdb, ?_, fun _ row hrow => ?_⟩
      · rw [hrun₀, run_inOrder_pass (run_reportChecks hmem db) (hr₁ db hdb)]
        exact hrun
      · cases hid : truthy report.machineId with
        | none =>
          -- the strict check ends the path without a lookup
          have hstop : checkStrictEk platform policy report = ret (some .noMachineId) := by
            simp [checkStrictEk, hstrict, hid]
          change Path ((checkStrictEk platform policy report).bind _) l₂ _ at hrest₁
          rw [hstop] at hrest₁
          obtain ⟨rfl, -⟩ := Path.of_finished (p := .ret (some Reason.noMachineId)) trivial hrest₁
          rw [List.nil_append, List.append_nil, second_lookup hpath₁] at hrow
          cases hrow
        | some machineId =>
          obtain ⟨x, rfl⟩ := verifyQuoteSignature_path hid hpath₁
          obtain ⟨s', -, hx⟩ := hl.1 _ (List.mem_singleton_self _)
          obtain rfl : .ok (s'.enrolledMachines machineId) = x := hx
          exact hfirst row hrow
  · exact ⟨s, hs, run_of_checks_path_lax hkey hbase hl (Bool.eq_false_iff.mpr hstrict) h hs,
      fun hpolicy => absurd hpolicy hstrict⟩

end

/-- The checks read the machines and the baselines. -/
theorem run_reportChecks_congr {db db' : Database}
    (hmachines : db.enrolledMachines = db'.enrolledMachines)
    (hbase : db.baselines = db'.baselines) :
    ((inOrder (reportChecks platform policy report)).run exec db).1 =
      ((inOrder (reportChecks platform policy report)).run exec db').1 := by
  have hkey : akKey report db = akKey report db' := by
    unfold akKey namedMachine
    rw [hmachines]
  have hcheck : ∀ check ∈ reportChecks platform policy report,
      (check.run exec db).1 = (check.run exec db').1 := by
    intro check hmem
    rcases List.mem_cons.mp hmem with rfl | hmem
    · rfl
    rcases List.mem_cons.mp hmem with rfl | hmem
    · exact verifyQuoteSignature_congr hkey
    rcases List.mem_cons.mp hmem with rfl | hmem
    · exact checkStrictEk_congr hmachines
    · exact run_eq_of_akKey hmem hkey hbase
  have hstore : ∀ db, ∀ check ∈ reportChecks platform policy report, (check.run exec db).2 = db :=
    fun db check hmem => run_reportChecks hmem db
  have hdb := hstore db
  have hdb' := hstore db'
  generalize reportChecks platform policy report = checks at hcheck hdb hdb'
  induction checks with
  | nil => rfl
  | cons check checks ih =>
    rw [List.forall_mem_cons] at hcheck hdb hdb'
    by_cases hpass : (check.run exec db).1 = .ok none
    · rw [run_inOrder_pass hdb.1 hpass, run_inOrder_pass hdb'.1 (hcheck.1.symm.trans hpass)]
      exact ih hcheck.2 hdb.2 hdb'.2
    · rw [run_inOrder_stop rfl hpass, run_inOrder_stop hcheck.1.symm hpass]

end Lookups

/-! ## An attestation in a run of registrations -/

section Runs
variable {ι : Type} [DecidableEq ι]

/-- The database that the requests other than `i` lead to. -/
def without (i : ι) (db : Database) (tr : List (ServerEvent ι)) : Database :=
  (tr.filter (·.thread ≠ i)).foldl (fun db ev => (commit exec ev.op db).2) db

/-- The rows that the lookups of request `i` found, in their order. -/
def lookups (i : ι) (tr : List (ServerEvent ι)) : List (Option Machine) :=
  (history i tr).filterMap lookupOf

/-- Where request `i` looks its machine up again, the machine has the AK key that
the earlier lookups found, or is still not registered. -/
def KeepsKey (i : ι) : Guard Database ι Tx.Ret Exn Response := fun tr c ev =>
  ∀ machineId, ev.thread = i → ev.op = .selectMachine machineId → ∀ row ∈ lookups i tr,
    row.map (·.akPubB64) = (c.store.enrolledMachines machineId).map (·.akPubB64)

/-- The lookups agree with one state of the machines: every one with its AK key and
enrollment status, and the one of strict verification, which is the second, with its
`ek_verified` bit. -/
structure OneRegistration (policy : Policy) (report : AttestationReport)
    (rows : List (Option Machine)) (db : Database) : Prop where
  akKey : ∀ row ∈ rows, row.map (·.akPubB64) = akKey report db
  ekVerified : policy.strictEkVerification = true → ∀ row, rows[1]? = some row →
    row.map (·.ekVerified) = (namedMachine report db).map (·.ekVerified)

/-- The attestation ends as it would if it were served alone at some point between
the other requests, and its lookups agree with the machines at that point. -/
def ServedAtOnce (platform : Platform) (policy : Policy) (db : Database) (report : AttestationReport)
    (env : Env) (i : ι) (tr : List (ServerEvent ι)) (outcome : Except Exn Response) : Prop :=
  ∃ t₁ t₂, tr = t₁ ++ t₂ ∧
    ((attest platform policy report env).run exec (without i db t₁)).1 = outcome ∧
    OneRegistration policy report (lookups i tr) (without i db t₁)

variable {platform : Platform} {policy : Policy} {db : Database} {arrivals : ι → Arrival}
  {guard : Guard Database ι Tx.Ret Exn Response} {tr : List (ServerEvent ι)}
  {c c' : Config Database ι Tx.Ret Exn Response} {ev : ServerEvent ι} {i : ι}

theorem without_snoc_self (db : Database) (tr : List (ServerEvent ι)) (ev : ServerEvent ι) :
    without ev.thread db (tr ++ [ev]) = without ev.thread db tr := by
  simp [without]

theorem without_snoc_other (db : Database) (tr : List (ServerEvent ι)) (h : ev.thread ≠ i) :
    without i db (tr ++ [ev]) = (commit exec ev.op (without i db tr)).2 := by
  simp [without, h]

/-- The store in a run of one attestation and registrations: up to the nonces it is
what the registrations lead to, and these change the machines only. -/
structure Interleaved (i : ι) (db : Database) (tr : List (ServerEvent ι)) (store : Database) :
    Prop where
  enrolledMachines : store.enrolledMachines = (without i db tr).enrolledMachines
  baselines : store.baselines = db.baselines
  without_baselines : (without i db tr).baselines = db.baselines
  without_nonces : (without i db tr).activeNonces = db.activeNonces
  nonces : (∀ o ∈ history i tr, ∀ nonce now, o.1 ≠ .consumeNonce nonce now) →
    store.activeNonces = db.activeNonces

/-- An attestation consumes its nonce and looks up. -/
theorem attest_op {arrival : Arrival} {report : AttestationReport} {op : Tx}
    (hreq : arrival.request = .attest report) (h : Footprint platform arrival op) :
    (∃ nonce now, op = .consumeNonce nonce now) ∨ IsLookup report op := by
  obtain ⟨request, env⟩ := arrival
  subst hreq
  cases op with
  | consumeNonce nonce now => exact Or.inl ⟨nonce, now, rfl⟩
  | selectMachine machineId =>
    obtain ⟨report', hreport, hid⟩ := h
    cases hreport
    exact Or.inr hid
  | selectActiveRoot => exact Or.inr trivial
  | selectActivePcrJson => exact Or.inr trivial
  | _ => simp [Footprint] at h

/-- A registration writes a row of a machine. -/
theorem register_op {arrival : Arrival} {req : RegisterRequest} {op : Tx}
    (hreq : arrival.request = .register req) (h : Footprint platform arrival op) :
    ∃ machineId row, op = .upsertMachine machineId row := by
  obtain ⟨request, env⟩ := arrival
  subst hreq
  cases op with
  | upsertMachine machineId row => exact ⟨machineId, row, rfl⟩
  | _ => simp [Footprint, Request.report] at h

theorem interleaved_of_run {report : AttestationReport}
    (hreq : (arrivals i).request = .attest report)
    (hregs : ∀ j, j ≠ i → ∃ req, (arrivals j).request = .register req)
    (h : Run exec noFaults guard (start platform policy db arrivals) tr c) :
    Interleaved i db tr c.store := by
  refine h.invariant (I := fun tr c => Interleaved i db tr c.store)
    ⟨rfl, rfl, rfl, rfl, fun _ => rfl⟩ ?_
  intro tr c c' ev hr ih hg hs
  have hfoot := footprint_of_run (.step hr hg hs) ev (by simp)
  rw [hs.committed.2]
  by_cases hi : ev.thread = i
  · subst hi
    rcases attest_op hreq hfoot with ⟨nonce, now, hop⟩ | hlookup
    · rw [hop, commit_consumeNonce]
      refine ⟨?_, ih.baselines, ?_, ?_, fun hno => ?_⟩
      · rw [without_snoc_self]
        exact ih.enrolledMachines
      · rw [without_snoc_self]
        exact ih.without_baselines
      · rw [without_snoc_self]
        exact ih.without_nonces
      · refine absurd hop (hno ⟨ev.op, ev.outcome⟩ ?_ nonce now)
        rw [history_snoc_self]
        simp
    · rw [commit_lookup hlookup]
      refine ⟨?_, ih.baselines, ?_, ?_, fun hno => ?_⟩
      · rw [without_snoc_self]
        exact ih.enrolledMachines
      · rw [without_snoc_self]
        exact ih.without_baselines
      · rw [without_snoc_self]
        exact ih.without_nonces
      · refine ih.nonces fun o ho => hno o ?_
        rw [history_snoc_self]
        exact List.mem_append_left _ ho
  · obtain ⟨req, hreq'⟩ := hregs ev.thread hi
    obtain ⟨machineId, row, hop⟩ := register_op hreq' hfoot
    rw [hop]
    refine ⟨?_, ih.baselines, ?_, ?_, ?_⟩
    · rw [without_snoc_other db tr hi, hop, commit_upsertMachine, commit_upsertMachine,
        ih.enrolledMachines]
    · rw [without_snoc_other db tr hi, hop]
      exact ih.without_baselines
    · rw [without_snoc_other db tr hi, hop]
      exact ih.without_nonces
    · rw [history_snoc_other tr hi]
      exact ih.nonces

/-- A transaction of the run, at its place. -/
theorem observed (h : Run exec noFaults guard (start platform policy db arrivals) tr c)
    {o : Observation Tx.Ret Exn} (ho : o ∈ history i tr) :
    ∃ t₁ t₂ c₁, tr = t₁ ++ ⟨i, o.1, o.2⟩ :: t₂ ∧
      Run exec noFaults guard (start platform policy db arrivals) t₁ c₁ ∧
      o.2 = (commit exec o.1 c₁.store).1 := by
  obtain ⟨t₁, t₂, htr⟩ := List.append_of_mem (mem_history.mp ho)
  obtain ⟨c₁, c₂, hr, -, hs⟩ := h.split htr
  exact ⟨t₁, t₂, c₁, htr, hr, hs.committed.1⟩

theorem mem_lookups {row : Option Machine} :
    row ∈ lookups i tr ↔ ∃ machineId, ⟨.selectMachine machineId, .ok row⟩ ∈ history i tr := by
  unfold lookups
  rw [List.mem_filterMap]
  constructor
  · rintro ⟨⟨op, outcome⟩, ho, hrow⟩
    cases op with
    | selectMachine machineId =>
      cases outcome with
      | ok row' =>
        cases hrow
        exact ⟨machineId, ho⟩
      | error e => cases hrow
    | _ => cases hrow
  · rintro ⟨machineId, ho⟩
    exact ⟨_, ho, rfl⟩

/-- **The lookups find one AK key.** -/
theorem lookups_agree
    (h : Run exec noFaults (KeepsKey i) (start platform policy db arrivals) tr c) :
    ∀ row ∈ lookups i tr, ∀ row' ∈ lookups i tr,
      row.map (·.akPubB64) = row'.map (·.akPubB64) := by
  refine h.invariant (I := fun tr _ => ∀ row ∈ lookups i tr, ∀ row' ∈ lookups i tr,
    row.map (·.akPubB64) = row'.map (·.akPubB64)) (fun row hrow => by cases hrow) ?_
  intro tr c c' ev hr ih hg hs
  by_cases hi : ev.thread = i
  · subst hi
    have hnew : ∀ row, lookupOf ⟨ev.op, ev.outcome⟩ = some row → ∀ row' ∈ lookups ev.thread tr,
        row'.map (·.akPubB64) = row.map (·.akPubB64) := by
      intro row hrow row' hrow'
      obtain ⟨i, op, outcome⟩ := ev
      cases op with
      | selectMachine machineId =>
        obtain rfl : outcome = .ok (c.store.enrolledMachines machineId) := hs.committed.1
        cases hrow
        exact hg machineId rfl rfl row' hrow'
      | _ => cases hrow
    have hlookups : lookups ev.thread (tr ++ [ev]) =
        lookups ev.thread tr ++ (lookupOf ⟨ev.op, ev.outcome⟩).toList := by
      unfold lookups
      rw [history_snoc_self, List.filterMap_append, List.filterMap_cons]
      cases lookupOf ⟨ev.op, ev.outcome⟩ with
      | none => rfl
      | some row => rfl
    rw [hlookups]
    intro row hrow row' hrow'
    rw [List.mem_append, Option.mem_toList] at hrow hrow'
    rcases hrow with hrow | hrow <;> rcases hrow' with hrow' | hrow'
    · exact ih row hrow row' hrow'
    · exact hnew row' hrow' row hrow
    · exact (hnew row hrow row' hrow').symm
    · rw [Option.some.inj (hrow.symm.trans hrow')]
  · unfold lookups
    rw [history_snoc_other tr hi]
    exact ih

/-- The paths of an attestation are those of its verification, and its answer is
made from the verdict. -/
theorem attest_path {report : AttestationReport} {env : Env} {l : List (Observation Tx.Ret Exn)}
    {outcome : Except Exn Response}
    (h : Path (attest platform policy report env) l (ofExcept outcome)) :
    ∃ verdict, Path (verifyReport platform policy report env) l (ofExcept verdict) ∧
      ∀ s, ((verifyReport platform policy report env).run exec s).1 = verdict →
        ((attest platform policy report env).run exec s).1 = outcome := by
  have hrun : ∀ s, (attest platform policy report env).run exec s = _ := fun s => run_bind exec _ _ s
  rcases h.bind (finished_ofExcept outcome) with ⟨e, he, hpath⟩ | ⟨verdict, l₁, l₂, rfl, hpath, hrest⟩
  · refine ⟨.error e, hpath, fun s hs => ?_⟩
    obtain rfl : outcome = .error e := ofExcept_injective he
    rw [hrun]
    generalize (verifyReport platform policy report env).run exec s = r at hs ⊢
    obtain ⟨r, s'⟩ := r
    obtain rfl : r = .error e := hs
    rfl
  · have hfin : (attestResponse env verdict).Finished := by
      cases verdict with
      | some reason => trivial
      | none => exact (finished_ofExcept _).bind fun _ => trivial
    obtain ⟨rfl, hret⟩ := Path.of_finished hfin hrest
    refine ⟨.ok verdict, by rwa [List.append_nil], fun s hs => ?_⟩
    rw [hrun]
    generalize (verifyReport platform policy report env).run exec s = r at hs ⊢
    obtain ⟨r, s'⟩ := r
    obtain rfl : r = .ok verdict := hs
    change ((attestResponse env verdict).run exec s').1 = outcome
    rw [← hret, run_ofExcept]

/-- A path through a verification: the nonce transaction, and unless that gives a
reason a path through the other checks. -/
theorem verifyReport_path {report : AttestationReport} {env : Env}
    {l : List (Observation Tx.Ret Exn)} {verdict : Except Exn (Option Reason)}
    (h : Path (verifyReport platform policy report env) l (ofExcept verdict)) :
    ∃ r l' verdict₀, l = ⟨.consumeNonce report.nonce env.now, r⟩ :: l' ∧
      (∀ s, (commit exec (.consumeNonce report.nonce env.now) s).1 = r →
        nonceVerdict env.now (purgeNonces s.activeNonces env.now.isoformat report.nonce) =
          verdict₀) ∧
      ((l' = [] ∧ verdict₀ ≠ .ok none ∧ verdict = verdict₀) ∨
        (verdict₀ = .ok none ∧
          Path (inOrder (reportChecks platform policy report)) l' (ofExcept verdict))) := by
  obtain ⟨l₀, l', verdict₀, rfl, hpath, hrest⟩ := inOrder_cons_path h
  have hatomic : (consumeNonce report.nonce env.now).Atomic :=
    (atomic_perform _).bind fun _ => finished_ofExcept _
  obtain ⟨r, rfl⟩ := path_of_call rfl hatomic hpath
  refine ⟨r, l', verdict₀, rfl, fun s hs => ?_, hrest⟩
  rcases hpath.atomic exec hatomic with ⟨hnil, -⟩ | ⟨o, ho, hrun⟩
  · cases hnil
  · obtain rfl := List.singleton_inj.mp ho
    have h := hrun s hs
    rw [run_consumeNonce] at h
    exact h

section Assembly
variable {report : AttestationReport} (hreq : (arrivals i).request = .attest report)
  (hregs : ∀ j, j ≠ i → ∃ req, (arrivals j).request = .register req)
include hreq hregs

/-- The nonce transaction finds the nonces as they were at the start. -/
theorem first_nonce (h : Run exec noFaults guard (start platform policy db arrivals) tr c)
    {nonce : String} {now : DateTime} {r : Except Exn (Option String)}
    {l : List (Observation Tx.Ret Exn)}
    (hl : history i tr = ⟨.consumeNonce nonce now, r⟩ :: l) (hlookup : ∀ o ∈ l, IsLookup report o.1) :
    r = .ok (purgeNonces db.activeNonces now.isoformat nonce) := by
  obtain ⟨t₁, t₂, c₁, htr, hr, hcommit⟩ :=
    observed h (o := ⟨.consumeNonce nonce now, r⟩) (by rw [hl]; exact List.mem_cons_self)
  have hfirst : history i t₁ = [] := by
    rw [htr, history_append] at hl
    cases hhist : history i t₁ with
    | nil => rfl
    | cons o l₁ =>
      -- a nonce transaction before would make this one a lookup
      rw [hhist] at hl
      refine (hlookup ⟨.consumeNonce nonce now, r⟩ ?_).elim
      rw [← (List.cons.inj hl).2]
      simp [history]
  have hnonces := (interleaved_of_run hreq hregs hr).nonces (by rw [hfirst]; simp)
  rw [commit_consumeNonce, hnonces] at hcommit
  exact hcommit

/-- The databases of the points of the run at which the machine has an AK key. -/
def AtPoint (report : AttestationReport) (i : ι) (db : Database) (tr : List (ServerEvent ι))
    (key : Option String) (s : Database) : Prop :=
  akKey report s = key ∧ s.baselines = db.baselines ∧
    ∃ t₁ t₂, tr = t₁ ++ t₂ ∧ s.enrolledMachines = (without i db t₁).enrolledMachines

/-- A lookup reads at a point where the machine has the key it finds. -/
theorem atPoint_of_lookup (h : Run exec noFaults guard (start platform policy db arrivals) tr c)
    {row : Option Machine} (hrow : row ∈ lookups i tr) :
    ∃ s, AtPoint report i db tr (row.map (·.akPubB64)) s ∧ namedMachine report s = row := by
  obtain ⟨machineId, ho⟩ := mem_lookups.mp hrow
  obtain ⟨t₁, t₂, c₁, htr, hr, hcommit⟩ := observed h ho
  have hid : report.machineId = some machineId := by
    have hfoot := footprint_of_run h _ (mem_history.mp ho)
    rcases attest_op hreq hfoot with ⟨_, _, hop⟩ | hlookup
    · cases hop
    · exact hlookup
  have hinter := interleaved_of_run hreq hregs hr
  have hnamed : namedMachine report c₁.store = row := by
    rw [namedMachine, hid]
    exact (Except.ok.inj hcommit).symm
  refine ⟨c₁.store, ⟨?_, hinter.baselines, t₁, _, htr, hinter.enrolledMachines⟩, hnamed⟩
  rw [akKey, hnamed]

/-- There is a point with the key that the lookups find. -/
theorem exists_atPoint
    (h : Run exec noFaults (KeepsKey i) (start platform policy db arrivals) tr c) :
    ∃ key, (∃ s, AtPoint report i db tr key s) ∧
      ∀ row ∈ lookups i tr, row.map (·.akPubB64) = key := by
  cases hrows : lookups i tr with
  | nil => exact ⟨_, ⟨db, rfl, rfl, [], tr, rfl, rfl⟩, by simp⟩
  | cons row rows =>
    have hmem : row ∈ lookups i tr := by rw [hrows]; exact List.mem_cons_self
    obtain ⟨s, hs, -⟩ := atPoint_of_lookup hreq hregs h hmem
    refine ⟨_, ⟨s, hs⟩, fun row' hrow' => ?_⟩
    exact lookups_agree h row' (by rw [hrows]; exact hrow') row hmem

/-- Every transaction after the nonce's reads what it would at a point with the key. -/
theorem read_atPoint (h : Run exec noFaults guard (start platform policy db arrivals) tr c)
    {key : Option String} (hne : ∃ s, AtPoint report i db tr key s)
    (hkey : ∀ row ∈ lookups i tr, row.map (·.akPubB64) = key) {o : Observation Tx.Ret Exn}
    (ho : o ∈ history i tr) (hlookup : IsLookup report o.1) :
    ∃ s, AtPoint report i db tr key s ∧ (commit exec o.1 s).1 = o.2 := by
  obtain ⟨t₁, t₂, c₁, htr, hr, hcommit⟩ := observed h ho
  have hinter := interleaved_of_run hreq hregs hr
  obtain ⟨op, outcome⟩ := o
  cases op with
  | selectMachine machineId =>
    obtain rfl : outcome = .ok (c₁.store.enrolledMachines machineId) := hcommit
    obtain ⟨s, hs, hnamed⟩ := atPoint_of_lookup hreq hregs h (mem_lookups.mpr ⟨machineId, ho⟩)
    rw [hkey _ (mem_lookups.mpr ⟨machineId, ho⟩)] at hs
    refine ⟨s, hs, ?_⟩
    rw [namedMachine, show report.machineId = some machineId from hlookup] at hnamed
    exact congrArg Except.ok hnamed
  | selectActiveRoot =>
    obtain ⟨s, hs⟩ := hne
    refine ⟨s, hs, ?_⟩
    rw [hcommit, commit_selectActiveRoot, commit_selectActiveRoot, hs.2.1, hinter.baselines]
  | selectActivePcrJson =>
    obtain ⟨s, hs⟩ := hne
    refine ⟨s, hs, ?_⟩
    rw [hcommit, commit_selectActivePcrJson, commit_selectActivePcrJson, hs.2.1, hinter.baselines]
  | _ => exact hlookup.elim

end Assembly

/-- **An attestation is served at once** among registrations: in every run from any
database in which its lookups find one AK key, an `/attest` that is over ended as it
would have alone at some point between the other requests, and the AK key, the
`ek_verified` bit and the enrollment status that it used are those of that point. -/
theorem attest_served_at_once (platform : Platform) (policy : Policy) (db : Database)
    (arrivals : ι → Arrival) (i : ι) (report : AttestationReport)
    (hreq : (arrivals i).request = .attest report)
    (hregs : ∀ j, j ≠ i → ∃ req, (arrivals j).request = .register req)
    (tr : List (ServerEvent ι)) (c : Config Database ι Tx.Ret Exn Response)
    (h : Run exec noFaults (KeepsKey i) (start platform policy db arrivals) tr c)
    (outcome : Except Exn Response) (hdone : c.threads i = ofExcept outcome) :
    ServedAtOnce platform policy db report (arrivals i).env i tr outcome := by
  have hpath := h.path i
  change Path (serve platform policy _ (arrivals i).request) _ _ at hpath
  rw [hreq, hdone] at hpath
  obtain ⟨verdict, hverify, hattest⟩ := attest_path hpath
  obtain ⟨r, l, verdict₀, hl, hnonce, hrest⟩ := verifyReport_path hverify
  have hlookup : ∀ o ∈ l, IsLookup report o.1 := by
    rcases hrest with ⟨rfl, -⟩ | ⟨-, hchecks⟩
    · simp
    · exact (hchecks.ensures (G := fun _ _ => True) (E := fun _ => True)
        (reportChecks_ensures fun _ _ _ _ => trivial) fun _ _ => trivial).1
  obtain rfl := first_nonce hreq hregs h hl hlookup
  have hfirst : ∀ s : Database, s.activeNonces = db.activeNonces →
      nonceVerdict (arrivals i).env.now
        (purgeNonces s.activeNonces (arrivals i).env.now.isoformat report.nonce) = verdict₀ :=
    fun s hs => hnonce s (by rw [commit_consumeNonce, hs])
  have hrows : lookups i tr = l.filterMap lookupOf := by
    rw [lookups, hl]
    rfl
  rcases hrest with ⟨rfl, hstop, rfl⟩ | ⟨rfl, hchecks⟩
  · -- the nonce gives a reason, and there was no lookup
    refine ⟨[], tr, rfl, hattest _ ?_, by rw [hrows]; exact ⟨by simp, by simp⟩⟩
    rw [run_verifyReport, hfirst (without i db []) rfl]
    cases verdict with
    | error e => rfl
    | ok verdict =>
      cases verdict with
      | none => exact absurd rfl hstop
      | some reason => rfl
  · obtain ⟨key, hne, hkey⟩ := exists_atPoint hreq hregs h
    obtain ⟨s, ⟨hskey, hsbase, t₁, t₂, htr, hmachines⟩, hrun, hsecond⟩ :=
      run_of_checks_path (V := AtPoint report i db tr key) (fun s hs => hs.1) (fun s hs => hs.2.1)
        (fun o ho => read_atPoint hreq hregs h hne hkey
          (by rw [hl]; exact List.mem_cons_of_mem _ ho) (hlookup o ho)) hne hchecks
    obtain ⟨c₁, hr⟩ := (htr ▸ h).before
    have hpoint := interleaved_of_run hreq hregs hr
    have hnamed : namedMachine report (without i db t₁) = namedMachine report s := by
      unfold namedMachine
      rw [hmachines]
    refine ⟨t₁, t₂, htr, hattest _ ?_, ⟨fun row hrow => ?_, fun hstrict row hrow => ?_⟩⟩
    · rw [run_verifyReport, hfirst _ hpoint.without_nonces, ← hrun]
      refine run_reportChecks_congr ?_ ?_
      · rw [commit_consumeNonce, hmachines]
      · rw [commit_consumeNonce, hsbase]
        exact hpoint.without_baselines
    · rw [hkey row hrow, ← hskey, akKey, akKey, hnamed]
    · rw [hrows] at hrow
      rw [hsecond hstrict row hrow, hnamed]

end Runs

/-- A platform on which the AK key of three zero bytes signs every quote, and all
bytes are a certificate. -/
def oneKeyPlatform : Platform :=
  { certifyingPlatform with checkquote := fun key _ _ _ => key == [0, 0, 0] }

/-- A nonce, and a machine with that key and no EK material. -/
def challengeAndRegister : Bool → Arrival
  | false => ⟨.challenge, sampleEnv⟩
  | true => ⟨.register ⟨"machine", "AAAA", none⟩, sampleEnv⟩

def registeredDatabase : Database :=
  (replay exec (start oneKeyPlatform strictPolicy .empty challengeAndRegister) [false, true]).2.store

def machineReport : AttestationReport :=
  { sampleReport sampleEnv.token with machineId := some "machine" }

/-- An attestation of the machine, and its registration with another AK key and a
certificate. -/
def attestAndRegister (akPubB64 : String) : Bool → Arrival
  | true => ⟨.attest machineReport, sampleEnv⟩
  | false => ⟨.register ⟨"machine", akPubB64, some "AAAAAA=="⟩, sampleEnv⟩

/-- The registration comes between the first two lookups of the attestation. -/
def registrationSchedule : List Bool := [true, true, false, true, true, true]

def tornRun (akPubB64 : String) (k : Nat) :
    List (ServerEvent Bool) × Config Database Bool Tx.Ret Exn Response :=
  replay exec (start oneKeyPlatform strictPolicy registeredDatabase (attestAndRegister akPubB64))
    (registrationSchedule.take k)

/-- With the same AK key again the attestation is served at the point after the
registration. -/
theorem tornRun_steps : ∀ k < 6,
    (∀ i, registrationSchedule[k]? = some i → ((tornRun "AAAA" k).2.threads i).pending =
      [Tx.consumeNonce "c0ffee" noon, .selectMachine "machine",
        .upsertMachine "machine" ⟨"AAAA", some "AAAAAA==", true, "2024-06-01T12:00:00+00:00"⟩,
        .selectMachine "machine", .selectMachine "machine", .selectActiveRoot][k]?) ∧
    (∀ row ∈ lookups true (tornRun "AAAA" k).1, row.map (·.akPubB64) = some "AAAA") ∧
    ((tornRun "AAAA" k).2.store.enrolledMachines "machine").map (·.akPubB64) = some "AAAA" := by
  decide +kernel

theorem attest_served_at_once_same_key :
    ServedAtOnce oneKeyPlatform strictPolicy registeredDatabase machineReport sampleEnv true
      (tornRun "AAAA" 6).1 (.ok (.valid "token" "2024-06-01T12:05:00+00:00")) := by
  have hret : ((tornRun "AAAA" 6).2.threads true).returned =
      some (.valid "token" "2024-06-01T12:05:00+00:00") := by
    decide +kernel
  refine attest_served_at_once oneKeyPlatform strictPolicy registeredDatabase
    (attestAndRegister "AAAA") true machineReport rfl ?_ _ (tornRun "AAAA" 6).2
    (replay_guarded exec (start oneKeyPlatform strictPolicy registeredDatabase
      (attestAndRegister "AAAA")) registrationSchedule ?_) _ (returned_eq_some.mp hret)
  · rintro (_ | _) hj
    · exact ⟨_, rfl⟩
    · exact absurd rfl hj
  · rintro k i hk op next hcall outcome - machineId rfl rfl row hrow
    obtain ⟨hpending, hrows, hstore⟩ := tornRun_steps k (List.getElem?_eq_some_iff.mp hk).1
    obtain rfl : machineId = "machine" := by
      have hop := hpending _ hk
      rw [show (tornRun "AAAA" k).2.threads _ = _ from hcall] at hop
      clear hcall hpending hrows hstore hrow hk
      match k with
      | 0 | 2 | 5 => cases hop
      | 1 | 3 | 4 => cases hop; rfl
    exact (hrows row hrow).trans hstore.symm

/-- With another AK key the quote is checked against the old key and the bit is that
of the new registration: accepted, and rejected alone at every point. -/
theorem attest_torn :
    Reachable oneKeyPlatform registeredDatabase ∧ ∃ tr c token expiresAt,
      Run exec noFaults unguarded
        (start oneKeyPlatform strictPolicy registeredDatabase (attestAndRegister "AQID")) tr c ∧
      c.threads true = .ret (.valid token expiresAt) ∧
      ∀ t₁ t₂, tr = t₁ ++ t₂ →
        ¬ Accepted oneKeyPlatform strictPolicy sampleEnv (without true registeredDatabase t₁)
          machineReport := by
  have hret : ((tornRun "AQID" 6).2.threads true).returned =
      some (.valid "token" "2024-06-01T12:05:00+00:00") := by
    decide +kernel
  refine ⟨.run .empty ((replay_run _ _ _).faulty databaseFaults), (tornRun "AQID" 6).1,
    (tornRun "AQID" 6).2, _, _, replay_run _ _ _, returned_eq_some.mp hret, ?_⟩
  rintro t₁ t₂ htr ⟨token, expiresAt, haccepted⟩
  have hlen : t₁.length < 7 := by
    have hlength := congrArg List.length htr
    rw [show (tornRun "AQID" 6).1.length = 6 by decide +kernel, List.length_append] at hlength
    omega
  have hrejected : ∀ k < 7, ∃ reason ∈ [Reason.machineNotVerified "'machine'", .quoteSignatureFailed],
      ((attest oneKeyPlatform strictPolicy machineReport sampleEnv).run exec
        (without true registeredDatabase ((tornRun "AQID" 6).1.take k))).1 =
          .ok (.invalid reason) := by
    decide +kernel
  obtain ⟨reason, -, hreason⟩ := hrejected t₁.length hlen
  rw [htr, List.take_left] at hreason
  cases haccepted.symm.trans hreason

end TpmAttest
