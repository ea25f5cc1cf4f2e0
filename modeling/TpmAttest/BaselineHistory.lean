import TpmAttest.EnrollRuns
import TpmAttest.QuoteKeys
import TpmAttest.SerializableRuns

/-! # Where the baselines come from

A row of `baselines` is inserted at the end of an `/enroll`, and of what it says only the
flag is ever changed.  So in every run, whatever the interleaving and however the database
fails, the rows that the table has gained are those of the reports that were enrolled; each
report was verified before it was pinned, and no two with one nonce
(`baseline_provenance`).  Concurrent enrollments can lose a baseline, but they cannot forge
one.
-/
namespace TpmAttest

open Python Transactional Program

/-! ## What an enrollment pins -/

/-- The transaction pins a baseline. -/
def Tx.Pins (op : Tx) : Prop := ∃ root pcrs now, op = .pinBaseline root pcrs now

theorem not_pins_selectActiveRoot : ¬ Tx.selectActiveRoot.Pins := by
  rintro ⟨_, _, _, h⟩
  cases h

theorem not_pins_deactivateAll : ¬ Tx.deactivateAll.Pins := by
  rintro ⟨_, _, _, h⟩
  cases h

theorem not_pins_restoreBaseline {root : String} : ¬ (Tx.restoreBaseline root).Pins := by
  rintro ⟨_, _, _, h⟩
  cases h

section Pins
variable {platform : Platform} {policy : Policy} {report : AttestationReport} {env : Env}
  {G : (op : Tx) → Except Exn op.Ret → Prop}

/-- What has been checked when a report is pinned. -/
structure Vetted (platform : Platform) (policy : Policy)
    (G : (op : Tx) → Except Exn op.Ret → Prop) (report : AttestationReport) (env : Env) : Prop where
  verified : Verified platform policy G report env
  signed : Signed platform G report

theorem verifyReport_vetted :
    (verifyReport platform policy report env).Ensures G (fun op => ¬ op.Pins)
      (fun r => r = none → Vetted platform policy G report env) fun _ => True := by
  refine ((verifyReport_ensures (fun _ _ _ => trivial) (fun _ _ _ _ _ _ => trivial) report env).and
    (verifyReport_signed env)).mono ?_ (fun r h hnone => ⟨h.1 hnone, h.2 hnone⟩)
    fun _ _ => trivial
  rintro op ⟨rfl | hop, -⟩ ⟨root, pcrs, now, hpin⟩
  · cases hpin
  · subst hpin
    exact hop

/-- If the transaction pins a baseline, it is the report's, which has been vetted. -/
def PinsVetted (platform : Platform) (policy : Policy) (G : (op : Tx) → Except Exn op.Ret → Prop)
    (report : AttestationReport) (env : Env) (op : Tx) : Prop :=
  ∀ root pcrs now, op = .pinBaseline root pcrs now →
    root = platform.lower (platform.lower report.imaMerkleRoot) ∧ pcrs = report.pcrs ∧
      now = env.later ∧ Vetted platform policy G report env

/-- **An enrollment pins its own report**, when it has been vetted. -/
theorem enroll_vetted :
    (enroll platform policy report env).Ensures G (PinsVetted platform policy G report env)
      (fun _ => True) fun _ => True := by
  have hperform (op : Tx) (hop : PinsVetted platform policy G report env op) :
      (transaction op).Ensures G (PinsVetted platform policy G report env) (fun _ => True)
        fun _ => True := ensures_perform hop (fun _ _ => trivial) fun _ _ => trivial
  have hother (op : Tx) (hop : ¬ op.Pins) : PinsVetted platform policy G report env op :=
    fun root pcrs now h => absurd ⟨root, pcrs, now, h⟩ hop
  refine (hperform .selectActiveRoot (hother _ not_pins_selectActiveRoot)).bind
    fun currentRoot _ => ?_
  refine (hperform .deactivateAll (hother _ not_pins_deactivateAll)).bind fun _ _ => ?_
  refine (verifyReport_vetted.mono hother (fun _ => id) fun _ => id).bind fun failure hvetted => ?_
  cases failure with
  | some reason =>
    unfold enrollResponse restoreBaseline
    cases truthy currentRoot with
    | some root =>
      exact (hperform (.restoreBaseline root) (hother _ not_pins_restoreBaseline)).bind
        fun _ _ => trivial
    | none => trivial
  | none =>
    refine (hperform (.pinBaseline _ _ _) ?_).bind fun _ _ => trivial
    rintro root pcrs now h
    cases h
    exact ⟨rfl, rfl, rfl, hvetted rfl⟩

/-- **A pinning is the end of its enrollment.** -/
theorem enroll_last : (enroll platform policy report env).Last Tx.Pins := by
  have hperform (op : Tx) (hop : ¬ op.Pins) : (transaction op).Only fun op => ¬ op.Pins :=
    ensures_perform hop (fun _ _ => trivial) fun _ _ => trivial
  refine (hperform .selectActiveRoot not_pins_selectActiveRoot).bind_last fun currentRoot => ?_
  refine (hperform .deactivateAll not_pins_deactivateAll).bind_last fun _ => ?_
  have hverify : (verifyReport platform policy report env).Only fun op => ¬ op.Pins :=
    (verifyReport_vetted (G := fun _ _ => True)).mono (fun _ => id) (fun _ _ => trivial) fun _ => id
  refine hverify.bind_last fun failure => Atomic.last ?_
  cases failure with
  | some reason =>
    unfold enrollResponse restoreBaseline
    cases truthy currentRoot with
    | some root =>
      exact Atomic.bind (atomic_perform (Tx.restoreBaseline root)) fun _ => trivial
    | none => trivial
  | none => exact Atomic.bind (atomic_perform (Tx.pinBaseline _ _ _)) fun _ => trivial

end Pins

/-! ## The rows of a run -/

section Runs
variable {ι : Type} [DecidableEq ι] {platform : Platform} {policy : Policy} {db : Database}
  {arrivals : ι → Arrival} {faults : Exn → Prop} {guard : Guard Database ι Tx.Ret Exn Response}
  {tr : List (ServerEvent ι)} {c c' : Config Database ι Tx.Ret Exn Response} {ev : ServerEvent ι}
  {i : ι} {row : Baseline}

/-- The row is what the `/enroll` of a thread has pinned, which had verified its report
with the transactions before. -/
def Enrolled (platform : Platform) (policy : Policy) (arrivals : ι → Arrival)
    (tr : List (ServerEvent ι)) (i : ι) (row : Baseline) : Prop :=
  ∃ report t₁ t₂, (arrivals i).request = .enroll report ∧
    row.imaRoot = platform.lower (platform.lower report.imaMerkleRoot) ∧
    row.pcrJson = report.pcrs ∧ row.createdAt = (arrivals i).env.later.isoformat ∧
    tr = t₁ ++ ⟨i, .pinBaseline row.imaRoot row.pcrJson (arrivals i).env.later, .ok ()⟩ :: t₂ ∧
    Vetted platform policy (fun op r => ⟨i, op, r⟩ ∈ t₁) report (arrivals i).env

omit [DecidableEq ι] in
theorem Enrolled.snoc (h : Enrolled platform policy arrivals tr i row) (ev : ServerEvent ι) :
    Enrolled platform policy arrivals (tr ++ [ev]) i row := by
  obtain ⟨report, t₁, t₂, hreq, hroot, hpcrs, htime, rfl, hvetted⟩ := h
  exact ⟨report, t₁, t₂ ++ [ev], hreq, hroot, hpcrs, htime, by simp, hvetted⟩

/-- The enrollments of two threads used different nonces. -/
def NoncesDiffer (arrivals : ι → Arrival) (i j : ι) : Prop :=
  ∀ report report', (arrivals i).request = .enroll report → (arrivals j).request = .enroll report' →
    report.nonce ≠ report'.nonce

/-- The table has gained these rows, each from the enrollment of its thread, and no two from
one thread. -/
structure Grown (platform : Platform) (policy : Policy) (db : Database) (arrivals : ι → Arrival)
    (tr : List (ServerEvent ι)) (c : Config Database ι Tx.Ret Exn Response)
    (gained : List (ι × Baseline)) : Prop where
  rows : c.store.baselines.contents = db.baselines.contents ++ gained.map Prod.snd
  enrolled : ∀ p ∈ gained, Enrolled platform policy arrivals tr p.1 p.2
  threads : gained.Pairwise fun p q => p.1 ≠ q.1

/-- The table has gained these rows, each from the enrollment of its thread, and no two
enrollments used one nonce. -/
structure Gained (platform : Platform) (policy : Policy) (db : Database) (arrivals : ι → Arrival)
    (tr : List (ServerEvent ι)) (c : Config Database ι Tx.Ret Exn Response)
    (gained : List (ι × Baseline)) : Prop where
  rows : c.store.baselines.contents = db.baselines.contents ++ gained.map Prod.snd
  enrolled : ∀ p ∈ gained, Enrolled platform policy arrivals tr p.1 p.2
  nonces : gained.Pairwise fun p q => NoncesDiffer arrivals p.1 q.1

/-- No other transaction changes what the rows say. -/
theorem contents_onBaselines {op : Tx} (hop : ¬ op.Pins) (t : BaselineTable) :
    (op.onBaselines t).contents = t.contents := by
  cases op with
  | deactivateAll => exact BaselineTable.contents_setActive _
  | restoreBaseline root => exact BaselineTable.contents_setActive _
  | pinBaseline root pcrs now => exact absurd ⟨root, pcrs, now, rfl⟩ hop
  | _ => rfl

/-- What is known when a thread is about to pin. -/
theorem vetted_of_pending (h : Run exec faults guard (start platform policy db arrivals) tr c)
    {root : String} {pcrs : Dict} {now : DateTime} {next : Except Exn Unit → ServerM Response}
    (hcall : c.threads i = .call (.pinBaseline root pcrs now) next) {report : AttestationReport}
    (hreq : (arrivals i).request = .enroll report) :
    root = platform.lower (platform.lower report.imaMerkleRoot) ∧ pcrs = report.pcrs ∧
      now = (arrivals i).env.later ∧
      Vetted platform policy (fun op r => ⟨i, op, r⟩ ∈ tr) report (arrivals i).env := by
  have hpath := h.path i
  change Path (serve platform policy _ (arrivals i).request) _ _ at hpath
  rw [hreq, hcall] at hpath
  exact (hpath.ensures (enroll_vetted (G := fun op r => (⟨i, op, r⟩ : ServerEvent ι) ∈ tr))
    fun o ho => mem_history.mp ho).2.1 root pcrs now rfl

/-- A thread that has pinned is over. -/
theorem finished_of_pinned (h : Run exec faults guard (start platform policy db arrivals) tr c)
    {report : AttestationReport} (hreq : (arrivals i).request = .enroll report) {op : Tx}
    {r : Except Exn op.Ret} (hmem : ⟨i, op, r⟩ ∈ tr) (hop : op.Pins) : (c.threads i).Finished := by
  have hpath := h.path i
  change Path (serve platform policy _ (arrivals i).request) _ _ at hpath
  rw [hreq] at hpath
  exact enroll_last.finished hpath (o := ⟨op, r⟩) (mem_history.mpr hmem) hop

omit [DecidableEq ι] in
/-- A verified nonce was accepted by an event of the thread. -/
theorem Vetted.accepts {report : AttestationReport} {env : Env}
    (h : Vetted platform policy (fun op r => ⟨i, op, r⟩ ∈ tr) report env) :
    ∃ ev ∈ tr, ev.thread = i ∧ Accepts ev report.nonce env.now := by
  obtain ⟨row, hmem, hverdict⟩ := h.verified.nonce
  exact ⟨_, hmem, rfl, i, row, rfl, hverdict⟩

/-- Two threads do not accept one nonce. -/
theorem nonce_ne_of_vetted (hdb : ∀ nonce, db.activeNonces nonce = none)
    (hfresh : FreshTokens arrivals)
    (h : Run exec faults unguarded (start platform policy db arrivals) tr c) {j : ι} (hij : i ≠ j)
    {report report' : AttestationReport} {env env' : Env} {t t' : List (ServerEvent ι)}
    (ht : t ⊆ tr) (ht' : t' ⊆ tr)
    (hi : Vetted platform policy (fun op r => ⟨i, op, r⟩ ∈ t) report env)
    (hj : Vetted platform policy (fun op r => ⟨j, op, r⟩ ∈ t') report' env') :
    report.nonce ≠ report'.nonce := by
  intro hnonce
  obtain ⟨ev, hev, hthread, ha⟩ := hi.accepts
  obtain ⟨ev', hev', hthread', ha'⟩ := hj.accepts
  obtain ⟨t₁, t₂, htr⟩ := List.append_of_mem (ht hev)
  have hmem := ht' hev'
  rw [htr, List.mem_append, List.mem_cons] at hmem
  have hne : ev' ≠ ev := by
    rintro rfl
    exact hij (hthread.symm.trans hthread')
  refine accepted_unique hdb hfresh h htr ha ev' ?_ env'.now (hnonce ▸ ha')
  rw [List.mem_append]
  exact hmem.imp_right fun h => h.resolve_left hne

/-- A pinning adds the row of its enrollment. -/
theorem Grown.pin {gained : List (ι × Baseline)}
    (hgrown : Grown platform policy db arrivals tr c gained)
    (h : Run exec faults guard (start platform policy db arrivals) tr c)
    {report : AttestationReport} (hreq : (arrivals i).request = .enroll report) {root : String}
    {pcrs : Dict} {now : DateTime} {next : Except Exn Unit → ServerM Response}
    (hcall : c.threads i = .call (.pinBaseline root pcrs now) next)
    (hstore : c'.store.baselines = c.store.baselines.pin root pcrs now.isoformat) :
    Grown platform policy db arrivals (tr ++ [⟨i, .pinBaseline root pcrs now, .ok ()⟩]) c'
      (gained ++ [(i, c.store.baselines.pinnedRow root pcrs now.isoformat)]) := by
  obtain ⟨rfl, rfl, rfl, hvetted⟩ := vetted_of_pending h hcall hreq
  refine ⟨?_, ?_, ?_⟩
  · rw [hstore, List.map_append, ← List.append_assoc, ← hgrown.rows]
    exact BaselineTable.contents_pin _ _ _ _
  · intro p hp
    rcases List.mem_append.mp hp with hp | hp
    · exact (hgrown.enrolled p hp).snoc _
    · obtain rfl := List.mem_singleton.mp hp
      exact ⟨report, tr, [], hreq, rfl, rfl, rfl, rfl, hvetted⟩
  · rw [List.pairwise_append]
    refine ⟨hgrown.threads, List.pairwise_singleton _ _, fun p hp q hq => ?_⟩
    obtain rfl := List.mem_singleton.mp hq
    obtain ⟨report₁, t₁, t₂, hreq₁, -, -, -, htr, -⟩ := hgrown.enrolled p hp
    -- a thread that has pinned does not pin again
    rintro rfl
    have hfinished := finished_of_pinned h hreq₁ (htr ▸ List.mem_append_right t₁ List.mem_cons_self)
      ⟨_, _, _, rfl⟩
    rw [hcall] at hfinished
    exact not_finished_call _ _ hfinished

theorem baseline_grown (h : Run exec faults guard (start platform policy db arrivals) tr c) :
    ∃ gained, Grown platform policy db arrivals tr c gained := by
  induction h with
  | refl => exact ⟨[], (List.append_nil _).symm, by simp, .nil⟩
  | @step tr c c' ev hr hg hs ih =>
    obtain ⟨gained, hgrown⟩ := ih
    have hkept (heq : c'.store.baselines.contents = c.store.baselines.contents) :
        Grown platform policy db arrivals (tr ++ [ev]) c' gained :=
      ⟨heq.trans hgrown.rows, fun p hp => (hgrown.enrolled p hp).snoc ev, hgrown.threads⟩
    rcases hs.store with ⟨houtcome, hstore⟩ | ⟨-, hstore⟩
    · by_cases hop : ev.op.Pins
      · obtain ⟨next, hcall, -⟩ := hs.threads
        have hfoot := footprint_of_run (.step hr hg hs) ev (by simp)
        obtain ⟨i, op, outcome⟩ := ev
        obtain ⟨root, pcrs, now, rfl⟩ := hop
        obtain rfl : outcome = .ok () := houtcome
        obtain ⟨report, hreq, -⟩ := hfoot
        refine ⟨_, hgrown.pin hr hreq hcall ?_⟩
        rw [hstore, baselines_commit]
        rfl
      · refine ⟨gained, hkept ?_⟩
        rw [hstore, baselines_commit, contents_onBaselines hop]
    · exact ⟨gained, hkept (by rw [hstore])⟩

/-- The enrollments of different threads used different nonces. -/
theorem Grown.gained {gained : List (ι × Baseline)}
    (hgrown : Grown platform policy db arrivals tr c gained)
    (hdb : ∀ nonce, db.activeNonces nonce = none) (hfresh : FreshTokens arrivals)
    (h : Run exec faults unguarded (start platform policy db arrivals) tr c) :
    Gained platform policy db arrivals tr c gained := by
  refine ⟨hgrown.rows, hgrown.enrolled, hgrown.threads.imp_of_mem fun {p q} hp hq hij => ?_⟩
  obtain ⟨report₁, t₁, _, hreq₁, -, -, -, htr₁, hvetted₁⟩ := hgrown.enrolled p hp
  obtain ⟨report₂, t₂, _, hreq₂, -, -, -, htr₂, hvetted₂⟩ := hgrown.enrolled q hq
  intro report report' hreq hreq'
  obtain rfl : report₁ = report := by simpa [hreq₁] using hreq
  obtain rfl : report₂ = report' := by simpa [hreq₂] using hreq'
  refine nonce_ne_of_vetted hdb hfresh h hij ?_ ?_ hvetted₁ hvetted₂
  · rw [htr₁]
    exact List.subset_append_left _ _
  · rw [htr₂]
    exact List.subset_append_left _ _

/-- **Where the baselines come from.**  The table has gained, in their order, the rows of
the reports that were enrolled, each one verified and signed before, and with a nonce of its
own. -/
theorem baseline_provenance (platform : Platform) (policy : Policy) (db : Database)
    (arrivals : ι → Arrival) (hdb : ∀ nonce, db.activeNonces nonce = none)
    (hfresh : FreshTokens arrivals) (tr : List (ServerEvent ι))
    (c : Config Database ι Tx.Ret Exn Response)
    (h : Run exec databaseFaults unguarded (start platform policy db arrivals) tr c) :
    ∃ gained, Gained platform policy db arrivals tr c gained := by
  obtain ⟨gained, hgrown⟩ := baseline_grown h
  exact ⟨gained, hgrown.gained hdb hfresh h⟩

/-! ## What attestations are compared with -/

/-- The row was there at the start, or it was enrolled. -/
def Known (platform : Platform) (policy : Policy) (db : Database) (arrivals : ι → Arrival)
    (tr : List (ServerEvent ι)) (row : Baseline) : Prop :=
  row ∈ db.baselines.contents ∨ ∃ j, Enrolled platform policy arrivals tr j row

/-- The effective baseline is known, whatever was cleared and restored. -/
theorem known_of_active (h : Run exec faults guard (start platform policy db arrivals) tr c)
    (hactive : c.store.baselines.active = some row) :
    Known platform policy db arrivals tr row := by
  obtain ⟨gained, hgrown⟩ := baseline_grown h
  obtain ⟨hmem, hflag⟩ := BaselineTable.mem_of_active hactive
  have hrow : row ∈ c.store.baselines.contents := by
    rw [← Baseline.activated_of_isActive hflag]
    exact List.mem_map_of_mem hmem
  rw [hgrown.rows] at hrow
  rcases List.mem_append.mp hrow with hrow | hrow
  · exact Or.inl hrow
  · obtain ⟨p, hp, rfl⟩ := List.mem_map.mp hrow
    exact Or.inr ⟨p.1, hgrown.enrolled p hp⟩

/-- What a lookup of a run has fetched. -/
theorem active_of_lookup (h : Run exec faults guard (start platform policy db arrivals) tr c)
    {op : Tx} {r : op.Ret} {t₁ t₂ : List (ServerEvent ι)} (htr : tr = t₁ ++ ⟨i, op, .ok r⟩ :: t₂) :
    ∃ c₁, Run exec faults guard (start platform policy db arrivals) t₁ c₁ ∧
      (.ok r : Except Exn op.Ret) = (commit exec op c₁.store).1 := by
  obtain ⟨c₁, c₂, hr, -, hs⟩ := h.split htr
  refine ⟨c₁, hr, ?_⟩
  rcases hs.store with ⟨houtcome, -⟩ | ⟨⟨e, he, -⟩, -⟩
  · exact houtcome
  · cases he

section Agreements
variable (h : Run exec faults guard (start platform policy db arrivals) tr c)
  {report : AttestationReport}
  (hpassed : Passed platform policy (fun op r => ⟨i, op, r⟩ ∈ tr) report)
include h hpassed

/-- A report that has passed has the root of a known baseline. -/
theorem root_of_passed : ∃ t₁ t₂ root, tr = t₁ ++ ⟨i, .selectActiveRoot, .ok root⟩ :: t₂ ∧
    ∀ known, root = some known → platform.lower report.imaMerkleRoot = platform.lower known ∧
      ∃ row, Known platform policy db arrivals t₁ row ∧ row.imaRoot = known := by
  obtain ⟨root, hmem, hverdict⟩ := hpassed.pinnedRoot
  obtain ⟨t₁, t₂, htr⟩ := List.append_of_mem hmem
  refine ⟨t₁, t₂, root, htr, fun known hknown => ?_⟩
  subst hknown
  refine ⟨rootVerdict_eq_none.mp hverdict, ?_⟩
  obtain ⟨c₁, hr, hroot⟩ := active_of_lookup h htr
  obtain ⟨row, hactive, himaRoot⟩ := Option.map_eq_some_iff.mp (Except.ok.inj hroot).symm
  exact ⟨row, known_of_active hr hactive, himaRoot⟩

/-- And its PCR 7, if the policy requires it. -/
theorem pcr7_of_passed (hpolicy : policy.requirePcr7Pinning = true) :
    ∃ t₁ t₂ pcrs, tr = t₁ ++ ⟨i, .selectActivePcrJson, .ok pcrs⟩ :: t₂ ∧
      ∀ known : Dict, pcrs = some known →
        (∀ value, known.get "7" = some value →
          platform.lower ((report.pcrs.get "7").getD "") = platform.lower value) ∧
        ∃ row, Known platform policy db arrivals t₁ row ∧ row.pcrJson = known := by
  obtain ⟨pcrs, hmem, hverdict⟩ := hpassed.pinnedPcr7 hpolicy
  obtain ⟨t₁, t₂, htr⟩ := List.append_of_mem hmem
  refine ⟨t₁, t₂, pcrs, htr, fun known hknown => ?_⟩
  subst hknown
  refine ⟨pcr7Verdict_eq_none.mp hverdict, ?_⟩
  obtain ⟨c₁, hr, hpcrs⟩ := active_of_lookup h htr
  obtain ⟨row, hactive, hjson⟩ := Option.map_eq_some_iff.mp (Except.ok.inj hpcrs).symm
  exact ⟨row, known_of_active hr hactive, hjson⟩

end Agreements

/-- An accepted report has passed. -/
theorem passed_of_valid
    (h : Run exec faults guard (start platform policy db arrivals) tr c) {report : AttestationReport}
    (hreq : (arrivals i).request = .attest report) {token expiresAt : String}
    (hret : c.threads i = .ret (.valid token expiresAt)) :
    Passed platform policy (fun op r => ⟨i, op, r⟩ ∈ tr) report := by
  have hreport : (arrivals i).request.report = some report := by
    rw [hreq]
    rfl
  exact (verified_of_run h hreport hret (Or.inl ⟨token, expiresAt, rfl⟩)).passed

/-- **What an accepted report agrees with**: at a lookup of its request there was no
effective baseline, or one that is known, and its root is the report's; and so for PCR 7, if
the policy requires it. -/
theorem attested_against_known (platform : Platform) (policy : Policy) (db : Database)
    (arrivals : ι → Arrival) (tr : List (ServerEvent ι)) (c : Config Database ι Tx.Ret Exn Response)
    (h : Run exec databaseFaults unguarded (start platform policy db arrivals) tr c) (i : ι)
    (report : AttestationReport) (hreq : (arrivals i).request = .attest report)
    (token expiresAt : String) (hret : c.threads i = .ret (.valid token expiresAt)) :
    (∃ t₁ t₂ root, tr = t₁ ++ ⟨i, .selectActiveRoot, .ok root⟩ :: t₂ ∧
      ∀ known, root = some known → platform.lower report.imaMerkleRoot = platform.lower known ∧
        ∃ row, Known platform policy db arrivals t₁ row ∧ row.imaRoot = known) ∧
    (policy.requirePcr7Pinning = true →
      ∃ t₁ t₂ pcrs, tr = t₁ ++ ⟨i, .selectActivePcrJson, .ok pcrs⟩ :: t₂ ∧
        ∀ known : Dict, pcrs = some known →
          (∀ value, known.get "7" = some value →
            platform.lower ((report.pcrs.get "7").getD "") = platform.lower value) ∧
          ∃ row, Known platform policy db arrivals t₁ row ∧ row.pcrJson = known) := by
  have hpassed := passed_of_valid h hreq hret
  exact ⟨root_of_passed h hpassed, pcr7_of_passed h hpassed⟩

end Runs

/-- Two nonces, an enrollment with the one and a report with the other. -/
def enrollThenAttest : Bool × Bool → Arrival
  | (false, false) => ⟨.challenge, sampleEnv⟩
  | (true, false) => ⟨.enroll (sampleReport sampleEnv.token), sampleEnv⟩
  | (false, true) => ⟨.challenge, { sampleEnv with token := "decade" }⟩
  | (true, true) => ⟨.attest (sampleReport "decade"), sampleEnv⟩

theorem freshTokens_enrollThenAttest : FreshTokens enrollThenAttest := by
  intro i j hi hj htoken
  rcases i with ⟨_ | _, _ | _⟩ <;> rcases j with ⟨_ | _, _ | _⟩
  -- an enrollment and a report are not challenges, and the two tokens differ
  all_goals first
    | rfl
    | (cases hi; done)
    | (cases hj; done)
    | exact absurd htoken (by decide)

def enrolledRun :
    List (ServerEvent (Bool × Bool)) × Config Database (Bool × Bool) Tx.Ret Exn Response :=
  replay exec (start lenientPlatform pcr7Policy .empty enrollThenAttest)
    [(false, false), (true, false), (true, false), (true, false), (true, false), (true, false),
      (true, false), (false, true), (true, true), (true, true), (true, true)]

theorem enrolledRun_run : Run exec databaseFaults unguarded
    (start lenientPlatform pcr7Policy .empty enrollThenAttest) enrolledRun.1 enrolledRun.2 :=
  (replay_run exec _ _).faulty databaseFaults

theorem baseline_provenance_enrolled :
    ∃ gained, Gained lenientPlatform pcr7Policy .empty enrollThenAttest enrolledRun.1 enrolledRun.2
      gained :=
  baseline_provenance lenientPlatform pcr7Policy .empty enrollThenAttest (fun _ => rfl)
    freshTokens_enrollThenAttest _ _ enrolledRun_run

theorem attested_against_known_enrolled :
    ∃ t₁ t₂ root, enrolledRun.1 = t₁ ++ ⟨(true, true), .selectActiveRoot, .ok root⟩ :: t₂ ∧
      ∀ known, root = some known →
        lenientPlatform.lower sampleRoot = lenientPlatform.lower known ∧
        ∃ row, Known lenientPlatform pcr7Policy .empty enrollThenAttest t₁ row ∧
          row.imaRoot = known :=
  (attested_against_known lenientPlatform pcr7Policy .empty enrollThenAttest _ _ enrolledRun_run
    (true, true) (sampleReport "decade") rfl "token" "2024-06-01T12:05:00+00:00"
    (returned_eq_some.mp (by decide +kernel))).1

end TpmAttest
