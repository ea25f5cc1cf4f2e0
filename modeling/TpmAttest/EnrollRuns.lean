import TpmAttest.ReachableStates

/-! # Concurrent enrollments

An `/enroll` reads the active root, clears all flags, verifies its report, and
restores the root or pins a new baseline: four separate transactions or more.  The
`ideal` table is what the baselines would be if only the successful enrollments
happened, each in one step; the `current` baseline is the effective one there.

The table follows the ideal one (`Tracks`) as long as no restoration brings back
a superseded root, and it does not stay cleared (`Uncleared`) as long as no
rejected enrollment takes a table that another one has cleared for an empty one.
Together these give the result on whole runs, `baseline_kept`.
-/
namespace TpmAttest

open Python Transactional Program

variable {ι : Type}

/-! ## The ideal table -/

/-- A successful `/enroll` pins its baseline; no other event changes the ideal
table. -/
def pinOf (t : BaselineTable) : ServerEvent ι → BaselineTable
  | ⟨_, .pinBaseline root pcrs now, .ok _⟩ => t.pin root pcrs now.isoformat
  | _ => t

/-- The table if the successful enrollments were all that happened. -/
def ideal (t : BaselineTable) (tr : List (ServerEvent ι)) : BaselineTable := tr.foldl pinOf t

/-- The current baseline: the one that the last successful `/enroll` pinned, or the
one that was effective at the start. -/
def current (db : Database) (tr : List (ServerEvent ι)) : Option Baseline :=
  (ideal db.baselines tr).active

/-- The event is that of a baseline being pinned. -/
def IsPin (ev : ServerEvent ι) : Prop := ∃ root pcrs now, ev.op = .pinBaseline root pcrs now

instance (ev : ServerEvent ι) : Decidable (IsPin ev) :=
  match hop : ev.op with
  | .pinBaseline root pcrs now => isTrue ⟨root, pcrs, now, hop⟩
  | .insertNonce .. | .consumeNonce .. | .selectMachine .. | .upsertMachine .. | .selectActiveRoot
  | .selectActivePcrJson | .deactivateAll | .restoreBaseline .. =>
    isFalse (by rintro ⟨_, _, _, h⟩; rw [hop] at h; cases h)

theorem ideal_snoc (t : BaselineTable) (tr : List (ServerEvent ι)) (ev : ServerEvent ι) :
    ideal t (tr ++ [ev]) = pinOf (ideal t tr) ev := List.foldl_append

theorem pinOf_of_not_isPin (t : BaselineTable) {ev : ServerEvent ι} (h : ¬ IsPin ev) :
    pinOf t ev = t := by
  obtain ⟨i, op, outcome⟩ := ev
  cases op with
  | pinBaseline root pcrs now => exact (h ⟨root, pcrs, now, rfl⟩).elim
  | _ => rfl

theorem ideal_of_no_pin (t : BaselineTable) {tr : List (ServerEvent ι)}
    (h : ∀ ev ∈ tr, ¬ IsPin ev) : ideal t tr = t := by
  induction tr generalizing t with
  | nil => rfl
  | cons ev tr ih =>
    rw [List.forall_mem_cons] at h
    calc ideal t (ev :: tr) = ideal (pinOf t ev) tr := rfl
      _ = ideal t tr := by rw [pinOf_of_not_isPin t h.1]
      _ = t := ih t h.2

/-- **The current baseline** is the one at the start if nothing was pinned … -/
theorem current_of_no_pin (db : Database) {tr : List (ServerEvent ι)}
    (h : ∀ ev ∈ tr, ¬ IsPin ev) : current db tr = db.baselines.active := by
  rw [current, ideal_of_no_pin _ h]

/-- … and otherwise has what the last successful `/enroll` pinned. -/
theorem current_of_last_pin (db : Database) {t₁ t₂ : List (ServerEvent ι)} {i : ι} {root : String}
    {pcrs : Dict} {now : DateTime} {r : Unit} (h : ∀ ev ∈ t₂, ¬ IsPin ev) :
    current db (t₁ ++ ⟨i, .pinBaseline root pcrs now, .ok r⟩ :: t₂) =
      some ((ideal db.baselines t₁).pinnedRow root pcrs now.isoformat) := by
  unfold current ideal
  rw [List.foldl_append, List.foldl_cons]
  change (ideal (pinOf (ideal db.baselines t₁) _) t₂).active = _
  rw [ideal_of_no_pin _ h]
  exact BaselineTable.active_pin _ _ _ _

/-! ## The phases of an enrollment -/

section Phases
variable {platform : Platform} {policy : Policy} {report : AttestationReport} {env : Env}

/-- What is left of `/enroll` when it has cleared the flags. -/
def enrollTail (platform : Platform) (policy : Policy) (report : AttestationReport) (env : Env)
    (currentRoot : Option String) : ServerM Response :=
  (verifyReport platform policy report env).bind (enrollResponse platform report env currentRoot)

/-- An enrollment is before its reading, before its clearing, or after it. -/
theorem enroll_path {l : List (Observation Tx.Ret Exn)} {p : ServerM Response}
    (h : Path (enroll platform policy report env) l p) (hgood : ∀ o ∈ l, GoodOutcome o.1 o.2) :
    ((∃ next, p = .call .selectActiveRoot next) ∨ ∃ next, p = .call .deactivateAll next) ∨
      ∃ currentRoot l', l = ⟨.selectActiveRoot, .ok currentRoot⟩ :: ⟨.deactivateAll, .ok ()⟩ :: l' ∧
        Path (enrollTail platform policy report env currentRoot) l' p := by
  rcases h with _ | h
  · exact Or.inl (Or.inl ⟨_, rfl⟩)
  obtain ⟨currentRoot, rfl⟩ : ∃ a : Option String, _ = Except.ok a := hgood _ List.mem_cons_self
  rcases h with _ | h
  · exact Or.inl (Or.inr ⟨_, rfl⟩)
  obtain ⟨u, rfl⟩ : ∃ a : Unit, _ = Except.ok a :=
    hgood _ (List.mem_cons_of_mem _ List.mem_cons_self)
  exact Or.inr ⟨currentRoot, _, rfl, h⟩

/-- The rest of an enrollment clears nothing, raises nothing, and is rejected
unless it pins. -/
theorem enrollTail_ensures {G : (op : Tx) → Except Exn op.Ret → Prop}
    (hgood : ∀ op r, G op r → GoodOutcome op r)
    (hnonce : ∀ nonce expiresAt r, ¬ G (.insertNonce nonce expiresAt) r)
    (currentRoot : Option String) :
    (enrollTail platform policy report env currentRoot).Ensures G (· ≠ .deactivateAll)
      (fun resp => (∃ reason, resp = .enrollRejected reason) ∨
        ∃ root pcrs now r, G (.pinBaseline root pcrs now) r) fun _ => False := by
  have hE : ∀ op e, G op (.error e) → False := by
    intro op e h
    obtain ⟨nonce, expiresAt, rfl⟩ := (hgood op _ h).op_eq
    exact hnonce nonce expiresAt _ h
  have hops : ∀ op, op = .consumeNonce report.nonce env.now ∨ IsLookup report op →
      op ≠ .deactivateAll := by
    rintro op (rfl | hop) heq
    · cases heq
    · subst heq
      exact hop
  refine ((verifyReport_ensures_good hgood hnonce).mono hops (fun _ => id) fun _ => id).bind
    fun failure _ => ?_
  cases failure with
  | some reason =>
    unfold enrollResponse restoreBaseline
    refine Ensures.bind (Q := fun _ => True) ?_ fun _ _ => Or.inl ⟨reason, rfl⟩
    split
    · rename_i root _
      have hop : Tx.restoreBaseline root ≠ .deactivateAll := by simp
      exact ensures_perform (P := (· ≠ .deactivateAll)) hop (fun _ _ => trivial) fun e => hE _ e
    · trivial
  | none =>
    have hop : Tx.pinBaseline (platform.lower (platform.lower report.imaMerkleRoot)) report.pcrs
        env.later ≠ .deactivateAll := by simp
    exact (ensures_perform (Q := fun r => G (.pinBaseline _ _ _) (.ok r)) hop
      (fun _ h => h) fun e => hE _ e).bind fun r hr => Or.inr ⟨_, _, _, _, hr⟩

end Phases

/-! ## Enrollments in a run -/

section Runs
variable [DecidableEq ι] {platform : Platform} {policy : Policy} {db : Database}
  {arrivals : ι → Arrival} {guard : Guard Database ι Tx.Ret Exn Response}
  {tr : List (ServerEvent ι)} {c c' : Config Database ι Tx.Ret Exn Response} {ev : ServerEvent ι}
  {i : ι}

/-- The thread has cleared the flags, and nothing has been pinned since. -/
def Clearing (i : ι) (tr : List (ServerEvent ι)) : Prop :=
  ∃ t₁ t₂, tr = t₁ ++ ⟨i, .deactivateAll, .ok ()⟩ :: t₂ ∧ ∀ ev ∈ t₂, ¬ IsPin ev

omit [DecidableEq ι] in
theorem Clearing.snoc (h : Clearing i tr) (hev : ¬ IsPin ev) : Clearing i (tr ++ [ev]) := by
  obtain ⟨t₁, t₂, rfl, hpins⟩ := h
  refine ⟨t₁, t₂ ++ [ev], by simp, ?_⟩
  intro e he
  rcases List.mem_append.mp he with he | he
  · exact hpins e he
  · obtain rfl := List.mem_singleton.mp he
    exact hev

/-- In a run an enrollment is before its clearing, or its transactions after the
clearing are a path of `enrollTail`. -/
theorem enroll_history (hdb : Valid db)
    (h : Run exec noFaults guard (start platform policy db arrivals) tr c)
    {report : AttestationReport} (hreq : (arrivals i).request = .enroll report) :
    ((∃ next, c.threads i = .call .selectActiveRoot next) ∨
        ∃ next, c.threads i = .call .deactivateAll next) ∨
      ∃ currentRoot l', history i tr =
          ⟨.selectActiveRoot, .ok currentRoot⟩ :: ⟨.deactivateAll, .ok ()⟩ :: l' ∧
        Path (enrollTail platform policy report (arrivals i).env currentRoot) l' (c.threads i) := by
  have hpath := h.path i
  change Path (serve platform policy _ (arrivals i).request) _ _ at hpath
  rw [hreq] at hpath
  exact enroll_path hpath fun o ho => goodOutcome_of_run hdb h _ (mem_history.mp ho)

/-- What is left of an enrollment that has cleared the flags. -/
theorem enrollTail_of_run (hdb : Valid db)
    (h : Run exec noFaults guard (start platform policy db arrivals) tr c)
    {report : AttestationReport} (hreq : (arrivals i).request = .enroll report)
    {currentRoot : Option String} {o₁ o₂ : Observation Tx.Ret Exn}
    {l : List (Observation Tx.Ret Exn)} (hhist : history i tr = o₁ :: o₂ :: l)
    (hpath : Path (enrollTail platform policy report (arrivals i).env currentRoot) l
      (c.threads i)) :
    (∀ o ∈ l, o.1 ≠ .deactivateAll) ∧ (c.threads i).Ensures (fun op r => ⟨op, r⟩ ∈ l)
      (· ≠ .deactivateAll)
      (fun resp => (∃ reason, resp = .enrollRejected reason) ∨
        ∃ root pcrs now r, ⟨.pinBaseline root pcrs now, r⟩ ∈ l) fun _ => False := by
  have hmem : ∀ {op r}, (⟨op, r⟩ : Observation Tx.Ret Exn) ∈ l → ⟨i, op, r⟩ ∈ tr := by
    intro op r hl
    have hmem : (⟨op, r⟩ : Observation Tx.Ret Exn) ∈ history i tr := by
      rw [hhist]
      exact List.mem_cons_of_mem _ (List.mem_cons_of_mem _ hl)
    exact mem_history.mp hmem
  refine hpath.ensures (enrollTail_ensures (fun op r h' => goodOutcome_of_run hdb h _ (hmem h'))
    ?_ currentRoot) fun o ho => ho
  intro nonce expiresAt r h'
  obtain ⟨hchallenge, -⟩ := footprint_of_run h _ (hmem h')
  rw [hreq] at hchallenge
  cases hchallenge

/-- Only an enrollment that has cleared the flags restores. -/
theorem cleared_of_restore (hdb : Valid db)
    (h : Run exec noFaults guard (start platform policy db arrivals) tr c) {root : String}
    {next : Except Exn Unit → ServerM Response}
    (hcall : c.threads i = .call (.restoreBaseline root) next)
    (hfoot : Footprint platform (arrivals i) (.restoreBaseline root)) :
    ∃ ev ∈ tr, ev.op = .deactivateAll := by
  obtain ⟨report, hreq, -⟩ := hfoot
  rcases enroll_history hdb h hreq with (⟨next', h'⟩ | ⟨next', h'⟩) | ⟨_, _, hhist, -⟩
  · rw [h'] at hcall
    cases hcall
  · rw [h'] at hcall
    cases hcall
  · have hmem : (⟨.deactivateAll, .ok ()⟩ : Observation Tx.Ret Exn) ∈ history i tr := by
      rw [hhist]
      simp
    exact ⟨_, mem_history.mp hmem, rfl⟩

/-- An enrollment is not over when it has just cleared the flags. -/
theorem not_finished_of_clear (hdb : Valid db) {r : Except Exn Unit}
    (h : Run exec noFaults guard (start platform policy db arrivals)
      (tr ++ [⟨i, .deactivateAll, r⟩]) c) : ¬ (c.threads i).Finished := by
  obtain ⟨report, hreq⟩ := footprint_of_run h ⟨i, .deactivateAll, r⟩ (by simp)
  rcases enroll_history hdb h hreq with (⟨next, h'⟩ | ⟨next, h'⟩) | ⟨root, l', hhist, hpath⟩
  · rw [h']
    exact not_finished_call _ _
  · rw [h']
    exact not_finished_call _ _
  · have htail := (enrollTail_of_run hdb h hreq hhist hpath).1
    rw [history_snoc_self tr ⟨i, .deactivateAll, r⟩] at hhist
    rcases List.eq_nil_or_concat l' with rfl | ⟨l₀, o, rfl⟩
    · rw [hpath.of_nil]
      exact not_finished_call _ _
    · -- the last transaction is the clearing, but the tail clears nothing
      rw [List.concat_eq_append, ← List.cons_append, ← List.cons_append] at hhist
      have ho := List.singleton_inj.mp (List.append_inj' hhist rfl).2
      exact absurd (congrArg Sigma.fst ho.symm) (htail o (by simp))

omit [DecidableEq ι] in
theorem eq_tail_of_cons_cons {α : Type} {a b : α} {l x y : List α}
    (h : a :: b :: l = x ++ b :: y) (ha : a ≠ b) (hl : b ∉ l) : l = y := by
  match x with
  | [] => exact absurd (List.cons.inj h).1 ha
  | [_] => exact (List.cons.inj (List.cons.inj h).2).2
  | _ :: _ :: x =>
    refine absurd ?_ hl
    rw [(List.cons.inj (List.cons.inj h).2).2]
    exact List.mem_append_right x List.mem_cons_self

/-- **A finished enrollment was rejected**, if nothing has been pinned since its
clearing. -/
theorem rejected_of_finished (hdb : Valid db)
    (h : Run exec noFaults guard (start platform policy db arrivals) tr c)
    (hclear : Clearing i tr) (hfin : (c.threads i).Finished) :
    ∃ reason, c.threads i = .ret (.enrollRejected reason) := by
  obtain ⟨t₁, t₂, rfl, hpins⟩ := hclear
  obtain ⟨report, hreq⟩ := footprint_of_run h ⟨i, .deactivateAll, .ok ()⟩ (by simp)
  rcases enroll_history hdb h hreq with (⟨next, h'⟩ | ⟨next, h'⟩) | ⟨root, l', hhist, hpath⟩
  · rw [h'] at hfin
    exact (not_finished_call _ _ hfin).elim
  · rw [h'] at hfin
    exact (not_finished_call _ _ hfin).elim
  · obtain ⟨hops, htail⟩ := enrollTail_of_run hdb h hreq hhist hpath
    cases hthread : c.threads i with
    | call op next =>
      rw [hthread] at hfin
      exact (not_finished_call _ _ hfin).elim
    | raise e =>
      rw [hthread] at htail
      exact htail.elim
    | ret resp =>
      rw [hthread] at htail
      rcases htail with ⟨reason, rfl⟩ | ⟨root', pcrs, now, r, hpin⟩
      · exact ⟨reason, rfl⟩
      · -- the tail is what the thread did after its clearing
        have hcons : history i (t₁ ++ ⟨i, .deactivateAll, .ok ()⟩ :: t₂) =
            history i t₁ ++ ⟨.deactivateAll, .ok ()⟩ :: history i t₂ := by
          rw [history_append]
          simp [history]
        have hl : l' = history i t₂ :=
          eq_tail_of_cons_cons (hhist.symm.trans hcons) (fun heq => by cases heq)
            fun hmem => hops _ hmem rfl
        rw [hl] at hpin
        exact (hpins _ (mem_history.mp hpin) ⟨root', pcrs, now, rfl⟩).elim

/-! ## The table follows the ideal one -/

/-- A restoration brings back the root of the current baseline. -/
def RestoresCurrent (db : Database) : Guard Database ι Tx.Ret Exn Response := fun tr _ ev =>
  ∀ root, ev.op = .restoreBaseline root → (current db tr).map (·.imaRoot) = some root

/-- A rejected enrollment that ends without a restoration loses nothing: there is
no current baseline, or one was pinned after its clearing. -/
def NothingLost (db : Database) : Guard Database ι Tx.Ret Exn Response := fun tr c ev =>
  ∀ next reason, c.threads ev.thread = .call ev.op next →
    next ev.outcome = .ret (.enrollRejected reason) → (∀ root, ev.op ≠ .restoreBaseline root) →
    current db tr = none ∨ ¬ Clearing ev.thread tr

/-- Nothing was cleared or pinned yet, or the table is within the ideal one. -/
def Tracks (db : Database) (tr : List (ServerEvent ι)) (t : BaselineTable) : Prop :=
  ((∀ ev ∈ tr, ev.op ≠ .deactivateAll ∧ ¬ IsPin ev) ∧ t = db.baselines) ∨
    t.Within (ideal db.baselines tr)

omit [DecidableEq ι] in
theorem Tracks.contents_eq {t : BaselineTable} (h : Tracks db tr t) :
    t.contents = (ideal db.baselines tr).contents := by
  rcases h with ⟨hno, rfl⟩ | h
  · rw [ideal_of_no_pin _ fun ev hev => (hno ev hev).2]
  · exact h.contents_eq

omit [DecidableEq ι] in
/-- An effective baseline is the current one. -/
theorem Tracks.active_eq {t : BaselineTable} (h : Tracks db tr t) (hsome : t.active ≠ none) :
    t.active = current db tr := by
  rcases h with ⟨hno, rfl⟩ | h
  · rw [current_of_no_pin db fun ev hev => (hno ev hev).2]
  · exact h.active_eq hsome

omit [DecidableEq ι] in
theorem Tracks.within {t : BaselineTable} (h : Tracks db tr t)
    (hclear : ∃ ev ∈ tr, ev.op = .deactivateAll) : t.Within (ideal db.baselines tr) := by
  rcases h with ⟨hno, -⟩ | h
  · obtain ⟨ev, hev, hop⟩ := hclear
    exact absurd hop (hno ev hev).1
  · exact h

theorem settled_ideal (hdb : Valid db)
    (h : Run exec noFaults guard (start platform policy db arrivals) tr c) :
    (ideal db.baselines tr).Settled := by
  refine h.invariant (I := fun tr _ => (ideal db.baselines tr).Settled) hdb.settled ?_
  intro tr c c' ev hr ih hg hs
  have hfoot := footprint_of_run (.step hr hg hs) ev (by simp)
  rw [ideal_snoc]
  by_cases hpin : IsPin ev
  · obtain ⟨i, op, outcome⟩ := ev
    obtain ⟨root, pcrs, now, rfl⟩ := hpin
    obtain rfl : outcome = .ok () := hs.committed.1
    exact settled_onBaselines hfoot ih
  · rw [pinOf_of_not_isPin _ hpin]
    exact ih

section
variable (hdb : Valid db) (hguard : ∀ tr c ev, guard tr c ev → RestoresCurrent db tr c ev)
include hdb hguard

/-- A restoration brings back the current baseline. -/
theorem restore_step (h : Run exec noFaults guard (start platform policy db arrivals) tr c)
    (htracks : Tracks db tr c.store.baselines) (hg : guard tr c ev)
    (hs : Step exec noFaults c ev c') (root : String) (hop : ev.op = .restoreBaseline root) :
    (c.store.baselines.restore root).Within (ideal db.baselines tr) ∧
      (c.store.baselines.restore root).active = current db tr ∧ current db tr ≠ none := by
  have hfoot := footprint_of_run (.step h hg hs) ev (by simp)
  obtain ⟨row, hrow, hroot⟩ := Option.map_eq_some_iff.mp (hguard _ _ _ hg root hop)
  obtain ⟨i, op, outcome⟩ := ev
  obtain rfl : op = _ := hop
  obtain ⟨next, hcall, -⟩ := hs.threads
  have hwithin := htracks.within (cleared_of_restore hdb h hcall hfoot)
  have hset := settled_ideal hdb h
  subst hroot
  refine ⟨hwithin.restore hset hrow, ?_, by rw [hrow]; simp⟩
  rw [hwithin.active_restore hset hrow, hrow]

/-- **The table follows the ideal one**, if restorations bring back current
roots. -/
theorem tracks_of_run (h : Run exec noFaults guard (start platform policy db arrivals) tr c) :
    Tracks db tr c.store.baselines := by
  refine h.invariant (I := fun tr c => Tracks db tr c.store.baselines)
    (Or.inl ⟨by simp, rfl⟩) ?_
  intro tr c c' ev hr ih hg hs
  have hrestore := restore_step hdb hguard hr ih hg hs
  have hstore : c'.store.baselines = ev.op.onBaselines c.store.baselines := by
    rw [hs.committed.2, baselines_commit]
  rw [hstore, Tracks, ideal_snoc]
  obtain ⟨i, op, outcome⟩ := ev
  cases op with
  | deactivateAll => exact Or.inr (.deactivateAll ih.contents_eq)
  | pinBaseline root pcrs now =>
    obtain rfl : outcome = .ok () := hs.committed.1
    exact Or.inr (.pin ih.contents_eq _ _ _)
  | restoreBaseline root => exact Or.inr (hrestore root rfl).1
  | _ =>
    -- neither the table nor the ideal one changes
    rcases ih with ⟨hno, heq⟩ | hwithin
    · refine Or.inl ⟨fun e he => ?_, heq⟩
      rcases List.mem_append.mp he with he | he
      · exact hno e he
      · obtain rfl := List.mem_singleton.mp he
        exact ⟨by simp, by simp [IsPin]⟩
    · exact Or.inr hwithin

end

/-! ## The table does not stay cleared -/

/-- If the current baseline is not effective, an enrollment that cleared it is
still to restore it or to pin another. -/
def Uncleared (db : Database) (tr : List (ServerEvent ι))
    (c : Config Database ι Tx.Ret Exn Response) : Prop :=
  c.store.baselines.active = none → current db tr ≠ none →
    ∃ i, Clearing i tr ∧ ¬ (c.threads i).Finished

/-- A step that changes no baseline keeps the enrollment that is still to act. -/
theorem uncleared_other (hdb : Valid db)
    (h : Run exec noFaults guard (start platform policy db arrivals) tr c) (hg : guard tr c ev)
    (hlost : NothingLost db tr c ev) (hs : Step exec noFaults c ev c') (ih : Uncleared db tr c)
    (hsame : c'.store.baselines = c.store.baselines) (hpin : ¬ IsPin ev)
    (hrestore : ∀ root, ev.op ≠ .restoreBaseline root) : Uncleared db (tr ++ [ev]) c' := by
  intro hnone hcur
  rw [hsame] at hnone
  have hcurrent : current db (tr ++ [ev]) = current db tr := by
    unfold current
    rw [ideal_snoc, pinOf_of_not_isPin _ hpin]
  rw [hcurrent] at hcur
  obtain ⟨i, hclear, hfin⟩ := ih hnone hcur
  refine ⟨i, hclear.snoc hpin, fun hfin' => ?_⟩
  by_cases hi : i = ev.thread
  · -- the enrollment ends here, rejected and without a restoration
    subst hi
    obtain ⟨reason, hret⟩ := rejected_of_finished hdb (.step h hg hs) (hclear.snoc hpin) hfin'
    obtain ⟨next, hcall, hthreads⟩ := hs.threads
    rw [hthreads, Function.update_self] at hret
    rcases hlost next reason hcall hret hrestore with hnothing | hnot
    · exact hcur hnothing
    · exact hnot hclear
  · rw [hs.other hi] at hfin'
    exact hfin hfin'

theorem uncleared_of_run (hdb : Valid db)
    (hguard : ∀ tr c ev, guard tr c ev → RestoresCurrent db tr c ev)
    (hlost : ∀ tr c ev, guard tr c ev → NothingLost db tr c ev)
    (h : Run exec noFaults guard (start platform policy db arrivals) tr c) :
    Uncleared db tr c := by
  refine h.invariant (I := fun tr c => Uncleared db tr c) (fun hnone hcur => absurd hnone hcur) ?_
  intro tr c c' ev hr ih hg hs
  have hstore : c'.store.baselines = ev.op.onBaselines c.store.baselines := by
    rw [hs.committed.2, baselines_commit]
  have hrestore := restore_step hdb hguard hr (tracks_of_run hdb hguard hr) hg hs
  have hother := uncleared_other hdb hr hg (hlost _ _ _ hg) hs ih
  have hclear := fun outcome' (hev : ev = ⟨ev.thread, .deactivateAll, outcome'⟩) =>
    not_finished_of_clear hdb (hev ▸ Run.step hr hg hs)
  obtain ⟨i, op, outcome⟩ := ev
  cases op with
  | deactivateAll =>
    obtain rfl : outcome = .ok () := hs.committed.1
    exact fun _ _ => ⟨i, ⟨tr, [], rfl, by simp⟩, hclear _ rfl⟩
  | pinBaseline root pcrs now =>
    intro hnone
    have hactive := BaselineTable.active_pin root pcrs now.isoformat c.store.baselines
    rw [hstore] at hnone
    cases hactive.symm.trans hnone
  | restoreBaseline root =>
    intro hnone
    obtain ⟨-, hactive, hcur⟩ := hrestore root rfl
    rw [hstore] at hnone
    exact absurd (hactive.symm.trans hnone) hcur
  | _ => exact hother hstore (by simp [IsPin]) (by simp)

/-! ## Baselines are kept -/

/-- When every enrollment that has cleared the flags is over, the effective
baseline is the current one, and at most one row is active; unless nothing was
cleared and more were active at the start. -/
def BaselineKept (db : Database) (tr : List (ServerEvent ι))
    (c : Config Database ι Tx.Ret Exn Response) : Prop :=
  (∀ ev ∈ tr, ev.op = .deactivateAll → (c.threads ev.thread).Finished) →
    c.store.baselines.active = current db tr ∧
      (db.baselines.activeCount ≤ 1 ∨ (∃ ev ∈ tr, ev.op = .deactivateAll) →
        c.store.baselines.activeCount ≤ 1)

end Runs

/-- An enrollment whose nonce was never issued. -/
def rejection : Arrival := ⟨.enroll (sampleReport "unknown"), sampleEnv⟩

/-- Another root than the pinned one. -/
def otherRoot : String := "ffffffffffffffffffffffffffffffffffffffffffffffffffffffffffffffff"

inductive Enroller where
  | challenger
  | accepted
  | rejected
deriving DecidableEq

/-- A nonce, an enrollment of the other root that uses it, and an enrollment whose
nonce was never issued. -/
def challengeThenEnrolls : Enroller → Arrival
  | .challenger => ⟨.challenge, sampleEnv⟩
  | .accepted => ⟨.enroll { sampleReport sampleEnv.token with imaMerkleRoot := otherRoot }, sampleEnv⟩
  | .rejected => rejection

/-- Both enrollments read the root before one of them clears the flags, and the
second one restores it before the first one pins its own. -/
def overlapSchedule : List Enroller :=
  [.challenger, .accepted, .rejected, .rejected, .accepted, .accepted, .accepted, .rejected,
    .rejected, .accepted]

def overlapOps : List Tx :=
  [.insertNonce "c0ffee" "2024-06-01T12:02:00+00:00", .selectActiveRoot, .selectActiveRoot,
    .deactivateAll, .deactivateAll, .consumeNonce "c0ffee" noon, .selectActiveRoot,
    .consumeNonce "unknown" noon, .restoreBaseline sampleRoot,
    .pinBaseline otherRoot samplePcrs noon]

def overlapRun (k : Nat) :
    List (ServerEvent Enroller) × Config Database Enroller Tx.Ret Exn Response :=
  replay exec (start lenientPlatform laxPolicy pinnedDatabase challengeThenEnrolls)
    (overlapSchedule.take k)

/-- The pinning is the last step, and the rejected enrollment ends with its
restoration. -/
theorem overlapRun_steps : ∀ k < 10,
    current pinnedDatabase (overlapRun k).1 = some pinnedBaseline ∧
    ∀ i ∈ overlapSchedule[k]?, ((overlapRun k).2.threads i).pending = overlapOps[k]? ∧
      ∀ resp ∈ ((overlapRun (k + 1)).2.threads i).returned,
        resp = .challenge "c0ffee" 120 ∨ resp = .enrolled otherRoot ∨
          overlapOps[k]? = some (.restoreBaseline sampleRoot) := by
  decide +kernel

/-- Two enrollments whose nonces were never issued. -/
def twoRejections (_ : Bool) : Arrival := rejection

/-- The first one clears the flags before the second one reads the root, which
therefore saves none, and the second one clears what the first one restores. -/
def twoRejectionsRun :
    List (ServerEvent Bool) × Config Database Bool Tx.Ret Exn Response :=
  replay exec (start lenientPlatform laxPolicy pinnedDatabase twoRejections)
    [false, false, true, false, false, true, true]

end TpmAttest
