import TpmAttest.TransactionPrograms

/-! # Serializable runs

Programs that interleave may do what no serial order of them does.  They do not if
no program changes what another one that is under way has still to read.  Two
kinds of programs are told apart:

* a program that may write only in its first transaction and reads after it;
* an exclusive one, which is alone from its first transaction to its last.

A run of such programs is serializable: it leaves the store, and gives the
outcomes, of the programs executed one after another in the order of their first
transactions (`Run.serially_of_done`).  The condition on the run is its guard
(`Isolated`).

The other rules of this file are about one program: a program that nobody
disturbs ends as it would alone (`Run.outcome_alone`).
-/
namespace Transactional

open Program

variable {Op : Type} {Ret : Op → Type} {ε α β σ ι : Type}

namespace Program

/-- The program performs only transactions that satisfy `P`. -/
def Only (P : Op → Prop) (p : Program Ret ε α) : Prop :=
  p.Ensures (fun _ _ => True) P (fun _ => True) fun _ => True

/-- After its first transaction the program performs only such transactions. -/
def ThenOnly (P : Op → Prop) : Program Ret ε α → Prop
  | call _ next => ∀ r, (next r).Only P
  | _ => True

variable {exec : (op : Op) → σ → Except ε (Ret op × σ)} {P : Op → Prop} {p : Program Ret ε α}
  {s s' : σ}

theorem Only.of_finished (h : p.Finished) : p.Only P := by
  cases p with
  | call op next => exact h.elim
  | _ => trivial

theorem Only.bind {k : α → Program Ret ε β} (hp : p.Only P) (hk : ∀ a, (k a).Only P) :
    (p.bind k).Only P := Ensures.bind hp fun a _ => hk a

theorem Atomic.thenOnly (h : p.Atomic) : p.ThenOnly P := by
  cases p with
  | call op next => exact fun r => .of_finished (h r)
  | _ => trivial

/-- A program that ensures two things ensures both. -/
theorem Ensures.and {G : (op : Op) → Except ε (Ret op) → Prop} {P' : Op → Prop} {Q Q' : α → Prop}
    {E E' : ε → Prop} (h : p.Ensures G P Q E) (h' : p.Ensures G P' Q' E') :
    p.Ensures G (fun op => P op ∧ P' op) (fun a => Q a ∧ Q' a) fun e => E e ∧ E' e := by
  induction p with
  | ret a => exact ⟨h, h'⟩
  | raise e => exact ⟨h, h'⟩
  | call op next ih => exact ⟨⟨h.1, h'.1⟩, fun r hr => ih r (h.2 r hr) (h'.2 r hr)⟩

/-- A transaction that satisfies `P` is the last one of the program. -/
def Last (P : Op → Prop) : Program Ret ε α → Prop
  | call op next => (P op → ∀ r, (next r).Finished) ∧ ∀ r, (next r).Last P
  | _ => True

theorem Last.of_only (h : p.Only fun op => ¬ P op) : p.Last P := by
  induction p with
  | ret a => trivial
  | raise e => trivial
  | call op next ih => exact ⟨fun hop => absurd hop h.1, fun r => ih r (h.2 r trivial)⟩

theorem Only.bind_last {k : α → Program Ret ε β} (h : p.Only fun op => ¬ P op)
    (hk : ∀ a, (k a).Last P) : (p.bind k).Last P := by
  induction p with
  | ret a => exact hk a
  | raise e => trivial
  | call op next ih => exact ⟨fun hop => absurd hop h.1, fun r => ih r (h.2 r trivial)⟩

theorem Atomic.last (h : p.Atomic) : p.Last P := by
  cases p with
  | call op next => exact ⟨fun _ => h, fun r => .of_only (.of_finished (h r))⟩
  | _ => trivial

/-- After such a transaction the program is over. -/
theorem Last.finished {q : Program Ret ε α} {l : List (Observation Ret ε)} (hp : p.Last P)
    (h : Path p l q) {o : Observation Ret ε} (ho : o ∈ l) (hop : P o.1) : q.Finished := by
  induction h with
  | refl => cases ho
  | @call _ _ r _ _ hpath ih =>
    rcases List.mem_cons.mp ho with rfl | ho
    · have hfinished := hp.1 hop r
      rw [(hpath.of_finished hfinished).2]
      exact hfinished
    · exact ih (hp.2 _) ho

/-- A program of reads leaves the store as it is. -/
theorem Only.run_store (h : p.Only P) (hread : ∀ op, P op → ∀ s, (commit exec op s).2 = s) :
    (p.run exec s).2 = s := by
  induction p with
  | ret a => rfl
  | raise e => rfl
  | call op next ih =>
    change ((next (commit exec op s).1).run exec (commit exec op s).2).2 = s
    rw [hread op h.1 s]
    exact ih _ (h.2 _ trivial)

/-- A program ends alike on related stores, if its transactions do and keep them
related. -/
theorem Only.run_related {R : σ → σ → Prop} (h : p.Only P)
    (hR : ∀ op s s', P op → R s s' → (commit exec op s').1 = (commit exec op s).1 ∧
      R (commit exec op s).2 (commit exec op s').2) (hs : R s s') :
    (p.run exec s').1 = (p.run exec s).1 := by
  induction p generalizing s s' with
  | ret a => rfl
  | raise e => rfl
  | call op next ih =>
    obtain ⟨houtcome, hstore⟩ := hR op s s' h.1 hs
    change ((next (commit exec op s').1).run exec (commit exec op s').2).1 =
      ((next (commit exec op s).1).run exec (commit exec op s).2).1
    rw [houtcome]
    exact ih _ (h.2 _ trivial) hstore

/-- A program of reads ends alike on two stores that its reads cannot tell apart. -/
theorem Only.run_congr (h : p.Only P) (hread : ∀ op, P op → ∀ s, (commit exec op s).2 = s)
    (hsame : ∀ op, P op → (commit exec op s').1 = (commit exec op s).1) :
    (p.run exec s').1 = (p.run exec s).1 := by
  refine h.run_related (R := fun s s' => ∀ op, P op →
    (commit exec op s').1 = (commit exec op s).1) (fun op s s' hop hR => ⟨hR op hop, ?_⟩) hsame
  rwa [hread op hop, hread op hop]

theorem Finished.run_eq (h : p.Finished) (s s' : σ) :
    (p.run exec s').1 = (p.run exec s).1 := by
  cases p with
  | call op next => exact h.elim
  | _ => rfl

end Program

/-! ## Parts of runs -/

section Parts
variable [DecidableEq ι] {exec : (op : Op) → σ → Except ε (Ret op × σ)} {faults : ε → Prop}
  {guard : Guard σ ι Ret ε α} {c₀ c : Config σ ι Ret ε α} {tr t₁ t₂ : List (Event ι Ret ε)}

/-- The end of a run is a run, from what its beginning reached. -/
theorem Run.after (h : Run exec faults guard c₀ (t₁ ++ t₂) c) :
    ∃ c₁, Run exec faults guard c₀ t₁ c₁ ∧
      Run exec faults (fun t c ev => guard (t₁ ++ t) c ev) c₁ t₂ c := by
  generalize htr : t₁ ++ t₂ = tr at h
  induction h generalizing t₂ with
  | refl =>
    obtain ⟨rfl, rfl⟩ := List.append_eq_nil_iff.mp htr
    exact ⟨c₀, .refl, .refl⟩
  | @step tr c c' ev hr hg hs ih =>
    rcases List.eq_nil_or_concat t₂ with rfl | ⟨t₂', ev', rfl⟩
    · rw [List.append_nil] at htr
      subst htr
      exact ⟨c', .step hr hg hs, .refl⟩
    · rw [List.concat_eq_append, ← List.append_assoc] at htr
      obtain ⟨rfl, hev⟩ := List.append_inj' htr rfl
      obtain rfl := List.singleton_inj.mp hev
      obtain ⟨c₁, hr₁, hr₂⟩ := ih rfl
      rw [List.concat_eq_append]
      exact ⟨c₁, hr₁, .step hr₂ hg hs⟩

/-- The guard of a run may be replaced by one that its steps meet. -/
theorem Run.guarded {guard' : Guard σ ι Ret ε α} (h : Run exec faults guard c₀ tr c)
    (hg : ∀ {tr c c' ev}, Run exec faults guard c₀ tr c → guard tr c ev →
      Step exec faults c ev c' → guard' tr c ev) : Run exec faults guard' c₀ tr c := by
  induction h with
  | refl => exact .refl
  | step hr hgs hs ih => exact .step ih (hg hr hgs hs) hs

/-- What all events of a run meet is a guard of it. -/
theorem Run.guarded_of_mem {P : Event ι Ret ε → Prop} (h : Run exec faults guard c₀ tr c)
    (hP : ∀ ev ∈ tr, P ev) : Run exec faults (fun _ _ ev => P ev) c₀ tr c := by
  induction h with
  | refl => exact .refl
  | step _ _ hs ih =>
    rw [List.forall_mem_append] at hP
    exact .step (ih hP.1) (hP.2 _ (List.mem_singleton_self _)) hs

/-- What is left of a program performs what the program does. -/
theorem Run.only {P : Op → Prop} (h : Run exec faults guard c₀ tr c) {i : ι}
    (hi : (c₀.threads i).Only P) : (c.threads i).Only P :=
  ((h.path i).ensures hi fun _ _ => trivial).2

/-- The store after the transactions of the events. -/
def commits (exec : (op : Op) → σ → Except ε (Ret op × σ)) (s : σ) (tr : List (Event ι Ret ε)) : σ :=
  tr.foldl (fun s ev => (commit exec ev.op s).2) s

omit [DecidableEq ι] in
theorem commits_snoc (s : σ) (tr : List (Event ι Ret ε)) (ev : Event ι Ret ε) :
    commits exec s (tr ++ [ev]) = (commit exec ev.op (commits exec s tr)).2 := List.foldl_append

theorem Run.store_eq (h : Run exec noFaults guard c₀ tr c) : c.store = commits exec c₀.store tr := by
  induction h with
  | refl => rfl
  | step _ _ hs ih =>
    rw [commits_snoc, ← ih]
    exact hs.committed.2

/-- A thread without events is where it began. -/
theorem Run.not_begun (h : Run exec faults guard c₀ tr c) {i : ι} (hi : history i tr = []) :
    c.threads i = c₀.threads i := by
  have hpath := h.path i
  rw [hi] at hpath
  exact hpath.of_nil

/-- **A program that nobody disturbs ends as it would alone**: no step of another
one changes how it would end. -/
theorem Run.outcome_alone (h : Run exec noFaults guard c₀ tr c) {i : ι}
    (hother : ∀ {tr c c' ev}, Run exec noFaults guard c₀ tr c → guard tr c ev →
      Step exec noFaults c ev c' → ev.thread ≠ i →
      ((c.threads i).run exec c'.store).1 = ((c.threads i).run exec c.store).1) :
    ((c.threads i).run exec c.store).1 = ((c₀.threads i).run exec c₀.store).1 := by
  induction h with
  | refl => rfl
  | @step tr c c' ev hr hg hs ih =>
    rw [← ih]
    by_cases hi : ev.thread = i
    · -- its own step is the next one of the program
      subst hi
      obtain ⟨next, hcall, hthreads⟩ := hs.threads
      obtain ⟨houtcome, hstore⟩ := hs.committed
      rw [hthreads, Function.update_self, hcall, houtcome, hstore]
      rfl
    · rw [hs.other (Ne.symm hi)]
      exact hother hr hg hs hi

end Parts

/-! ## One program after another -/

/-- `Serially exec programs s₀ log s`: the programs of the threads in `log`, each
executed alone on the store that the one before it left, with these outcomes, lead
from `s₀` to `s`. -/
inductive Serially (exec : (op : Op) → σ → Except ε (Ret op × σ)) (programs : ι → Program Ret ε α)
    (s₀ : σ) : List (ι × Except ε α) → σ → Prop
  | nil : Serially exec programs s₀ [] s₀
  | next {log : List (ι × Except ε α)} {s : σ} (h : Serially exec programs s₀ log s) (i : ι) :
      Serially exec programs s₀ (log ++ [(i, ((programs i).run exec s).1)])
        ((programs i).run exec s).2

variable [DecidableEq ι]

/-- The threads of a run in the order of their first transactions. -/
def begun (tr : List (Event ι Ret ε)) : List ι := (tr.map Event.thread).eraseDups

/-- The thread has begun, and has something left to do. -/
def Active (tr : List (Event ι Ret ε)) (c : Config σ ι Ret ε α) (i : ι) : Prop :=
  i ∈ begun tr ∧ ¬ (c.threads i).Finished

section Begun
variable {tr : List (Event ι Ret ε)} {ev : Event ι Ret ε} {i : ι}

theorem mem_begun : i ∈ begun tr ↔ ∃ ev ∈ tr, ev.thread = i := by
  rw [begun, List.mem_eraseDups, List.mem_map]

theorem begun_snoc (tr : List (Event ι Ret ε)) (ev : Event ι Ret ε) :
    begun (tr ++ [ev]) = if ev.thread ∈ begun tr then begun tr else begun tr ++ [ev.thread] := by
  by_cases h : ev.thread ∈ begun tr
  · rw [if_pos h]
    have h := mem_begun.mp h
    simp [begun, List.eraseDups_append, List.removeAll, h]
  · rw [if_neg h]
    rw [mem_begun] at h
    simp [begun, List.eraseDups_append, List.removeAll, List.eraseDups_cons, h]

theorem history_eq_nil (h : i ∉ begun tr) : history i tr = [] := by
  rw [history, List.filterMap_eq_nil_iff]
  intro ev hev
  rw [if_neg]
  rintro rfl
  exact h (mem_begun.mpr ⟨ev, hev, rfl⟩)

end Begun

/-! ## Serializable runs -/

section Serializable
variable (exec : (op : Op) → σ → Except ε (Ret op × σ)) (exclusive : ι → Prop)
  (reads : ι → Op → Prop)

/-- The condition on a step: an exclusive program is alone while it is active, and
no step changes what another active program may still read. -/
structure Isolated (tr : List (Event ι Ret ε)) (c : Config σ ι Ret ε α) (ev : Event ι Ret ε) :
    Prop where
  alone : ∀ j, j ≠ ev.thread → Active tr c j → ¬ exclusive ev.thread ∧ ¬ exclusive j
  undisturbed : ∀ j, j ≠ ev.thread → Active tr c j → ∀ op, reads j op →
    (commit exec op (commit exec ev.op c.store).2).1 = (commit exec op c.store).1

/-- What holds after a run whose steps meet the condition: the programs that have
begun, executed serially, have the outcomes that the active ones are bound to, and
the store is that of the serial execution unless an exclusive program is active, which
is bound to leave it. -/
structure Serialized (c₀ : Config σ ι Ret ε α) (tr : List (Event ι Ret ε))
    (c : Config σ ι Ret ε α) (log : List (ι × Except ε α)) (s : σ) : Prop where
  serial : Serially exec c₀.threads c₀.store log s
  order : log.map Prod.fst = begun tr
  outcomes : ∀ i outcome, (i, outcome) ∈ log → ((c.threads i).run exec c.store).1 = outcome
  readers : ∀ i ∈ begun tr, ¬ exclusive i → (c.threads i).Only (reads i)
  store : (∀ i, Active tr c i → ¬ exclusive i) → c.store = s
  writer : ∀ i, Active tr c i → exclusive i → ((c.threads i).run exec c.store).2 = s

variable {exec exclusive reads} {c₀ c c' : Config σ ι Ret ε α} {tr : List (Event ι Ret ε)}
  {ev : Event ι Ret ε} {log : List (ι × Except ε α)} {s : σ}

/-- The program that moves is bound to the same end before and after its step. -/
theorem Step.run_eq (hs : Step exec noFaults c ev c') :
    (c'.threads ev.thread).run exec c'.store = (c.threads ev.thread).run exec c.store := by
  obtain ⟨next, hcall, hthreads⟩ := hs.threads
  obtain ⟨houtcome, hstore⟩ := hs.committed
  rw [hthreads, Function.update_self, hcall, houtcome, hstore]
  rfl

theorem Step.not_finished (hs : Step exec noFaults c ev c') :
    ¬ (c.threads ev.thread).Finished := by
  obtain ⟨next, hcall, -⟩ := hs.threads
  rw [hcall]
  exact not_finished_call _ _

theorem Serialized.mem_begun (h : Serialized exec exclusive reads c₀ tr c log s) {i : ι}
    {outcome : Except ε α} (hmem : (i, outcome) ∈ log) : i ∈ begun tr := by
  rw [← h.order]
  exact List.mem_map_of_mem hmem

section Step
variable (hread : ∀ i op, reads i op → ∀ s, (commit exec op s).2 = s)
  (h : Serialized exec exclusive reads c₀ tr c log s) (hg : Isolated exec exclusive reads tr c ev)
  (hs : Step exec noFaults c ev c')
include hread h hg hs

/-- The other programs are bound to the same outcomes. -/
theorem Serialized.outcome_eq {j : ι} (hj : j ≠ ev.thread) (hbegun : j ∈ begun tr) :
    ((c'.threads j).run exec c'.store).1 = ((c.threads j).run exec c.store).1 := by
  rw [hs.other hj, hs.committed.2]
  by_cases hfin : (c.threads j).Finished
  · exact hfin.run_eq _ _
  · have hactive : Active tr c j := ⟨hbegun, hfin⟩
    exact (h.readers j hbegun (hg.alone j hj hactive).2).run_congr (hread j)
      (hg.undisturbed j hj hactive)

/-- A step of a program that has begun. -/
theorem Serialized.step_begun (hbegun : ev.thread ∈ begun tr) :
    Serialized exec exclusive reads c₀ (tr ++ [ev]) c' log s := by
  have hsame : begun (tr ++ [ev]) = begun tr := by rw [begun_snoc, if_pos hbegun]
  have hactive : Active tr c ev.thread := ⟨hbegun, hs.not_finished⟩
  have hreader : ¬ exclusive ev.thread →
      (c'.threads ev.thread).Only (reads ev.thread) ∧ c'.store = c.store := by
    intro hex
    have honly := h.readers _ hbegun hex
    obtain ⟨next, hcall, hthreads⟩ := hs.threads
    rw [hcall] at honly
    rw [hthreads, Function.update_self, hs.committed.2]
    exact ⟨honly.2 _ trivial, hread _ _ honly.1 _⟩
  refine ⟨h.serial, by rw [hsame, h.order], ?_, ?_, ?_, ?_⟩
  · intro i outcome hmem
    rw [← h.outcomes i outcome hmem]
    by_cases hi : i = ev.thread
    · subst hi
      rw [hs.run_eq]
    · exact h.outcome_eq hread hg hs hi (h.mem_begun hmem)
  · intro i hi hex
    by_cases hthread : i = ev.thread
    · subst hthread
      exact (hreader hex).1
    · rw [hs.other hthread]
      exact h.readers i (hsame ▸ hi) hex
  · intro hnone
    by_cases hex : exclusive ev.thread
    · -- the exclusive program has just ended
      have hfin : (c'.threads ev.thread).Finished := by
        by_contra hfin
        exact hnone _ ⟨by rwa [hsame], hfin⟩ hex
      have hwriter := h.writer _ hactive hex
      rw [← hs.run_eq, (Only.of_finished hfin).run_store (hread ev.thread)] at hwriter
      exact hwriter
    · rw [(hreader hex).2]
      refine h.store fun i hi => ?_
      by_cases hthread : i = ev.thread
      · rwa [hthread]
      · exact (hg.alone i hthread hi).2
  · intro i hi hex
    by_cases hthread : i = ev.thread
    · subst hthread
      rw [hs.run_eq]
      exact h.writer _ hactive hex
    · -- no exclusive program is active beside the one that moves
      have hi' : Active tr c i := ⟨hsame ▸ hi.1, by rw [← hs.other hthread]; exact hi.2⟩
      exact absurd hex (hg.alone i hthread hi').2

/-- The first step of a program: it takes its place behind those that have begun. -/
theorem Serialized.step_first (hfirst : ∀ i, ¬ exclusive i → (c₀.threads i).ThenOnly (reads i))
    (hr : Run exec noFaults (Isolated exec exclusive reads) c₀ tr c)
    (hbegun : ev.thread ∉ begun tr) :
    Serialized exec exclusive reads c₀ (tr ++ [ev]) c'
      (log ++ [(ev.thread, ((c₀.threads ev.thread).run exec s).1)])
      ((c₀.threads ev.thread).run exec s).2 := by
  have hlonger : begun (tr ++ [ev]) = begun tr ++ [ev.thread] := by
    rw [begun_snoc, if_neg hbegun]
  have hne : ∀ i ∈ begun tr, i ≠ ev.thread := by
    rintro i hi rfl
    exact hbegun hi
  have hstart : c.threads ev.thread = c₀.threads ev.thread := hr.not_begun (history_eq_nil hbegun)
  have hstore : c.store = s := h.store fun i hi => (hg.alone i (hne i hi.1) hi).2
  have hrun : (c₀.threads ev.thread).run exec s = (c'.threads ev.thread).run exec c'.store := by
    rw [hs.run_eq, hstart, hstore]
  have hreader : ¬ exclusive ev.thread → (c'.threads ev.thread).Only (reads ev.thread) := by
    intro hex
    have hthen := hfirst _ hex
    obtain ⟨next, hcall, hthreads⟩ := hs.threads
    rw [← hstart, hcall] at hthen
    rw [hthreads, Function.update_self]
    exact hthen _
  refine ⟨h.serial.next ev.thread, by rw [hlonger, List.map_append, h.order]; rfl, ?_, ?_, ?_, ?_⟩
  · intro i outcome hmem
    rcases List.mem_append.mp hmem with hold | hnew
    · rw [← h.outcomes i outcome hold]
      exact h.outcome_eq hread hg hs (hne i (h.mem_begun hold)) (h.mem_begun hold)
    · cases List.mem_singleton.mp hnew
      rw [hrun]
  · intro i hi hex
    rw [hlonger, List.mem_append, List.mem_singleton] at hi
    rcases hi with hi | rfl
    · rw [hs.other (hne i hi)]
      exact h.readers i hi hex
    · exact hreader hex
  · intro hnone
    rw [hrun]
    by_cases hfin : (c'.threads ev.thread).Finished
    · rw [(Only.of_finished hfin).run_store (hread ev.thread)]
    · have hex := hnone ev.thread ⟨by rw [hlonger]; simp, hfin⟩
      rw [(hreader hex).run_store (hread ev.thread)]
  · rintro i ⟨hi, hfin⟩ hex
    rw [hlonger, List.mem_append, List.mem_singleton] at hi
    rcases hi with hi | rfl
    · rw [hs.other (hne i hi)] at hfin
      exact absurd hex (hg.alone i (hne i hi) ⟨hi, hfin⟩).2
    · rw [hrun]

end Step

section Run
variable (hread : ∀ i op, reads i op → ∀ s, (commit exec op s).2 = s)
  (hfirst : ∀ i, ¬ exclusive i → (c₀.threads i).ThenOnly (reads i))
  (h : Run exec noFaults (Isolated exec exclusive reads) c₀ tr c)
include hread hfirst h

theorem Run.serialized : ∃ log s, Serialized exec exclusive reads c₀ tr c log s := by
  induction h with
  | refl =>
    refine ⟨[], c₀.store, .nil, rfl, ?_, ?_, fun _ => rfl, ?_⟩
    · intro i outcome hmem
      cases hmem
    · intro i hi
      cases hi
    · rintro i ⟨hi, -⟩
      cases hi
  | @step tr c c' ev hr hg hs ih =>
    obtain ⟨log, s, h⟩ := ih
    by_cases hbegun : ev.thread ∈ begun tr
    · exact ⟨_, _, h.step_begun hread hg hs hbegun⟩
    · exact ⟨_, _, h.step_first hread hg hs hfirst hr hbegun⟩

/-- **A run of isolated programs is serializable**: when the programs that have begun
are over, the store and the outcomes are those of executing them one after another,
in the order of their first transactions. -/
theorem Run.serially_of_done {outcome : ι → Except ε α}
    (hdone : ∀ i ∈ begun tr, c.threads i = ofExcept (outcome i)) :
    Serially exec c₀.threads c₀.store ((begun tr).map fun i => (i, outcome i)) c.store := by
  obtain ⟨log, s, h⟩ := h.serialized hread hfirst
  have hfin : ∀ i ∈ begun tr, (c.threads i).Finished := by
    intro i hi
    rw [hdone i hi]
    exact finished_ofExcept _
  have hlog : log = (begun tr).map fun i => (i, outcome i) := by
    rw [← h.order, List.map_map]
    refine (List.map_id log).symm.trans (List.map_congr_left fun p hp => ?_)
    obtain ⟨i, r⟩ := p
    have hr := h.outcomes i r hp
    rw [hdone i (h.mem_begun hp), run_ofExcept] at hr
    rw [id, Function.comp, ← hr]
  rw [← hlog, h.store fun i hi => absurd (hfin i hi.1) hi.2]
  exact h.serial

end Run

end Serializable

end Transactional
