import Mathlib.Logic.Function.Basic
import Mathlib.Data.List.Induction

/-! # Programs of atomic transactions, and their interleavings

A client program of a transactional store is a tree: it returns, it raises an
exception, or it performs one transaction `op` and continues with the outcome,
which is the transaction's result or the error that rolled it back.  The tree
fixes no meaning for the transactions; `exec` does, once for every program.

* `Program.run` is a program executed alone.
* `Run` is any number of programs executed concurrently: each step is one whole
  transaction of one program.  A run carries its events, in commit order.

`faults` says which errors the store may raise out of the blue, rolling the
transaction back; `guard` is a condition that every step of the run meets.  With
`faults` empty and `guard` trivial a run is just an interleaving.

What one program did is its own events (`history`), and these form a path of its
tree (`Run.path`), so a fact about a single program's paths holds in every run.
-/
namespace Transactional

/-- A program that returns an `α`, raises an `ε`, or performs a transaction and
continues with its outcome. -/
inductive Program {Op : Type} (Ret : Op → Type) (ε α : Type) : Type where
  | ret (a : α)
  | raise (e : ε)
  | call (op : Op) (next : Except ε (Ret op) → Program Ret ε α)

variable {Op : Type} {Ret : Op → Type} {ε α β σ ι : Type}

namespace Program

/-- Sequential composition.  An exception skips the rest. -/
def bind : Program Ret ε α → (α → Program Ret ε β) → Program Ret ε β
  | ret a, k => k a
  | raise e, _ => raise e
  | call op next, k => call op fun r => (next r).bind k

/-- `try … except`: an exception of `p` continues with the handler. -/
def handle : Program Ret ε α → (ε → Program Ret ε α) → Program Ret ε α
  | ret a, _ => ret a
  | raise e, h => h e
  | call op next, h => call op fun r => (next r).handle h

/-- A computation that performs no transaction. -/
def ofExcept : Except ε α → Program Ret ε α
  | .ok a => ret a
  | .error e => raise e

/-- One transaction: its result is returned, the error that rolled it back is
raised. -/
def perform (op : Op) : Program Ret ε (Ret op) := call op ofExcept

instance : Monad (Program Ret ε) where
  pure := ret
  bind := bind

@[simp] theorem pure_eq (a : α) : (pure a : Program Ret ε α) = ret a := rfl

@[simp] theorem bind_eq (p : Program Ret ε α) (k : α → Program Ret ε β) :
    p >>= k = p.bind k := rfl

@[simp] theorem ret_bind (a : α) (k : α → Program Ret ε β) :
    (ret a : Program Ret ε α).bind k = k a := rfl

@[simp] theorem raise_bind (e : ε) (k : α → Program Ret ε β) :
    (raise e : Program Ret ε α).bind k = raise e := rfl

@[simp] theorem call_bind (op : Op) (next : Except ε (Ret op) → Program Ret ε α)
    (k : α → Program Ret ε β) :
    (call op next).bind k = call op fun r => (next r).bind k := rfl

@[simp] theorem ofExcept_ok (a : α) : (ofExcept (.ok a) : Program Ret ε α) = ret a := rfl

@[simp] theorem ofExcept_error (e : ε) : (ofExcept (.error e) : Program Ret ε α) = raise e := rfl

theorem ofExcept_injective {r r' : Except ε α}
    (h : (ofExcept r : Program Ret ε α) = ofExcept r') : r = r' := by
  cases r with
  | ok a => cases r' <;> cases h; rfl
  | error e => cases r' <;> cases h; rfl

theorem perform_bind (op : Op) (k : Ret op → Program Ret ε β) :
    (perform op : Program Ret ε (Ret op)).bind k = call op fun r => (ofExcept r).bind k := rfl

/-- Nothing left to perform: the program has returned or raised. -/
def Finished : Program Ret ε α → Prop
  | call _ _ => False
  | _ => True

/-- The transaction a program performs next. -/
def pending : Program Ret ε α → Option Op
  | call op _ => some op
  | _ => none

/-- The value a program has returned. -/
def returned : Program Ret ε α → Option α
  | ret a => some a
  | _ => none

theorem returned_eq_some {p : Program Ret ε α} {a : α} : p.returned = some a ↔ p = ret a := by
  cases p with
  | ret b => simp [returned]
  | raise e => simp [returned]
  | call op next => simp [returned]

@[simp] theorem not_finished_call (op : Op) (next : Except ε (Ret op) → Program Ret ε α) :
    ¬ (call op next).Finished := id

/-! ## What a program ensures -/

/-- As long as the outcomes of its transactions are as `G` says, every
transaction the program performs satisfies `P`, every value it returns satisfies
`Q`, and every exception it raises satisfies `E`. -/
def Ensures (G : (op : Op) → Except ε (Ret op) → Prop) (P : Op → Prop) (Q : α → Prop)
    (E : ε → Prop) : Program Ret ε α → Prop
  | ret a => Q a
  | raise e => E e
  | call op next => P op ∧ ∀ r, G op r → (next r).Ensures G P Q E

section Ensures
variable {G : (op : Op) → Except ε (Ret op) → Prop} {P : Op → Prop} {Q : α → Prop} {R : β → Prop}
  {E : ε → Prop}

theorem Ensures.bind {p : Program Ret ε α} {k : α → Program Ret ε β} (hp : p.Ensures G P Q E)
    (hk : ∀ a, Q a → (k a).Ensures G P R E) : (p.bind k).Ensures G P R E := by
  induction p with
  | ret a => exact hk a hp
  | raise e => exact hp
  | call op next ih => exact ⟨hp.1, fun r hr => ih r (hp.2 r hr)⟩

/-- A handler meets every exception of the program it guards. -/
theorem Ensures.handle {F : ε → Prop} {p : Program Ret ε α} {h : ε → Program Ret ε α}
    (hp : p.Ensures G P Q F) (hh : ∀ e, F e → (h e).Ensures G P Q E) :
    (p.handle h).Ensures G P Q E := by
  induction p with
  | ret a => exact hp
  | raise e => exact hh e hp
  | call op next ih => exact ⟨hp.1, fun r hr => ih r (hp.2 r hr)⟩

theorem ensures_ofExcept {r : Except ε α} (h : ∀ a, r = .ok a → Q a)
    (he : ∀ e, r = .error e → E e) : (ofExcept r : Program Ret ε α).Ensures G P Q E := by
  cases r with
  | ok a => exact h a rfl
  | error e => exact he e rfl

theorem ensures_perform {op : Op} {Q : Ret op → Prop} (hop : P op)
    (hQ : ∀ a, G op (.ok a) → Q a) (hE : ∀ e, G op (.error e) → E e) :
    (perform op : Program Ret ε (Ret op)).Ensures G P Q E := by
  refine ⟨hop, fun r hr => ensures_ofExcept ?_ ?_⟩
  · rintro a rfl
    exact hQ a hr
  · rintro e rfl
    exact hE e hr

theorem Ensures.mono {P' : Op → Prop} {Q' : α → Prop} {E' : ε → Prop} {p : Program Ret ε α}
    (hp : p.Ensures G P Q E) (hP : ∀ op, P op → P' op) (hQ : ∀ a, Q a → Q' a)
    (hE : ∀ e, E e → E' e) : p.Ensures G P' Q' E' := by
  induction p with
  | ret a => exact hQ a hp
  | raise e => exact hE e hp
  | call op next ih => exact ⟨hP op hp.1, fun r hr => ih r (hp.2 r hr)⟩

end Ensures

/-! ## Running alone -/

variable (exec : (op : Op) → σ → Except ε (Ret op × σ))

/-- The outcome of a transaction on a store, and the store after it.  A
transaction whose body raises is rolled back. -/
def commit (op : Op) (s : σ) : Except ε (Ret op) × σ :=
  match exec op s with
  | .ok (r, s') => (.ok r, s')
  | .error e => (.error e, s)

/-- A program executed alone, to its end. -/
def run : Program Ret ε α → σ → Except ε α × σ
  | ret a, s => (.ok a, s)
  | raise e, s => (.error e, s)
  | call op next, s => (next (commit exec op s).1).run (commit exec op s).2

theorem run_bind (p : Program Ret ε α) (k : α → Program Ret ε β) (s : σ) :
    (p.bind k).run exec s =
      match p.run exec s with
      | (.ok a, s') => (k a).run exec s'
      | (.error e, s') => (.error e, s') := by
  induction p generalizing s with
  | ret a => rfl
  | raise e => rfl
  | call op next ih => exact ih _ _

/-- A sequence returns if its parts do, one on the store that the other leaves. -/
theorem run_bind_eq_ok {p : Program Ret ε α} {k : α → Program Ret ε β} {s : σ} {b : β} :
    ((p.bind k).run exec s).1 = .ok b ↔
      ∃ a, (p.run exec s).1 = .ok a ∧ ((k a).run exec (p.run exec s).2).1 = .ok b := by
  rw [run_bind]
  obtain ⟨outcome, s'⟩ := p.run exec s
  cases outcome with
  | ok a => simp
  | error e => simp

theorem run_handle (p : Program Ret ε α) (h : ε → Program Ret ε α) (s : σ) :
    (p.handle h).run exec s =
      match p.run exec s with
      | (.ok a, s') => (.ok a, s')
      | (.error e, s') => (h e).run exec s' := by
  induction p generalizing s with
  | ret a => rfl
  | raise e => rfl
  | call op next ih => exact ih _ _

@[simp] theorem run_ofExcept (r : Except ε α) (s : σ) :
    (ofExcept r : Program Ret ε α).run exec s = (r, s) := by
  cases r <;> rfl

theorem run_perform (op : Op) (s : σ) :
    (perform op : Program Ret ε (Ret op)).run exec s = commit exec op s := by
  unfold perform run commit
  cases exec op s <;> rfl

/-! ## Programs of at most one transaction -/

/-- The program performs at most one transaction. -/
def Atomic : Program Ret ε α → Prop
  | call _ next => ∀ r, (next r).Finished
  | _ => True

section Atomic
variable {p : Program Ret ε α} {k : α → Program Ret ε β}

@[simp] theorem finished_ofExcept (r : Except ε α) : (ofExcept r : Program Ret ε α).Finished := by
  cases r with
  | ok a => trivial
  | error e => trivial

theorem Finished.bind (hp : p.Finished) (hk : ∀ a, (k a).Finished) : (p.bind k).Finished := by
  cases p with
  | ret a => exact hk a
  | raise e => trivial
  | call op next => exact hp.elim

theorem Finished.handle {h : ε → Program Ret ε α} (hp : p.Finished) (hh : ∀ e, (h e).Finished) :
    (p.handle h).Finished := by
  cases p with
  | ret a => trivial
  | raise e => exact hh e
  | call op next => exact hp.elim

theorem Finished.atomic (hp : p.Finished) : p.Atomic := by
  cases p with
  | call op next => exact hp.elim
  | _ => trivial

theorem Finished.bind_atomic (hp : p.Finished) (hk : ∀ a, (k a).Atomic) : (p.bind k).Atomic := by
  cases p with
  | ret a => exact hk a
  | raise e => trivial
  | call op next => exact hp.elim

theorem Atomic.bind (hp : p.Atomic) (hk : ∀ a, (k a).Finished) : (p.bind k).Atomic := by
  cases p with
  | ret a => exact (hk a).atomic
  | raise e => trivial
  | call op next => exact fun r => (hp r).bind hk

theorem Atomic.handle {h : ε → Program Ret ε α} (hp : p.Atomic) (hh : ∀ e, (h e).Finished) :
    (p.handle h).Atomic := by
  cases p with
  | ret a => trivial
  | raise e => exact (hh e).atomic
  | call op next => exact fun r => (hp r).handle hh

theorem atomic_perform (op : Op) : (perform op : Program Ret ε (Ret op)).Atomic :=
  fun r => finished_ofExcept r

end Atomic

/-- A program executed alone keeps what its transactions keep, and ends as it
ensures. -/
theorem Ensures.run_outcome {exec : (op : Op) → σ → Except ε (Ret op × σ)} {I : σ → Prop}
    {G : (op : Op) → Except ε (Ret op) → Prop} {P : Op → Prop} {Q : α → Prop} {E : ε → Prop}
    {p : Program Ret ε α} (hp : p.Ensures G P Q E)
    (hstep : ∀ op s, P op → I s → G op (commit exec op s).1 ∧ I (commit exec op s).2) {s : σ}
    (hs : I s) :
    I (p.run exec s).2 ∧ (∀ a, (p.run exec s).1 = .ok a → Q a) ∧
      ∀ e, (p.run exec s).1 = .error e → E e := by
  induction p generalizing s with
  | ret a =>
    refine ⟨hs, ?_, fun e h => by cases h⟩
    rintro b h
    cases h
    exact hp
  | raise e =>
    refine ⟨hs, fun a h => (by cases h), ?_⟩
    rintro e' h
    cases h
    exact hp
  | call op next ih =>
    obtain ⟨hG, hI⟩ := hstep op s hp.1 hs
    exact ih _ (hp.2 _ hG) hI

theorem Ensures.run_invariant {exec : (op : Op) → σ → Except ε (Ret op × σ)} {I : σ → Prop}
    {G : (op : Op) → Except ε (Ret op) → Prop} {P : Op → Prop} {Q : α → Prop} {E : ε → Prop}
    {p : Program Ret ε α} (hp : p.Ensures G P Q E)
    (hstep : ∀ op s, P op → I s → G op (commit exec op s).1 ∧ I (commit exec op s).2) {s : σ}
    (hs : I s) : I (p.run exec s).2 := (hp.run_outcome hstep hs).1

/-! ## Running alone with a fault -/

section Fault
variable (exec : (op : Op) → σ → Except ε (Ret op × σ))

/-- The transactions that a program performs when it is executed alone. -/
def transactions : Program Ret ε α → σ → List Op
  | ret _, _ => []
  | raise _, _ => []
  | call op next, s =>
    op :: (next (commit exec op s).1).transactions (commit exec op s).2

/-- A program executed alone, with its `n`-th transaction, counted from 0, rolled
back by the error `e`. -/
def runFault (e : ε) : Program Ret ε α → Nat → σ → Except ε α × σ
  | ret a, _, s => (.ok a, s)
  | raise e', _, s => (.error e', s)
  | call _ next, 0, s => (next (.error e)).run exec s
  | call op next, n + 1, s =>
    (next (commit exec op s).1).runFault e n (commit exec op s).2

variable {exec} {e : ε} {n : Nat} {s : σ}

/-- A fault in the first of two programs. -/
theorem runFault_bind_of_lt {p : Program Ret ε α} {k : α → Program Ret ε β}
    (h : n < (p.transactions exec s).length) :
    (p.bind k).runFault exec e n s =
      match p.runFault exec e n s with
      | (.ok a, s') => (k a).run exec s'
      | (.error e', s') => (.error e', s') := by
  induction p generalizing n s with
  | ret a => exact absurd h (Nat.not_lt_zero n)
  | raise e' => exact absurd h (Nat.not_lt_zero n)
  | call op next ih =>
    cases n with
    | zero => exact run_bind exec _ _ _
    | succ n => exact ih _ (Nat.lt_of_succ_lt_succ h)

/-- A fault after the first of two programs, which is as if it had run alone. -/
theorem runFault_bind_of_le {p : Program Ret ε α} {k : α → Program Ret ε β}
    (h : (p.transactions exec s).length ≤ n) :
    (p.bind k).runFault exec e n s =
      match p.run exec s with
      | (.ok a, s') => (k a).runFault exec e (n - (p.transactions exec s).length) s'
      | (.error e', s') => (.error e', s') := by
  induction p generalizing n s with
  | ret a => rfl
  | raise e' => rfl
  | call op next ih =>
    cases n with
    | zero => exact absurd h (Nat.not_succ_le_zero _)
    | succ n =>
      rw [transactions, List.length_cons, Nat.add_sub_add_right]
      exact ih _ (Nat.le_of_succ_le_succ h)

theorem transactions_bind {p : Program Ret ε α} {k : α → Program Ret ε β} :
    (p.bind k).transactions exec s = p.transactions exec s ++
      match p.run exec s with
      | (.ok a, s') => (k a).transactions exec s'
      | (.error _, _) => [] := by
  induction p generalizing s with
  | ret a => rfl
  | raise e' => rfl
  | call op next ih => exact congrArg (List.cons op) (ih _)

/-- The program handles no error of a transaction. -/
def Transparent : Program Ret ε α → Prop
  | call _ next => (∀ e, next (.error e) = raise e) ∧ ∀ r, (next r).Transparent
  | _ => True

theorem transparent_ofExcept (r : Except ε α) : (ofExcept r : Program Ret ε α).Transparent := by
  cases r <;> trivial

theorem transparent_perform (op : Op) : (perform op : Program Ret ε (Ret op)).Transparent :=
  ⟨fun _ => rfl, transparent_ofExcept⟩

theorem Transparent.bind {p : Program Ret ε α} {k : α → Program Ret ε β} (hp : p.Transparent)
    (hk : ∀ a, (k a).Transparent) : (p.bind k).Transparent := by
  induction p with
  | ret a => exact hk a
  | raise e' => trivial
  | call op next ih =>
    refine ⟨fun e' => ?_, fun r => ih r (hp.2 r)⟩
    change (next (.error e')).bind k = raise e'
    rw [hp.1 e']
    rfl

/-- **A fault in a program that handles none ends it with that error.** -/
theorem Transparent.runFault_eq {p : Program Ret ε α} (hp : p.Transparent)
    (hn : n < (p.transactions exec s).length) : (p.runFault exec e n s).1 = .error e := by
  induction p generalizing n s with
  | ret a => exact absurd hn (Nat.not_lt_zero n)
  | raise e' => exact absurd hn (Nat.not_lt_zero n)
  | call op next ih =>
    cases n with
    | zero =>
      rw [runFault, hp.1 e]
      rfl
    | succ n => exact ih _ (hp.2 _) (Nat.lt_of_succ_lt_succ hn)

/-- A fault does not break what the transactions keep. -/
theorem Ensures.runFault_invariant {I : σ → Prop} {P : Op → Prop} {Q : α → Prop} {E : ε → Prop}
    {p : Program Ret ε α} (hp : p.Ensures (fun _ _ => True) P Q E)
    (hstep : ∀ op s, P op → I s → I (commit exec op s).2) (hs : I s) :
    I (p.runFault exec e n s).2 := by
  induction p generalizing n s with
  | ret a => exact hs
  | raise e' => exact hs
  | call op next ih =>
    cases n with
    | zero =>
      exact (hp.2 _ trivial).run_invariant (fun op s hop hs => ⟨trivial, hstep op s hop hs⟩) hs
    | succ n => exact ih _ (hp.2 _ trivial) (hstep op s hp.1 hs)

end Fault

end Program

/-! ## Running concurrently -/

/-- The shared store, and what is left of each program. -/
structure Config (σ ι : Type) {Op : Type} (Ret : Op → Type) (ε α : Type) where
  store : σ
  threads : ι → Program Ret ε α

/-- One transaction of a run: who performed it, and its outcome. -/
structure Event (ι : Type) {Op : Type} (Ret : Op → Type) (ε : Type) where
  thread : ι
  op : Op
  outcome : Except ε (Ret op)

open Program

variable [DecidableEq ι] (exec : (op : Op) → σ → Except ε (Ret op × σ)) (faults : ε → Prop)

/-- One step of a run: thread `ev.thread` performs its next transaction, which
commits, or which a fault of the store rolls back. -/
inductive Step : Config σ ι Ret ε α → Event ι Ret ε → Config σ ι Ret ε α → Prop
  | commit {c : Config σ ι Ret ε α} {i : ι} {op : Op}
      {next : Except ε (Ret op) → Program Ret ε α} (h : c.threads i = .call op next) :
      Step c ⟨i, op, (commit exec op c.store).1⟩
        ⟨(commit exec op c.store).2,
          Function.update c.threads i (next (commit exec op c.store).1)⟩
  | fault {c : Config σ ι Ret ε α} {i : ι} {op : Op}
      {next : Except ε (Ret op) → Program Ret ε α} {e : ε} (h : c.threads i = .call op next)
      (he : faults e) :
      Step c ⟨i, op, .error e⟩ ⟨c.store, Function.update c.threads i (next (.error e))⟩

/-- A condition on a step: the events so far, the configuration before the step,
and its event. -/
abbrev Guard (σ ι : Type) {Op : Type} (Ret : Op → Type) (ε α : Type) :=
  List (Event ι Ret ε) → Config σ ι Ret ε α → Event ι Ret ε → Prop

/-- A run from `c₀` whose steps all meet `guard`: its events in commit order, and
the configuration it reaches. -/
inductive Run (guard : Guard σ ι Ret ε α) (c₀ : Config σ ι Ret ε α) :
    List (Event ι Ret ε) → Config σ ι Ret ε α → Prop
  | refl : Run guard c₀ [] c₀
  | step {tr : List (Event ι Ret ε)} {c c' : Config σ ι Ret ε α} {ev : Event ι Ret ε}
      (hr : Run guard c₀ tr c) (hg : guard tr c ev) (hs : Step exec faults c ev c') :
      Run guard c₀ (tr ++ [ev]) c'

/-- The condition every step meets. -/
def unguarded : Guard σ ι Ret ε α := fun _ _ _ => True

/-- The store that raises no error of its own accord. -/
def noFaults : ε → Prop := fun _ => False

/-! ## Facts about steps and runs -/

section Facts
variable {exec faults} {guard : Guard σ ι Ret ε α} {c₀ c c' : Config σ ι Ret ε α}
  {tr : List (Event ι Ret ε)} {ev : Event ι Ret ε}

/-- **What a step does**: the program of the event's thread was at the event's
transaction and continues with its outcome, and no other program moves. -/
theorem Step.threads (h : Step exec faults c ev c') :
    ∃ next, c.threads ev.thread = .call ev.op next ∧
      c'.threads = Function.update c.threads ev.thread (next ev.outcome) := by
  cases h with
  | commit h => exact ⟨_, h, rfl⟩
  | fault h _ => exact ⟨_, h, rfl⟩

/-- The store after a step: the transaction committed, or a fault left the store
as it was. -/
theorem Step.store (h : Step exec faults c ev c') :
    (ev.outcome = (Program.commit exec ev.op c.store).1 ∧
        c'.store = (Program.commit exec ev.op c.store).2) ∨
      ((∃ e, ev.outcome = .error e ∧ faults e) ∧ c'.store = c.store) := by
  cases h with
  | commit h => exact Or.inl ⟨rfl, rfl⟩
  | fault h he => exact Or.inr ⟨⟨_, rfl, he⟩, rfl⟩

/-- Without faults every step commits. -/
theorem Step.committed (h : Step exec noFaults c ev c') :
    ev.outcome = (Program.commit exec ev.op c.store).1 ∧
      c'.store = (Program.commit exec ev.op c.store).2 := by
  rcases h.store with hc | ⟨⟨e, _, he⟩, _⟩
  · exact hc
  · exact he.elim

theorem Step.other (h : Step exec faults c ev c') {j : ι} (hj : j ≠ ev.thread) :
    c'.threads j = c.threads j := by
  obtain ⟨next, _, ht⟩ := h.threads
  rw [ht, Function.update_of_ne hj]

/-- A program that has finished takes no step. -/
theorem Step.ne_of_finished (h : Step exec faults c ev c') {j : ι}
    (hj : (c.threads j).Finished) : j ≠ ev.thread := by
  rintro rfl
  obtain ⟨next, hc, _⟩ := h.threads
  rw [hc] at hj
  exact hj

theorem Step.finished (h : Step exec faults c ev c') {j : ι} (hj : (c.threads j).Finished) :
    c'.threads j = c.threads j := h.other (h.ne_of_finished hj)

/-- **A program executed alone is a run**, of a single thread. -/
theorem exists_run (exec : (op : Op) → σ → Except ε (Ret op × σ)) (p : Program Ret ε α) (s : σ) :
    ∃ tr, Run exec noFaults unguarded ⟨s, fun _ : Unit => p⟩ tr
      ⟨(p.run exec s).2, fun _ => ofExcept (p.run exec s).1⟩ := by
  suffices h : ∀ (c₀ : Config σ Unit Ret ε α) (tr : List (Event Unit Ret ε)),
      Run exec noFaults unguarded c₀ tr ⟨s, fun _ => p⟩ → ∃ tr',
        Run exec noFaults unguarded c₀ tr' ⟨(p.run exec s).2, fun _ => ofExcept (p.run exec s).1⟩ from
    h _ [] .refl
  -- induction on what is left of the program
  intro c₀ tr hr
  induction p generalizing s tr with
  | ret a => exact ⟨tr, hr⟩
  | raise e => exact ⟨tr, hr⟩
  | call op next ih =>
    have hstep := Run.step hr trivial (Step.commit (i := ()) rfl)
    rw [show Function.update (fun _ : Unit => call op next) () (next (Program.commit exec op s).1) =
      fun _ => next (Program.commit exec op s).1 from
      funext fun _ => Function.update_self _ _ _] at hstep
    exact ih _ _ _ hstep

/-- An event of a run, at its place: the run up to it, and its step. -/
theorem Run.split {t₁ t₂ : List (Event ι Ret ε)} (h : Run exec faults guard c₀ tr c)
    (ht : tr = t₁ ++ ev :: t₂) :
    ∃ c₁ c₂, Run exec faults guard c₀ t₁ c₁ ∧ guard t₁ c₁ ev ∧ Step exec faults c₁ ev c₂ := by
  induction h generalizing t₂ with
  | refl => simp at ht
  | @step tr c c' ev' hr hg hs ih =>
    -- the event is the last one, or one of the run before it
    rcases List.eq_nil_or_concat t₂ with rfl | ⟨t, e, rfl⟩
    · obtain ⟨rfl, he⟩ := List.append_inj' ht rfl
      obtain rfl := List.singleton_inj.mp he
      exact ⟨c, c', hr, hg, hs⟩
    · rw [List.concat_eq_append, ← List.cons_append, ← List.append_assoc] at ht
      exact ih (List.append_inj' ht rfl).1

/-- Of two elements of a list one stands before the other, or they are one. -/
theorem split_cases {α : Type} {t₁ s₁ t₂ s₂ : List α} {a b : α}
    (h : t₁ ++ a :: s₁ = t₂ ++ b :: s₂) :
    a = b ∨ (∃ m, t₂ = t₁ ++ a :: m) ∨ ∃ m, t₁ = t₂ ++ b :: m := by
  rcases List.append_eq_append_iff.mp h with ⟨m, rfl, hm⟩ | ⟨m, rfl, hm⟩
  · cases m with
    | nil => exact Or.inl (List.cons.inj hm).1
    | cons x m => exact Or.inr (Or.inl ⟨m, by rw [(List.cons.inj hm).1]⟩)
  · cases m with
    | nil => exact Or.inl (List.cons.inj hm).1.symm
    | cons x m => exact Or.inr (Or.inr ⟨m, by rw [(List.cons.inj hm).1]⟩)

/-- The beginning of a run is a run. -/
theorem Run.before {t₁ t₂ : List (Event ι Ret ε)} (h : Run exec faults guard c₀ (t₁ ++ t₂) c) :
    ∃ c₁, Run exec faults guard c₀ t₁ c₁ := by
  cases t₂ with
  | nil => exact ⟨c, by rwa [List.append_nil] at h⟩
  | cons ev t₂ =>
    obtain ⟨c₁, _, hr, -⟩ := h.split rfl
    exact ⟨c₁, hr⟩

/-- A finished program stays as it is to the end of the run. -/
theorem Run.finished (h : Run exec faults guard c₀ tr c) {j : ι}
    (hj : (c₀.threads j).Finished) : c.threads j = c₀.threads j := by
  induction h with
  | refl => rfl
  | step hr _ hs ih => rw [hs.finished (by rw [ih]; exact hj), ih]

theorem Run.mono {guard' : Guard σ ι Ret ε α} (h : Run exec faults guard c₀ tr c)
    (hg : ∀ tr c ev, guard tr c ev → guard' tr c ev) : Run exec faults guard' c₀ tr c := by
  induction h with
  | refl => exact .refl
  | step _ hgs hs ih => exact .step ih (hg _ _ _ hgs) hs

/-- A run is a run of any store that raises more errors. -/
theorem Run.faulty (h : Run exec noFaults guard c₀ tr c) (faults : ε → Prop) :
    Run exec faults guard c₀ tr c := by
  induction h with
  | refl => exact .refl
  | step _ hg hs ih =>
    refine .step ih hg ?_
    cases hs with
    | commit h => exact .commit h
    | fault _ he => exact he.elim

/-- **The invariant rule**: what holds at the start and is kept by every step
holds at the end of every run. -/
theorem Run.invariant {I : List (Event ι Ret ε) → Config σ ι Ret ε α → Prop}
    (h : Run exec faults guard c₀ tr c) (h0 : I [] c₀)
    (hstep : ∀ {tr c c' ev}, Run exec faults guard c₀ tr c → I tr c → guard tr c ev →
      Step exec faults c ev c' → I (tr ++ [ev]) c') : I tr c := by
  induction h with
  | refl => exact h0
  | step hr hg hs ih => exact hstep hr ih hg hs

end Facts

/-! ## What one program did -/

/-- A transaction with its outcome. -/
abbrev Observation {Op : Type} (Ret : Op → Type) (ε : Type) := (op : Op) × Except ε (Ret op)

/-- The transactions of thread `i`, in order, with their outcomes. -/
def history (i : ι) (tr : List (Event ι Ret ε)) : List (Observation Ret ε) :=
  tr.filterMap fun ev => if ev.thread = i then some ⟨ev.op, ev.outcome⟩ else none

theorem history_append (i : ι) (t₁ t₂ : List (Event ι Ret ε)) :
    history i (t₁ ++ t₂) = history i t₁ ++ history i t₂ := List.filterMap_append

theorem history_snoc_self (tr : List (Event ι Ret ε)) (ev : Event ι Ret ε) :
    history ev.thread (tr ++ [ev]) = history ev.thread tr ++ [⟨ev.op, ev.outcome⟩] := by
  rw [history_append]
  simp [history]

theorem history_snoc_other {i : ι} (tr : List (Event ι Ret ε)) {ev : Event ι Ret ε}
    (h : ev.thread ≠ i) : history i (tr ++ [ev]) = history i tr := by
  rw [history_append]
  simp [history, h]

/-- A transaction of thread `i` is one of the run's events. -/
theorem mem_history {i : ι} {tr : List (Event ι Ret ε)} {o : Observation Ret ε} :
    o ∈ history i tr ↔ ⟨i, o.1, o.2⟩ ∈ tr := by
  simp only [history, List.mem_filterMap, Option.ite_none_right_eq_some, Option.some.injEq]
  constructor
  · rintro ⟨ev, hev, rfl, rfl⟩
    exact hev
  · intro h
    exact ⟨_, h, rfl, rfl⟩

/-- Where a transaction stands in the history of thread `i`, it stands in the run. -/
theorem history_split {i : ι} {tr : List (Event ι Ret ε)} {l l' : List (Observation Ret ε)}
    {o : Observation Ret ε} (h : history i tr = l ++ o :: l') :
    ∃ t₁ t₂, tr = t₁ ++ ⟨i, o.1, o.2⟩ :: t₂ ∧ history i t₁ = l := by
  obtain ⟨t₁, t, rfl, hl, ht⟩ := List.filterMap_eq_append_iff.mp h
  obtain ⟨s, ev, t₂, rfl, hs, hev, -⟩ := List.filterMap_eq_cons_iff.mp ht
  obtain ⟨rfl, rfl⟩ : ev.thread = i ∧ (⟨ev.op, ev.outcome⟩ : Observation Ret ε) = o := by
    simpa using hev
  refine ⟨t₁ ++ s, t₂, by simp, ?_⟩
  have hnone : history ev.thread s = [] := List.filterMap_eq_nil_iff.mpr hs
  rw [history_append, hnone, List.append_nil]
  exact hl

/-- `Path p l q`: performing the transactions `l`, with those outcomes, takes the
program `p` to `q`. -/
inductive Path : Program Ret ε α → List (Observation Ret ε) → Program Ret ε α → Prop
  | refl (p : Program Ret ε α) : Path p [] p
  | call {op : Op} {next : Except ε (Ret op) → Program Ret ε α} {r : Except ε (Ret op)}
      {l : List (Observation Ret ε)} {q : Program Ret ε α} (h : Path (next r) l q) :
      Path (.call op next) (⟨op, r⟩ :: l) q

namespace Path
variable {p q : Program Ret ε α} {l : List (Observation Ret ε)}

/-- One more transaction at the end of a path. -/
theorem snoc {op : Op} {next : Except ε (Ret op) → Program Ret ε α} (r : Except ε (Ret op))
    (h : Path p l (.call op next)) : Path p (l ++ [⟨op, r⟩]) (next r) := by
  generalize hq : Program.call op next = q at h
  induction h with
  | refl p => subst hq; exact .call (.refl _)
  | call _ ih => exact .call (ih hq)

theorem of_nil (h : Path p [] q) : q = p := by
  cases h
  rfl

theorem of_finished (hp : p.Finished) (h : Path p l q) : l = [] ∧ q = p := by
  cases h with
  | refl => exact ⟨rfl, rfl⟩
  | call _ => exact hp.elim

theorem of_ret {a b : α} (h : Path (ret a : Program Ret ε α) l (ret b)) : l = [] ∧ b = a := by
  cases h
  exact ⟨rfl, rfl⟩

/-- A finished path of a composition: the first program raised, or it returned and
the path goes on in the second one. -/
theorem bind {p : Program Ret ε α} {k : α → Program Ret ε β} {q : Program Ret ε β}
    (h : Path (p.bind k) l q) (hq : q.Finished) :
    (∃ e, q = .raise e ∧ Path p l (.raise e)) ∨
      ∃ a l₁ l₂, l = l₁ ++ l₂ ∧ Path p l₁ (.ret a) ∧ Path (k a) l₂ q := by
  induction p generalizing l with
  | ret a => exact Or.inr ⟨a, [], l, rfl, .refl _, h⟩
  | raise e =>
    obtain ⟨rfl, rfl⟩ := of_finished (p := .raise e) trivial h
    exact Or.inl ⟨e, rfl, .refl _⟩
  | call op next ih =>
    cases h with
    | refl => exact hq.elim
    | @call _ _ r l' _ h =>
      rcases ih r h with ⟨e, hqe, hp⟩ | ⟨a, l₁, l₂, rfl, hp, hk⟩
      · exact Or.inl ⟨e, hqe, .call hp⟩
      · exact Or.inr ⟨a, ⟨op, r⟩ :: l₁, l₂, rfl, .call hp, hk⟩

/-- A finished path of an atomic program is what the program does alone, on any
store where its transaction has that outcome. -/
theorem atomic (exec : (op : Op) → σ → Except ε (Ret op × σ)) {r : Except ε α}
    (hp : p.Atomic) (h : Path p l (.ofExcept r)) :
    (l = [] ∧ ∀ s, (p.run exec s).1 = r) ∨
      ∃ o, l = [o] ∧ ∀ s, (commit exec o.1 s).1 = o.2 → (p.run exec s).1 = r := by
  cases p with
  | call op next =>
    have hfin : (Program.ofExcept r : Program Ret ε α).Finished := finished_ofExcept r
    generalize hq : Program.ofExcept r = q at h hfin
    cases h with
    | refl => exact hfin.elim
    | call h =>
      obtain ⟨rfl, rfl⟩ := of_finished (hp _) h
      refine Or.inr ⟨_, rfl, fun s hs => ?_⟩
      dsimp only at hs
      rw [run, hs, ← hq, run_ofExcept]
  | ret a =>
    obtain ⟨rfl, hr⟩ := of_finished (p := .ret a) trivial h
    refine Or.inl ⟨rfl, fun s => ?_⟩
    rw [← hr, run_ofExcept]
  | raise e =>
    obtain ⟨rfl, hr⟩ := of_finished (p := .raise e) trivial h
    refine Or.inl ⟨rfl, fun s => ?_⟩
    rw [← hr, run_ofExcept]

/-- Along a path whose outcomes are as assumed, every transaction is as ensured,
and the rest of the program ensures the same. -/
theorem ensures {G : (op : Op) → Except ε (Ret op) → Prop} {P : Op → Prop} {Q : α → Prop}
    {E : ε → Prop} (h : Path p l q) (hp : p.Ensures G P Q E) (hG : ∀ o ∈ l, G o.1 o.2) :
    (∀ o ∈ l, P o.1) ∧ q.Ensures G P Q E := by
  induction h with
  | refl => exact ⟨by simp, hp⟩
  | call _ ih =>
    rw [List.forall_mem_cons] at hG
    obtain ⟨hl, hq⟩ := ih (hp.2 _ hG.1) hG.2
    exact ⟨List.forall_mem_cons.mpr ⟨hp.1, hl⟩, hq⟩

end Path

section Facts
variable {exec faults} {guard : Guard σ ι Ret ε α} {c₀ c : Config σ ι Ret ε α}
  {tr : List (Event ι Ret ε)}

/-- **A run restricted to one thread is a path of its program.** -/
theorem Run.path (h : Run exec faults guard c₀ tr c) (i : ι) :
    Path (c₀.threads i) (history i tr) (c.threads i) := by
  induction h with
  | refl => exact .refl _
  | @step tr c c' ev _ _ hs ih =>
    -- a step of the thread lengthens its path, another one leaves both alone
    by_cases hi : i = ev.thread
    · subst hi
      obtain ⟨next, hc, ht⟩ := hs.threads
      rw [history_snoc_self, ht, Function.update_self]
      rw [hc] at ih
      exact ih.snoc ev.outcome
    · rw [history_snoc_other tr (Ne.symm hi), hs.other hi]
      exact ih

/-- Every event of a run is a transaction its program can perform. -/
theorem Run.ensures {P : ι → Op → Prop} (h : Run exec faults guard c₀ tr c)
    (hp : ∀ i, (c₀.threads i).Ensures (fun _ _ => True) (P i) (fun _ => True) fun _ => True) :
    ∀ ev ∈ tr, P ev.thread ev.op :=
  fun ev hev => ((h.path ev.thread).ensures (hp ev.thread) fun _ _ => trivial).1
    ⟨ev.op, ev.outcome⟩ (mem_history.mpr hev)

end Facts

/-! ## Replaying a schedule -/

/-- The next step of thread `i` without faults; a finished thread idles. -/
def Config.advance (tc : List (Event ι Ret ε) × Config σ ι Ret ε α) (i : ι) :
    List (Event ι Ret ε) × Config σ ι Ret ε α :=
  match tc.2.threads i with
  | .call op next =>
    (tc.1 ++ [⟨i, op, (Program.commit exec op tc.2.store).1⟩],
      ⟨(Program.commit exec op tc.2.store).2,
        Function.update tc.2.threads i (next (Program.commit exec op tc.2.store).1)⟩)
  | _ => tc

/-- The run that lets the threads of a list move in turn. -/
def replay (c : Config σ ι Ret ε α) (schedule : List ι) :
    List (Event ι Ret ε) × Config σ ι Ret ε α :=
  schedule.foldl (Config.advance exec) ([], c)

theorem replay_snoc (c : Config σ ι Ret ε α) (schedule : List ι) (i : ι) :
    replay exec c (schedule ++ [i]) = Config.advance exec (replay exec c schedule) i :=
  List.foldl_append

/-- **A replay is a run** of every guard that its steps meet. -/
theorem replay_guarded {guard : Guard σ ι Ret ε α} (c : Config σ ι Ret ε α) (schedule : List ι)
    (h : ∀ k i, schedule[k]? = some i → ∀ op next,
      (replay exec c (schedule.take k)).2.threads i = .call op next →
      let outcome := (Program.commit exec op (replay exec c (schedule.take k)).2.store).1
      (replay exec c (schedule.take (k + 1))).2.threads i = next outcome →
      guard (replay exec c (schedule.take k)).1 (replay exec c (schedule.take k)).2
        ⟨i, op, outcome⟩) :
    Run exec noFaults guard c (replay exec c schedule).1 (replay exec c schedule).2 := by
  induction schedule using List.reverseRecOn with
  | nil => exact .refl
  | append_singleton schedule i ih =>
    have htake : (schedule ++ [i]).take schedule.length = schedule := List.take_left
    -- the last step is the one at the length of the rest
    have hlast := h schedule.length i (by simp)
    rw [htake, List.take_of_length_le (by simp)] at hlast
    have hrun := ih fun k j hk => by
      have hlt : k < schedule.length := (List.getElem?_eq_some_iff.mp hk).1
      have hk' := h k j (by rw [List.getElem?_append_left hlt, hk])
      rwa [List.take_append_of_le_length (Nat.le_of_lt hlt), List.take_append_of_le_length hlt] at hk'
    rw [replay_snoc] at hlast ⊢
    generalize replay exec c schedule = tc at hlast hrun ⊢
    unfold Config.advance at hlast ⊢
    split
    · rename_i op next hcall
      rw [hcall] at hlast
      exact .step hrun (hlast op next rfl (Function.update_self _ _ _)) (.commit hcall)
    · exact hrun

theorem replay_run (c : Config σ ι Ret ε α) (schedule : List ι) :
    Run exec noFaults unguarded c (replay exec c schedule).1 (replay exec c schedule).2 :=
  replay_guarded exec c schedule fun _ _ _ _ _ _ _ => trivial

end Transactional
