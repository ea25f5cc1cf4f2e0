import Mathlib.Data.List.Forall2
import TpmAttest.TransactionPrograms

/-! # Data refinement of transactional programs

A store may keep its values in another form than the programs over it speak of.  An
`Implementation` says, for each transaction, which transaction of the other store does
its work, and what the program makes of the outcome; `Program.implement` does so to a
whole program.

If every transaction agrees with the one that implements it, on stores in a relation that
both keep (`Implementation.Agrees`), then the two systems have the same runs: each
step of one is a step of the other (`Run.abstracted`, `Run.implemented`), whatever the
interleaving and whichever transactions the store rolls back.
-/
namespace Transactional

variable {Op Op' : Type} {Ret : Op → Type} {Ret' : Op' → Type} {ε α β σ σ' ι : Type}

/-- Each transaction, by one of another store: its outcome is read off the other's. -/
structure Implementation (Ret : Op → Type) (Ret' : Op' → Type) (ε : Type) where
  op : Op → Op'
  outcome : (op' : Op) → Except ε (Ret' (op op')) → Except ε (Ret op')

namespace Program

/-- The program with its transactions implemented. -/
def implement (I : Implementation Ret Ret' ε) : Program Ret ε α → Program Ret' ε α
  | ret a => ret a
  | raise e => raise e
  | call op next => call (I.op op) fun r => (next (I.outcome op r)).implement I

variable {I : Implementation Ret Ret' ε}

@[simp] theorem implement_ofExcept (r : Except ε α) :
    (ofExcept r : Program Ret ε α).implement I = ofExcept r := by
  cases r <;> rfl

/-- A program has finished if it has finished on the other store. -/
theorem implement_eq_ofExcept {p : Program Ret ε α} {r : Except ε α} :
    p.implement I = ofExcept r ↔ p = ofExcept r := by
  constructor
  · intro h
    cases p with
    | ret a =>
      cases r <;> cases h
      rfl
    | raise e =>
      cases r <;> cases h
      rfl
    | call op next => cases r <;> cases h
  · rintro rfl
    exact implement_ofExcept r

/-- An implemented program at a transaction. -/
theorem implement_eq_call {p : Program Ret ε α} {op' : Op'}
    {next' : Except ε (Ret' op') → Program Ret' ε α} (h : p.implement I = call op' next') :
    ∃ op next, p = call op next ∧
      call op' next' = call (I.op op) fun r => (next (I.outcome op r)).implement I := by
  cases p with
  | ret a => cases h
  | raise e => cases h
  | call op next => exact ⟨op, next, rfl, h.symm⟩

end Program

open Program

/-! ## Agreement of the transactions -/

section
variable (exec : (op : Op) → σ → Except ε (Ret op × σ))
  (exec' : (op : Op') → σ' → Except ε (Ret' op × σ'))

/-- On related stores the transactions have the same outcome and leave related stores;
what rolls one of them back rolls back the other. -/
structure Implementation.Agrees (I : Implementation Ret Ret' ε) (faults : ε → Prop)
    (R : σ' → σ → Prop) : Prop where
  outcome : ∀ op s' s, R s' s →
    I.outcome op (Program.commit exec' (I.op op) s').1 = (Program.commit exec op s).1
  store : ∀ op s' s, R s' s →
    R (Program.commit exec' (I.op op) s').2 (Program.commit exec op s).2
  fault : ∀ op e, faults e → I.outcome op (.error e) = .error e

variable {exec exec'} {I : Implementation Ret Ret' ε} {faults : ε → Prop} {R : σ' → σ → Prop}

/-- A program executed alone. -/
theorem Implementation.Agrees.run (h : I.Agrees exec exec' faults R) (p : Program Ret ε α) {s' : σ'}
    {s : σ} (hs : R s' s) : ((p.implement I).run exec' s').1 = (p.run exec s).1 ∧
      R ((p.implement I).run exec' s').2 (p.run exec s).2 := by
  induction p generalizing s' s with
  | ret a => exact ⟨rfl, hs⟩
  | raise e => exact ⟨rfl, hs⟩
  | call op next ih =>
    have hnext := ih (Program.commit exec op s).1 (h.store op s' s hs)
    rw [← h.outcome op s' s hs] at hnext
    rw [implement, Program.run, Program.run, ← h.outcome op s' s hs]
    exact hnext

/-- An event is implemented by an event of the other store. -/
def Implements (I : Implementation Ret Ret' ε) (ev' : Event ι Ret' ε) (ev : Event ι Ret ε) : Prop :=
  ∃ r, ev' = ⟨ev.thread, I.op ev.op, r⟩ ∧ I.outcome ev.op r = ev.outcome

/-- Every event of a run has one that implements it. -/
theorem implements_of_mem {tr' : List (Event ι Ret' ε)} {tr : List (Event ι Ret ε)}
    (h : List.Forall₂ (Implements I) tr' tr) {ev : Event ι Ret ε} (hev : ev ∈ tr) :
    ∃ ev' ∈ tr', Implements I ev' ev := by
  obtain ⟨n, hn, rfl⟩ := List.getElem_of_mem hev
  have hn' : n < tr'.length := by rwa [h.length_eq]
  exact ⟨tr'[n], List.getElem_mem hn', h.get hn' hn⟩

/-- A configuration of the other store. -/
structure Related (I : Implementation Ret Ret' ε) (R : σ' → σ → Prop) (c' : Config σ' ι Ret' ε α)
    (c : Config σ ι Ret ε α) : Prop where
  store : R c'.store c.store
  threads : ∀ i, c'.threads i = (c.threads i).implement I

variable [DecidableEq ι]

theorem update_implement {threads : ι → Program Ret ε α} {threads' : ι → Program Ret' ε α}
    (h : ∀ j, threads' j = (threads j).implement I) (i : ι) (p : Program Ret ε α) (j : ι) :
    Function.update threads' i (p.implement I) j =
      (Function.update threads i p j).implement I := by
  by_cases hj : j = i
  · subst hj
    rw [Function.update_self, Function.update_self]
  · rw [Function.update_of_ne hj, Function.update_of_ne hj]
    exact h j

variable {c c₂ : Config σ ι Ret ε α} {c' c₂' : Config σ' ι Ret' ε α}

/-- **A step of the other system is a step of this one.** -/
theorem Implementation.Agrees.abstract_step (h : I.Agrees exec exec' faults R)
    (hc : Related I R c' c) {ev' : Event ι Ret' ε} (hs : Step exec' faults c' ev' c₂') :
    ∃ ev c₂, Step exec faults c ev c₂ ∧ Implements I ev' ev ∧ Related I R c₂' c₂ := by
  cases hs with
  | @commit i op' next' hcall =>
    rw [hc.threads i] at hcall
    obtain ⟨op, next, hp, heq⟩ := implement_eq_call hcall
    cases heq
    refine ⟨_, _, .commit hp, ⟨_, rfl, h.outcome op _ _ hc.store⟩, h.store op _ _ hc.store, ?_⟩
    intro j
    dsimp only
    rw [h.outcome op _ _ hc.store]
    exact update_implement hc.threads i _ j
  | @fault i op' next' e hcall he =>
    rw [hc.threads i] at hcall
    obtain ⟨op, next, hp, heq⟩ := implement_eq_call hcall
    cases heq
    refine ⟨_, _, .fault hp he, ⟨_, rfl, h.fault op e he⟩, hc.store, ?_⟩
    intro j
    dsimp only
    rw [h.fault op e he]
    exact update_implement hc.threads i _ j

/-- **And a step of this one is a step of the other.** -/
theorem Implementation.Agrees.implement_step (h : I.Agrees exec exec' faults R)
    (hc : Related I R c' c) {ev : Event ι Ret ε} (hs : Step exec faults c ev c₂) :
    ∃ ev' c₂', Step exec' faults c' ev' c₂' ∧ Implements I ev' ev ∧ Related I R c₂' c₂ := by
  cases hs with
  | @commit i op next hcall =>
    have hcall' : c'.threads i = call (I.op op) fun r => (next (I.outcome op r)).implement I := by
      rw [hc.threads i, hcall, implement]
    refine ⟨_, _, .commit hcall', ⟨_, rfl, h.outcome op _ _ hc.store⟩, h.store op _ _ hc.store, ?_⟩
    intro j
    dsimp only
    rw [h.outcome op _ _ hc.store]
    exact update_implement hc.threads i _ j
  | @fault i op next e hcall he =>
    have hcall' : c'.threads i = call (I.op op) fun r => (next (I.outcome op r)).implement I := by
      rw [hc.threads i, hcall, implement]
    refine ⟨_, _, .fault hcall' he, ⟨_, rfl, h.fault op e he⟩, hc.store, ?_⟩
    intro j
    dsimp only
    rw [h.fault op e he]
    exact update_implement hc.threads i _ j

/-! ## Runs -/

/-- **A run of the implementation is a run of the programs it implements.** -/
theorem Run.abstracted (h : I.Agrees exec exec' faults R) (hc : Related I R c' c)
    {tr' : List (Event ι Ret' ε)} (hr : Run exec' faults unguarded c' tr' c₂') :
    ∃ tr c₂, Run exec faults unguarded c tr c₂ ∧ List.Forall₂ (Implements I) tr' tr ∧
      Related I R c₂' c₂ := by
  induction hr with
  | refl => exact ⟨[], c, .refl, .nil, hc⟩
  | step _ _ hs ih =>
    obtain ⟨tr, c₁, hrun, htr, hc₁⟩ := ih
    obtain ⟨ev, c₂, hstep, hev, hc₂⟩ := h.abstract_step hc₁ hs
    exact ⟨tr ++ [ev], c₂, .step hrun trivial hstep, List.rel_append htr (.cons hev .nil), hc₂⟩

/-- **And every run of the programs is one of the implementation.** -/
theorem Run.implemented (h : I.Agrees exec exec' faults R) (hc : Related I R c' c)
    {tr : List (Event ι Ret ε)} (hr : Run exec faults unguarded c tr c₂) :
    ∃ tr' c₂', Run exec' faults unguarded c' tr' c₂' ∧ List.Forall₂ (Implements I) tr' tr ∧
      Related I R c₂' c₂ := by
  induction hr with
  | refl => exact ⟨[], c', .refl, .nil, hc⟩
  | step _ _ hs ih =>
    obtain ⟨tr', c₁', hrun, htr, hc₁⟩ := ih
    obtain ⟨ev', c₂', hstep, hev, hc₂⟩ := h.implement_step hc₁ hs
    exact ⟨tr' ++ [ev'], c₂', .step hrun trivial hstep, List.rel_append htr (.cons hev .nil), hc₂⟩

end
end Transactional
