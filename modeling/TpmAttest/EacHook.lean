import TpmAttest.PythonBytes
import Mathlib.Data.List.Induction

/-! # The hook of the anti-cheat client

`eac_hook.c` stands between a game and the anti-cheat runtime.  The game's calls of
`EOS_AntiCheatClient_AddNotifyMessageToServer` come one after another; each stores
the game's callback, asks the shim, and registers `hook_callback` with the runtime
if the shim approves.  From then on the runtime may report messages at any time,
also while a later call waits for its answer; each is forwarded to the stored
callback if the shim approves it.

A step ends where a query begins or where its answer arrives.  The shim's answers
are in the events (`HookEvent`), and `run` is the fold of the steps.
-/
namespace TpmAttest.EacHook

open Python

/-- `g_player_id`: what stands before the NUL in its 256 bytes. -/
structure PlayerId where
  bytes : Bytes
  length_le : bytes.length ≤ 255
deriving DecidableEq

def PlayerId.unknown : PlayerId := ⟨encode "unknown", by decide +kernel⟩

/-- `strncpy(g_player_id, user_id, 255)`. -/
def PlayerId.ofUserId (userId : Bytes) : PlayerId :=
  ⟨userId.take 255, List.length_take_le 255 userId⟩

/-- `SHIM_BUF_SIZE`. -/
def shimBufSize : Nat := 8192

/-- `bytes_to_hex`, with `out` written already. -/
def bytesToHex (cap : Nat) (out : Bytes) : Bytes → Bytes
  | [] => out
  | x :: data =>
    if out.length + 3 < cap then
      bytesToHex cap (out ++ [x.toNat / 16, x.toNat % 16].map fun n =>
        (hexDigit n).toNat.toUInt8) data
    else out

/-- `build_json`, into a buffer of `SHIM_BUF_SIZE` bytes. -/
def buildJson (playerId hexMsg : Bytes) : Option Bytes :=
  let json := encode "\x7b\"type\":\"eac_intercept\",\"player_id\":\"" ++ playerId ++
    encode "\",\"original_message\":\"" ++ hexMsg ++ encode "\"\x7d"
  if shimBufSize ≤ json.length then none else some json

/-- The hook's globals, and its calls that wait for the shim. -/
structure Hook (Callback : Type) where
  gameCallback : Option Callback
  /-- The address of the runtime's function is known. -/
  realAddNotify : Bool
  playerId : PlayerId
  /-- The runtime has `hook_callback`. -/
  registered : Bool
  /-- The game's call waits for its answer. -/
  probing : Bool
  /-- The messages that wait for theirs. -/
  queries : List Bytes
deriving DecidableEq

/-- What the game, the runtime and the shim do. -/
inductive HookEvent (Callback : Type) where
  | beginSession (userId : Option Bytes)
  /-- The game's call, up to the shim query. -/
  | addNotify (callback : Option Callback)
  /-- The answer to it, and whether `dlsym` finds the runtime's function. -/
  | probed (valid symbol : Bool)
  /-- A message of the runtime, and whether `malloc` succeeds, up to the shim query. -/
  | message (text : Bytes) (allocated : Bool)
  /-- The answer for the message that waits at `k`. -/
  | answered (k : Nat) (valid : Bool)

variable {Callback : Type}

def Hook.init : Hook Callback where
  gameCallback := none
  realAddNotify := false
  playerId := .unknown
  registered := false
  probing := false
  queries := []

namespace Hook
variable (s : Hook Callback)

/-- The JSON of the probe at the begin of a session. -/
def probeJson : Option Bytes := buildJson s.playerId.bytes []

/-- The JSON for a message. -/
def messageJson (text : Bytes) : Option Bytes :=
  buildJson s.playerId.bytes (bytesToHex (text.length * 2 + 4) [] text)

/-- `EOS_AntiCheatClient_AddNotifyMessageToServer`, up to the shim query. -/
def addNotify (callback : Option Callback) : Hook Callback :=
  -- stored before the shim is asked
  { s with gameCallback := callback, probing := s.probeJson.isSome }

/-- The rest of it. -/
def probed (valid symbol : Bool) : Hook Callback :=
  if valid ∧ (s.realAddNotify ∨ symbol) then
    { s with probing := false, realAddNotify := true, registered := true }
  else { s with probing := false }

/-- `hook_callback`, up to the shim query. -/
def message (text : Bytes) (allocated : Bool) : Hook Callback :=
  if allocated ∧ (s.messageJson text).isSome then { s with queries := s.queries ++ [text] } else s

/-- One step, if it can happen. -/
def step : HookEvent Callback → Option (Hook Callback)
  | .beginSession userId =>
    some { s with playerId := userId.elim s.playerId PlayerId.ofUserId }
  | .addNotify callback => if s.probing then none else some (s.addNotify callback)
  | .probed valid symbol => if s.probing then some (s.probed valid symbol) else none
  | .message text allocated => if s.registered then some (s.message text allocated) else none
  | .answered k _ =>
    if k < s.queries.length then some { s with queries := s.queries.eraseIdx k } else none

/-- The callback that a step invokes, and the message that it hands over. -/
def invokes : HookEvent Callback → Option (Callback × Bytes)
  | .answered k true => do return (← s.gameCallback, ← s.queries[k]?)
  | _ => none

section Fields
variable (valid symbol allocated : Bool) (text : Bytes)

@[simp] theorem probed_gameCallback : (s.probed valid symbol).gameCallback = s.gameCallback := by
  unfold probed
  split <;> rfl

@[simp] theorem probed_queries : (s.probed valid symbol).queries = s.queries := by
  unfold probed
  split <;> rfl

/-- Only an approval registers the hook. -/
theorem probed_registered (h : (s.probed valid symbol).registered = true) :
    s.registered = true ∨ valid = true := by
  unfold probed at h
  split at h
  · rename_i hvalid
    exact Or.inr hvalid.1
  · exact Or.inl h

theorem registered_probed (h : s.registered = true) : (s.probed valid symbol).registered = true := by
  unfold probed
  split
  · rfl
  · exact h

@[simp] theorem message_gameCallback : (s.message text allocated).gameCallback = s.gameCallback := by
  unfold message
  split <;> rfl

@[simp] theorem message_probing : (s.message text allocated).probing = s.probing := by
  unfold message
  split <;> rfl

@[simp] theorem message_registered : (s.message text allocated).registered = s.registered := by
  unfold message
  split <;> rfl

end Fields

/-- The step is the end of a call that is rejected. -/
def Rejects : HookEvent Callback → Prop
  | .addNotify _ => s.probeJson = none
  | .probed false _ => True
  | _ => False

end Hook

/-- The state after a run. -/
def run (tr : List (HookEvent Callback)) : Option (Hook Callback) := tr.foldlM Hook.step .init

theorem run_snoc (tr : List (HookEvent Callback)) (ev : HookEvent Callback) :
    run (tr ++ [ev]) = (run tr).bind (·.step ev) := by
  rw [run, List.foldlM_append]
  simp [run]

/-- The probe always fits its buffer. -/
theorem probeJson_isSome (s : Hook Callback) : s.probeJson.isSome = true := by
  have hid := s.playerId.length_le
  have h₁ : (encode "\x7b\"type\":\"eac_intercept\",\"player_id\":\"").length = 37 := by
    decide +kernel
  have h₂ : (encode "\",\"original_message\":\"").length = 22 := by decide +kernel
  have h₃ : (encode "\"\x7d").length = 2 := by decide +kernel
  unfold Hook.probeJson buildJson shimBufSize
  rw [if_neg]
  · rfl
  · simp only [List.length_append, h₁, h₂, h₃, List.length_nil]
    omega

/-! ## Approved callbacks -/

/-- The callback that the last call supplied, and the callbacks of the calls that
were approved. -/
def record (p : Option Callback × List (Option Callback)) :
    HookEvent Callback → Option Callback × List (Option Callback)
  | .addNotify callback => (callback, p.2)
  | .probed true _ => (p.1, p.2 ++ [p.1])
  | _ => p

def ledger (tr : List (HookEvent Callback)) : Option Callback × List (Option Callback) :=
  tr.foldl record (none, [])

/-- The callbacks of the approved calls, in the order of the approvals. -/
def approvals (tr : List (HookEvent Callback)) : List (Option Callback) := (ledger tr).2

/-- The callback approved last. -/
def lastApproved (tr : List (HookEvent Callback)) : Option (Option Callback) :=
  (approvals tr).getLast?

theorem ledger_snoc (tr : List (HookEvent Callback)) (ev : HookEvent Callback) :
    ledger (tr ++ [ev]) = record (ledger tr) ev := List.foldl_append

/-- The events and the state agree. -/
structure Agrees (tr : List (HookEvent Callback)) (s : Hook Callback) : Prop where
  supplied : (ledger tr).1 = s.gameCallback
  approved_of_registered : s.registered = true → approvals tr ≠ []
  registered_of_queries : s.queries ≠ [] → s.registered = true

section
variable {tr : List (HookEvent Callback)} {s s' : Hook Callback} {ev : HookEvent Callback}

theorem Agrees.step (h : Agrees tr s) (hs : s.step ev = some s') : Agrees (tr ++ [ev]) s' := by
  obtain ⟨hsupplied, happroved, hqueries⟩ := h
  unfold approvals at happroved
  cases ev with
  | beginSession userId =>
    cases hs
    exact ⟨by rwa [ledger_snoc], by rwa [approvals, ledger_snoc], hqueries⟩
  | addNotify callback =>
    obtain ⟨-, hs⟩ := Option.ite_none_left_eq_some.mp hs
    cases hs
    exact ⟨by rw [ledger_snoc]; rfl, by rwa [approvals, ledger_snoc], hqueries⟩
  | probed valid symbol =>
    obtain ⟨-, hs⟩ := Option.ite_none_right_eq_some.mp hs
    cases hs
    refine ⟨?_, ?_, ?_⟩
    · rw [ledger_snoc, Hook.probed_gameCallback, ← hsupplied]
      cases valid <;> rfl
    · rw [approvals, ledger_snoc]
      intro hreg
      cases valid with
      | true => exact List.append_ne_nil_of_right_ne_nil _ (List.cons_ne_nil _ _)
      | false => exact happroved ((s.probed_registered false symbol hreg).resolve_right (by simp))
    · rw [Hook.probed_queries]
      exact fun hne => s.registered_probed valid symbol (hqueries hne)
  | message text allocated =>
    obtain ⟨hreg, hs⟩ := Option.ite_none_right_eq_some.mp hs
    cases hs
    refine ⟨?_, ?_, ?_⟩
    · rwa [ledger_snoc, Hook.message_gameCallback]
    · rwa [approvals, ledger_snoc, Hook.message_registered]
    · rw [Hook.message_registered]
      exact fun _ => hreg
  | answered k valid =>
    obtain ⟨hk, hs⟩ := Option.ite_none_right_eq_some.mp hs
    cases hs
    refine ⟨by rwa [ledger_snoc], by rwa [approvals, ledger_snoc], fun _ => hqueries ?_⟩
    exact List.ne_nil_of_length_pos (Nat.zero_lt_of_lt hk)

theorem agrees_of_run (h : run tr = some s) : Agrees tr s := by
  induction tr using List.reverseRecOn generalizing s with
  | nil =>
    cases h
    exact ⟨rfl, fun hreg => (by cases hreg), fun hne => absurd rfl hne⟩
  | append_singleton tr ev ih =>
    rw [run_snoc, Option.bind_eq_some_iff] at h
    obtain ⟨s₀, hs₀, hs⟩ := h
    exact (ih hs₀).step hs

/-! ## Gated steps -/

/-- The step invokes only an approved callback, with the message whose query it
answers, and only if that is approved; and if it rejects a call it leaves the
callback that was approved last. -/
structure Gated (tr : List (HookEvent Callback)) (s s' : Hook Callback)
    (ev : HookEvent Callback) : Prop where
  invoked : ∀ callback text, s.invokes ev = some (callback, text) →
    some callback ∈ approvals tr ∧ ∃ k, ev = .answered k true ∧ s.queries[k]? = some text
  kept : s.Rejects ev → ∀ callback, lastApproved tr = some callback → s'.gameCallback = callback

/-- The step does no harm: a message that is approved while a call waits finds no
callback supplied by it, or one that was approved before; and a call is rejected only
if none was approved before it, or if it supplied the callback that was approved last. -/
def Harmless (tr : List (HookEvent Callback)) (s : Hook Callback) : HookEvent Callback → Prop
  | .answered _ true => s.probing = true → ∀ callback ∈ (ledger tr).1, some callback ∈ approvals tr
  | .probed false _ => approvals tr = [] ∨ lastApproved tr = some (ledger tr).1
  | _ => True

instance [DecidableEq Callback] (tr : List (HookEvent Callback)) (s : Hook Callback) :
    (ev : HookEvent Callback) → Decidable (Harmless tr s ev)
  | .answered _ true => inferInstanceAs (Decidable (_ → ∀ callback ∈ (ledger tr).1, _))
  | .probed false _ => inferInstanceAs (Decidable (_ ∨ _))
  | .answered _ false | .probed true _ | .beginSession _ | .addNotify _ | .message _ _ =>
    inferInstanceAs (Decidable True)

/-- Every step of a run is so. -/
def EveryStep (P : List (HookEvent Callback) → Hook Callback → Hook Callback →
    HookEvent Callback → Prop) (tr : List (HookEvent Callback)) : Prop :=
  ∀ t₁ ev t₂ s s', tr = t₁ ++ ev :: t₂ → run t₁ = some s → s.step ev = some s' → P t₁ s s' ev

/-- While no call waits, nothing was approved yet, or the stored callback was
approved last. -/
def Settled (tr : List (HookEvent Callback)) (s : Hook Callback) : Prop :=
  s.probing = false → approvals tr = [] ∨ lastApproved tr = some s.gameCallback

theorem Settled.step (h : Settled tr s) (hagrees : Agrees tr s) (hharm : Harmless tr s ev)
    (hs : s.step ev = some s') : Settled (tr ++ [ev]) s' := by
  unfold Settled lastApproved approvals at h ⊢
  rw [ledger_snoc]
  cases ev with
  | beginSession userId =>
    cases hs
    exact h
  | addNotify callback =>
    obtain ⟨-, hs⟩ := Option.ite_none_left_eq_some.mp hs
    cases hs
    -- the call waits, since its probe fits the buffer
    intro hprobing
    rw [Hook.addNotify, probeJson_isSome] at hprobing
    cases hprobing
  | probed valid symbol =>
    obtain ⟨-, hs⟩ := Option.ite_none_right_eq_some.mp hs
    cases hs
    rw [Hook.probed_gameCallback]
    intro _
    cases valid with
    | true => exact Or.inr (by rw [← hagrees.supplied]; exact List.getLast?_concat)
    | false =>
      rw [← hagrees.supplied]
      exact hharm
  | message text allocated =>
    obtain ⟨-, hs⟩ := Option.ite_none_right_eq_some.mp hs
    cases hs
    rwa [Hook.message_probing, Hook.message_gameCallback]
  | answered k valid =>
    obtain ⟨-, hs⟩ := Option.ite_none_right_eq_some.mp hs
    cases hs
    exact h

/-- The beginning of a run. -/
theorem everyStep_append {P : List (HookEvent Callback) → Hook Callback → Hook Callback →
    HookEvent Callback → Prop} {t : List (HookEvent Callback)} (h : EveryStep P (tr ++ t)) :
    EveryStep P tr := by
  rintro t₁ ev t₂ s s' rfl
  exact h t₁ ev (t₂ ++ t) s s' (by simp)

theorem settled_of_run (h : run tr = some s)
    (hharm : EveryStep (fun t s _ ev => Harmless t s ev) tr) : Settled tr s := by
  induction tr using List.reverseRecOn generalizing s with
  | nil => exact fun _ => Or.inl rfl
  | append_singleton tr ev ih =>
    rw [run_snoc, Option.bind_eq_some_iff] at h
    obtain ⟨s₀, hs₀, hs⟩ := h
    exact (ih hs₀ (everyStep_append hharm)).step (agrees_of_run hs₀)
      (hharm tr ev [] s₀ s rfl hs₀ hs) hs

/-- A gated step does no harm. -/
theorem harmless_of_gated (hagrees : Agrees tr s) (hs : s.step ev = some s')
    (h : Gated tr s s' ev) : Harmless tr s ev := by
  cases ev with
  | probed valid symbol =>
    cases valid with
    | true => trivial
    | false =>
      obtain ⟨-, hs⟩ := Option.ite_none_right_eq_some.mp hs
      cases hs
      by_cases hne : approvals tr = []
      · exact Or.inl hne
      · have hlast : lastApproved tr = some _ := List.getLast?_eq_getLast_of_ne_nil hne
        have hkept := h.kept trivial _ hlast
        rw [Hook.probed_gameCallback, ← hagrees.supplied] at hkept
        exact Or.inr (hlast.trans (congrArg some hkept.symm))
  | answered k valid =>
    cases valid with
    | false => trivial
    | true =>
      obtain ⟨hk, -⟩ := Option.ite_none_right_eq_some.mp hs
      intro _ callback hcallback
      rw [hagrees.supplied] at hcallback
      have hinvokes : s.invokes (.answered k true) = some (callback, s.queries[k]) := by
        simp [Hook.invokes, Option.mem_def.mp hcallback, hk]
      exact (h.invoked _ _ hinvokes).1
  | _ => trivial

/-- A step that does no harm is gated, if the ones before it did none. -/
theorem gated_of_harmless (hagrees : Agrees tr s) (hsettled : Settled tr s)
    (hs : s.step ev = some s') (h : Harmless tr s ev) : Gated tr s s' ev where
  invoked callback text hinvokes := by
    cases ev with
    | answered k valid =>
      cases valid with
      | false => cases hinvokes
      | true =>
        obtain ⟨hk, -⟩ := Option.ite_none_right_eq_some.mp hs
        simp only [Hook.invokes, Option.bind_eq_bind, Option.bind_eq_some_iff, Option.pure_def,
          Option.some.injEq, Prod.mk.injEq] at hinvokes
        obtain ⟨_, hcallback, _, htext, rfl, rfl⟩ := hinvokes
        refine ⟨?_, k, rfl, htext⟩
        by_cases hprobing : s.probing = true
        · exact h hprobing _ (hagrees.supplied.trans hcallback)
        · -- the hook was registered, so a call has been approved
          have hreg := hagrees.registered_of_queries
            (List.ne_nil_of_length_pos (Nat.zero_lt_of_lt hk))
          have hlast := (hsettled (Bool.eq_false_iff.mpr hprobing)).resolve_left
            (hagrees.approved_of_registered hreg)
          rw [hcallback] at hlast
          exact List.mem_of_getLast? hlast
    | _ => cases hinvokes
  kept hrejects callback hlast := by
    cases ev with
    | probed valid symbol =>
      cases valid with
      | true => exact hrejects.elim
      | false =>
        obtain ⟨-, hs⟩ := Option.ite_none_right_eq_some.mp hs
        cases hs
        rw [Hook.probed_gameCallback]
        rcases h with hnil | hsame
        · rw [lastApproved, hnil] at hlast
          cases hlast
        · rw [hagrees.supplied] at hsame
          exact Option.some.inj (hsame.symm.trans hlast)
    | addNotify callback' =>
      have hprobe := probeJson_isSome s
      rw [show s.probeJson = none from hrejects] at hprobe
      cases hprobe
    | _ => exact hrejects.elim

end

/-- **When the callbacks are gated**: in a run, every step is, exactly if every step
does no harm. -/
theorem gated_iff_harmless (tr : List (HookEvent Callback)) :
    EveryStep Gated tr ↔ EveryStep (fun t s _ ev => Harmless t s ev) tr := by
  constructor
  · intro h t₁ ev t₂ s s' htr hrun hs
    exact harmless_of_gated (agrees_of_run hrun) hs (h t₁ ev t₂ s s' htr hrun hs)
  · rintro h t₁ ev t₂ s s' rfl hrun hs
    exact gated_of_harmless (agrees_of_run hrun) (settled_of_run hrun (everyStep_append h)) hs
      (h t₁ ev t₂ s s' rfl hrun hs)

/-- A call that is approved, and a message whose answer arrives while a second call
with the same callback waits for its rejection. -/
def repeatedCall : List (HookEvent Bool) :=
  [.addNotify (some true), .probed true true, .message [7] true, .addNotify (some true),
    .answered 0 true, .probed false true]

theorem gated_iff_harmless_repeatedCall :
    (run (repeatedCall.take 4)).bind (·.invokes (.answered 0 true)) = some (true, [7]) ∧
      (run repeatedCall).isSome ∧ EveryStep Gated repeatedCall := by
  refine ⟨by decide +kernel, by decide +kernel, (gated_iff_harmless repeatedCall).mpr ?_⟩
  have hsteps : ∀ n < 6, ∀ ev ∈ repeatedCall[n]?, ∀ s ∈ run (repeatedCall.take n),
      Harmless (repeatedCall.take n) s ev := by
    decide +kernel
  intro t₁ ev t₂ s s' htr hrun _
  have hev : repeatedCall[t₁.length]? = some ev := by
    rw [htr]
    simp
  have htake : repeatedCall.take t₁.length = t₁ := by
    rw [htr, List.take_left]
  have h := hsteps t₁.length (List.getElem?_eq_some_iff.mp hev).1 ev hev s (by rwa [htake])
  rwa [htake] at h

/-- A call that is approved, one with another callback that is rejected, and a
message. -/
def rejectedAfterApproved : List (HookEvent Bool) :=
  [.addNotify (some true), .probed true true, .addNotify (some false), .probed false true,
    .message [] true]

/-- If the message is approved, the callback of the rejected call is invoked. -/
theorem rejected_callback_invoked :
    (run (rejectedAfterApproved ++ [.answered 0 true])).isSome ∧
      ¬ EveryStep Gated (rejectedAfterApproved ++ [.answered 0 true]) := by
  refine ⟨by decide +kernel, fun h => ?_⟩
  have hrun : run rejectedAfterApproved = some ⟨some false, true, .unknown, true, false, [[]]⟩ := by
    decide +kernel
  obtain ⟨happroved, -⟩ := (h rejectedAfterApproved (.answered 0 true) [] _ _ rfl hrun rfl).invoked
    false [] rfl
  exact absurd happroved (by decide)

end TpmAttest.EacHook
