import TpmAttest.HookRequest
import TpmAttest.SessionVerdicts

/-! # The hook in its process

The game reaches the runtime through the hook.  The runtime of the repository,
`eos_stub.c`, reports one message, at once, when a callback is registered, so here the calls
of the hook run to their ends (`Hooked.call`).  `Hooked.call` is a run of the hook's steps
(`hook_call`), and what the process does is what it does without the hook, less what the shim
does not approve (`hooked_filters`).  So two reports have been accepted for every message that
reaches the game (`forwarded_attested`).
-/
namespace TpmAttest.EacHook

open Python Transactional Program Shim

variable {Callback : Type}

/-- What the game calls, in `libeos_sdk.so` or in the hook. -/
inductive GameCall (Callback : Type) where
  | beginSession (userId : Option Bytes)
  | addNotify (callback : Option Callback)
  | receiveMessage (data : Option Bytes)
deriving DecidableEq

/-- What comes of it: the runtime has a player, or a message of the server, or it invokes a
callback with a message to the server. -/
inductive Effect (Callback : Type) where
  | player (playerId : PlayerId)
  | received (data : Bytes)
  | invoked (callback : Callback) (message : Bytes)
deriving DecidableEq

/-! ## The runtime -/

/-- The globals of `eos_stub.c`. -/
structure Stub (Callback : Type) where
  registeredCallback : Option Callback
  currentPlayerId : PlayerId
deriving DecidableEq

/-- The message that the runtime reports when a callback is registered. -/
def synthetic : Bytes := encode "\x7b\"type\":\"challenge\",\"nonce\":\"deadbeef\"\x7d"

namespace Stub

def init : Stub Callback := ⟨none, .ofUserId []⟩

/-- One call of the runtime. -/
def call (s : Stub Callback) : GameCall Callback → Stub Callback × List (Effect Callback)
  | .beginSession userId =>
    userId.elim (s, []) fun userId =>
      ({ s with currentPlayerId := .ofUserId userId }, [.player (.ofUserId userId)])
  | .addNotify callback =>
    ({ s with registeredCallback := callback },
      callback.toList.map fun callback => .invoked callback synthetic)
  | .receiveMessage data => (s, (data.filter (¬ ·.isEmpty)).toList.map .received)

/-- Only a registration invokes a callback: the one that is registered, with the one message. -/
theorem invoked_of_call {s : Stub Callback} {call : GameCall Callback} {callback : Callback}
    {message : Bytes} (h : .invoked callback message ∈ (s.call call).2) :
    call = .addNotify (some callback) ∧ message = synthetic := by
  cases call with
  | beginSession userId => cases userId <;> simp [Stub.call] at h
  | receiveMessage data => simp [Stub.call] at h
  | addNotify callback' =>
    obtain ⟨callback₀, hmem, heq⟩ := List.mem_map.mp h
    cases heq
    exact ⟨congrArg GameCall.addNotify (Option.mem_toList.mp hmem), rfl⟩

/-- The runtime after some calls. -/
def after (calls : List (GameCall Callback)) : Stub Callback :=
  calls.foldl (fun s call => (s.call call).1) .init

end Stub

/-! ## The runtime behind the hook -/

/-- What a call meets: `dlsym` finds the runtime's function, the shim approves the session,
`malloc` succeeds, the shim approves the message. -/
structure Answers where
  found : Bool
  session : Bool
  allocated : Bool
  message : Bool
deriving DecidableEq

/-- The hook, and the runtime, which knows no callback but `hook_callback`. -/
structure Hooked (Callback : Type) where
  hook : Hook Callback
  stub : Stub Unit

/-- `hook_callback`, to its end. -/
def Hook.callback (s : Hook Callback) (a : Answers) (text : Bytes) : List (Effect Callback) :=
  if a.allocated ∧ (s.messageJson text).isSome ∧ a.message then
    s.gameCallback.toList.map fun callback => .invoked callback text
  else []

/-- An effect of the runtime, where its callback is `hook_callback`. -/
def Hook.deliver (s : Hook Callback) (a : Answers) : Effect Unit → List (Effect Callback)
  | .player playerId => [.player playerId]
  | .received data => [.received data]
  | .invoked () text => s.callback a text

namespace Hooked

def init : Hooked Callback := ⟨.init, .init⟩

/-- A call of the runtime's own function. -/
def real (s : Hooked Callback) (a : Answers) (call : GameCall Unit) :
    Hooked Callback × List (Effect Callback) :=
  let r := s.stub.call call
  (⟨s.hook, r.1⟩, r.2.flatMap (s.hook.deliver a))

/-- One call of the game, in the hook. -/
def call (s : Hooked Callback) (a : Answers) :
    GameCall Callback → Hooked Callback × List (Effect Callback)
  | .beginSession userId =>
    let s := { s with hook := { s.hook with
      playerId := userId.elim s.hook.playerId PlayerId.ofUserId } }
    if a.found then s.real a (.beginSession userId) else (s, [])
  | .addNotify callback =>
    let s := { s with hook := s.hook.addNotify callback }
    if s.hook.probing then
      let s' := { s with hook := s.hook.probed a.session a.found }
      if a.session ∧ (s.hook.realAddNotify ∨ a.found) then s'.real a (.addNotify (some ()))
      else (s', [])
    else (s, [])
  | .receiveMessage data => if a.found then s.real a (.receiveMessage data) else (s, [])

/-- The process after some calls. -/
def after (t : List (GameCall Callback × Answers)) : Hooked Callback :=
  t.foldl (fun s p => (s.call p.2 p.1).1) .init

theorem after_snoc (t : List (GameCall Callback × Answers)) (p : GameCall Callback × Answers) :
    after (t ++ [p]) = ((after t).call p.2 p.1).1 := List.foldl_append

end Hooked

theorem Stub.after_snoc (calls : List (GameCall Callback)) (call : GameCall Callback) :
    after (calls ++ [call]) = ((after calls).call call).1 := List.foldl_append

/-! ## The steps of the hook -/

/-- What the hook invokes in some steps. -/
def emitted (s : Hook Callback) : List (HookEvent Callback) → List (Callback × Bytes)
  | [] => []
  | ev :: evs => (s.invokes ev).toList ++ (s.step ev).elim [] fun s => emitted s evs

/-- The steps of one call. -/
def Hook.events (s : Hook Callback) (a : Answers) : GameCall Callback → List (HookEvent Callback)
  | .beginSession userId => [.beginSession userId]
  | .addNotify callback =>
    .addNotify callback :: .probed a.session a.found ::
      if a.session ∧ (s.realAddNotify ∨ a.found) then
        .message synthetic a.allocated :: if a.allocated then [.answered 0 a.message] else []
      else []
  | .receiveMessage _ => []

/-- The steps of some calls. -/
def eventsFrom (s : Hooked Callback) : List (GameCall Callback × Answers) → List (HookEvent Callback)
  | [] => []
  | p :: t => s.hook.events p.2 p.1 ++ eventsFrom (s.call p.2 p.1).1 t

/-- No query is under way. -/
structure Hook.Quiet (s : Hook Callback) : Prop where
  probing : s.probing = false
  queries : s.queries = []

def Effect.invocation : Effect Callback → Option (Callback × Bytes)
  | .invoked callback message => some (callback, message)
  | _ => none

section Steps
variable {s : Hooked Callback} {a : Answers}

theorem length_synthetic : synthetic.length = 39 := by decide +kernel

/-- The request for the message fits its buffer. -/
theorem messageJson_synthetic (s : Hook Callback) : (s.messageJson synthetic).isSome = true := by
  have hid := s.playerId.length_le
  have hlength := length_requestOf s.playerId.bytes synthetic
  rw [length_synthetic] at hlength
  rw [messageJson_eq]
  unfold buildJson shimBufSize
  rw [if_neg]
  · rfl
  · change ¬ 8192 ≤ (requestOf s.playerId.bytes synthetic).length
    omega

theorem callback_synthetic (s : Hook Callback) (a : Answers) :
    s.callback a synthetic = if a.allocated ∧ a.message then
      s.gameCallback.toList.map fun callback => .invoked callback synthetic else [] := by
  unfold Hook.callback
  rw [messageJson_synthetic]
  simp

/-- The call of `AddNotifyMessageToServer`, whose probe fits its buffer. -/
theorem call_addNotify (callback : Option Callback) :
    s.call a (.addNotify callback) =
      if a.session ∧ (s.hook.realAddNotify ∨ a.found) then
        (⟨(s.hook.addNotify callback).probed a.session a.found, ⟨some (), s.stub.currentPlayerId⟩⟩,
          ((s.hook.addNotify callback).probed a.session a.found).callback a synthetic)
      else (⟨(s.hook.addNotify callback).probed a.session a.found, s.stub⟩, []) := by
  have hprobing : (s.hook.addNotify callback).probing = true := probeJson_isSome s.hook
  rw [Hooked.call]
  dsimp only
  rw [if_pos hprobing]
  by_cases hpass : a.session ∧ (s.hook.realAddNotify ∨ a.found)
  · have hpass' : a.session ∧ ((s.hook.addNotify callback).realAddNotify ∨ a.found) := hpass
    rw [if_pos hpass, if_pos hpass', Hooked.real]
    simp [Stub.call, Hook.deliver]
  · have hpass' : ¬ (a.session ∧ ((s.hook.addNotify callback).realAddNotify ∨ a.found)) := hpass
    rw [if_neg hpass, if_neg hpass']

theorem emitted_cons {s s' : Hook Callback} {ev : HookEvent Callback} (h : s.step ev = some s')
    (evs : List (HookEvent Callback)) :
    emitted s (ev :: evs) = (s.invokes ev).toList ++ emitted s' evs := by
  rw [emitted, h]
  rfl

/-- The steps of `hook_callback`, from the message to the answer. -/
theorem steps_callback {s : Hook Callback} (hregistered : s.registered = true) (hs : s.Quiet)
    (a : Answers) {evs : List (HookEvent Callback)}
    (hevs : evs = .message synthetic a.allocated ::
      if a.allocated then [.answered 0 a.message] else []) :
    evs.foldlM Hook.step s = some s ∧
      emitted s evs = (s.callback a synthetic).filterMap Effect.invocation := by
  obtain ⟨gameCallback, realAddNotify, playerId, registered, probing, queries⟩ := s
  obtain rfl : registered = true := hregistered
  obtain rfl : queries = [] := hs.queries
  subst hevs
  rw [callback_synthetic]
  cases hallocated : a.allocated with
  | false =>
    exact ⟨rfl, by simp [emitted, Hook.invokes, Hook.step, Hook.message]⟩
  | true =>
    have hjson := messageJson_synthetic
      (⟨gameCallback, realAddNotify, playerId, true, probing, []⟩ : Hook Callback)
    have hstep : Hook.step ⟨gameCallback, realAddNotify, playerId, true, probing, []⟩
        (.message synthetic true) =
          some ⟨gameCallback, realAddNotify, playerId, true, probing, [synthetic]⟩ := by
      rw [Hook.step, if_pos rfl, Hook.message, if_pos ⟨rfl, hjson⟩]
      rfl
    refine ⟨?_, ?_⟩
    · rw [if_pos rfl, List.foldlM_cons, hstep]
      rfl
    · rw [if_pos rfl, emitted_cons hstep, @emitted_cons _ _ _ _ rfl]
      cases a.message with
      | false => rfl
      | true => cases gameCallback <;> rfl

/-- The call of `BeginSession`. -/
theorem call_beginSession (userId : Option Bytes) :
    (s.call a (.beginSession userId)).1.hook =
        { s.hook with playerId := userId.elim s.hook.playerId PlayerId.ofUserId } ∧
      ∀ u : Stub Callback, (s.call a (.beginSession userId)).2 =
        (u.call (.beginSession userId)).2.filter fun _ => a.found := by
  unfold Hooked.call
  cases a.found with
  | false => exact ⟨rfl, fun u => (List.filter_eq_nil_iff.mpr (by simp)).symm⟩
  | true => cases userId <;> exact ⟨rfl, fun u => rfl⟩

/-- The call of `ReceiveMessageFromServer`. -/
theorem call_receiveMessage (data : Option Bytes) :
    (s.call a (.receiveMessage data)).1.hook = s.hook ∧
      ∀ u : Stub Callback, (s.call a (.receiveMessage data)).2 =
        (u.call (.receiveMessage data)).2.filter fun _ => a.found := by
  unfold Hooked.call
  cases a.found with
  | false => exact ⟨rfl, fun u => (List.filter_eq_nil_iff.mpr (by simp)).symm⟩
  | true =>
    refine ⟨rfl, fun u => ?_⟩
    rw [List.filter_true]
    show ((data.filter (¬ ·.isEmpty)).toList.map Effect.received).flatMap (s.hook.deliver a) =
      (data.filter (¬ ·.isEmpty)).toList.map Effect.received
    cases data.filter (¬ ·.isEmpty) <;> rfl

/-- **A call of the game is a run of the hook's steps**, which invoke what the call invokes,
and leaves no query under way. -/
theorem hook_call (hs : s.hook.Quiet) (call : GameCall Callback) :
    (s.hook.events a call).foldlM Hook.step s.hook = some (s.call a call).1.hook ∧
      emitted s.hook (s.hook.events a call) =
        (s.call a call).2.filterMap Effect.invocation ∧
      (s.call a call).1.hook.Quiet := by
  cases call with
  | beginSession userId =>
    obtain ⟨hhook, heffects⟩ := call_beginSession (s := s) (a := a) userId
    rw [hhook, heffects .init]
    refine ⟨rfl, ?_, ⟨hs.probing, hs.queries⟩⟩
    cases userId <;> cases a.found <;> rfl
  | receiveMessage data =>
    obtain ⟨hhook, heffects⟩ := call_receiveMessage (s := s) (a := a) data
    rw [hhook, heffects .init]
    refine ⟨rfl, ?_, hs⟩
    show [] = (((data.filter (¬ ·.isEmpty)).toList.map Effect.received).filter fun _ =>
      a.found).filterMap Effect.invocation
    cases data.filter (¬ ·.isEmpty) <;> cases a.found <;> rfl
  | addNotify callback =>
    have hprobing : (s.hook.addNotify callback).probing = true := probeJson_isSome s.hook
    have hadd : s.hook.step (.addNotify callback) = some (s.hook.addNotify callback) := by
      rw [Hook.step, if_neg (by rw [hs.probing]; exact Bool.false_ne_true)]
    have hprobed : (s.hook.addNotify callback).step (.probed a.session a.found) =
        some ((s.hook.addNotify callback).probed a.session a.found) := by
      rw [Hook.step, if_pos hprobing]
    have hquiet : ((s.hook.addNotify callback).probed a.session a.found).Quiet := by
      refine ⟨?_, ?_⟩
      · unfold Hook.probed
        split <;> rfl
      · rw [Hook.probed_queries]
        exact hs.queries
    rw [call_addNotify, Hook.events, List.foldlM_cons, hadd, emitted_cons hadd]
    change ((_ :: _).foldlM Hook.step (s.hook.addNotify callback) = _) ∧ _
    rw [List.foldlM_cons, hprobed, emitted_cons hprobed]
    by_cases hpass : a.session ∧ (s.hook.realAddNotify ∨ a.found)
    · have hregistered : ((s.hook.addNotify callback).probed a.session a.found).registered = true := by
        unfold Hook.probed
        exact congrArg Hook.registered (if_pos hpass)
      obtain ⟨hrun, hemitted⟩ := steps_callback hregistered hquiet a rfl
      rw [if_pos hpass, if_pos hpass]
      exact ⟨hrun, hemitted, hquiet⟩
    · rw [if_neg hpass, if_neg hpass]
      exact ⟨rfl, rfl, hquiet⟩

/-- The calls of a run, one after another. -/
theorem foldlM_eventsFrom (hs : s.hook.Quiet) (t : List (GameCall Callback × Answers)) :
    (eventsFrom s t).foldlM Hook.step s.hook =
        some (t.foldl (fun s p => (s.call p.2 p.1).1) s).hook ∧
      (t.foldl (fun s p => (s.call p.2 p.1).1) s).hook.Quiet := by
  induction t generalizing s with
  | nil => exact ⟨rfl, hs⟩
  | cons p t ih =>
    obtain ⟨hrun, -, hquiet⟩ := hook_call (a := p.2) hs p.1
    rw [eventsFrom, List.foldlM_append, hrun]
    exact ih hquiet

end Steps

theorem quiet_init : (Hook.init : Hook Callback).Quiet := ⟨rfl, rfl⟩

/-! ## The process and the runtime alone -/

/-- An approved call has found the runtime's function. -/
def Answers.resolves (a : Answers) : GameCall Callback → Bool
  | .addNotify _ => a.session && a.found
  | _ => false

def resolved (t : List (GameCall Callback × Answers)) : Bool := t.any fun p => p.2.resolves p.1

/-- The effect passes the hook: the runtime's function is found, and a message is approved
after its session was. -/
def passes (t : List (GameCall Callback × Answers)) (a : Answers) : Effect Callback → Bool
  | .invoked _ _ => a.session && (resolved t || a.found) && a.allocated && a.message
  | _ => a.found

/-- A session was begun for some player. -/
def Begun (t : List (GameCall Callback × Answers)) : Prop :=
  ∃ userId a, (.beginSession (some userId), a) ∈ t

/-- The hook beside the runtime that stands alone. -/
structure Beside (t : List (GameCall Callback × Answers)) (s : Hook Callback) (u : Stub Callback) :
    Prop where
  resolved_eq : s.realAddNotify = resolved t
  callback_eq : s.gameCallback = u.registeredCallback
  player_eq : Begun t → s.playerId = u.currentPlayerId

section
variable {t : List (GameCall Callback × Answers)} {s : Hooked Callback} {u : Stub Callback}

theorem resolved_snoc (t : List (GameCall Callback × Answers)) (p : GameCall Callback × Answers) :
    resolved (t ++ [p]) = (resolved t || p.2.resolves p.1) := by
  unfold resolved
  rw [List.any_append]
  simp

theorem Begun.of_snoc {p : GameCall Callback × Answers} (h : Begun (t ++ [p]))
    (hp : ∀ userId, p.1 ≠ .beginSession (some userId)) : Begun t := by
  obtain ⟨userId, a, hmem⟩ := h
  rcases List.mem_append.mp hmem with hmem | hmem
  · exact ⟨userId, a, hmem⟩
  · rw [← List.mem_singleton.mp hmem] at hp
    exact absurd rfl (hp userId)

theorem realAddNotify_probed (s : Hook Callback) (a : Answers) :
    (s.probed a.session a.found).realAddNotify = (s.realAddNotify || (a.session && a.found)) := by
  unfold Hook.probed
  cases a.session <;> cases a.found <;> cases s.realAddNotify <;> simp

theorem playerId_probed (s : Hook Callback) (a : Answers) :
    (s.probed a.session a.found).playerId = s.playerId := by
  unfold Hook.probed
  split <;> rfl

/-- One call of the game keeps the two beside each other. -/
theorem Beside.call (h : Beside t s.hook u) (call : GameCall Callback) (a : Answers) :
    Beside (t ++ [(call, a)]) (s.call a call).1.hook (u.call call).1 := by
  obtain ⟨hresolved, hcallback, hplayer⟩ := h
  cases call with
  | beginSession userId =>
    obtain ⟨hhook, -⟩ := call_beginSession (s := s) (a := a) userId
    rw [hhook]
    refine ⟨?_, ?_, fun hbegun => ?_⟩
    · rw [resolved_snoc]
      exact hresolved.trans (Bool.or_false _).symm
    · cases userId <;> exact hcallback
    · cases userId with
      | some userId => rfl
      | none => exact hplayer (hbegun.of_snoc fun userId h => by cases h)
  | receiveMessage data =>
    obtain ⟨hhook, -⟩ := call_receiveMessage (s := s) (a := a) data
    rw [hhook]
    refine ⟨?_, hcallback, fun hbegun => hplayer (hbegun.of_snoc fun userId h => by cases h)⟩
    rw [resolved_snoc]
    exact hresolved.trans (Bool.or_false _).symm
  | addNotify callback =>
    have hhook : (s.call a (.addNotify callback)).1.hook =
        (s.hook.addNotify callback).probed a.session a.found := by
      rw [call_addNotify]
      split <;> rfl
    rw [hhook]
    refine ⟨?_, ?_, fun hbegun => ?_⟩
    · rw [realAddNotify_probed, resolved_snoc, ← hresolved]
      rfl
    · rw [Hook.probed_gameCallback]
      rfl
    · rw [playerId_probed]
      exact hplayer (hbegun.of_snoc fun userId h => by cases h)

/-- What one call does: what passes of what the runtime alone does. -/
theorem Beside.effects (h : Beside t s.hook u) (call : GameCall Callback) (a : Answers) :
    (s.call a call).2 = (u.call call).2.filter (passes t a) := by
  cases call with
  | beginSession userId =>
    rw [(call_beginSession userId).2 u]
    cases userId <;> rfl
  | receiveMessage data =>
    rw [(call_receiveMessage data).2 u]
    show ((data.filter (¬ ·.isEmpty)).toList.map Effect.received).filter _ =
      ((data.filter (¬ ·.isEmpty)).toList.map Effect.received).filter _
    cases data.filter (¬ ·.isEmpty) <;> rfl
  | addNotify callback =>
    have hpasses : ∀ callback, passes t a (.invoked callback synthetic) = true ↔
        (a.session ∧ (s.hook.realAddNotify ∨ a.found)) ∧ a.allocated ∧ a.message := by
      intro callback
      rw [h.resolved_eq]
      simp [passes, and_assoc]
    rw [call_addNotify]
    show _ = (callback.toList.map fun callback => Effect.invoked callback synthetic).filter _
    by_cases hpass : a.session ∧ (s.hook.realAddNotify ∨ a.found)
    · rw [if_pos hpass, callback_synthetic, Hook.probed_gameCallback]
      cases callback with
      | none => split <;> rfl
      | some callback =>
        by_cases hmessage : a.allocated = true ∧ a.message = true
        · rw [if_pos hmessage]
          show [Effect.invoked callback synthetic] = [Effect.invoked callback synthetic].filter _
          rw [List.filter_cons_of_pos ((hpasses callback).mpr ⟨hpass, hmessage⟩)]
          rfl
        · rw [if_neg hmessage]
          show [] = [Effect.invoked callback synthetic].filter _
          rw [List.filter_cons_of_neg fun h => hmessage ((hpasses callback).mp h).2]
          rfl
    · rw [if_neg hpass, eq_comm, List.filter_eq_nil_iff]
      intro e he hpassed
      obtain ⟨callback', -, rfl⟩ := List.mem_map.mp he
      exact hpass ((hpasses callback').mp hpassed).1

theorem beside_after (t : List (GameCall Callback × Answers)) :
    Beside t (Hooked.after t).hook (Stub.after (t.map Prod.fst)) := by
  induction t using List.reverseRecOn with
  | nil =>
    refine ⟨rfl, rfl, ?_⟩
    rintro ⟨_, _, hmem⟩
    cases hmem
  | append_singleton t p ih =>
    rw [Hooked.after_snoc, List.map_append, List.map_singleton, Stub.after_snoc]
    exact ih.call p.1 p.2

end

/-- **The hook filters** what the runtime does: after any calls, the next one does what it
does without the hook, less what is not found or not approved.  What it invokes is what the
hook's steps invoke, and the shim is asked in the name of the runtime's player. -/
theorem hooked_filters (t : List (GameCall Callback × Answers)) (call : GameCall Callback)
    (a : Answers) :
    ((Hooked.after t).call a call).2 =
        ((Stub.after (t.map Prod.fst)).call call).2.filter (passes t a) ∧
      (Begun t → (Hooked.after t).hook.playerId = (Stub.after (t.map Prod.fst)).currentPlayerId) ∧
      run (eventsFrom .init t) = some (Hooked.after t).hook ∧
      emitted (Hooked.after t).hook ((Hooked.after t).hook.events a call) =
        ((Hooked.after t).call a call).2.filterMap Effect.invocation := by
  have hbeside := beside_after t
  obtain ⟨hrun, hquiet⟩ := foldlM_eventsFrom (s := .init) quiet_init t
  exact ⟨hbeside.effects call a, hbeside.player_eq, hrun, (hook_call hquiet call).2.1⟩

/-! ## What is behind a message -/

/-- A query of the hook: the session behind it, and what its one read meets. -/
structure Query (ι : Type) where
  agent : AgentCall
  conn : Connection
  cache : ImaCache
  challenged : ι
  attested : ι
  calls : SocketCalls
  pending : Bytes

/-- What `shim_query` returns. -/
def Query.verdict {ι : Type} (q : Query ι) : Bool := q.calls.shimQuery q.pending

section
variable {ι : Type} [DecidableEq ι]

/-- The query was made on such a session, and its response was sent. -/
structure Query.Made (q : Query ι) (http : Http) (py : Interpreter) (sha256 : Bytes → Digest)
    (arrivals : ι → Arrival) (c : Config Database ι Tx.Ret Exn Response) : Prop where
  session : Session http py sha256 arrivals c q.agent q.conn q.cache q.challenged q.attested
  stream : Streamed py sha256 q.agent.machineId q.conn q.cache q.pending

/-- The report of the query's session was accepted. -/
def Query.Attested (q : Query ι) (platform : Platform) (sha256 : Bytes → Digest)
    (arrivals : ι → Arrival) (tr : List (ServerEvent ι))
    (c : Config Database ι Tx.Ret Exn Response) : Prop :=
  TpmAttest.Attested platform sha256 arrivals tr c q.challenged q.attested q.agent q.cache

/-- **What is behind a message that reaches the game**: it is the message of the call that
registered the callback, and the server has accepted the report of the query that was made
for the session, and that of the query for the message. -/
theorem forwarded_attested (http : Http) (hhttp : http.Faithful) (py : Interpreter)
    (floatBack : Decimal → FloatValue) (hfloats : FloatsRead py.floatRepr floatBack)
    (sha256 : Bytes → Digest) (platform : Platform) (policy : Policy) (db : Database)
    (hdb : ∀ nonce, db.activeNonces nonce = none) (arrivals : ι → Arrival)
    (hfresh : FreshTokens arrivals) (tr : List (ServerEvent ι))
    (c : Config Database ι Tx.Ret Exn Response)
    (h : Run exec databaseFaults unguarded (start platform policy db arrivals) tr c)
    (session message : Query ι) (hsession : session.Made http py sha256 arrivals c)
    (hmessage : message.Made http py sha256 arrivals c)
    (t : List (GameCall Callback × Answers)) (call : GameCall Callback) (found allocated : Bool)
    (callback : Callback) (text : Bytes)
    (hinvoked : .invoked callback text ∈ ((Hooked.after t).call
      ⟨found, session.verdict, allocated, message.verdict⟩ call).2) :
    call = .addNotify (some callback) ∧ text = synthetic ∧
      session.Attested platform sha256 arrivals tr c ∧
        message.Attested platform sha256 arrivals tr c := by
  rw [(beside_after t).effects call _, List.mem_filter] at hinvoked
  obtain ⟨hmem, hpasses⟩ := hinvoked
  simp only [passes, Bool.and_eq_true] at hpasses
  obtain ⟨⟨⟨hsessionVerdict, -⟩, -⟩, hmessageVerdict⟩ := hpasses
  have happroved (q : Query ι) (hq : q.Made http py sha256 arrivals c) (hverdict : q.verdict = true) :
      q.Attested platform sha256 arrivals tr c := by
    have happroves : Shim.Client.Approves sampleBridge q.calls 0 q.pending .hook := hverdict
    exact (hq.session.attested hhttp hfloats hdb hfresh h hq.stream happroves).1
  obtain ⟨rfl, rfl⟩ := Stub.invoked_of_call hmem
  exact ⟨rfl, rfl, happroved session hsession hsessionVerdict,
    happroved message hmessage hmessageVerdict⟩

end

/-- `main` of `fake_game.c`. -/
def fakeGame : List (GameCall Unit) :=
  [.beginSession (some (encode "player_123")), .addNotify (some ()),
    .receiveMessage (some (encode "\x7b\"check\":\"integrity\",\"platform\":\"linux\"\x7d"))]

/-- The queries of the sample sessions: the response arrives at once. -/
def bootQuery (second : Bool) : Query (Bool × Bool) where
  agent := bootCall
  conn := answeredConnection second
  cache := bootCache second
  challenged := (second, false)
  attested := (second, true)
  calls := ⟨none, [4096], []⟩
  pending := responseBytes true (text "token")

theorem bootQuery_made (second : Bool) :
    (bootQuery second).Made sampleHttp sampleInterpreter sha256 bootRequests bootRun.2 where
  session := session_boot second
  stream := Or.inr ⟨_, sent_boot second, List.prefix_refl _⟩

theorem forwarded_attested_boot :
    (bootQuery false).Attested lenientPlatform sha256 bootRequests bootRun.1 bootRun.2 ∧
      (bootQuery true).Attested lenientPlatform sha256 bootRequests bootRun.1 bootRun.2 :=
  (forwarded_attested sampleHttp faithful_sampleHttp sampleInterpreter _ floatsRead_sample sha256
    lenientPlatform laxPolicy .empty (fun _ => rfl) bootRequests freshTokens_boot bootRun.1 bootRun.2
    ((replay_run exec _ _).faulty databaseFaults) (bootQuery false) (bootQuery true)
    (bootQuery_made false) (bootQuery_made true) [(fakeGame[0], ⟨true, true, true, true⟩)] fakeGame[1]
    true true () synthetic (by decide +kernel)).2.2

end TpmAttest.EacHook
