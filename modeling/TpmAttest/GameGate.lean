import TpmAttest.SessionVerdicts

/-! # The gate of the game

`begin_attestation` starts a thread that asks the shim and stores what it is told in
`_result`, one member after the other; meanwhile the game shows its attestation screen and
looks at `_result` whenever a key is pressed.  The game begins exactly if the thread was
told valid and has stored all of it when the player presses ENTER, and the player does not
leave (`playing_iff`).  So a game that begins is attested (`game_launched`).
-/
namespace TpmAttest.DemoGame

open Python Transactional Program Shim

/-- `_result`. -/
structure GameResult where
  done : Bool
  valid : Json
  reason : Json
  token : Option Json

def GameResult.notStarted : GameResult := ⟨false, .bool false, .str (text "not started"), none⟩

/-- An assignment to a member. -/
inductive Assignment where
  | valid (value : Json)
  | reason (value : Json)
  | token (value : Json)
  | done

def GameResult.assign (r : GameResult) : Assignment → GameResult
  | .valid value => { r with valid := value }
  | .reason value => { r with reason := value }
  | .token value => { r with token := some value }
  | .done => { r with done := true }

/-- The assignments of `_run`, when it has the response: none, if `get` raises. -/
def assignments (resp : Json) : List Assignment :=
  (readResponse resp).toOption.elim [] fun p => [.valid p.1, .reason p.2.1, .token p.2.2, .done]

/-- What the player does on the screen; `quit` closes the window. -/
inductive Input where
  | quit
  | escape
  | enter
  | other
deriving DecidableEq

/-- Where `main` is: on the screen, perhaps about to leave it, in the game, or at an end. -/
inductive Phase where
  | screen (attesting : Bool)
  | playing
  | exited

/-- An event of the screen; `r` is what `get_result` returns for it. -/
def Phase.input (r : GameResult) (input : Input) : Phase → Phase
  | screen attesting =>
    match input with
    | .quit => exited
    | .escape => exited
    | .enter =>
      if r.done && r.valid.truthy then screen false
      else if r.done && !r.valid.truthy then exited
      else screen attesting
    | .other => screen attesting
  | phase => phase

theorem Phase.input_enter {r : GameResult} (hdone : r.done = true) (hvalid : r.valid.truthy = true)
    (attesting : Bool) : Phase.input r .enter (.screen attesting) = .screen false := by
  rw [Phase.input, hdone, hvalid]
  rfl

/-- The end of a frame, and whether the screen can be drawn. -/
def Phase.frame (drawn : Bool) : Phase → Phase
  | screen attesting =>
    if drawn then (if attesting then screen true else playing) else exited
  | phase => phase

/-- The process of the game. -/
structure GameState where
  result : GameResult
  /-- What the thread has still to store. -/
  pending : List Assignment
  phase : Phase

/-- A step of the thread, or of `main`. -/
inductive GameEvent where
  | assign
  | input (input : Input)
  | frame (drawn : Bool)
deriving DecidableEq

namespace GameState

/-- After `begin_attestation`, whose thread will be given the response. -/
def start (resp : Json) : GameState := ⟨.notStarted, assignments resp, .screen true⟩

def step (g : GameState) : GameEvent → GameState
  | .assign =>
    { g with
      result := g.pending.head?.elim g.result g.result.assign
      pending := g.pending.tail }
  | .input input => { g with phase := g.phase.input g.result input }
  | .frame drawn => { g with phase := g.phase.frame drawn }

def run (g : GameState) (events : List GameEvent) : GameState := events.foldl step g

theorem run_snoc (g : GameState) (events : List GameEvent) (ev : GameEvent) :
    g.run (events ++ [ev]) = (g.run events).step ev := List.foldl_append

theorem run_append (g : GameState) (t₁ t₂ : List GameEvent) :
    g.run (t₁ ++ t₂) = (g.run t₁).run t₂ := List.foldl_append

/-- The screen is left once. -/
theorem step_phase {g : GameState} (h : ∀ attesting, g.phase ≠ .screen attesting) (ev : GameEvent) :
    (g.step ev).phase = g.phase := by
  cases ev with
  | assign => rfl
  | input input =>
    show g.phase.input _ input = g.phase
    cases hphase : g.phase with
    | screen attesting => exact absurd hphase (h attesting)
    | playing => rfl
    | exited => rfl
  | frame drawn =>
    show g.phase.frame drawn = g.phase
    cases hphase : g.phase with
    | screen attesting => exact absurd hphase (h attesting)
    | playing => rfl
    | exited => rfl

end GameState

/-! ## What the thread has stored -/

section
variable {resp : Json} {g : GameState}

/-- The thread has made some of its assignments. -/
structure Stored (resp : Json) (g : GameState) : Prop where
  made : ∃ made, assignments resp = made ++ g.pending ∧
    g.result = made.foldl GameResult.assign .notStarted

theorem stored_start (resp : Json) : Stored resp (.start resp) := ⟨[], rfl, rfl⟩

theorem Stored.step (h : Stored resp g) (ev : GameEvent) : Stored resp (g.step ev) := by
  obtain ⟨made, hmade, hresult⟩ := h.made
  cases ev with
  | assign =>
    cases hpending : g.pending with
    | nil =>
      refine ⟨made, ?_, ?_⟩
      · rw [hmade, GameState.step, hpending]
        rfl
      · rw [GameState.step, hpending]
        exact hresult
    | cons a pending =>
      refine ⟨made ++ [a], ?_, ?_⟩
      · rw [hmade, GameState.step, hpending, List.append_assoc]
        rfl
      · rw [GameState.step, hpending, List.foldl_append, ← hresult]
        rfl
  | input input => exact ⟨made, hmade, hresult⟩
  | frame drawn => exact ⟨made, hmade, hresult⟩

theorem stored_run (resp : Json) (events : List GameEvent) :
    Stored resp ((GameState.start resp).run events) := by
  induction events using List.reverseRecOn with
  | nil => exact stored_start resp
  | append_singleton events ev ih =>
    rw [GameState.run_snoc]
    exact ih.step ev

/-- **No half of a result is shown as a whole one**: `done` is stored last. -/
theorem Stored.whole (h : Stored resp g) (hdone : g.result.done = true) :
    ∃ p, readResponse resp = .ok p ∧ g.pending = [] ∧ g.result = ⟨true, p.1, p.2.1, some p.2.2⟩ := by
  obtain ⟨made, hmade, hresult⟩ := h.made
  unfold assignments at hmade
  cases hread : readResponse resp with
  | error e =>
    rw [hread] at hmade
    obtain ⟨rfl, -⟩ := List.append_eq_nil_iff.mp hmade.symm
    rw [hresult] at hdone
    cases hdone
  | ok p =>
    rw [hread] at hmade
    refine ⟨p, rfl, ?_⟩
    change [Assignment.valid p.1, .reason p.2.1, .token p.2.2, .done] = made ++ g.pending at hmade
    -- how many of the four have been made
    match made with
    | [] | [_] | [_, _] | [_, _, _] =>
      simp only [List.cons_append, List.nil_append, List.cons.injEq] at hmade
      simp only [← hmade, hresult, List.foldl] at hdone
      cases hdone
    | [_, _, _, _] =>
      simp only [List.cons_append, List.nil_append, List.cons.injEq] at hmade
      obtain ⟨rfl, rfl, rfl, rfl, hpending⟩ := hmade
      exact ⟨hpending.symm, hresult⟩
    | _ :: _ :: _ :: _ :: _ :: _ => simp at hmade

theorem pending_run (resp : Json) (events : List GameEvent) :
    ((GameState.start resp).run events).pending = (assignments resp).drop (events.count .assign) := by
  induction events using List.reverseRecOn with
  | nil => rfl
  | append_singleton events ev ih =>
    rw [GameState.run_snoc, List.count_append]
    cases ev with
    | assign =>
      show List.tail _ = _
      rw [ih, List.tail_drop]
      rfl
    | input input => exact ih
    | frame drawn => exact ih

/-- A result is whole when the thread has taken its four steps. -/
theorem done_run {p : Json × Json × Json} (hread : readResponse resp = .ok p) (events : List GameEvent) :
    ((GameState.start resp).run events).result.done = true ↔ 4 ≤ events.count .assign := by
  have hstored := stored_run resp events
  have hpending := pending_run resp events
  have hall : assignments resp = [.valid p.1, .reason p.2.1, .token p.2.2, .done] := by
    rw [assignments, hread]
    rfl
  constructor
  · intro hdone
    obtain ⟨-, -, hnil, -⟩ := hstored.whole hdone
    rw [hnil, hall] at hpending
    exact List.drop_eq_nil_iff.mp hpending.symm
  · intro hcount
    obtain ⟨made, hmade, hresult⟩ := hstored.made
    rw [hpending, hall, List.drop_of_length_le (by exact hcount), List.append_nil] at hmade
    rw [hresult, ← hmade]
    rfl

theorem truthy_of_done {p : Json × Json × Json} (hread : readResponse resp = .ok p)
    {events : List GameEvent} (hdone : ((GameState.start resp).run events).result.done = true) :
    ((GameState.start resp).run events).result.valid = p.1 := by
  obtain ⟨q, hq, -, hresult⟩ := (stored_run resp events).whole hdone
  rw [hread] at hq
  obtain rfl := Except.ok.inj hq
  rw [hresult]

end

/-! ## When the game begins -/

/-- The player does not leave, and the screen can be drawn. -/
def Stays (events : List GameEvent) : Prop :=
  ∀ ev ∈ events, ev ≠ .input .quit ∧ ev ≠ .input .escape ∧ ev ≠ .frame false

theorem stays_append {s t : List GameEvent} : Stays (s ++ t) ↔ Stays s ∧ Stays t :=
  List.forall_mem_append

/-- The player was told valid, and pressed ENTER when all of the result had been stored. -/
def Passes (resp : Json) (t₁ t₂ : List GameEvent) : Prop :=
  (∃ p, readResponse resp = .ok p ∧ p.1.truthy = true) ∧ Stays (t₁ ++ t₂) ∧ 4 ≤ t₁.count .assign

/-- What has happened before a phase. -/
def Before (resp : Json) (events : List GameEvent) : Phase → Prop
  | .screen true => Stays events
  | .screen false => ∃ t₁ t₂, events = t₁ ++ .input .enter :: t₂ ∧ Passes resp t₁ t₂
  | .playing => ∃ t₁ t₂ t₃,
      events = t₁ ++ .input .enter :: (t₂ ++ .frame true :: t₃) ∧ Passes resp t₁ t₂
  | .exited => True

section
variable {resp : Json} {events : List GameEvent} {ev : GameEvent}

/-- The screen stays up. -/
theorem Before.stay {attesting : Bool} (h : Before resp events (.screen attesting))
    (hev : Stays [ev]) : Before resp (events ++ [ev]) (.screen attesting) := by
  cases attesting with
  | true => exact stays_append.mpr ⟨h, hev⟩
  | false =>
    obtain ⟨t₁, t₂, rfl, hverdict, hstays, hcount⟩ := h
    refine ⟨t₁, t₂ ++ [ev], by simp, hverdict, ?_, hcount⟩
    rw [← List.append_assoc]
    exact stays_append.mpr ⟨hstays, hev⟩

/-- ENTER leaves the screen. -/
theorem Before.enter {attesting : Bool} (h : Before resp events (.screen attesting))
    (hdone : ((GameState.start resp).run events).result.done = true)
    (hvalid : ((GameState.start resp).run events).result.valid.truthy = true) :
    Before resp (events ++ [.input .enter]) (.screen false) := by
  cases attesting with
  | true =>
    obtain ⟨p, hread, -, -⟩ := (stored_run resp events).whole hdone
    rw [truthy_of_done hread hdone] at hvalid
    refine ⟨events, [], rfl, ⟨p, hread, hvalid⟩, ?_, (done_run hread events).mp hdone⟩
    rw [List.append_nil]
    exact h
  | false => exact h.stay (by simp [Stays])

theorem before_run (resp : Json) (events : List GameEvent) :
    Before resp events ((GameState.start resp).run events).phase := by
  induction events using List.reverseRecOn with
  | nil => exact List.forall_mem_nil _
  | append_singleton events ev ih =>
    rw [GameState.run_snoc]
    cases hphase : ((GameState.start resp).run events).phase with
    | screen attesting =>
      rw [hphase] at ih
      cases ev with
      | assign =>
        show Before resp _ ((GameState.start resp).run events).phase
        rw [hphase]
        exact ih.stay (by simp [Stays])
      | input input =>
        show Before resp _ (Phase.input _ input ((GameState.start resp).run events).phase)
        rw [hphase]
        cases input with
        | quit => trivial
        | escape => trivial
        | other => exact ih.stay (by simp [Stays])
        | enter =>
          rw [Phase.input]
          by_cases hpass : (((GameState.start resp).run events).result.done &&
              ((GameState.start resp).run events).result.valid.truthy) = true
          · rw [if_pos hpass]
            obtain ⟨hdone, hvalid⟩ := Bool.and_eq_true_iff.mp hpass
            exact ih.enter hdone hvalid
          · rw [if_neg hpass]
            split
            · trivial
            · exact ih.stay (by simp [Stays])
      | frame drawn =>
        show Before resp _ (Phase.frame drawn ((GameState.start resp).run events).phase)
        rw [hphase]
        cases drawn with
        | false => trivial
        | true =>
          cases attesting with
          | true => exact ih.stay (by simp [Stays])
          | false =>
            obtain ⟨t₁, t₂, rfl, hpasses⟩ := ih
            exact ⟨t₁, t₂, [], by simp, hpasses⟩
    | playing =>
      rw [hphase] at ih
      obtain ⟨t₁, t₂, t₃, hevents, hpasses⟩ := ih
      rw [GameState.step_phase (by rw [hphase]; exact fun b => Phase.noConfusion), hphase]
      exact ⟨t₁, t₂, t₃ ++ [ev], by rw [hevents]; simp, hpasses⟩
    | exited =>
      rw [GameState.step_phase (by rw [hphase]; exact fun b => Phase.noConfusion), hphase]
      trivial

/-- Nobody is sent away who was told valid. -/
theorem step_ne_exited {g : GameState} (hphase : g.phase ≠ .exited)
    (hvalid : g.result.done = true → g.result.valid.truthy = true) (hev : Stays [ev]) :
    (g.step ev).phase ≠ .exited := by
  cases hg : g.phase with
  | exited => exact absurd hg hphase
  | playing => rwa [GameState.step_phase (by rw [hg]; exact fun b => Phase.noConfusion)]
  | screen attesting =>
    obtain ⟨hquit, hescape, hframe⟩ := hev ev List.mem_cons_self
    cases ev with
    | assign => exact hphase
    | frame drawn =>
      show g.phase.frame drawn ≠ _
      cases drawn with
      | false => exact absurd rfl hframe
      | true =>
        rw [hg]
        cases attesting <;> exact Phase.noConfusion
    | input input =>
      show g.phase.input _ input ≠ _
      rw [hg]
      cases input with
      | quit => exact absurd rfl hquit
      | escape => exact absurd rfl hescape
      | other => exact Phase.noConfusion
      | enter =>
        by_cases hdone : g.result.done = true
        · rw [Phase.input_enter hdone (hvalid hdone)]
          exact Phase.noConfusion
        · rw [Phase.input, Bool.eq_false_iff.mpr hdone, Bool.false_and, Bool.false_and, if_neg Bool.false_ne_true,
            if_neg Bool.false_ne_true]
          exact Phase.noConfusion

/-- The player has passed the screen. -/
def Left : Phase → Prop
  | .screen attesting => attesting = false
  | .playing => True
  | .exited => False

theorem left_step {g : GameState} (hleft : Left g.phase) (hdone : g.result.done = true)
    (hvalid : g.result.valid.truthy = true) (hev : Stays [ev]) : Left (g.step ev).phase := by
  cases hg : g.phase with
  | exited =>
    rw [hg] at hleft
    exact hleft.elim
  | playing =>
    rw [GameState.step_phase (by rw [hg]; exact fun b => Phase.noConfusion), hg]
    trivial
  | screen attesting =>
    rw [hg] at hleft
    obtain rfl : attesting = false := hleft
    obtain ⟨hquit, hescape, hframe⟩ := hev ev List.mem_cons_self
    cases ev with
    | assign =>
      show Left g.phase
      rw [hg]
      rfl
    | frame drawn =>
      show Left (g.phase.frame drawn)
      rw [hg]
      cases drawn with
      | false => exact absurd rfl hframe
      | true => trivial
    | input input =>
      show Left (g.phase.input _ input)
      rw [hg]
      cases input with
      | quit => exact absurd rfl hquit
      | escape => exact absurd rfl hescape
      | other => rfl
      | enter =>
        rw [Phase.input_enter hdone hvalid]
        rfl

/-- ENTER passes the screen, when the result is whole and valid. -/
theorem left_enter {g : GameState} (hphase : g.phase ≠ .exited) (hdone : g.result.done = true)
    (hvalid : g.result.valid.truthy = true) : Left (g.step (.input .enter)).phase := by
  show Left (g.phase.input _ .enter)
  cases hg : g.phase with
  | exited => exact absurd hg hphase
  | playing => trivial
  | screen attesting =>
    rw [Phase.input_enter hdone hvalid]
    rfl

theorem playing_of_passes {t₁ t₂ t₃ : List GameEvent} (h : Passes resp t₁ t₂) :
    ((GameState.start resp).run (t₁ ++ .input .enter :: (t₂ ++ .frame true :: t₃))).phase = .playing := by
  obtain ⟨⟨p, hread, htruthy⟩, hstays, hcount⟩ := h
  obtain ⟨hstays₁, hstays₂⟩ := stays_append.mp hstays
  have hvalid : ∀ events, ((GameState.start resp).run events).result.done = true →
      ((GameState.start resp).run events).result.valid.truthy = true := by
    intro events hdone
    rw [truthy_of_done hread hdone]
    exact htruthy
  have hdone : ∀ t, ((GameState.start resp).run (t₁ ++ t)).result.done = true := by
    intro t
    rw [done_run hread, List.count_append]
    omega
  -- up to ENTER nobody is sent away
  have hfirst : ((GameState.start resp).run t₁).phase ≠ .exited := by
    clear hcount hdone hstays
    induction t₁ using List.reverseRecOn with
    | nil => exact Phase.noConfusion
    | append_singleton t₁ ev ih =>
      rw [GameState.run_snoc]
      obtain ⟨hstays, hev⟩ := stays_append.mp hstays₁
      exact step_ne_exited (ih hstays) (hvalid t₁) hev
  -- behind it the screen has been passed
  have hsecond : Left ((GameState.start resp).run (t₁ ++ .input .enter :: t₂)).phase := by
    clear hstays
    induction t₂ using List.reverseRecOn with
    | nil =>
      rw [GameState.run_snoc]
      have hdone₁ := hdone []
      rw [List.append_nil] at hdone₁
      exact left_enter hfirst hdone₁ (hvalid _ hdone₁)
    | append_singleton t₂ ev ih =>
      obtain ⟨hstays, hev⟩ := stays_append.mp hstays₂
      rw [← List.cons_append, ← List.append_assoc, GameState.run_snoc]
      exact left_step (ih hstays) (hdone _) (hvalid _ (hdone _)) hev
  have hthird : (((GameState.start resp).run (t₁ ++ .input .enter :: t₂)).step (.frame true)).phase =
      .playing := by
    show Phase.frame true _ = _
    cases hphase : ((GameState.start resp).run (t₁ ++ .input .enter :: t₂)).phase with
    | exited =>
      rw [hphase] at hsecond
      exact hsecond.elim
    | playing => rfl
    | screen attesting =>
      rw [hphase] at hsecond
      obtain rfl : attesting = false := hsecond
      rfl
  have hevents : t₁ ++ .input .enter :: (t₂ ++ .frame true :: t₃) =
      (t₁ ++ .input .enter :: t₂) ++ [.frame true] ++ t₃ := by simp
  rw [hevents, GameState.run_append, GameState.run_snoc]
  induction t₃ using List.reverseRecOn with
  | nil => exact hthird
  | append_singleton t₃ ev ih =>
    rw [GameState.run_snoc]
    have hplaying := ih (by simp)
    rw [GameState.step_phase (by rw [hplaying]; exact fun b => Phase.noConfusion)]
    exact hplaying

end

/-- **When the game begins**: whatever the order in which the thread stores its result and
the player presses keys, the game begins exactly if the response that the thread was given
says valid, the thread has stored all of it when the player presses ENTER, and the screen
stays up until the frame behind. -/
theorem playing_iff (resp : Json) (events : List GameEvent) :
    ((GameState.start resp).run events).phase = .playing ↔ ∃ t₁ t₂ t₃,
      events = t₁ ++ .input .enter :: (t₂ ++ .frame true :: t₃) ∧ Passes resp t₁ t₂ := by
  constructor
  · intro hplaying
    have hbefore := before_run resp events
    rw [hplaying] at hbefore
    exact hbefore
  · rintro ⟨t₁, t₂, t₃, rfl, hpasses⟩
    exact playing_of_passes hpasses

/-- **A game that begins is attested**: if the game begins, the bridge has received the whole
of the shim's response, and the server has accepted the report that the shim collected on
this connection. -/
theorem game_launched {ι : Type} [DecidableEq ι] (http : Http) (hhttp : http.Faithful)
    (py : Interpreter) (floatBack : Decimal → FloatValue) (hfloats : FloatsRead py.floatRepr floatBack)
    (game : Bridge) (sha256 : Bytes → Digest) (platform : Platform) (policy : Policy) (db : Database)
    (hdb : ∀ nonce, db.activeNonces nonce = none) (arrivals : ι → Arrival)
    (hfresh : FreshTokens arrivals) (tr : List (ServerEvent ι))
    (c : Config Database ι Tx.Ret Exn Response)
    (h : Run exec databaseFaults unguarded (TpmAttest.start platform policy db arrivals) tr c)
    (call : AgentCall) (conn : Connection) (cache : ImaCache) (i j : ι)
    (hsession : Session http py sha256 arrivals c call conn cache i j)
    (calls : SocketCalls) (pending : Bytes)
    (hstream : Streamed py sha256 call.machineId conn cache pending) (events : List GameEvent)
    (hplays : ((GameState.start (game.queryShim calls pending)).run events).phase = .playing) :
    pending ∈ (handleClient py sha256 call.machineId conn cache).sent ∧
      Attested platform sha256 arrivals tr c i j call cache := by
  have hbefore := before_run (game.queryShim calls pending) events
  rw [hplays] at hbefore
  obtain ⟨-, -, -, -, ⟨p, hread, htruthy⟩, -⟩ := hbefore
  have happroves : Shim.Client.Approves game calls 0 pending .bridge :=
    ⟨p.1, by rw [hread]; rfl, htruthy⟩
  obtain ⟨hattested, hwhole⟩ := hsession.attested hhttp hfloats hdb hfresh h hstream happroves
  exact ⟨hwhole rfl, hattested⟩

/-- The bridge reads the response in pieces of twenty bytes. -/
def pieces : SocketCalls := ⟨none, List.replicate 40 19, []⟩

/-- The player presses ENTER too early, and again. -/
def bootEvents : List GameEvent :=
  [.assign, .input .enter, .assign, .assign, .frame true, .assign, .input .enter, .frame true]

theorem game_launched_boot :
    responseBytes true (text "token") ∈ (handleClient sampleInterpreter sha256 bootCall.machineId
        (answeredConnection false) .empty).sent ∧
      Attested lenientPlatform sha256 bootRequests bootRun.1 bootRun.2 (false, false) (false, true)
        bootCall .empty := by
  refine game_launched sampleHttp faithful_sampleHttp sampleInterpreter _ floatsRead_sample sampleBridge
    sha256 lenientPlatform laxPolicy .empty (fun _ => rfl) bootRequests freshTokens_boot bootRun.1
    bootRun.2 ((replay_run exec _ _).faulty databaseFaults) bootCall (answeredConnection false) .empty
    (false, false) (false, true) (session_boot false) pieces _
    (Or.inr ⟨_, sent_boot false, List.prefix_refl _⟩) bootEvents ?_
  obtain ⟨value, hvalue, htruthy⟩ := (@approves_complete sampleBridge pieces 0 true (text "token")
    (by decide) .bridge (reads_of_length_lt rfl (by decide +kernel) .bridge
      Shim.Client.noConfusion)).mpr rfl
  cases hread : readResponse (sampleBridge.queryShim pieces (responseBytes true (text "token"))) with
  | error e =>
    rw [hread] at hvalue
    cases hvalue
  | ok p =>
    rw [hread] at hvalue
    obtain rfl := Except.ok.inj hvalue
    exact @playing_of_passes _ (bootEvents.take 6) [] []
      ⟨⟨p, hread, htruthy⟩, by simp [Stays, bootEvents], by decide⟩

end TpmAttest.DemoGame
