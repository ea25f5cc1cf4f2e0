import TpmAttest.ShimHandler
import TpmAttest.Sha256

/-! # When the shim's handler answers

The handler is to answer every client with one JSON object, whatever the client, the
endpoints and the readers do, as long as the readers raise only `RuntimeError` and
`ValueError`.  It does not: every stage decodes JSON that it did not write, and no
clause names all the exceptions that this can raise.  `handleClient_answered_iff` says
what the handler relies on; if that fails, the exception ends the accept loop.
-/
namespace TpmAttest.Shim

open Python

/-! ## What the stages read -/

section
variable (py : Interpreter)

/-- The handshake can be read: it is no JSON, or an object whose fields can be logged. -/
def ReadableHandshake (raw : Text) : Prop :=
  match loadsText (py.loadsLimit .handshake) raw with
  | .ok (.dict items) =>
    py.formats .handshake (["game_id", "player_id", "platform"].map fun key =>
      (getItem key items).getD .null) = true
  | .error (.json _) => True
  | _ => False

/-- The handshake that is posted. -/
def handshakeOf (raw : Text) : Json :=
  match loadsText (py.loadsLimit .handshake) raw with
  | .ok handshake => handshake
  | .error _ => .dict []

/-- The value that the challenge endpoint gives for the nonce. -/
def nonceOf : Reply → Option Json
  | .body b => match loads (py.loadsLimit .challenge) b with
    | .ok (.dict items) => some ((getItem "nonce" items).getD .null)
    | _ => none
  | _ => none

/-- The check of the nonce does not fail itself. -/
def Checkable : Json → Prop
  | .str _ | .list _ => True
  | .dict items => items.length ≠ 64
  | value => value.truthy = false

/-- A challenge that can be read: an error, a body that is nested too deep, or an object
whose nonce can be checked. -/
def ReadableChallenge (challenge : Reply) : Prop :=
  match challenge with
  | .body b => loads (py.loadsLimit .challenge) b = .error .recursion ∨
    ∃ nonce, nonceOf py challenge = some nonce ∧ Checkable nonce
  | .httpError _ _ _ | .unreachable _ => True
  | .failed => False

/-- The value passes for a nonce. -/
def Passes (nonce : Json) : Prop :=
  len nonce = .ok 64 ∧ ∃ head, first16 nonce = .ok head ∧ py.formats .nonce [head] = true

theorem log_eq (site : LogSite) (args : List Json) :
    (py.formats site args = true ∧ py.log site args = .ok ()) ∨
      (py.formats site args = false ∧ py.log site args = .error .recursionError) := by
  unfold Interpreter.log
  cases py.formats site args <;> simp

theorem parseHandshake_of_readable {raw : Text} (h : ReadableHandshake py raw) :
    parseHandshake py raw = .ok (handshakeOf py raw) := by
  unfold ReadableHandshake at h
  unfold parseHandshake handshakeOf
  cases hloads : loadsText (py.loadsLimit .handshake) raw with
  | error e =>
    rw [hloads] at h
    cases e with
    | json msg => rfl
    | _ => exact h.elim
  | ok handshake =>
    rw [hloads] at h
    cases handshake with
    | dict items =>
      have hlog : py.log .handshake [(getItem "game_id" items).getD .null,
          (getItem "player_id" items).getD .null, (getItem "platform" items).getD .null] =
            .ok () := if_pos h
      simp only [Except.mapError, getKey, bind, Except.bind, hlog]
      rfl
    | _ => exact h.elim

theorem parseHandshake_of_not_readable {raw : Text} (h : ¬ ReadableHandshake py raw) :
    ∃ e, parseHandshake py raw = .error e := by
  unfold ReadableHandshake at h
  unfold parseHandshake
  cases hloads : loadsText (py.loadsLimit .handshake) raw with
  | error e =>
    rw [hloads] at h
    cases e with
    | json msg => exact absurd trivial h
    | _ => exact ⟨_, rfl⟩
  | ok handshake =>
    rw [hloads] at h
    cases handshake with
    | dict items =>
      have hlog : py.log .handshake [(getItem "game_id" items).getD .null,
          (getItem "player_id" items).getD .null, (getItem "platform" items).getD .null] =
            .error .recursionError := if_neg h
      simp only [Except.mapError, getKey, bind, Except.bind, hlog]
      exact ⟨_, rfl⟩
    | _ => exact ⟨_, rfl⟩

/-- A nonce that is refused raises `RuntimeError`, or `RecursionError`. -/
theorem invalid_error (nonce : Json) :
    ∃ e, (do py.log .invalidNonce [nonce]; throw (.runtimeError (.invalidNonce nonce)) :
      Except PyExn Json) = .error e ∧ e.isRuntimeError = true := by
  rcases log_eq py .invalidNonce [nonce] with ⟨-, h⟩ | ⟨-, h⟩ <;> rw [h]
  · exact ⟨_, rfl, rfl⟩
  · exact ⟨_, rfl, rfl⟩

theorem checkNonce_of_falsy {nonce : Json} (h : nonce.truthy = false) :
    ∃ e, checkNonce py nonce = .error e ∧ e.isRuntimeError = true := by
  unfold checkNonce
  rw [h]
  exact invalid_error py nonce

theorem checkNonce_of_length_ne {nonce : Json} {n : Nat} (hlen : len nonce = .ok n) (h : n ≠ 64) :
    ∃ e, checkNonce py nonce = .error e ∧ e.isRuntimeError = true := by
  by_cases htruthy : nonce.truthy = true
  · obtain ⟨e, he, hcaught⟩ := invalid_error py nonce
    refine ⟨e, ?_, hcaught⟩
    unfold checkNonce
    rw [htruthy, hlen]
    simpa [bind, Except.bind, h] using he
  · exact checkNonce_of_falsy py (Bool.eq_false_iff.mpr htruthy)

/-- A value of the right length. -/
theorem checkNonce_of_length {nonce : Json} (hlen : len nonce = .ok 64) :
    checkNonce py nonce = (do py.log .nonce [← first16 nonce]; return nonce) := by
  have htruthy : nonce.truthy = true := by
    cases nonce with
    | str s =>
      cases s with
      | nil => cases hlen
      | cons c s => rfl
    | list items =>
      cases items with
      | nil => cases hlen
      | cons item items => rfl
    | dict items =>
      cases items with
      | nil => cases hlen
      | cons item items => rfl
    | _ => cases hlen
  unfold checkNonce
  rw [htruthy, hlen]
  rfl

/-- The value has a length and can be cut: the check goes through, or it is refused. -/
theorem checkNonce_of_first16 {nonce head : Json} {n : Nat} (hlen : len nonce = .ok n)
    (hhead : first16 nonce = .ok head) :
    (checkNonce py nonce = .ok nonce ∧ Passes py nonce) ∨
      (∃ e, checkNonce py nonce = .error e ∧ e.isRuntimeError = true) ∧ ¬ Passes py nonce := by
  by_cases h64 : n = 64
  · subst h64
    rw [checkNonce_of_length py hlen, hhead]
    rcases log_eq py .nonce [head] with ⟨hformats, hlog⟩ | ⟨hformats, hlog⟩
    · refine Or.inl ⟨?_, hlen, head, hhead, hformats⟩
      simp only [bind, Except.bind, hlog]
      rfl
    · refine Or.inr ⟨⟨.recursionError, ?_, rfl⟩, ?_⟩
      · simp only [bind, Except.bind, hlog]
      · rintro ⟨-, head', hhead', hformats'⟩
        rw [hhead] at hhead'
        cases hhead'
        rw [hformats] at hformats'
        cases hformats'
  · refine Or.inr ⟨checkNonce_of_length_ne py hlen h64, ?_⟩
    rintro ⟨hlen', -⟩
    rw [hlen] at hlen'
    exact h64 (Except.ok.inj hlen')

/-- The check goes through, the nonce is refused, or the check fails itself. -/
def CheckCases (nonce : Json) : Prop :=
  (checkNonce py nonce = .ok nonce ∧ Passes py nonce ∧ Checkable nonce) ∨
    ((∃ e, checkNonce py nonce = .error e ∧ e.isRuntimeError = true) ∧ ¬ Passes py nonce ∧
      Checkable nonce) ∨
    (checkNonce py nonce = .error .typeError ∧ ¬ Passes py nonce ∧ ¬ Checkable nonce)

theorem checkNonce_of_scalar {nonce : Json} (hlen : len nonce = .error .typeError)
    (hcheckable : Checkable nonce ↔ nonce.truthy = false) : CheckCases py nonce := by
  have hno : ¬ Passes py nonce := by
    rintro ⟨hlen', -⟩
    rw [hlen] at hlen'
    cases hlen'
  by_cases htruthy : nonce.truthy = true
  · refine Or.inr (Or.inr ⟨?_, hno, ?_⟩)
    · unfold checkNonce
      rw [htruthy, hlen]
      rfl
    · rw [hcheckable, htruthy]
      exact Bool.noConfusion
  · have hfalse := Bool.eq_false_iff.mpr htruthy
    exact Or.inr (Or.inl ⟨checkNonce_of_falsy py hfalse, hno, hcheckable.mpr hfalse⟩)

theorem checkNonce_cases (nonce : Json) : CheckCases py nonce := by
  cases nonce with
  | str s =>
    have hhead : first16 (.str s) = .ok (.str (s.take 16)) := rfl
    rcases checkNonce_of_first16 py rfl hhead with ⟨h, hp⟩ | ⟨h, hp⟩
    · exact Or.inl ⟨h, hp, trivial⟩
    · exact Or.inr (Or.inl ⟨h, hp, trivial⟩)
  | list items =>
    have hhead : first16 (.list items) = .ok (.list (items.take 16)) := rfl
    rcases checkNonce_of_first16 py rfl hhead with ⟨h, hp⟩ | ⟨h, hp⟩
    · exact Or.inl ⟨h, hp, trivial⟩
    · exact Or.inr (Or.inl ⟨h, hp, trivial⟩)
  | dict items =>
    have hno : ¬ Passes py (.dict items) := by
      rintro ⟨-, head, hhead, -⟩
      cases hhead
    have hlen : len (.dict items) = .ok items.length := rfl
    by_cases h64 : items.length = 64
    · refine Or.inr (Or.inr ⟨?_, hno, fun h => h h64⟩)
      rw [h64] at hlen
      rw [checkNonce_of_length py hlen]
      rfl
    · exact Or.inr (Or.inl ⟨checkNonce_of_length_ne py hlen h64, hno, h64⟩)
  | _ => exact checkNonce_of_scalar py rfl Iff.rfl

/-- The challenge gives a value, and it passes for a nonce. -/
def Accepted (challenge : Reply) (nonce : Json) : Prop :=
  nonceOf py challenge = some nonce ∧ Passes py nonce

/-- **The second stage.** -/
theorem getChallenge_cases (challenge : Reply) :
    (∃ nonce, getChallenge py challenge = .ok nonce ∧ Accepted py challenge nonce ∧
        ReadableChallenge py challenge) ∨
      ((∃ e, getChallenge py challenge = .error e ∧ e.isRuntimeError = true) ∧
        (∀ nonce, ¬ Accepted py challenge nonce) ∧ ReadableChallenge py challenge) ∨
      ((∃ e, getChallenge py challenge = .error e ∧ e.isRuntimeError = false) ∧
        ¬ ReadableChallenge py challenge) := by
  have hnone : nonceOf py challenge = none → ∀ nonce, ¬ Accepted py challenge nonce := by
    rintro h nonce ⟨h', -⟩
    rw [h] at h'
    cases h'
  cases challenge with
  | httpError code reason b => exact Or.inr (Or.inl ⟨⟨_, rfl, rfl⟩, hnone rfl, trivial⟩)
  | unreachable reason => exact Or.inr (Or.inl ⟨⟨_, rfl, rfl⟩, hnone rfl, trivial⟩)
  | failed => exact Or.inr (Or.inr ⟨⟨_, rfl, rfl⟩, id⟩)
  | body b =>
    have hunreadable : loads (py.loadsLimit .challenge) b ≠ .error .recursion →
        nonceOf py (.body b) = none → ¬ ReadableChallenge py (.body b) := by
      rintro hloads h (h' | ⟨nonce, h', -⟩)
      · exact hloads h'
      · rw [h] at h'
        cases h'
    cases hloads : loads (py.loadsLimit .challenge) b with
    | error e =>
      have hn : nonceOf py (.body b) = none := by simp [nonceOf, hloads]
      have hrun : getChallenge py (.body b) = .error (.ofLoads e) := by
        simp only [getChallenge, Interpreter.loadsAt, hloads]
        rfl
      cases e with
      | recursion => exact Or.inr (Or.inl ⟨⟨_, hrun, rfl⟩, hnone hn, Or.inl hloads⟩)
      | _ => exact Or.inr (Or.inr ⟨⟨_, hrun, rfl⟩, hunreadable (by simp [hloads]) hn⟩)
    | ok data =>
      cases data with
      | dict items =>
        have hn : nonceOf py (.body b) = some ((getItem "nonce" items).getD .null) := by
          simp [nonceOf, hloads]
        have hrun : getChallenge py (.body b) =
            checkNonce py ((getItem "nonce" items).getD .null) := by
          simp only [getChallenge, Interpreter.loadsAt, hloads]
          rfl
        rw [hrun]
        rcases checkNonce_cases py ((getItem "nonce" items).getD .null) with
          ⟨h, hp, hc⟩ | ⟨h, hp, hc⟩ | ⟨h, hp, hc⟩
        · exact Or.inl ⟨_, h, ⟨hn, hp⟩, Or.inr ⟨_, hn, hc⟩⟩
        · refine Or.inr (Or.inl ⟨h, ?_, Or.inr ⟨_, hn, hc⟩⟩)
          rintro nonce ⟨hnonce, hp'⟩
          rw [hn] at hnonce
          cases hnonce
          exact hp hp'
        · refine Or.inr (Or.inr ⟨⟨_, h, rfl⟩, ?_⟩)
          rintro (h' | ⟨nonce, hnonce, hc'⟩)
          · rw [hloads] at h'
            cases h'
          · rw [hn] at hnonce
            cases hnonce
            exact hc hc'
      | _ =>
        have hrun : getChallenge py (.body b) = .error .attributeError := by
          simp only [getChallenge, Interpreter.loadsAt, hloads]
          rfl
        exact Or.inr (Or.inr ⟨⟨_, hrun, rfl⟩,
          hunreadable (by simp [hloads]) (by simp [nonceOf, hloads])⟩)

/-! ## The readers -/

namespace Readers
variable (sha256 : Bytes → Digest) (machineId : String) (readers : Readers)

/-- A reader raises the exception. -/
inductive Raises (e : Exn) : Prop where
  | pcrs : readers.pcrs = .error e → Raises e
  | imaSummary : readers.imaSummary = .error e → Raises e
  | lineCount : readers.lineCount = .error e → Raises e
  | imaLog (n : Nat) : readers.imaLog n = .error e → Raises e
  | quote (nonce : Text) : readers.quote nonce = .error e → Raises e

/-- The readers raise nothing but `RuntimeError` and `ValueError`. -/
def RaiseOnly : Prop :=
  ∀ e, readers.Raises e → (∃ text, e = .runtimeError text) ∨ ∃ text, e = .valueError text

/-- Both readers of the log answer. -/
def LogAnswers (cache : ImaCache) : Prop :=
  ∃ n entries, readers.lineCount = .ok n ∧
    readers.imaLog (if n < cache.lineOffset then 0 else cache.lineOffset) = .ok entries

/-- The readers that are called before the quote all answer. -/
def Answer (cache : ImaCache) : Prop :=
  (∃ pcrs, readers.pcrs = .ok pcrs) ∧ (∃ imaSummary, readers.imaSummary = .ok imaSummary) ∧
    readers.LogAnswers cache

theorem updateTree_cases (cache : ImaCache) :
    (∃ tree cache', readers.updateTree sha256 cache = (.ok tree, cache') ∧
        readers.LogAnswers cache) ∨
      (∃ e cache', readers.updateTree sha256 cache = (.error e, cache') ∧ readers.Raises e) ∧
        ¬ readers.LogAnswers cache := by
  unfold updateTree
  cases hcount : readers.lineCount with
  | error e =>
    refine Or.inr ⟨⟨e, cache, rfl, .lineCount hcount⟩, ?_⟩
    rintro ⟨n, entries, hn, -⟩
    rw [hcount] at hn
    cases hn
  | ok n =>
    have hoffset : (if n < cache.lineOffset then ImaCache.empty else cache).lineOffset =
        if n < cache.lineOffset then 0 else cache.lineOffset := by
      split <;> rfl
    dsimp only
    rw [hoffset]
    cases hlog : readers.imaLog (if n < cache.lineOffset then 0 else cache.lineOffset) with
    | error e =>
      refine Or.inr ⟨⟨e, _, rfl, .imaLog _ hlog⟩, ?_⟩
      rintro ⟨n', entries, hn, hentries⟩
      rw [hcount] at hn
      cases hn
      rw [hlog] at hentries
      cases hentries
    | ok entries =>
      dsimp only
      rw [buildIncrementalMerkleTree_eq]
      exact Or.inl ⟨_, _, rfl, n, entries, hcount, hlog⟩

/-- **The report**: the readers before the quote answer, and the quote decides; or one
of them raises. -/
theorem collectReport_cases (nonce : Json) (cache : ImaCache) :
    (readers.Answer cache ∧ ∃ (report : String × String → ShimReport) (cache' : ImaCache),
      readers.collectReport sha256 machineId nonce cache =
        ((readers.runTpmQuote nonce).map fun quote => reportItems (report quote) nonce, cache')) ∨
      (¬ readers.Answer cache ∧ ∃ e cache', readers.Raises e ∧
        readers.collectReport sha256 machineId nonce cache = (.error (.reader e), cache')) := by
  unfold collectReport Answer
  cases hpcrs : readers.pcrs with
  | error e => exact Or.inr ⟨by simp, e, cache, .pcrs hpcrs, rfl⟩
  | ok pcrs =>
    cases hsummary : readers.imaSummary with
    | error e => exact Or.inr ⟨by simp, e, cache, .imaSummary hsummary, rfl⟩
    | ok imaSummary =>
      simp only [bind, Except.bind, pure, Except.pure]
      rcases readers.updateTree_cases sha256 cache with
        ⟨tree, cache', htree, hlog⟩ | ⟨⟨e, cache', htree, hraises⟩, hlog⟩
      · rw [htree]
        refine Or.inl ⟨⟨⟨pcrs, rfl⟩, ⟨imaSummary, rfl⟩, hlog⟩, fun quote => {
          version := "1.1", timestamp := readers.timestamp, nonce := "", machineId, pcrs,
          imaSummary, imaMerkleRoot := tree.root, imaMerkleDepth := tree.depth,
          imaLeafCount := tree.leafCount, quoteAvailable := true, quoteMsgB64 := quote.1,
          quoteSigB64 := quote.2 }, cache', ?_⟩
        cases readers.runTpmQuote nonce <;> rfl
      · rw [htree]
        exact Or.inr ⟨fun h => hlog h.2.2, e, cache', hraises, rfl⟩

end Readers

/-- A report can be made for a string. -/
def Reports (readers : Readers) (nonce : Text) (cache : ImaCache) : Prop :=
  py.formats .collecting [.str (nonce.take 16)] = true ∧ readers.Answer cache ∧
    (∃ quote, readers.quote nonce = .ok quote) ∧ py.formats .collected [.str nonce] = true

/-- The clause of the third stage. -/
def caught (e : PyExn) : Bool := e.isRuntimeError || e.isValueError

theorem caught_reader {readers : Readers} (h : readers.RaiseOnly) {e : Exn}
    (he : readers.Raises e) : caught (.reader e) = true := by
  rcases h e he with ⟨t, rfl⟩ | ⟨t, rfl⟩
  · rfl
  · rfl

section
variable {readers : Readers} (h : readers.RaiseOnly) (sha256 : Bytes → Digest)
  (machineId : String) (cache : ImaCache)
include h

/-- **The third stage**, for a string. -/
theorem generateReport_str (nonce : Text) :
    (Reports py readers nonce cache ∧ ∃ report cache',
        generateReport py sha256 machineId readers (.str nonce) cache =
          (.ok (reportItems report (.str nonce)), cache')) ∨
      (¬ Reports py readers nonce cache ∧ ∃ e cache', caught e = true ∧
        generateReport py sha256 machineId readers (.str nonce) cache = (.error e, cache')) := by
  unfold generateReport Reports
  dsimp only [first16, bind, Except.bind]
  rcases log_eq py .collecting [.str (nonce.take 16)] with ⟨hformats, hlog⟩ | ⟨hformats, hlog⟩
  · rw [hlog, hformats]
    dsimp only
    rcases readers.collectReport_cases sha256 machineId (.str nonce) cache with
      ⟨hanswer, report, cache', hrun⟩ | ⟨hanswer, e, cache', hraises, hrun⟩
    · rw [hrun]
      dsimp only [Readers.runTpmQuote]
      cases hquote : readers.quote nonce with
      | error e =>
        exact Or.inr ⟨by simp, .reader e, cache', caught_reader h (.quote nonce hquote), rfl⟩
      | ok quote =>
        dsimp only [Except.mapError, Except.map]
        rcases log_eq py .collected [.str nonce] with ⟨hformats', hlog'⟩ | ⟨hformats', hlog'⟩
        · rw [hlog', hformats']
          exact Or.inl ⟨⟨rfl, hanswer, ⟨quote, rfl⟩, rfl⟩, report quote, cache', rfl⟩
        · rw [hlog', hformats']
          exact Or.inr ⟨by simp, .recursionError, cache', rfl, rfl⟩
    · rw [hrun]
      exact Or.inr ⟨fun hr => hanswer hr.2.1, .reader e, cache', caught_reader h hraises, rfl⟩
  · rw [hlog, hformats]
    exact Or.inr ⟨by simp, .recursionError, cache, rfl, rfl⟩

/-- For a list, the quote raises `TypeError`, if it comes to the quote. -/
theorem generateReport_list (items : List Json) :
    ((py.formats .collecting [.list (items.take 16)] = true ∧ readers.Answer cache) ∧
        ∃ cache', generateReport py sha256 machineId readers (.list items) cache =
          (.error .typeError, cache')) ∨
      (¬ (py.formats .collecting [.list (items.take 16)] = true ∧ readers.Answer cache) ∧
        ∃ e cache', caught e = true ∧
          generateReport py sha256 machineId readers (.list items) cache = (.error e, cache')) := by
  unfold generateReport
  dsimp only [first16, bind, Except.bind]
  rcases log_eq py .collecting [.list (items.take 16)] with ⟨hformats, hlog⟩ | ⟨hformats, hlog⟩
  · rw [hlog, hformats]
    dsimp only
    rcases readers.collectReport_cases sha256 machineId (.list items) cache with
      ⟨hanswer, report, cache', hrun⟩ | ⟨hanswer, e, cache', hraises, hrun⟩
    · rw [hrun]
      exact Or.inl ⟨⟨rfl, hanswer⟩, cache', rfl⟩
    · rw [hrun]
      exact Or.inr ⟨fun hr => hanswer hr.2, .reader e, cache', caught_reader h hraises, rfl⟩
  · rw [hlog, hformats]
    exact Or.inr ⟨by simp, .recursionError, cache, rfl, rfl⟩

end

/-! ## Answers -/

/-- The handler has returned and closed the connection, and the client has one JSON
object. -/
structure Answered (o : Outcome) : Prop where
  returned : o.result = .ok ()
  closed : o.closed = true
  sent : ∃ items data, dumps py.floatRepr py.responseLimit (.dict items) = some data ∧
    o.sent = [encode data]

theorem not_answered_escape (e : PyExn) (cache : ImaCache) (posted : List Bytes) :
    ¬ Answered py (escape e cache posted) := by
  intro h
  cases h.returned

theorem nesting_response (valid : Bool) (value : Json) :
    (response valid value).nesting = value.nesting + 1 := by
  simp [response, Json.nesting, Json.nestingDict]

/-- A response is sent unless it is nested too deep. -/
theorem answered_respond_iff (cache : ImaCache) (posted : List Bytes) (valid : Bool)
    (value : Json) : Answered py (respond py false cache posted (response valid value)) ↔
      value.nesting < py.responseLimit := by
  have hfits : (response valid value).nesting ≤ py.responseLimit ↔
      value.nesting < py.responseLimit := by
    rw [nesting_response]
    exact Nat.succ_le_iff
  unfold respond dumps
  by_cases h : (response valid value).nesting ≤ py.responseLimit
  · rw [if_pos h]
    exact ⟨fun _ => hfits.mp h, fun _ => ⟨rfl, rfl, _, _, if_pos h, rfl⟩⟩
  · rw [if_neg h]
    exact ⟨fun ha => absurd ha (not_answered_escape py _ cache posted),
      fun hlt => absurd (hfits.mpr hlt) h⟩

theorem answered_refuse (cache : ImaCache) (posted : List Bytes) (reason : String) :
    Answered py (refuse py false cache posted reason) :=
  (answered_respond_iff py cache posted false _).mpr py.responseLimit_pos

/-- The verdict can be logged and sent. -/
def CanSend (verdict : Bool × Json) : Prop :=
  py.formats (if verdict.1 then .token else .reason) [verdict.2] = true ∧
    verdict.2.nesting < py.responseLimit

/-- The body of an answer of the server can be read: it is no JSON, or nested too deep,
or an object whose verdict can be sent. -/
def ReadableBody (b : Bytes) : Prop :=
  match loads (py.loadsLimit .attest) b with
  | .ok result => py.formats .result [result] = true →
    ∃ items, result = .dict items ∧ CanSend py (verdictOf items)
  | .error (.json _) | .error .recursion => True
  | .error _ => False

def ReadableReply : Reply → Prop
  | .body b | .httpError _ _ b => ReadableBody py b
  | .unreachable _ => True
  | .failed => False

section
variable (cache : ImaCache) (posted : List Bytes)

/-- An exception of the fourth stage. -/
theorem finish_error_iff (e : PyExn) :
    Answered py (finish py false cache posted (.error e)) ↔ e.isRuntimeError = true := by
  change Answered py (if e.isRuntimeError then _ else _) ↔ _
  by_cases h : e.isRuntimeError = true
  · rw [if_pos h]
    exact ⟨fun _ => h, fun _ => answered_refuse py cache posted _⟩
  · rw [if_neg h]
    exact ⟨fun ha => absurd ha (not_answered_escape py e cache posted), fun h' => absurd h' h⟩

theorem finish_ok_iff (result : Json) :
    Answered py (finish py false cache posted (.ok result)) ↔
      (py.formats .result [result] = true →
        ∃ items, result = .dict items ∧ CanSend py (verdictOf items)) := by
  unfold finish
  dsimp only [bind, Except.bind]
  rcases log_eq py .result [result] with ⟨hformats, hlog⟩ | ⟨hformats, hlog⟩
  · rw [hlog, hformats]
    dsimp only [pure, Except.pure, chooseResponse, bind, Except.bind]
    cases result with
    | dict items =>
      dsimp only [verdict]
      have hsend : (true = true → ∃ items', Json.dict items = .dict items' ∧
          CanSend py (verdictOf items')) ↔ CanSend py (verdictOf items) := by simp
      rw [hsend, CanSend]
      rcases log_eq py (if (verdictOf items).1 then .token else .reason) [(verdictOf items).2] with
        ⟨hformats', hlog'⟩ | ⟨hformats', hlog'⟩
      · rw [hlog', hformats']
        simp [answered_respond_iff]
      · rw [hlog', hformats']
        simp [not_answered_escape]
    | _ => simp [verdict, not_answered_escape]
  · rw [hlog, hformats]
    simp [answered_refuse, PyExn.isRuntimeError]

theorem readReply_of_ok {b : Bytes} {result : Json}
    (h : loads (py.loadsLimit .attest) b = .ok result) : readReply py (.body b) = .ok result := by
  simp only [readReply, Interpreter.loadsAt, h]
  rfl

/-- What is no JSON raises `RuntimeError`. -/
theorem readReply_of_error {b : Bytes} {e : LoadsError}
    (h : loads (py.loadsLimit .attest) b = .error e) :
    ∃ e', readReply py (.body b) = .error e' ∧
      (e'.isRuntimeError = true ↔ (∃ msg, e = .json msg) ∨ e = .recursion) := by
  simp only [readReply, Interpreter.loadsAt, h]
  cases e with
  | json msg => exact ⟨_, rfl, by simp [PyExn.isRuntimeError]⟩
  | _ => exact ⟨_, rfl, by simp [PyExn.ofLoads, PyExn.isRuntimeError]⟩

/-- **The last two stages.** -/
theorem finish_readReply_iff (attest : Reply) :
    Answered py (finish py false cache posted (readReply py attest)) ↔ ReadableReply py attest := by
  have hbody : ∀ b, Answered py (finish py false cache posted (readReply py (.body b))) ↔
      ReadableBody py b := by
    intro b
    unfold ReadableBody
    cases hloads : loads (py.loadsLimit .attest) b with
    | ok result =>
      rw [readReply_of_ok py hloads]
      exact finish_ok_iff py cache posted result
    | error e =>
      obtain ⟨e', hread, he'⟩ := readReply_of_error py hloads
      rw [hread, finish_error_iff, he']
      cases e <;> simp
  cases attest with
  | body b => exact hbody b
  | httpError code reason b => exact hbody b
  | unreachable reason =>
    exact iff_of_true ((finish_error_iff py cache posted _).mpr rfl) trivial
  | failed =>
    exact iff_of_false (fun h => Bool.false_ne_true ((finish_error_iff py cache posted _).mp h)) id

end

/-! ## The report that is posted -/

theorem nestingDict_map_str {α : Type} (f g : α → Text) (l : List α) :
    Json.nestingDict (l.map fun a => (f a, .str (g a))) = 0 := by
  induction l with
  | nil => rfl
  | cons a l ih => simpa [Json.nestingDict, Json.nesting] using ih

theorem nesting_report (report : ShimReport) (nonce : Text) (handshake : Json) :
    (Json.dict (reportItems report (.str nonce) ++ [(text "eac_handshake", handshake)])).nesting =
      max 1 handshake.nesting + 1 := by
  simp only [reportItems, List.cons_append, List.nil_append, Json.nesting, Json.nestingDict,
    nestingDict_map_str]
  omega

/-- The report is posted unless the handshake is nested too deep. -/
theorem postReport_cases (attest : Reply) (report : ShimReport) (nonce : Text) (handshake : Json) :
    (handshake.nesting < py.reportLimit ∧ ∃ posted,
        postReport py attest (.dict (reportItems report (.str nonce) ++
          [(text "eac_handshake", handshake)])) = (readReply py attest, posted)) ∨
      (¬ handshake.nesting < py.reportLimit ∧
        postReport py attest (.dict (reportItems report (.str nonce) ++
          [(text "eac_handshake", handshake)])) = (.error .recursionError, [])) := by
  have htwo := py.two_le_reportLimit
  unfold postReport dumps
  rw [nesting_report]
  by_cases h : handshake.nesting < py.reportLimit
  · rw [if_pos (by omega)]
    exact Or.inl ⟨h, _, rfl⟩
  · rw [if_neg (by omega)]
    exact Or.inr ⟨h, rfl⟩

/-! ## When the handler answers -/

/-- What the handler relies on.

The handshake is no JSON, or an object whose fields can be logged.  The request to the
challenge endpoint raises a `URLError`, or the reply is an object whose nonce can be
checked, or a value that is nested too deep.  A nonce that is a list of 64 values does not
get as far as the quote.  And if a report is made and posted, the request raises a
`URLError` that is no `HTTPError`, or the reply is no JSON, nested too deep, or an object
whose verdict can be sent. -/
structure Handled (received : Bytes) (challenge attest : Reply) (readers : Readers)
    (cache : ImaCache) : Prop where
  readable_handshake : ReadableHandshake py (decodeReplace received)
  readable_challenge : ReadableChallenge py challenge
  list : ∀ items, Accepted py challenge (.list items) →
    py.formats .collecting [.list (items.take 16)] = true → ¬ readers.Answer cache
  reply : ∀ nonce, Accepted py challenge (.str nonce) → Reports py readers nonce cache →
    (handshakeOf py (decodeReplace received)).nesting < py.reportLimit → ReadableReply py attest

section
variable {received : Bytes} {challenge attest : Reply} {readers : Readers} {cache : ImaCache}
variable (sha256 : Bytes → Digest) (machineId : String)

/-- A nonce that passes is a string or a list. -/
theorem Passes.cases {nonce : Json} (h : Passes py nonce) :
    (∃ s, nonce = .str s) ∨ ∃ items, nonce = .list items := by
  obtain ⟨-, head, hhead, -⟩ := h
  cases nonce with
  | str s => exact Or.inl ⟨s, rfl⟩
  | list items => exact Or.inr ⟨items, rfl⟩
  | _ => cases hhead

theorem Accepted.unique {nonce nonce' : Json} (h : Accepted py challenge nonce)
    (h' : Accepted py challenge nonce') : nonce = nonce' :=
  Option.some.inj (h.1.symm.trans h'.1)

section
variable (hraise : readers.RaiseOnly) (handshake : Json)
include hraise

theorem serveNonce_str_iff (nonce : Text) :
    Answered py (serveNonce py sha256 machineId ⟨some received, false, challenge, readers, attest⟩
        handshake (.str nonce) cache) ↔
      (Reports py readers nonce cache → handshake.nesting < py.reportLimit →
        ReadableReply py attest) := by
  unfold serveNonce
  rcases generateReport_str py hraise sha256 machineId cache nonce with
    ⟨hreports, report, cache', hreport⟩ | ⟨hreports, e, cache', hcaught, hreport⟩
  · rw [hreport]
    dsimp only
    rcases postReport_cases py attest report nonce handshake with
      ⟨hnesting, posted, hpost⟩ | ⟨hnesting, hpost⟩
    · rw [hpost]
      simpa [hreports, hnesting] using finish_readReply_iff py cache' posted attest
    · rw [hpost]
      exact iff_of_true ((finish_error_iff py cache' [] .recursionError).mpr rfl)
        fun _ h => absurd h hnesting
  · rw [hreport]
    change Answered py (if caught e then _ else _) ↔ _
    rw [if_pos hcaught]
    exact iff_of_true (answered_refuse py cache' [] _) fun h => absurd h hreports

theorem serveNonce_list_iff (items : List Json) :
    Answered py (serveNonce py sha256 machineId ⟨some received, false, challenge, readers, attest⟩
        handshake (.list items) cache) ↔
      (py.formats .collecting [.list (items.take 16)] = true → ¬ readers.Answer cache) := by
  unfold serveNonce
  rcases generateReport_list py hraise sha256 machineId cache items with
    ⟨⟨hformats, hanswer⟩, cache', hreport⟩ | ⟨hno, e, cache', hcaught, hreport⟩
  · rw [hreport]
    exact iff_of_false (not_answered_escape py .typeError cache' []) fun h => h hformats hanswer
  · rw [hreport]
    change Answered py (if caught e then _ else _) ↔ _
    rw [if_pos hcaught]
    exact iff_of_true (answered_refuse py cache' [] _) fun hformats hanswer =>
      hno ⟨hformats, hanswer⟩

end

/-- The handler answers a client that waits exactly if what it relies on holds. -/
theorem answered_iff_handled {conn : Connection} (hsend : conn.sendFails = false)
    (hreceived : conn.received = some received) (hraise : conn.readers.RaiseOnly) :
    Answered py (handleClient py sha256 machineId conn cache) ↔
      Handled py received conn.challenge conn.attest conn.readers cache := by
  obtain ⟨_, _, challenge, readers, attest⟩ := conn
  subst hsend hreceived
  unfold handleClient
  dsimp only
  by_cases hhandshake : ReadableHandshake py (decodeReplace received)
  case neg =>
    obtain ⟨e, he⟩ := parseHandshake_of_not_readable py hhandshake
    rw [he]
    exact iff_of_false (not_answered_escape py e cache []) fun h => hhandshake h.readable_handshake
  rw [parseHandshake_of_readable py hhandshake]
  dsimp only
  rcases getChallenge_cases py challenge with ⟨nonce, hrun, haccepted, hchallenge⟩ |
    ⟨⟨e, hrun, he⟩, hnone, hchallenge⟩ | ⟨⟨e, hrun, he⟩, hchallenge⟩
  · rw [hrun]
    dsimp only
    rcases Passes.cases py haccepted.2 with ⟨s, rfl⟩ | ⟨items, rfl⟩
    · rw [serveNonce_str_iff py sha256 machineId hraise]
      refine ⟨fun h => ⟨hhandshake, hchallenge, ?_, ?_⟩, fun h => h.reply s haccepted⟩
      · intro items hitems
        cases haccepted.unique py hitems
      · intro s' hs'
        cases haccepted.unique py hs'
        exact h
    · rw [serveNonce_list_iff py sha256 machineId hraise]
      refine ⟨fun h => ⟨hhandshake, hchallenge, ?_, ?_⟩, fun h => h.list items haccepted⟩
      · intro items' hitems'
        have hsame := Json.list.inj (haccepted.unique py hitems')
        rwa [← hsame]
      · intro s hs
        cases haccepted.unique py hs
  · rw [hrun]
    dsimp only
    rw [if_pos he]
    exact iff_of_true (answered_refuse py cache [] _) ⟨hhandshake, hchallenge,
      fun items h => absurd h (hnone _), fun nonce h => absurd h (hnone _)⟩
  · rw [hrun]
    dsimp only
    rw [he]
    exact iff_of_false (not_answered_escape py e cache []) fun h => hchallenge h.readable_challenge

/-- **The handler answers** exactly if what it relies on holds. -/
theorem handleClient_answered_iff (hraise : readers.RaiseOnly) :
    Answered py (handleClient py sha256 machineId ⟨some received, false, challenge, readers, attest⟩
        cache) ↔ Handled py received challenge attest readers cache :=
  answered_iff_handled py sha256 machineId rfl rfl hraise

/-- A connection whose client sends a handshake and waits for the answer, and what the
handler relies on holds whatever is cached. -/
structure Expected (conn : Connection) : Prop where
  sendFails : conn.sendFails = false
  raiseOnly : conn.readers.RaiseOnly
  handled : ∃ received, conn.received = some received ∧
    ∀ cache, Handled py received conn.challenge conn.attest conn.readers cache

/-- **The daemon keeps serving** such connections, each with an answer. -/
theorem runServer_answered {conns : List Connection} (h : ∀ conn ∈ conns, Expected py conn)
    (cache : ImaCache) :
    (runServer py sha256 machineId cache conns).length = conns.length ∧
      ∀ outcome ∈ runServer py sha256 machineId cache conns, Answered py outcome := by
  induction conns generalizing cache with
  | nil => simp [runServer]
  | cons conn conns ih =>
    rw [List.forall_mem_cons] at h
    obtain ⟨⟨hsend, hraise, received, hreceived, hhandled⟩, hconns⟩ := h
    have hanswered : Answered py (handleClient py sha256 machineId conn cache) :=
      (answered_iff_handled py sha256 machineId hsend hreceived hraise).mpr (hhandled cache)
    obtain ⟨hlength, hall⟩ := ih hconns (handleClient py sha256 machineId conn cache).cache
    unfold runServer
    dsimp only
    rw [hanswered.returned]
    exact ⟨congrArg Nat.succ hlength, List.forall_mem_cons.mpr ⟨hanswered, hall⟩⟩

end

end

/-! ## A client that is served, and clients that are not -/

/-- An interpreter with room for nine hundred levels. -/
def sampleInterpreter : Interpreter where
  floatRepr _ := "0.0"
  loadsLimit _ := 900
  reportLimit := 900
  responseLimit := 900
  formats _ _ := true
  two_le_reportLimit := by decide
  responseLimit_pos := by decide

/-- Readers that see an empty log. -/
def sampleReaders : Readers where
  pcrs := .ok [(7, "0x00")]
  imaSummary := .ok ⟨0, 0, false, 0⟩
  lineCount := .ok 0
  imaLog _ := .ok []
  quote _ := .ok ("bXNn", "c2ln")
  timestamp := "2025-01-01T00:00:00+00:00"

theorem raiseOnly_sampleReaders : sampleReaders.RaiseOnly := by
  intro e h
  cases h with
  | pcrs h | imaSummary h | lineCount h | imaLog n h | quote nonce h => cases h

/-- A nonce as the server makes it. -/
def sampleChallenge : String :=
  "\x7b\"nonce\": \"" ++ String.ofList (List.replicate 64 'a') ++ "\"\x7d"

def sampleConnection (received challenge attest : String) : Connection where
  received := some (encode received)
  sendFails := false
  challenge := .body (encode challenge)
  readers := sampleReaders
  attest := .body (encode attest)

def sampleOutcome (received challenge attest : String) : Outcome :=
  handleClient sampleInterpreter sha256 "host" (sampleConnection received challenge attest) .empty

theorem returned_of_isOk {o : Outcome} (h : o.result.isOk = true) : o.result = .ok () := by
  cases hr : o.result with
  | ok u => rfl
  | error e =>
    rw [hr] at h
    cases h

theorem handled_sample : Handled sampleInterpreter (encode "\x7b\x7d")
    (.body (encode sampleChallenge)) (.body (encode "\x7b\"valid\": true, \"token\": \"t\"\x7d"))
    sampleReaders .empty :=
  (handleClient_answered_iff sampleInterpreter sha256 "host" raiseOnly_sampleReaders).mp
    ⟨returned_of_isOk (by decide +kernel), by decide +kernel,
      [(text "valid", .bool true), (text "token", .str (text "t"))],
      "\x7b\"valid\": true, \"token\": \"t\"\x7d", by decide +kernel, by decide +kernel⟩

theorem not_answered_of_isOk {o : Outcome} (h : o.result.isOk = false) :
    ¬ Answered sampleInterpreter o := by
  intro ha
  rw [ha.returned] at h
  cases h

/-- A handshake that is a list, and a challenge that is a web page. -/
theorem handleClient_not_answered : sampleReaders.RaiseOnly ∧
    ¬ Answered sampleInterpreter (sampleOutcome "[]" sampleChallenge "\x7b\x7d") ∧
    ¬ Answered sampleInterpreter (sampleOutcome "\x7b\x7d" "<html>" "\x7b\x7d") :=
  ⟨raiseOnly_sampleReaders, not_answered_of_isOk (by decide +kernel),
    not_answered_of_isOk (by decide +kernel)⟩

end TpmAttest.Shim
