import TpmAttest.JsonLiterals
import Mathlib.Data.List.TakeWhile

/-! # `parse_json_bool`

The function looks for the first occurrence of the quoted key, and answers by what
stands behind it.  On a JSON object that is the value of the first string that is
the key or ends in an escaped quote and the key (`parseJsonBool_render`): a member
of another object, a longer key, or no member at all, if the string is a value.
So it follows JSON, whatever literals a text holds, exactly if that string is the key of
the object's own member, or no literal is looked at (`parseJsonBool_follows_iff`).
-/
namespace TpmAttest.EacHook

open JsonGrammar QuotedStrings

/-- The string at an address: the bytes before the first NUL. -/
def cString (memory : List UInt8) : List UInt8 := memory.takeWhile (· ≠ 0)

/-- `*pos`; behind a string there is a NUL. -/
def deref (pos : List UInt8) : UInt8 := pos.headD 0

/-- `strstr`: the text from the first occurrence on. -/
def strstr (needle : List UInt8) : List UInt8 → Option (List UInt8)
  | [] => if needle = [] then some [] else none
  | b :: s => if needle <+: b :: s then some (b :: s) else strstr needle s

def isSpace (b : UInt8) : Bool :=
  b == byte ' ' || b == byte '\t' || b == byte '\r' || b == byte '\n'

/-- `while (*pos == ' ' || …) pos++;` -/
def skipSpace (pos : List UInt8) : List UInt8 := pos.dropWhile isSpace

/-- The literal `true`, and not the beginning of a longer word. -/
def matchTrue (pos : List UInt8) : Bool :=
  if bytes "true" <+: pos then
    let after := deref (pos.drop 4)
    after == byte ',' || after == byte '}' || isSpace after || after == 0
  else false

/-- What `parse_json_bool` makes of the text behind the pattern. -/
def valueIsTrue (pos : List UInt8) : Bool :=
  let pos := skipSpace pos
  if deref pos = byte ':' then matchTrue (skipSpace (pos.drop 1)) else false

/-- `parse_json_bool`. -/
def parseJsonBool (json key : List UInt8) : Bool :=
  let pattern := quoted (byte '"') (cString key)
  -- the buffer has 128 bytes, with the NUL
  if 128 ≤ pattern.length then false
  else (strstr pattern (cString json)).elim false fun pos => valueIsTrue (pos.drop pattern.length)

theorem strstr_behind {needle : List UInt8} (h : needle ≠ []) (s : List UInt8) :
    (strstr needle s).map (·.drop needle.length) = (behind needle s).head? := by
  induction s with
  | nil => simp [strstr, h, behind]
  | cons b s ih =>
    by_cases hfound : needle <+: b :: s
    · simp [strstr, behind, hfound]
    · simp [strstr, behind, hfound, ih]

/-! ## The text behind a key -/

theorem mem_bytes_of_isSpace {b : UInt8} : isSpace b = true ↔ b ∈ bytes " \t\n\r" := by
  have hbytes : bytes " \t\n\r" = [byte ' ', byte '\t', byte '\n', byte '\r'] := by decide
  rw [hbytes]
  simp only [isSpace, Bool.or_eq_true, beq_iff_eq, List.mem_cons, List.not_mem_nil, or_false]
  tauto

theorem skipSpace_spaces (ws : Spaces) (s : List UInt8) :
    skipSpace (renderSpaces ws ++ s) = skipSpace s := by
  refine List.dropWhile_append_of_pos fun b hb => ?_
  obtain ⟨w, -, rfl⟩ := List.mem_map.mp hb
  cases w <;> decide

theorem skipSpace_cons {b : UInt8} (h : b ∉ bytes " \t\n\r") (s : List UInt8) :
    skipSpace (b :: s) = b :: s :=
  List.dropWhile_cons_of_neg fun hb => h (mem_bytes_of_isSpace.mp hb)

/-- Behind a string that is no key there is no colon. -/
theorem valueIsTrue_tail {s : List UInt8} (h : Tail (bytes ",]\x7d") s) : valueIsTrue s = false := by
  obtain ⟨ws, r, rfl, hr⟩ := h
  unfold valueIsTrue
  rw [skipSpace_spaces]
  refine if_neg fun hcolon => ?_
  cases r with
  | nil => exact absurd hcolon (by decide)
  | cons b r =>
    have hb := hr b rfl
    have hcloser : ∀ b ∈ bytes ",]\x7d", b ∉ bytes " \t\n\r" ∧ b ≠ byte ':' := by decide +kernel
    rw [skipSpace_cons (hcloser b hb).1] at hcolon
    exact (hcloser b hb).2 hcolon

/-- The value is the literal `true`. -/
def isTrue : Value → Bool
  | .true => true
  | _ => false

theorem isTrue_iff {v : Value} : isTrue v = true ↔ v = .true := by
  cases v <;> simp [isTrue]

theorem matchTrue_render (v : Value) {s : List UInt8} (h : Tail (bytes ",\x7d") s) :
    matchTrue (v.render ++ s) = isTrue v := by
  unfold matchTrue
  by_cases htrue : v = .true
  · subst htrue
    have hfound : bytes "true" <+: Value.true.render ++ s := List.prefix_append _ s
    rw [if_pos hfound]
    change (deref s == byte ',' || deref s == byte '}' || isSpace (deref s) || deref s == 0) = true
    -- what follows a member is one of the delimiters
    cases s with
    | nil => rfl
    | cons b s =>
      have hb := h.head_mem b rfl
      have hdelimiter : ∀ b ∈ bytes " \t\n\r" ++ bytes ",\x7d",
          (b == byte ',' || b == byte '}' || isSpace b || b == 0) = true := by decide +kernel
      exact hdelimiter b hb
  · obtain ⟨b, r, hv, -, hletter⟩ := v.render_cons
    have hne : byte 't' ≠ b := fun hb => htrue (hletter hb.symm)
    have hother : ¬ bytes "true" <+: v.render ++ s := by
      rw [hv]
      exact fun hp => hne (List.cons_prefix_cons.mp hp).1
    rw [if_neg hother]
    cases v with
    | true => exact absurd rfl htrue
    | _ => rfl

/-- Behind a key the answer is that of its value. -/
theorem valueIsTrue_member (ws ws' : Spaces) (v : Value) {s : List UInt8}
    (h : Tail (bytes ",\x7d") s) :
    valueIsTrue (renderSpaces ws ++ byte ':' :: (renderSpaces ws' ++ (v.render ++ s))) =
      isTrue v := by
  obtain ⟨b, r, hv, hspace, -⟩ := v.render_cons
  have hskip : skipSpace (v.render ++ s) = v.render ++ s := by
    rw [hv]
    exact skipSpace_cons hspace _
  unfold valueIsTrue
  rw [skipSpace_spaces, skipSpace_cons (by decide)]
  refine (if_pos rfl).trans ?_
  rw [List.drop_one, List.tail_cons, skipSpace_spaces, hskip]
  exact matchTrue_render v h

/-- The search of `parse_json_bool` for `valid`. -/
def validSearch : Search where
  key := bytes "valid"
  check := valueIsTrue
  answer _ _ v := isTrue v
  quote_notMem := by decide
  backslash_notMem := by decide
  first_notMem := by decide +kernel
  check_value _ h := valueIsTrue_tail h
  check_member ws ws' v _ h := valueIsTrue_member ws ws' v h

/-! ## JSON objects -/

/-- The first string that the search stops at. -/
def firstStop (t : ObjectText) : Option Token :=
  t.strings.find? (validSearch.Stops ·)

theorem answerOf_iff {s : Token} : validSearch.answerOf s = true ↔ s.KeyOfTrue := by
  unfold Search.answerOf Token.KeyOfTrue
  cases s.member with
  | none => simp
  | some m => simpa [validSearch] using isTrue_iff

/-- A text without NUL is a string. -/
theorem cString_of_notMem {s : List UInt8} (h : 0 ∉ s) : cString s = s := by
  apply List.takeWhile_eq_self_iff.mpr
  intro b hb
  rw [decide_eq_true_eq]
  rintro rfl
  exact h hb

theorem cString_render (t : ObjectText) : cString t.render = t.render := by
  have hzero : 0 ∉ t.render := by
    simp [ObjectText.render, zero_notMem_renderSpaces, (Value.object t.ws t.members).zero_notMem_render]
  exact cString_of_notMem hzero

theorem elim_eq_true_iff {α : Type} {o : Option α} {f : α → Bool} :
    o.elim false f = true ↔ o.map f = some true := by
  cases o <;> simp

/-- **The answer on an object** is that of the first string that is `valid` or ends in
an escaped quote and `valid`. -/
theorem parseJsonBool_render (t : ObjectText) :
    parseJsonBool t.render (bytes "valid") = true ↔ ∃ s, firstStop t = some s ∧ s.KeyOfTrue := by
  have hpattern : cString (bytes "valid") = bytes "valid" := by decide
  have hlength : ¬ 128 ≤ (quoted (byte '"') (bytes "valid")).length := by decide
  have hfound : validSearch.found t.render = validSearch.answers (t.members.strings 0) := by
    have htail : Tail (bytes ",]\x7d") (renderSpaces t.after ++ []) := ⟨t.after, [], rfl, by simp⟩
    have hrender := Value.found_render validSearch 0 htail (.object t.ws t.members)
    rw [validSearch.found_spaces] at hrender
    rw [ObjectText.render, validSearch.found_spaces, ← List.append_nil (renderSpaces t.after), hrender]
    exact List.append_nil _
  -- the first occurrence is at the first string that the search stops at
  have hfirst : (strstr (quoted (byte '"') (bytes "valid")) t.render).map
      (fun pos => valueIsTrue (pos.drop (quoted (byte '"') (bytes "valid")).length)) =
        (firstStop t).map validSearch.answerOf := by
    calc (strstr (quoted (byte '"') (bytes "valid")) t.render).map _
      _ = (validSearch.found t.render).head? := by
        rw [Search.found, List.head?_map]
        change _ = (behind (quoted (byte '"') (bytes "valid")) t.render).head?.map valueIsTrue
        rw [← strstr_behind (by decide), Option.map_map]
        rfl
      _ = (firstStop t).map validSearch.answerOf := by
        rw [hfound, Search.answers, List.head?_map, List.head?_filter]
        rfl
  unfold parseJsonBool
  rw [hpattern, cString_render]
  dsimp only
  rw [if_neg hlength, elim_eq_true_iff, hfirst, Option.map_eq_some_iff]
  exact exists_congr fun s => and_congr_right fun _ => answerOf_iff

/-- The name `valid`, in code units. -/
def validName : List Nat := "valid".toList.flatMap (utf16 ·.toNat)

/-- The answer on the text is that of JSON. -/
def Follows (t : ObjectText) : Prop :=
  parseJsonBool t.render (bytes "valid") = true ↔ t.HasTrue "valid"

/-- What the function relies on.  The first string that is `valid` or ends in an escaped
quote and `valid` is the key of the object's own member named `valid`; or neither that
string nor the key of such a member (its name may be written with escapes) is the key of
a literal. -/
def WellPlaced (t : ObjectText) : Prop :=
  (∃ s, firstStop t = some s ∧ s.Names validName) ∨
    (∀ s, firstStop t = some s → ¬ s.KeyOfLiteral) ∧
      ∀ s ∈ t.strings, s.Names validName → ¬ s.KeyOfLiteral

section
variable {truth : Nat → StringText → Bool} {t : ObjectText}

theorem firstStop_mem {s : Token} (h : firstStop t = some s) : s ∈ t.strings :=
  List.mem_of_find?_eq_some h

/-- The search does not look at the literals. -/
theorem firstStop_assign : firstStop (t.assign truth) = (firstStop t).map (Token.assign truth) := by
  unfold firstStop
  rw [ObjectText.strings_assign, List.find?_map]
  rfl

theorem wellPlaced_assign : WellPlaced (t.assign truth) ↔ WellPlaced t := by
  unfold WellPlaced
  rw [firstStop_assign, ObjectText.strings_assign, List.forall_mem_map]
  simp only [Token.names_assign, Token.keyOfLiteral_assign]
  cases firstStop t <;> simp

theorem follows_of_wellPlaced (h : WellPlaced t) : Follows t := by
  unfold Follows
  rw [parseJsonBool_render]
  rcases h with ⟨s, hs, hnames⟩ | ⟨hstop, hown⟩
  · rw [ObjectText.hasTrue_of_names (firstStop_mem hs) hnames, hs]
    simp
  · -- both answer no
    rw [ObjectText.hasTrue_iff]
    constructor
    · rintro ⟨s, hs, htrue⟩
      exact absurd htrue.keyOfLiteral (hstop s hs)
    · rintro ⟨s, hs, hnames, htrue⟩
      exact absurd htrue.keyOfLiteral (hown s hs hnames)

/-- The answer on a text whose literals are chosen. -/
theorem parseJsonBool_assign : parseJsonBool (t.assign truth).render (bytes "valid") = true ↔
    ∃ s, firstStop t = some s ∧ s.KeyOfLiteral ∧ truth s.depth s.text = true := by
  rw [parseJsonBool_render, firstStop_assign]
  simp only [Option.map_eq_some_iff, exists_exists_and_eq_and, Token.keyOfTrue_assign]

theorem hasTrue_assign : (t.assign truth).HasTrue "valid" ↔
    ∃ s ∈ t.strings, s.Names validName ∧ s.KeyOfLiteral ∧ truth s.depth s.text = true := by
  rw [ObjectText.hasTrue_iff, ObjectText.strings_assign]
  simp only [List.mem_map, exists_exists_and_eq_and, Token.names_assign, Token.keyOfTrue_assign]
  rfl

/-- `true` for every literal but the object's own member named `valid`. -/
def ownFalse (depth : Nat) (key : StringText) : Bool := !decide (depth = 0 ∧ units key = validName)

/-- **Where the search goes wrong**: for some choice of the literals the answer is not
that of JSON. -/
theorem exists_not_follows (h : ¬ WellPlaced t) : ∃ truth, ¬ Follows (t.assign truth) := by
  unfold WellPlaced at h
  push Not at h
  obtain ⟨hplace, hliteral⟩ := h
  by_cases hstop : ∃ s, firstStop t = some s ∧ s.KeyOfLiteral
  · -- the literal behind the stop is `true`, the object's own is not
    obtain ⟨s, hs, hkey⟩ := hstop
    have hother : ¬ (s.depth = 0 ∧ units s.text = validName) := by
      rintro ⟨hdepth, hname⟩
      obtain ⟨m, hm, -⟩ := hkey
      exact hplace s hs ⟨hdepth, by rw [hm]; rfl, hname⟩
    have hanswer : parseJsonBool (t.assign ownFalse).render (bytes "valid") = true :=
      parseJsonBool_assign.mpr ⟨s, hs, hkey, by rw [ownFalse, decide_eq_false hother]; rfl⟩
    refine ⟨ownFalse, fun hfollows => ?_⟩
    obtain ⟨s', -, ⟨hdepth, -, hname⟩, -, htruth⟩ := hasTrue_assign.mp (hfollows.mp hanswer)
    rw [ownFalse, decide_eq_true ⟨hdepth, hname⟩] at htruth
    cases htruth
  · -- no literal is read, and the object's own is `true`
    obtain ⟨s, hs, hnames, hkey⟩ := hliteral fun s hs hkey => hstop ⟨s, hs, hkey⟩
    have htrue : (t.assign fun _ _ => true).HasTrue "valid" :=
      hasTrue_assign.mpr ⟨s, hs, hnames, hkey, rfl⟩
    refine ⟨fun _ _ => true, fun hfollows => hstop ?_⟩
    obtain ⟨s', hs', hkey', -⟩ := parseJsonBool_assign.mp (hfollows.mpr htrue)
    exact ⟨s', hs', hkey'⟩

end

/-- **When `parse_json_bool` follows JSON.**  On the text of any object it does if the
search is well placed; and the search is, exactly if the function follows JSON on all texts
that differ from this one in the literals of their members only. -/
theorem parseJsonBool_follows_iff (t : ObjectText) :
    (WellPlaced t → Follows t) ∧ (WellPlaced t ↔ ∀ u, u.SameButLiterals t → Follows u) := by
  refine ⟨follows_of_wellPlaced, fun h u hu => ?_, fun h => ?_⟩
  · exact follows_of_wellPlaced ((hu.iff fun _ => wellPlaced_assign).mpr h)
  · by_contra hplace
    obtain ⟨truth, hfollows⟩ := exists_not_follows hplace
    exact hfollows (h _ ObjectText.sameButLiterals_assign)

/-- An ASCII text as a string without escapes. -/
def plain (s : String) : StringText :=
  s.toList.filterMap fun c => if h : IsUnescaped c then some (.raw c h) else none

/-- `valid` as a value before the member, and as the member of another object. -/
theorem parseJsonBool_misled :
    (∃ t : ObjectText, t.render = bytes "\x7b\"note\": \"valid\", \"valid\": true\x7d" ∧
      t.HasTrue "valid" ∧ parseJsonBool t.render (bytes "valid") = false) ∧
    ∃ t : ObjectText, t.render = bytes "\x7b\"a\": \x7b\"valid\": true\x7d\x7d" ∧
      ¬ t.HasTrue "valid" ∧ parseJsonBool t.render (bytes "valid") = true := by
  refine ⟨⟨⟨[], [], .cons [] (plain "note") [] [.space] (.string (plain "valid")) []
      (.cons [.space] (plain "valid") [] [.space] .true [] .nil), [], by decide⟩, by decide +kernel,
      ⟨⟨units (plain "valid"), .true⟩, by simp [Members.toList], by decide, rfl⟩, by decide +kernel⟩,
    ⟨[], [], .cons [] (plain "a") [] [.space] (.object [] (.cons [] (plain "valid") [] [.space] .true
      [] .nil)) [] .nil, [], by decide⟩, by decide +kernel, ?_, by decide +kernel⟩
  rintro ⟨m, hm, -, htrue⟩
  obtain rfl := List.mem_singleton.mp hm
  cases htrue

end TpmAttest.EacHook
