import TpmAttest.JsonGrammar
import TpmAttest.QuotedStrings

/-! # Searching a JSON text for a key

A search for a quoted key in a JSON text stops at strings, which may be keys or
values, at any depth.  `strings` lists them in the order of the text, and
`behind_render` says which of them are found, and what a `check` of the text behind
each of them answers.
-/
namespace TpmAttest.JsonGrammar

open QuotedStrings

/-! ## Where quotes are -/

/-- The bytes below 128 are characters of their own. -/
theorem mem_utf8EncodeChar {c : Char} {b : UInt8} (h : b ∈ String.utf8EncodeChar c)
    (hb : b.toNat < 128) : c.toNat = b.toNat := by
  have hbyte : ∀ m, b = UInt8.ofNat m → b.toNat = m % 256 := by
    rintro m rfl
    exact UInt8.toNat_ofNat'
  unfold String.utf8EncodeChar at h
  rw [show c.val.toNat = c.toNat from rfl] at h
  dsimp only at h
  split_ifs at h
  · have hc := hbyte _ (List.mem_singleton.mp h)
    omega
  all_goals
    exfalso
    simp only [List.mem_cons, List.not_mem_nil, or_false] at h
  · rcases h with h | h
    all_goals
      have hm := hbyte _ h
      omega
  · rcases h with h | h | h
    all_goals
      have hm := hbyte _ h
      omega
  · rcases h with h | h | h | h
    all_goals
      have hm := hbyte _ h
      omega

theorem quote_notMem_utf8EncodeChar {c : Char} (h : IsUnescaped c) :
    byte '"' ∉ String.utf8EncodeChar c := by
  intro hmem
  have hc := mem_utf8EncodeChar hmem (by decide)
  exact h.2.1 (Char.toNat_inj.mp hc)

theorem byte_hexDigit (d : HexDigit) : d.byte ≠ byte '"' ∧ d.byte ≠ 0 := by
  obtain ⟨value, upper⟩ := d
  revert value upper
  decide

theorem escaped_render (i : StringItem) (previous : UInt8) :
    Escaped (byte '"') (byte '\\') previous i.render := by
  cases i with
  | raw c h => exact escaped_of_notMem (quote_notMem_utf8EncodeChar h) previous
  | escape e =>
    refine ⟨fun h => ?_, fun _ => rfl, trivial⟩
    exact absurd h (by decide)
  | unicode d₁ d₂ d₃ d₄ =>
    refine escaped_of_notMem ?_ previous
    have hhex := fun d : HexDigit => Ne.symm (byte_hexDigit d).1
    have hstart : byte '"' ≠ byte '\\' ∧ byte '"' ≠ byte 'u' := by decide
    simp [StringItem.render, hhex, hstart]

theorem escaped_body (s : StringText) (previous : UInt8) :
    Escaped (byte '"') (byte '\\') previous (body s) :=
  escaped_flatMap (fun i _ => escaped_render i) previous

theorem quote_notMem_renderSpaces (ws : Spaces) : byte '"' ∉ renderSpaces ws := by
  have hspace : ∀ w : Space, w.byte ≠ byte '"' := by
    intro w
    cases w <;> decide
  simp [renderSpaces, hspace]

theorem byte_digit (d : Digit) : d.byte ∈ bytes "0123456789" := by
  revert d
  decide

theorem mem_renderDigits {ds : Digits} {b : UInt8} (h : b ∈ renderDigits ds) :
    b ∈ bytes "0123456789" := by
  obtain ⟨d, -, rfl⟩ := List.mem_map.mp h
  exact byte_digit d

theorem mem_renderInteger {n : IntegerPart} {b : UInt8} (h : b ∈ n.render) :
    b ∈ bytes "0123456789" := by
  cases n with
  | zero =>
    obtain rfl := List.mem_singleton.mp h
    decide
  | nonzero d ds =>
    rcases List.mem_cons.mp h with rfl | h
    · exact byte_digit d.succ
    · obtain ⟨d, -, rfl⟩ := List.mem_map.mp h
      exact byte_digit d

/-- The bytes of a number. -/
theorem mem_renderNumber {n : Number} {b : UInt8} (h : b ∈ n.render) :
    b ∈ bytes "0123456789-.eE+" := by
  have hdigit : b ∈ bytes "0123456789" → b ∈ bytes "0123456789-.eE+" := by
    intro h
    exact List.mem_append_left (bytes "-.eE+") h
  obtain ⟨minus, integer, fraction, exponent⟩ := n
  unfold Number.render at h
  simp only [List.mem_append] at h
  rcases h with h | h | h | h
  · split_ifs at h
    · obtain rfl := List.mem_singleton.mp h
      decide
    · cases h
  · exact hdigit (mem_renderInteger h)
  · cases fraction with
    | none => cases h
    | some ds =>
      rcases List.mem_cons.mp h with rfl | h
      · decide
      · exact hdigit (mem_renderDigits h)
  · cases exponent with
    | none => cases h
    | some e =>
      obtain ⟨upper, sign, ds⟩ := e
      change b ∈ Exponent.render _ at h
      unfold Exponent.render at h
      rw [List.mem_cons, List.mem_append] at h
      rcases h with rfl | h | h
      · have hletter : ∀ u : Bool, byte (if u then 'E' else 'e') ∈ bytes "0123456789-.eE+" := by
          decide
        exact hletter upper
      · cases sign with
        | none => cases h
        | some minus =>
          obtain rfl := List.mem_singleton.mp h
          have hsign : ∀ m : Bool, byte (if m then '-' else '+') ∈ bytes "0123456789-.eE+" := by
            decide
          exact hsign minus
      · exact hdigit (mem_renderDigits h)

theorem renderNumber_ne_nil (n : Number) : n.render ≠ [] := by
  obtain ⟨minus, integer, fraction, exponent⟩ := n
  intro h
  unfold Number.render at h
  rw [List.append_eq_nil_iff, List.append_eq_nil_iff] at h
  cases integer with
  | zero => cases h.2.1
  | nonzero d ds => cases h.2.1

theorem quote_notMem_renderNumber (n : Number) : byte '"' ∉ n.render :=
  fun h => absurd (mem_renderNumber h) (by decide)

/-! ## What a value begins with -/

theorem Value.render_cons (v : Value) :
    ∃ b s, v.render = b :: s ∧ b ∉ bytes " \t\n\r" ∧ (b = byte 't' → v = .true) := by
  cases v with
  | true => exact ⟨_, _, rfl, by decide, fun _ => rfl⟩
  | number n =>
    obtain ⟨b, s, hn⟩ := List.exists_cons_of_ne_nil (renderNumber_ne_nil n)
    have hb : b ∈ bytes "0123456789-.eE+" := mem_renderNumber (by rw [hn]; exact List.mem_cons_self)
    have hnumeric : ∀ b ∈ bytes "0123456789-.eE+", b ∉ bytes " \t\n\r" ∧ b ≠ byte 't' := by decide +kernel
    exact ⟨b, s, hn, (hnumeric b hb).1, fun ht => absurd ht (hnumeric b hb).2⟩
  | _ => exact ⟨_, _, rfl, by decide, fun ht => absurd ht (by decide)⟩

/-! ## No text holds a NUL -/

theorem zero_notMem_renderSpaces (ws : Spaces) : 0 ∉ renderSpaces ws := by
  have hspace : ∀ w : Space, w.byte ≠ 0 := by
    intro w
    cases w <;> decide
  simp [renderSpaces, hspace]

theorem zero_notMem_renderString (s : StringText) : 0 ∉ renderString s := by
  have hitem : ∀ i : StringItem, 0 ∉ i.render := by
    intro i
    cases i with
    | raw c h =>
      intro hmem
      have hc := mem_utf8EncodeChar hmem (by decide)
      have hspace := h.1
      rw [hc] at hspace
      exact absurd hspace (by decide)
    | escape e => cases e <;> decide
    | unicode d₁ d₂ d₃ d₄ =>
      have hhex := fun d : HexDigit => Ne.symm (byte_hexDigit d).2
      have hstart : 0 ≠ byte '\\' ∧ 0 ≠ byte 'u' := by decide
      simp [StringItem.render, hhex, hstart]
  have hquote : 0 ≠ byte '"' := by decide
  simp [renderString, body, hitem, hquote]

mutual
theorem Value.zero_notMem_render : (v : Value) → 0 ∉ v.render
  | .null => by decide
  | .true => by decide
  | .false => by decide
  | .number n => fun h => absurd (mem_renderNumber h) (by decide)
  | .string s => zero_notMem_renderString s
  | .array ws elements => by
    have hbrackets : 0 ≠ byte '[' ∧ 0 ≠ byte ']' := by decide
    simp [Value.render, zero_notMem_renderSpaces, elements.zero_notMem_render List.not_mem_nil,
      hbrackets]
  | .object ws members => by
    have hbraces : 0 ≠ byte '{' ∧ 0 ≠ byte '}' := by decide
    simp [Value.render, zero_notMem_renderSpaces, members.zero_notMem_render List.not_mem_nil,
      hbraces]

theorem Elements.zero_notMem_render {separator : List UInt8} (h : 0 ∉ separator) :
    (es : Elements) → 0 ∉ es.render separator
  | .nil => List.not_mem_nil
  | .cons before value after es => by
    have hcomma : 0 ∉ [byte ','] := by decide
    simp [Elements.render, h, zero_notMem_renderSpaces, value.zero_notMem_render,
      es.zero_notMem_render hcomma]

theorem Members.zero_notMem_render {separator : List UInt8} (h : 0 ∉ separator) :
    (ms : Members) → 0 ∉ ms.render separator
  | .nil => List.not_mem_nil
  | .cons before key beforeColon afterColon value after ms => by
    have hcomma : 0 ∉ [byte ','] := by decide
    have hcolon : 0 ≠ byte ':' := by decide
    simp [Members.render, h, zero_notMem_renderSpaces, zero_notMem_renderString,
      value.zero_notMem_render, ms.zero_notMem_render hcomma, hcolon]
end

/-! ## The strings of a text -/

/-- A string of a text. -/
structure Token where
  text : StringText
  /-- The number of arrays and objects around the one that it is in. -/
  depth : Nat
  /-- The white space around the colon, and the value, if the string is a key. -/
  member : Option (Spaces × Spaces × Value)

mutual
/-- The strings of a value, in their order. -/
def Value.strings (depth : Nat) : Value → List Token
  | .string s => [⟨s, depth, none⟩]
  | .array _ elements => elements.strings depth
  | .object _ members => members.strings depth
  | _ => []

def Elements.strings (depth : Nat) : Elements → List Token
  | .nil => []
  | .cons _ value _ rest => value.strings (depth + 1) ++ rest.strings depth

def Members.strings (depth : Nat) : Members → List Token
  | .nil => []
  | .cons _ key beforeColon afterColon value _ rest =>
    ⟨key, depth, some (beforeColon, afterColon, value)⟩ ::
      (value.strings (depth + 1) ++ rest.strings depth)
end

mutual
/-- No string of a value is less deep. -/
theorem Value.le_depth (d : Nat) : (v : Value) → ∀ s ∈ v.strings d, d ≤ s.depth
  | .null | .true | .false | .number _ => fun s hs => absurd hs List.not_mem_nil
  | .string text => fun s hs => by
    obtain rfl := List.mem_singleton.mp hs
    exact Nat.le_refl d
  | .array _ elements => elements.le_depth d
  | .object _ members => members.le_depth d

theorem Elements.le_depth (d : Nat) : (es : Elements) → ∀ s ∈ es.strings d, d ≤ s.depth
  | .nil => fun s hs => absurd hs List.not_mem_nil
  | .cons _ value _ es => fun s hs => by
    rcases List.mem_append.mp hs with hs | hs
    · exact Nat.le_of_succ_le (value.le_depth (d + 1) s hs)
    · exact es.le_depth d s hs

theorem Members.le_depth (d : Nat) : (ms : Members) → ∀ s ∈ ms.strings d, d ≤ s.depth
  | .nil => fun s hs => absurd hs List.not_mem_nil
  | .cons _ key _ _ value _ ms => fun s hs => by
    rcases List.mem_cons.mp hs with rfl | hs
    · exact Nat.le_refl d
    · rcases List.mem_append.mp hs with hs | hs
      · exact Nat.le_of_succ_le (value.le_depth (d + 1) s hs)
      · exact ms.le_depth d s hs
end

/-- The keys of an object are the strings that are no deeper than it. -/
theorem Members.mem_toList {d : Nat} {s : Token} {m : Spaces × Spaces × Value} (hd : s.depth = d)
    (hm : s.member = some m) : (ms : Members) → s ∈ ms.strings d → ⟨units s.text, m.2.2⟩ ∈ ms.toList
  | .nil => fun hs => absurd hs List.not_mem_nil
  | .cons _ key _ _ value _ ms => fun hs => by
    rcases List.mem_cons.mp hs with rfl | hs
    · obtain rfl := Option.some.inj hm
      exact List.mem_cons_self
    · rcases List.mem_append.mp hs with hs | hs
      · have hdeep := value.le_depth (d + 1) s hs
        omega
      · exact List.mem_cons_of_mem _ (ms.mem_toList hd hm hs)

/-! ## Strings without escapes -/

theorem toNat_byte {c : Char} (h : c.toNat < 128) : (byte c).toNat = c.toNat := by
  unfold byte
  rw [UInt8.toNat_ofNat']
  omega

theorem utf8EncodeChar_ascii {c : Char} (h : c.toNat < 128) :
    String.utf8EncodeChar c = [byte c] := by
  unfold String.utf8EncodeChar
  exact if_pos (Nat.le_of_lt_succ h)

/-- A string that is written as an ASCII text says that text. -/
theorem units_of_body {key : List Char} (hkey : ∀ c ∈ key, c.toNat < 128 ∧ c ≠ '\\')
    {s : StringText} (h : body s = key.map byte) : units s = key.flatMap (utf16 ·.toNat) := by
  induction key generalizing s with
  | nil =>
    cases s with
    | nil => rfl
    | cons i s =>
      have hi := (List.append_eq_nil_iff.mp (h : i.render ++ body s = [])).1
      cases i with
      | raw c hc => exact absurd hi String.utf8EncodeChar_ne_nil
      | _ => cases hi
  | cons c key ih =>
    rw [List.forall_mem_cons] at hkey
    obtain ⟨⟨hascii, hbackslash⟩, hkey⟩ := hkey
    cases s with
    | nil => cases h
    | cons i s =>
      have hbody : i.render ++ body s = byte c :: key.map byte := h
      have hfirst : ∀ c', c'.toNat < 128 → byte c' = byte c → c' = c := by
        intro c' hc' hb
        apply Char.toNat_inj.mp
        rw [← toNat_byte hc', hb, toNat_byte hascii]
      cases i with
      | raw c' hc' =>
        obtain ⟨b, r, hr⟩ := List.exists_cons_of_ne_nil (String.utf8EncodeChar_ne_nil (c := c'))
        rw [show (StringItem.raw c' hc').render = b :: r from hr, List.cons_append] at hbody
        obtain ⟨rfl, hrest⟩ := List.cons.inj hbody
        have hc : c'.toNat = c.toNat := by
          rw [← toNat_byte hascii]
          refine mem_utf8EncodeChar (by rw [hr]; exact List.mem_cons_self) ?_
          rw [toNat_byte hascii]
          exact hascii
        obtain rfl := Char.toNat_inj.mp hc
        rw [utf8EncodeChar_ascii hascii] at hr
        obtain rfl := (List.cons.inj hr).2
        exact congrArg (utf16 c'.toNat ++ ·) (ih hkey hrest)
      | escape e => exact absurd (hfirst '\\' (by decide) (List.cons.inj hbody).1) (Ne.symm hbackslash)
      | unicode d₁ d₂ d₃ d₄ =>
        exact absurd (hfirst '\\' (by decide) (List.cons.inj hbody).1) (Ne.symm hbackslash)

/-! ## What may follow a string -/

/-- White space, and then nothing more or one of the given bytes. -/
def Tail (closers s : List UInt8) : Prop :=
  ∃ ws r, s = renderSpaces ws ++ r ∧ ∀ b ∈ r.head?, b ∈ closers

namespace Tail
variable {closers closers' s : List UInt8}

theorem mono (h : Tail closers s) (hsub : closers ⊆ closers') : Tail closers' s := by
  obtain ⟨ws, r, hs, hr⟩ := h
  exact ⟨ws, r, hs, fun b hb => hsub (hr b hb)⟩

theorem of_cons {b : UInt8} (h : b ∈ closers) (r : List UInt8) : Tail closers (b :: r) := by
  refine ⟨[], b :: r, rfl, fun b' hb' => ?_⟩
  obtain rfl : b = b' := Option.some.inj hb'
  exact h

theorem spaces (h : Tail closers s) (ws : Spaces) : Tail closers (renderSpaces ws ++ s) := by
  obtain ⟨ws', r, rfl, hr⟩ := h
  refine ⟨ws ++ ws', r, ?_, hr⟩
  rw [← List.append_assoc]
  unfold renderSpaces
  rw [List.map_append]

/-- The first byte is white space or one of the closers. -/
theorem head_mem (h : Tail closers s) : ∀ b ∈ s.head?, b ∈ bytes " \t\n\r" ++ closers := by
  obtain ⟨ws, r, rfl, hr⟩ := h
  cases ws with
  | nil => exact fun b hb => List.mem_append_right _ (hr b hb)
  | cons w ws =>
    intro b hb
    obtain rfl : w.byte = b := Option.some.inj hb
    refine List.mem_append_left _ ?_
    cases w <;> decide

theorem elements (h : Tail (bytes ",]\x7d") s) (es : Elements) :
    Tail (bytes ",]\x7d") (es.render [byte ','] ++ s) := by
  cases es with
  | nil => exact h
  | cons before value after rest => exact of_cons (by decide) _

theorem members (h : Tail (bytes ",\x7d") s) (ms : Members) :
    Tail (bytes ",\x7d") (ms.render [byte ','] ++ s) := by
  cases ms with
  | nil => exact h
  | cons before key beforeColon afterColon value after rest => exact of_cons (by decide) _

end Tail

/-! ## Searches -/

/-- A search for a key, with a check of the text behind what is found: behind a
member's key it answers for the member, and behind any other string it fails. -/
structure Search where
  key : List UInt8
  check : List UInt8 → Bool
  answer : Spaces → Spaces → Value → Bool
  quote_notMem : byte '"' ∉ key
  backslash_notMem : byte '\\' ∉ key
  first_notMem : ∀ b ∈ (key ++ [byte '"']).head?, b ∉ bytes " \t\n\r,]\x7d:"
  check_value : ∀ s, Tail (bytes ",]\x7d") s → check s = false
  check_member : ∀ ws ws' (v : Value) s, Tail (bytes ",\x7d") s →
    check (renderSpaces ws ++ byte ':' :: (renderSpaces ws' ++ (v.render ++ s))) = answer ws ws' v

namespace Search
variable (S : Search)

/-- What the check makes of the text behind each occurrence. -/
def found (s : List UInt8) : List Bool := (behind (quoted (byte '"') S.key) s).map S.check

/-- The strings that the search stops at. -/
def Stops (t : Token) : Prop := EndsInKey (byte '"') S.key (body t.text)

instance (t : Token) : Decidable (S.Stops t) := inferInstanceAs (Decidable (EndsInKey _ _ _))

/-- What a string answers. -/
def answerOf (t : Token) : Bool := t.member.elim false fun m => S.answer m.1 m.2.1 m.2.2

/-- What the strings that the search stops at answer. -/
def answers (ts : List Token) : List Bool := (ts.filter (S.Stops ·)).map S.answerOf

theorem answers_append (ts us : List Token) : S.answers (ts ++ us) = S.answers ts ++ S.answers us := by
  simp [answers]

theorem answers_cons (t : Token) (ts : List Token) :
    S.answers (t :: ts) = (if S.Stops t then [S.answerOf t] else []) ++ S.answers ts := by
  by_cases h : S.Stops t
  · simp [answers, h]
  · simp [answers, h]

theorem found_append {s : List UInt8} (h : byte '"' ∉ s) (rest : List UInt8) :
    S.found (s ++ rest) = S.found rest := congrArg (List.map S.check) (behind_append h rest)

theorem found_cons {b : UInt8} (h : byte '"' ≠ b) (rest : List UInt8) :
    S.found (b :: rest) = S.found rest := S.found_append (s := [b]) (by simpa using h) rest

theorem found_spaces (ws : Spaces) (rest : List UInt8) :
    S.found (renderSpaces ws ++ rest) = S.found rest :=
  S.found_append (quote_notMem_renderSpaces ws) rest

theorem found_string (s : StringText) {closers rest : List UInt8} (h : Tail closers rest)
    (hclosers : closers ⊆ bytes ",]\x7d:") :
    S.found (renderString s ++ rest) =
      (if EndsInKey (byte '"') S.key (body s) then [S.check rest] else []) ++ S.found rest := by
  have hrest : ¬ S.key ++ [byte '"'] <+: rest := by
    rintro ⟨r, rfl⟩
    obtain ⟨b, k, hk⟩ : ∃ b k, S.key ++ [byte '"'] = b :: k :=
      List.exists_cons_of_ne_nil (by simp)
    have hb := S.first_notMem b (by rw [hk]; rfl)
    have hmem := h.head_mem b (by rw [hk]; rfl)
    rcases List.mem_append.mp hmem with hmem | hmem
    · exact hb (List.mem_append_left (bytes ",]\x7d:") hmem)
    · exact hb (List.mem_append_right (bytes " \t\n\r") (hclosers hmem))
  have hbehind := behind_string (by decide) S.quote_notMem S.backslash_notMem (escaped_body s _) hrest
  unfold found renderString
  rw [List.cons_append, List.append_assoc, List.singleton_append, hbehind, List.map_append]
  congr 1
  split_ifs <;> rfl

end Search

mutual
/-- **What a search finds in a value.** -/
theorem Value.found_render (S : Search) (d : Nat) {rest : List UInt8} (h : Tail (bytes ",]\x7d") rest) :
    (v : Value) → S.found (v.render ++ rest) = S.answers (v.strings d) ++ S.found rest
  | .null => S.found_append (by decide) rest
  | .true => S.found_append (by decide) rest
  | .false => S.found_append (by decide) rest
  | .number n => S.found_append (quote_notMem_renderNumber n) rest
  | .string s => by
    rw [Value.render, S.found_string s h (by decide), S.check_value rest h, Value.strings,
      S.answers_cons, List.append_assoc]
    rfl
  | .array ws elements => by
    rw [Value.render, Value.strings, List.cons_append, S.found_cons (by decide), List.append_assoc,
      S.found_spaces, List.append_assoc, List.singleton_append,
      elements.found_render S d (by simp) (Tail.of_cons (by decide) rest), S.found_cons (by decide)]
  | .object ws members => by
    rw [Value.render, Value.strings, List.cons_append, S.found_cons (by decide), List.append_assoc,
      S.found_spaces, List.append_assoc, List.singleton_append,
      members.found_render S d (by simp) (Tail.of_cons (by decide) rest), S.found_cons (by decide)]

theorem Elements.found_render (S : Search) (d : Nat) {separator rest : List UInt8}
    (hseparator : byte '"' ∉ separator) (h : Tail (bytes ",]\x7d") rest) :
    (es : Elements) →
      S.found (es.render separator ++ rest) = S.answers (es.strings d) ++ S.found rest
  | .nil => rfl
  | .cons before value after es => by
    simp only [Elements.render, List.append_assoc]
    rw [S.found_append hseparator, S.found_spaces,
      value.found_render S (d + 1) ((h.elements es).spaces after), S.found_spaces,
      es.found_render S d (by decide) h, Elements.strings, S.answers_append, List.append_assoc]

theorem Members.found_render (S : Search) (d : Nat) {separator rest : List UInt8}
    (hseparator : byte '"' ∉ separator) (h : Tail (bytes ",\x7d") rest) :
    (ms : Members) →
      S.found (ms.render separator ++ rest) = S.answers (ms.strings d) ++ S.found rest
  | .nil => rfl
  | .cons before key beforeColon afterColon value after ms => by
    have htail := (h.members ms).spaces after
    simp only [Members.render, List.append_assoc, List.cons_append]
    rw [S.found_append hseparator, S.found_spaces,
      S.found_string key ((Tail.of_cons (List.mem_singleton_self (byte ':')) _).spaces beforeColon)
        (by decide), S.check_member beforeColon afterColon value _ htail, S.found_spaces,
      S.found_cons (by decide), S.found_spaces,
      value.found_render S (d + 1) (htail.mono (by decide)), S.found_spaces,
      ms.found_render S d (by decide) h, Members.strings, S.answers_cons, S.answers_append,
      List.append_assoc, List.append_assoc]
    rfl
end

end TpmAttest.JsonGrammar
