import Mathlib.Data.Bool.AllAny
import TpmAttest.PythonJson

/-! # Reading back what `json.dumps` writes

The encoder writes a string as the escapes of its UTF-16 code units, and the scanner
joins the escapes of a surrogate pair.  So it reads back the string with its surrogate
pairs joined (`scanString_escapeText`), and a dict of strings and truth values is read
back too (`scanMembers_memberChars`).
-/
namespace TpmAttest.Python

open JsonGrammar (utf16)

/-- ASCII characters as code points. -/
def chars (s : List Char) : Text := s.map char

/-- What is read from a position, after `k` characters that are not read. -/
def Scan.after {α : Type} (k : Nat) (r : Scan α) : Scan α := r.map fun p => (p.1, p.2 + k)

theorem Scan.advance_after {α : Type} (k : Nat) (r : Scan α) :
    (r.after k).advance = r.after (k + 1) := by
  cases r <;> rfl

theorem Scan.after_zero {α : Type} (r : Scan α) : r.after 0 = r := by
  cases r <;> rfl

theorem scanString_skip (xs ys : Text) :
    scanString xs.length (xs ++ ys) = (scanString 0 ys).after xs.length := by
  induction xs with
  | nil => exact (Scan.after_zero _).symm
  | cons x xs ih =>
    change (scanString xs.length (xs ++ ys)).advance = _
    rw [ih, Scan.advance_after]
    rfl

theorem scanMembers_skip (scan : Text → Scan Json) (phase : MemberPhase) (xs ys : Text) :
    scanMembers scan phase xs.length (xs ++ ys) = (scanMembers scan phase 0 ys).after xs.length := by
  induction xs with
  | nil => exact (Scan.after_zero _).symm
  | cons x xs ih =>
    change (scanMembers scan phase xs.length (xs ++ ys)).advance = _
    rw [ih, Scan.advance_after]
    rfl

/-! ## Code units -/

theorem hexValue_char_hexDigit {d : Nat} (h : d < 16) :
    hexValue (Char.ofNat (char (hexDigit d)).val) = some d := by
  revert d
  decide

theorem scanHex_hexDigits {n : Nat} (h : n < 0x10000) (x : CodePoint) (s : Text) :
    scanHex (chars (hexDigits 4 n) ++ x :: s) = some n := by
  have hlt : ∀ m, m % 16 < 16 := fun m => Nat.mod_lt m (by decide)
  simp only [hexDigits, chars, List.nil_append, List.cons_append, List.map_cons, List.map_nil,
    scanHex, hexValue_char_hexDigit (hlt _), Option.bind_eq_bind, Option.bind_some, Option.pure_def,
    Option.some.injEq]
  omega

/-- The letters of the escapes of one letter that the encoder uses. -/
def escapeLetters : List Char := ['"', '\\', 'b', 'f', 'n', 'r', 't']

/-- How a code unit is written. -/
theorem escapeUnit_cases (n : Nat) :
    (escapeUnit n = [Char.ofNat n] ∧ 0x20 ≤ n ∧ n ≤ 0x7e ∧ n ≠ 0x22 ∧ n ≠ 0x5c) ∨
      (∃ c ∈ escapeLetters, escapeUnit n = ['\\', c] ∧
        simpleEscape (char c) = some (codePoint n) ∧ n < 0x80) ∨
      escapeUnit n = '\\' :: 'u' :: hexDigits 4 n := by
  unfold escapeUnit
  split_ifs with h₁ h₂ h₃ h₄ h₅ h₆ h₇ h₈
  · subst h₁
    exact Or.inr (Or.inl ⟨'"', by decide, rfl, by decide, by decide⟩)
  · subst h₂
    exact Or.inr (Or.inl ⟨'\\', by decide, rfl, by decide, by decide⟩)
  · exact Or.inl ⟨rfl, h₃.1, h₃.2, h₁, h₂⟩
  · subst h₄
    exact Or.inr (Or.inl ⟨'b', by decide, rfl, by decide, by decide⟩)
  · subst h₅
    exact Or.inr (Or.inl ⟨'f', by decide, rfl, by decide, by decide⟩)
  · subst h₆
    exact Or.inr (Or.inl ⟨'n', by decide, rfl, by decide, by decide⟩)
  · subst h₇
    exact Or.inr (Or.inl ⟨'r', by decide, rfl, by decide, by decide⟩)
  · subst h₈
    exact Or.inr (Or.inl ⟨'t', by decide, rfl, by decide, by decide⟩)
  · exact Or.inr (Or.inr rfl)

theorem char_ne_of_mem_escapeLetters : ∀ c ∈ escapeLetters, char c ≠ char 'u' :=
  List.all_iff_forall_prop.mp (by decide +kernel)

theorem toNat_ofNat_ascii {n : Nat} (h : n < 0x80) : (Char.ofNat n).toNat = n := by
  have hvalid : n.isValidChar := Or.inl (by omega)
  rw [Char.ofNat, dif_pos hvalid]
  rfl

/-- A code unit that is not the first half of a pair. -/
theorem scanString_unit {n : Nat} (hn : n < 0x10000) {t : Text} (ht : t ≠ [])
    (hlow : isHighSurrogate n = true → scanLow t = .ok none) :
    scanString 0 (chars (escapeUnit n) ++ t) =
      ((scanString 0 t).map fun p => (codePoint n :: p.1, p.2 + (escapeUnit n).length)) := by
  obtain ⟨x, s, rfl⟩ := List.exists_cons_of_ne_nil ht
  rcases escapeUnit_cases n with ⟨h, hmin, hmax, hquote, hbackslash⟩ | ⟨c, hc, h, hsimple, -⟩ | h
  · rw [h]
    have hchar : char (Char.ofNat n) = codePoint n := by
      rw [char, toNat_ofNat_ascii (by omega)]
    have hval : (codePoint n).val = n := Nat.mod_eq_of_lt (by omega)
    have hquote' : codePoint n ≠ char '"' := by
      intro heq
      rw [heq] at hval
      exact hquote hval.symm
    have hbackslash' : codePoint n ≠ char '\\' := by
      intro heq
      rw [heq] at hval
      exact hbackslash hval.symm
    change scanString 0 (char (Char.ofNat n) :: x :: s) = _
    rw [hchar, scanString, if_neg hquote', if_neg hbackslash', if_neg (by omega)]
    rfl
  · rw [h]
    change scanString 0 (char '\\' :: char c :: x :: s) = _
    have hescape : scanEscape (char c :: x :: s) = .ok (codePoint n, 1) := by
      rw [scanEscape, if_neg (char_ne_of_mem_escapeLetters c hc), hsimple]
    rw [scanString, if_neg (by decide), if_pos rfl, hescape]
    change ((scanString 0 (x :: s)).after 1).map _ = _
    cases scanString 0 (x :: s) <;> rfl
  · rw [h]
    have hhex := scanHex_hexDigits hn x s
    have hdrop : (chars (hexDigits 4 n) ++ x :: s).drop 4 = x :: s := rfl
    have hescape : scanEscape (char 'u' :: (chars (hexDigits 4 n) ++ x :: s)) =
        .ok (codePoint n, 5) := by
      rw [scanEscape, if_pos rfl, hhex]
      dsimp only
      by_cases hhigh : isHighSurrogate n = true
      · rw [if_pos hhigh, hdrop, hlow hhigh]
      · rw [if_neg hhigh]
    change scanString 0 (char '\\' :: char 'u' :: (chars (hexDigits 4 n) ++ x :: s)) = _
    rw [scanString, if_neg (by decide), if_pos rfl, hescape]
    have hskip : scanString 5 (char 'u' :: (chars (hexDigits 4 n) ++ x :: s)) =
        (scanString 0 (x :: s)).after 5 :=
      scanString_skip (char 'u' :: chars (hexDigits 4 n)) (x :: s)
    dsimp only
    rw [hskip]
    cases scanString 0 (x :: s) <;> rfl

theorem escapeUnit_of_le {n : Nat} (h : 0x80 ≤ n) : escapeUnit n = '\\' :: 'u' :: hexDigits 4 n := by
  rcases escapeUnit_cases n with ⟨-, -, hmax, -, -⟩ | ⟨-, -, -, -, hmax⟩ | h'
  · omega
  · omega
  · exact h'

/-- The characters of an escape are printable. -/
theorem mem_escapeUnit {n : Nat} {c : Char} (h : c ∈ escapeUnit n) :
    0x20 ≤ c.toNat ∧ c.toNat ≤ 0x7e := by
  have hletter : ∀ e ∈ '\\' :: escapeLetters, 0x20 ≤ e.toNat ∧ e.toNat ≤ 0x7e :=
    List.all_iff_forall_prop.mp (by decide)
  have hhex : ∀ d < 16, 0x20 ≤ (hexDigit d).toNat ∧ (hexDigit d).toNat ≤ 0x7e := by decide
  rcases escapeUnit_cases n with ⟨hn, hmin, hmax, -, -⟩ | ⟨e, he, hn, -, -⟩ | hn
  · rw [hn] at h
    obtain rfl := List.mem_singleton.mp h
    rw [toNat_ofNat_ascii (by omega)]
    exact ⟨hmin, hmax⟩
  · rw [hn] at h
    refine hletter c ?_
    rcases List.mem_cons.mp h with rfl | h
    · exact List.mem_cons_self
    · obtain rfl := List.mem_singleton.mp h
      exact List.mem_cons_of_mem _ he
  · rw [hn] at h
    simp only [hexDigits, List.nil_append, List.cons_append, List.mem_cons, List.not_mem_nil,
      or_false] at h
    rcases h with rfl | rfl | rfl | rfl | rfl | rfl
    · decide
    · decide
    all_goals exact hhex _ (Nat.mod_lt _ (by decide))

theorem mem_escapeText {s : Text} {c : Char} (h : c ∈ escapeText s) :
    0x20 ≤ c.toNat ∧ c.toNat ≤ 0x7e := by
  obtain ⟨n, -, hn⟩ := List.mem_flatMap.mp h
  exact mem_escapeUnit hn

/-- The second half of a pair is looked for. -/
theorem scanLow_unit {n : Nat} (hn : n < 0x10000) {t : Text} (ht : t ≠ []) :
    scanLow (chars (escapeUnit n) ++ t) = .ok (if isLowSurrogate n then some n else none) := by
  obtain ⟨x, s, rfl⟩ := List.exists_cons_of_ne_nil ht
  have hsmall : n < 0x80 → isLowSurrogate n = false := by
    intro h
    simp only [isLowSurrogate, Bool.and_eq_false_iff, decide_eq_false_iff_not]
    omega
  rcases escapeUnit_cases n with ⟨h, -, hmax, -, hbackslash⟩ | ⟨c, hc, h, -, hmax⟩ | h
  · have hne : char (Char.ofNat n) ≠ char '\\' := by
      intro heq
      rw [char, toNat_ofNat_ascii (by omega)] at heq
      have hval : (codePoint n).val = (char '\\').val := congrArg Fin.val heq
      rw [show (codePoint n).val = n from Nat.mod_eq_of_lt (by omega)] at hval
      exact hbackslash hval
    rw [h, hsmall (by omega)]
    refine if_neg fun heq => hne ?_
    exact (List.cons.inj heq).1
  · rw [h, hsmall hmax]
    refine if_neg fun heq => char_ne_of_mem_escapeLetters c hc ?_
    exact (List.cons.inj (List.cons.inj heq).2).1
  · rw [h]
    have htake : (chars ('\\' :: 'u' :: hexDigits 4 n) ++ x :: s).take 2 = [char '\\', char 'u'] := rfl
    have hdrop : (chars ('\\' :: 'u' :: hexDigits 4 n) ++ x :: s).drop 2 =
        chars (hexDigits 4 n) ++ x :: s := rfl
    unfold scanLow
    rw [if_pos htake, hdrop, scanHex_hexDigits hn]

/-- A surrogate pair. -/
theorem scanString_pair {n m : Nat} (hn : isHighSurrogate n = true) (hm : isLowSurrogate m = true)
    {t : Text} (ht : t ≠ []) :
    scanString 0 (chars (escapeUnit n) ++ (chars (escapeUnit m) ++ t)) =
      ((scanString 0 t).map fun p =>
        (joinSurrogates n m :: p.1, p.2 + (escapeUnit n ++ escapeUnit m).length)) := by
  have hrange := hn
  have hrange' := hm
  simp only [isHighSurrogate, isLowSurrogate, Bool.and_eq_true, decide_eq_true_eq] at hrange hrange'
  have hlow := scanLow_unit (show m < 0x10000 by omega) ht
  rw [if_pos hm] at hlow
  rw [escapeUnit_of_le (show 0x80 ≤ n by omega), escapeUnit_of_le (show 0x80 ≤ m by omega)] at *
  obtain ⟨x, s, hxs⟩ : ∃ x s, chars ('\\' :: 'u' :: hexDigits 4 m) ++ t = x :: s := ⟨_, _, rfl⟩
  have hhex := scanHex_hexDigits (show n < 0x10000 by omega) x s
  rw [← hxs] at hhex
  have hdrop : (chars (hexDigits 4 n) ++ (chars ('\\' :: 'u' :: hexDigits 4 m) ++ t)).drop 4 =
      chars ('\\' :: 'u' :: hexDigits 4 m) ++ t := rfl
  have hescape : scanEscape (char 'u' :: (chars (hexDigits 4 n) ++
      (chars ('\\' :: 'u' :: hexDigits 4 m) ++ t))) = .ok (joinSurrogates n m, 11) := by
    rw [scanEscape, if_pos rfl, hhex]
    dsimp only
    rw [if_pos hn, hdrop, hlow]
  have hskip : scanString 11 (char 'u' :: (chars (hexDigits 4 n) ++
      (chars ('\\' :: 'u' :: hexDigits 4 m) ++ t))) = (scanString 0 t).after 11 :=
    scanString_skip (char 'u' :: (chars (hexDigits 4 n) ++ chars ('\\' :: 'u' :: hexDigits 4 m))) t
  change scanString 0 (char '\\' :: char 'u' :: (chars (hexDigits 4 n) ++
    (chars ('\\' :: 'u' :: hexDigits 4 m) ++ t))) = _
  rw [scanString, if_neg (by decide), if_pos rfl, hescape]
  dsimp only
  rw [hskip]
  cases scanString 0 t <;> rfl

/-- The escapes of code units, as the scanner reads them. -/
theorem scanString_units {units : List Nat} (h : ∀ n ∈ units, n < 0x10000) (rest : Text) :
    scanString 0 (chars (units.flatMap escapeUnit) ++ char '"' :: rest) =
      .ok (joinUnits units, (units.flatMap escapeUnit).length + 1) := by
  have happ : ∀ n (l : List Nat), chars ((n :: l).flatMap escapeUnit) ++ char '"' :: rest =
      chars (escapeUnit n) ++ (chars (l.flatMap escapeUnit) ++ char '"' :: rest) := by
    intro n l
    simp [chars]
  have hne : ∀ l : List Nat, chars (l.flatMap escapeUnit) ++ char '"' :: rest ≠ [] := by
    intro l
    simp
  fun_induction joinUnits units with
  | case1 => rfl
  | case2 n =>
    have hlow : scanLow (char '"' :: rest) = .ok none :=
      if_neg fun heq => absurd (List.cons.inj heq).1 (by decide)
    rw [happ, scanString_unit (h n (by simp)) (hne []) fun _ => hlow]
    change Except.ok _ = Except.ok _
    simp
    omega
  | case3 n m units hpair ih =>
    rw [Bool.and_eq_true] at hpair
    rw [happ, happ, scanString_pair hpair.1 hpair.2 (hne units),
      ih fun k hk => h k (by simp [hk])]
    change Except.ok _ = Except.ok _
    simp
    omega
  | case4 n m units hpair ih =>
    rw [Bool.and_eq_true, not_and, Bool.not_eq_true] at hpair
    have hm : m < 0x10000 := h m (by simp)
    have hlow : isHighSurrogate n = true →
        scanLow (chars ((m :: units).flatMap escapeUnit) ++ char '"' :: rest) = .ok none := by
      intro hn
      rw [happ, scanLow_unit hm (hne units), hpair hn]
      rfl
    rw [happ, scanString_unit (h n (by simp)) (hne (m :: units)) hlow,
      ih fun k hk => h k (List.mem_cons_of_mem n hk)]
    change Except.ok _ = Except.ok _
    simp
    omega

theorem utf16_lt (c : CodePoint) : ∀ n ∈ utf16 c.val, n < 0x10000 := by
  have hc := c.isLt
  intro n hn
  unfold utf16 at hn
  split_ifs at hn
  · obtain rfl := List.mem_singleton.mp hn
    assumption
  · simp only [List.mem_cons, List.not_mem_nil, or_false] at hn
    omega

/-- A string that has been written and read: its surrogate pairs are joined. -/
def readBack (s : Text) : Text := joinUnits (s.flatMap fun c : CodePoint => utf16 c.val)

/-- The units of a character are joined to it again. -/
theorem joinUnits_utf16 (c : Char) (units : List Nat) :
    joinUnits (utf16 (codePoint c.toNat).val ++ units) = codePoint c.toNat :: joinUnits units := by
  have hvalid : c.toNat < 0xd800 ∨ 0xdfff < c.toNat ∧ c.toNat < 0x110000 := c.valid
  have hval : (codePoint c.toNat).val = c.toNat := Nat.mod_eq_of_lt (by omega)
  rw [hval]
  generalize c.toNat = n at hvalid
  unfold utf16
  by_cases h : n < 0x10000
  · have hhigh : isHighSurrogate n = false := by
      rw [isHighSurrogate, Bool.and_eq_false_iff, decide_eq_false_iff_not, decide_eq_false_iff_not]
      omega
    rw [if_pos h, List.singleton_append]
    cases units with
    | nil => rfl
    | cons m units =>
      rw [joinUnits, hhigh, Bool.false_and]
      rfl
  · have hhigh : isHighSurrogate (0xd800 + (n - 0x10000) / 0x400) = true := by
      rw [isHighSurrogate, Bool.and_eq_true, decide_eq_true_eq, decide_eq_true_eq]
      omega
    have hlow : isLowSurrogate (0xdc00 + (n - 0x10000) % 0x400) = true := by
      rw [isLowSurrogate, Bool.and_eq_true, decide_eq_true_eq, decide_eq_true_eq]
      omega
    rw [if_neg h]
    change joinUnits (_ :: _ :: units) = _
    have hjoin : 0x10000 + (0xd800 + (n - 0x10000) / 0x400 - 0xd800) * 0x400 +
        (0xdc00 + (n - 0x10000) % 0x400 - 0xdc00) = n := by omega
    rw [joinUnits, hhigh, hlow, Bool.true_and, if_pos rfl, joinSurrogates, hjoin]

/-- A text without surrogates comes back as it was. -/
theorem readBack_text (s : String) : readBack (text s) = text s := by
  unfold readBack text
  induction s.toList with
  | nil => rfl
  | cons c s ih => rw [List.map_cons, List.flatMap_cons, joinUnits_utf16, ih]

/-- **A string is read back.** -/
theorem scanString_escapeText (s rest : Text) :
    scanString 0 (chars (escapeText s) ++ char '"' :: rest) =
      .ok (readBack s, (escapeText s).length + 1) := by
  refine scanString_units ?_ rest
  intro n hn
  obtain ⟨c, -, hc⟩ := List.mem_flatMap.mp hn
  exact utf16_lt c n hc

/-- One member: a quoted key, a colon, white space, and a value, whatever follows. -/
theorem scanMembers_item {scan : Text → Scan Json} {key k : Text} {v ws t : Text} {value : Json}
    (first : Bool) (hws : ∀ c ∈ ws, isJsonSpace c = true)
    (hkey : scanString 0 (k ++ char ':' :: (ws ++ (v ++ t))) = .ok (key, k.length))
    (hhead : ∃ c s, v = c :: s ∧ isJsonSpace c = false)
    (hvalue : scan (v ++ t) = .ok (value, v.length)) :
    scanMembers scan (.key first) 0 (char '"' :: (k ++ char ':' :: (ws ++ (v ++ t)))) =
      ((scanMembers scan .delimiter 0 t).map fun p =>
        ((key, value) :: p.1, p.2 + (k.length + ws.length + v.length + 2))) := by
  -- the value, the white space, the colon and the key, from the last to the first
  have hread : scanMembers scan (.value key) 0 (v ++ t) =
      ((scanMembers scan .delimiter 0 t).map fun p => ((key, value) :: p.1, p.2 + v.length)) := by
    obtain ⟨c, s, rfl, hc⟩ := hhead
    rw [List.cons_append] at hvalue ⊢
    rw [scanMembers, if_neg (by simp [hc]), hvalue]
    dsimp only
    rw [List.length_cons, Nat.add_sub_cancel, scanMembers_skip]
    cases scanMembers scan .delimiter 0 t <;> simp [Scan.after, Except.map]; omega
  have hspace : scanMembers scan (.value key) 0 (ws ++ (v ++ t)) =
      (scanMembers scan (.value key) 0 (v ++ t)).after ws.length := by
    clear hkey
    induction ws with
    | nil => exact (Scan.after_zero _).symm
    | cons c ws ih =>
      rw [List.forall_mem_cons] at hws
      rw [List.cons_append, scanMembers, if_pos hws.1, ih hws.2, Scan.advance_after]
      rfl
  have hcolon : scanMembers scan (.colon key) 0 (char ':' :: (ws ++ (v ++ t))) =
      (scanMembers scan (.value key) 0 (ws ++ (v ++ t))).advance := rfl
  rw [scanMembers, if_neg (by decide), if_pos rfl, hkey]
  dsimp only
  rw [scanMembers_skip, hcolon, hspace, hread]
  cases scanMembers scan .delimiter 0 t <;> simp [Scan.after, Scan.advance, Except.map]; omega

/-! ## Dicts -/

section
variable (floatRepr : Decimal → String) (limit : Nat)

/-- The text of a value is read as a value, whatever follows. -/
structure Reads (value value' : Json) : Prop where
  head : ∃ c s, jsonChars floatRepr value = c :: s ∧ isJsonSpace (char c) = false
  scan : ∀ rest, scanOnce limit (chars (jsonChars floatRepr value) ++ rest) =
    .ok (value', (jsonChars floatRepr value).length)

theorem scanOnce_eq : ∃ scan, scanOnce limit = scanValue scan := by
  cases limit with
  | zero => exact ⟨_, rfl⟩
  | succ limit => exact ⟨_, rfl⟩

theorem reads_str (s : Text) : Reads floatRepr limit (.str s) (.str (readBack s)) where
  head := ⟨'"', _, rfl, by decide⟩
  scan rest := by
    obtain ⟨scan, hscan⟩ := scanOnce_eq limit
    have htext : chars (jsonChars floatRepr (.str s)) ++ rest =
        char '"' :: (chars (escapeText s) ++ char '"' :: rest) := by
      simp [jsonChars, quoteText, chars]
    rw [hscan, htext, scanValue.eq_def]
    dsimp only
    rw [if_pos rfl, scanString_escapeText]
    change Except.ok _ = Except.ok _
    simp [jsonChars, quoteText]

theorem reads_bool (b : Bool) : Reads floatRepr limit (.bool b) (.bool b) where
  head := by
    cases b
    · exact ⟨'f', _, rfl, by decide⟩
    · exact ⟨'t', _, rfl, by decide⟩
  scan rest := by
    obtain ⟨scan, hscan⟩ := scanOnce_eq limit
    rw [hscan]
    cases b <;> rfl

variable {floatRepr limit}

variable (floatRepr limit) in
/-- The items are read as items. -/
def ItemsRead (items items' : List (Text × Json)) : Prop :=
  List.Forall₂ (fun i i' => i'.1 = readBack i.1 ∧ Reads floatRepr limit i.2 i'.2) items items'

/-- One member. -/
theorem scanMembers_member (first : Bool) (key : Text) {value value' : Json}
    (h : Reads floatRepr limit value value') (t : Text) :
    scanMembers (scanOnce limit) (.key first) 0
        (chars (quoteText key ++ (':' :: ' ' :: jsonChars floatRepr value)) ++ t) =
      ((scanMembers (scanOnce limit) .delimiter 0 t).map fun p => ((readBack key, value') :: p.1,
        p.2 + (quoteText key ++ (':' :: ' ' :: jsonChars floatRepr value)).length)) := by
  obtain ⟨⟨c, s, hc, hspace⟩, hscan⟩ := h
  have htext : chars (quoteText key ++ (':' :: ' ' :: jsonChars floatRepr value)) ++ t =
      char '"' :: ((chars (escapeText key) ++ [char '"']) ++ char ':' :: ([char ' '] ++
        (chars (jsonChars floatRepr value) ++ t))) := by
    simp [quoteText, chars]
  have hkey : scanString 0 ((chars (escapeText key) ++ [char '"']) ++ char ':' :: ([char ' '] ++
      (chars (jsonChars floatRepr value) ++ t))) =
        .ok (readBack key, (chars (escapeText key) ++ [char '"']).length) := by
    rw [List.append_assoc, List.singleton_append, scanString_escapeText]
    simp [chars]
  have hvalue := hscan t
  rw [show (jsonChars floatRepr value).length = (chars (jsonChars floatRepr value)).length by
    simp [chars]] at hvalue
  have hhead : ∃ c s, chars (jsonChars floatRepr value) = c :: s ∧ isJsonSpace c = false :=
    ⟨char c, chars s, by rw [hc]; rfl, hspace⟩
  rw [htext, scanMembers_item first (List.forall_mem_singleton.mpr rfl) hkey hhead hvalue]
  cases scanMembers (scanOnce limit) .delimiter 0 t <;> simp [Except.map, quoteText, chars]; omega

/-- The members behind the first. -/
theorem scanMembers_rest {items items' : List (Text × Json)}
    (h : ItemsRead floatRepr limit items items') (rest : Text) :
    scanMembers (scanOnce limit) .delimiter 0
        (chars (memberChars floatRepr [',', ' '] items ++ ['}']) ++ rest) =
      .ok (items', (memberChars floatRepr [',', ' '] items).length + 1) := by
  induction h with
  | nil => rfl
  | @cons item item' items items' hitem h ih =>
    obtain ⟨key, value⟩ := item
    obtain ⟨key', value'⟩ := item'
    obtain ⟨hkey, hvalue⟩ := hitem
    dsimp only at hkey hvalue
    subst hkey
    have htext : chars (memberChars floatRepr [',', ' '] ((key, value) :: items) ++ ['}']) ++ rest =
        char ',' :: char ' ' :: (chars (quoteText key ++ (':' :: ' ' :: jsonChars floatRepr value)) ++
          (chars (memberChars floatRepr [',', ' '] items ++ ['}']) ++ rest)) := by
      simp [memberChars, chars]
    have hcomma : ∀ t, scanMembers (scanOnce limit) .delimiter 0 (char ',' :: char ' ' :: t) =
        (scanMembers (scanOnce limit) (.key false) 0 t).advance.advance := fun t => rfl
    rw [htext, hcomma, scanMembers_member false key hvalue, ih]
    change Except.ok _ = Except.ok _
    simp [memberChars]
    omega

/-- **The members of a dict.** -/
theorem scanMembers_memberChars {items items' : List (Text × Json)}
    (h : ItemsRead floatRepr limit items items') (rest : Text) :
    scanMembers (scanOnce limit) (.key true) 0
        (chars (memberChars floatRepr [] items ++ ['}']) ++ rest) =
      .ok (items', (memberChars floatRepr [] items).length + 1) := by
  cases h with
  | nil => rfl
  | @cons item item' items items' hitem h =>
    obtain ⟨key, value⟩ := item
    obtain ⟨key', value'⟩ := item'
    obtain ⟨hkey, hvalue⟩ := hitem
    dsimp only at hkey hvalue
    subst hkey
    have htext : chars (memberChars floatRepr [] ((key, value) :: items) ++ ['}']) ++ rest =
        chars (quoteText key ++ (':' :: ' ' :: jsonChars floatRepr value)) ++
          (chars (memberChars floatRepr [',', ' '] items ++ ['}']) ++ rest) := by
      simp [memberChars, chars]
    rw [htext, scanMembers_member true key hvalue, scanMembers_rest h]
    change Except.ok _ = Except.ok _
    simp [memberChars]
    omega

/-- A text that is a brace and members up to its end. -/
theorem loadsText_members {s : Text} {items : List (Text × Json)}
    (h : scanMembers (scanOnce limit) (.key true) 0 s = .ok (items, s.length)) :
    loadsText (limit + 1) (char '{' :: s) = .ok (.dict (dictOf items)) := by
  have hscan : scanOnce (limit + 1) (char '{' :: s) = .ok (.dict (dictOf items), s.length + 1) := by
    change (scanMembers (scanOnce limit) (.key true) 0 s).map _ = _
    rw [h]
    rfl
  have hbom : (char '{' :: s).head? ≠ some (codePoint 0xfeff) := by
    intro h
    exact absurd (Option.some.inj h) (by decide)
  have hspace : (char '{' :: s).dropWhile isJsonSpace = char '{' :: s := rfl
  rw [loadsText, if_neg hbom, decodeJson, hspace, hscan]
  dsimp only
  rw [List.drop_succ_cons, List.drop_length]
  rfl

/-- **A dict is read back.** -/
theorem loadsText_dict {items items' : List (Text × Json)}
    (h : ItemsRead floatRepr limit items items') :
    loadsText (limit + 1) (chars (jsonChars floatRepr (.dict items))) =
      .ok (.dict (dictOf items')) := by
  have hmembers := scanMembers_memberChars h []
  have hlength : (memberChars floatRepr [] items).length + 1 =
      (chars (memberChars floatRepr [] items ++ ['}']) ++ []).length := by
    simp [chars]
  have htext : chars (jsonChars floatRepr (.dict items)) =
      char '{' :: (chars (memberChars floatRepr [] items ++ ['}']) ++ []) := by
    simp [jsonChars, chars]
  rw [hlength] at hmembers
  rw [htext, loadsText_members hmembers]

end
end TpmAttest.Python
