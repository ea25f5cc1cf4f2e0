import Mathlib.Data.List.TakeWhile
import TpmAttest.PythonText

/-! # The grammar of `int(…, 16)`

`intHex` reads more than hexadecimal digits: blanks around the integer, a sign, a prefix
`0x`, single underscores between digits, and blanks and decimal digits of every script
(`intHex_isSome_iff`).  Digits alone are the literals without any of these.
-/
namespace TpmAttest.Python

/-! ## Literals -/

/-- The prefixes of a base, with an underscore or without. -/
def hexBases : List (List Char) := [[], ['0', 'x'], ['0', 'X'], ['0', 'x', '_'], ['0', 'X', '_']]

/-- What `int(…, 16)` reads, in its ASCII form. -/
structure HexLiteral where
  lead : List Char
  sgn : List Char
  base : List Char
  numeral : List Char
  trail : List Char
  lead_blank : ∀ c ∈ lead, isIntSpace c = true
  sgn_valid : sgn ∈ [[], ['+'], ['-']]
  base_valid : base ∈ hexBases
  numeral_chars : ∀ c ∈ numeral, isHexOrUnderscore c = true
  numeral_valid : isNumeral numeral = true
  trail_blank : ∀ c ∈ trail, isIntSpace c = true

namespace HexLiteral

def text (l : HexLiteral) : List Char := l.lead ++ (l.sgn ++ (l.base ++ (l.numeral ++ l.trail)))

/-- It is more than its digits. -/
def Decorated (l : HexLiteral) : Prop :=
  l.lead ≠ [] ∨ l.sgn ≠ [] ∨ l.base ≠ [] ∨ '_' ∈ l.numeral ∨ l.trail ≠ []

end HexLiteral

theorem sign_split (t : List Char) : ∃ sgn ∈ [[], ['+'], ['-']], t = sgn ++ (sign t).2 := by
  cases t with
  | nil => exact ⟨[], by decide, rfl⟩
  | cons c t =>
    simp only [sign]
    split_ifs with hplus hminus
    · exact ⟨['+'], by decide, by rw [hplus]; rfl⟩
    · exact ⟨['-'], by decide, by rw [hminus]; rfl⟩
    · exact ⟨[], by decide, rfl⟩

theorem dropUnderscore_split (t : List Char) :
    t = dropUnderscore t ∨ t = '_' :: dropUnderscore t := by
  cases t with
  | nil => exact Or.inl rfl
  | cons c t =>
    simp only [dropUnderscore]
    split_ifs with hc
    · exact Or.inr (by rw [hc])
    · exact Or.inl rfl

theorem dropHexPrefix_split (t : List Char) : ∃ base ∈ hexBases, t = base ++ dropHexPrefix t := by
  unfold dropHexPrefix
  split
  · rename_i z x s
    split_ifs with hx
    · obtain ⟨rfl, hx⟩ := hx
      rcases dropUnderscore_split s with hs | hs
      · refine ⟨['0', x], ?_, congrArg ('0' :: x :: ·) hs⟩
        rcases hx with rfl | rfl <;> decide
      · refine ⟨['0', x, '_'], ?_, congrArg ('0' :: x :: ·) hs⟩
        rcases hx with rfl | rfl <;> decide
    · exact ⟨[], by decide, rfl⟩
  · exact ⟨[], by decide, rfl⟩

/-- A digit is no blank, no sign and no underscore. -/
theorem ne_of_hexValue {c : Char} (h : (hexValue c).isSome = true) :
    isIntSpace c = false ∧ c ≠ '+' ∧ c ≠ '-' ∧ c ≠ '_' := by
  have hother : ∀ d : Char, hexValue d = none → c ≠ d := by
    rintro d hd rfl
    rw [hd] at h
    cases h
  refine ⟨?_, hother _ (by decide), hother _ (by decide), hother _ (by decide)⟩
  unfold isIntSpace
  simp only [List.mem_cons, List.not_mem_nil, or_false, decide_eq_false_iff_not, not_or]
  exact ⟨hother _ (by decide), hother _ (by decide), hother _ (by decide), hother _ (by decide),
    hother _ (by decide), hother _ (by decide)⟩

theorem isHexOrUnderscore_iff {c : Char} :
    isHexOrUnderscore c = true ↔ (hexValue c).isSome = true ∨ c = '_' := by
  simp [isHexOrUnderscore]

theorem isHexOrUnderscore_of_blank {c : Char} (h : isIntSpace c = true) :
    isHexOrUnderscore c = false := by
  by_contra hc
  rcases isHexOrUnderscore_iff.mp (Bool.not_eq_false _ ▸ hc) with hdigit | rfl
  · rw [(ne_of_hexValue hdigit).1] at h
    cases h
  · exact absurd h (by decide)

/-! ## Reading a literal -/

theorem sign_of_digit {sgn s : List Char} {d : Char} (hsgn : sgn ∈ [[], ['+'], ['-']])
    (hd : (hexValue d).isSome = true) : (sign (sgn ++ d :: s)).2 = d :: s := by
  obtain ⟨-, hplus, hminus, -⟩ := ne_of_hexValue hd
  simp only [List.mem_cons, List.not_mem_nil, or_false] at hsgn
  rcases hsgn with rfl | rfl | rfl
  · simp [sign, hplus, hminus]
  · rfl
  · rfl

theorem dropHexPrefix_of_digit {base s : List Char} {d : Char} (hbase : base ∈ hexBases)
    (hd : (hexValue d).isSome = true) (hs : ∀ c ∈ s, c ≠ 'x' ∧ c ≠ 'X') :
    dropHexPrefix (base ++ d :: s) = d :: s := by
  have hunder : dropUnderscore (d :: s) = d :: s := if_neg (ne_of_hexValue hd).2.2.2
  simp only [hexBases, List.mem_cons, List.not_mem_nil, or_false] at hbase
  rcases hbase with rfl | rfl | rfl | rfl | rfl
  · cases s with
    | nil => rfl
    | cons x s =>
      have hx := hs x List.mem_cons_self
      exact if_neg fun h => h.2.elim hx.1 hx.2
  · exact hunder
  · exact hunder
  · rfl
  · rfl

/-- With a sign, and a prefix, a numeral does not begin with a blank. -/
theorem dropWhile_of_digit {lead sgn base s : List Char} {d : Char}
    (hlead : ∀ c ∈ lead, isIntSpace c = true) (hsgn : sgn ∈ [[], ['+'], ['-']])
    (hbase : base ∈ hexBases) (hd : (hexValue d).isSome = true) :
    (lead ++ (sgn ++ (base ++ d :: s))).dropWhile isIntSpace = sgn ++ (base ++ d :: s) := by
  have hblank := (ne_of_hexValue hd).1
  rw [List.dropWhile_append_of_pos hlead]
  simp only [hexBases, List.mem_cons, List.not_mem_nil, or_false] at hsgn hbase
  rcases hsgn with rfl | rfl | rfl
  · rcases hbase with rfl | rfl | rfl | rfl | rfl
    · exact List.dropWhile_cons_of_neg (by simp [hblank])
    all_goals rfl
  · rfl
  · rfl

/-- What follows the sign begins with a digit. -/
theorem exists_digit {base s : List Char} {d : Char} (hbase : base ∈ hexBases)
    (hd : (hexValue d).isSome = true) : ∃ e t, base ++ d :: s = e :: t ∧
      (hexValue e).isSome = true := by
  simp only [hexBases, List.mem_cons, List.not_mem_nil, or_false] at hbase
  rcases hbase with rfl | rfl | rfl | rfl | rfl
  · exact ⟨d, s, rfl, hd⟩
  all_goals exact ⟨'0', _, rfl, rfl⟩

/-- What follows blanks, a sign and a prefix. -/
def hexTail (s : String) : List Char :=
  dropHexPrefix (sign ((s.toList.map toAscii).dropWhile isIntSpace)).2

theorem isSome_intHex (s : String) : (intHex s).isSome = true ↔
    isNumeral ((hexTail s).takeWhile isHexOrUnderscore) = true ∧
      ∀ c ∈ (hexTail s).dropWhile isHexOrUnderscore, isIntSpace c = true := by
  rw [← List.all_eq_true, ← Bool.and_eq_true]
  unfold intHex hexTail
  dsimp only
  split
  · rename_i h
    exact iff_of_true rfl h
  · rename_i h
    exact iff_of_false Bool.false_ne_true h

/-- A numeral begins with a digit. -/
theorem exists_digit_of_isNumeral {numeral : List Char}
    (hchars : ∀ c ∈ numeral, isHexOrUnderscore c = true) (h : isNumeral numeral = true) :
    ∃ d s, numeral = d :: s ∧ (hexValue d).isSome = true := by
  cases numeral with
  | nil => cases h
  | cons d s =>
    refine ⟨d, s, rfl, ?_⟩
    rcases isHexOrUnderscore_iff.mp (hchars d List.mem_cons_self) with hd | rfl
    · exact hd
    · simp [isNumeral] at h

/-- No character of a numeral or a blank marks a base. -/
theorem ne_x_of_mem {c : Char} (h : isHexOrUnderscore c = true ∨ isIntSpace c = true) :
    c ≠ 'x' ∧ c ≠ 'X' := by
  constructor
  · rintro rfl
    exact absurd h (by decide)
  · rintro rfl
    exact absurd h (by decide)

theorem hexTail_of_literal {s : String} {l : HexLiteral} (h : s.toList.map toAscii = l.text) :
    hexTail s = l.numeral ++ l.trail := by
  obtain ⟨d, w, hnumeral, hd⟩ := exists_digit_of_isNumeral l.numeral_chars l.numeral_valid
  obtain ⟨e, t, he, hedigit⟩ :=
    exists_digit (s := w ++ l.trail) l.base_valid hd
  have hx : ∀ c ∈ w ++ l.trail, c ≠ 'x' ∧ c ≠ 'X' := by
    intro c hc
    refine ne_x_of_mem ?_
    rcases List.mem_append.mp hc with hc | hc
    · exact Or.inl (l.numeral_chars c (hnumeral ▸ List.mem_cons_of_mem d hc))
    · exact Or.inr (l.trail_blank c hc)
  rw [hexTail, h, HexLiteral.text, hnumeral, List.cons_append,
    dropWhile_of_digit l.lead_blank l.sgn_valid l.base_valid hd, he,
    sign_of_digit l.sgn_valid hedigit, ← he, dropHexPrefix_of_digit l.base_valid hd hx]

/-- **What `int(…, 16)` reads**: the literals, in ASCII. -/
theorem intHex_isSome_iff (s : String) :
    (intHex s).isSome = true ↔ ∃ l : HexLiteral, s.toList.map toAscii = l.text := by
  rw [isSome_intHex]
  constructor
  · rintro ⟨hvalid, htrail⟩
    obtain ⟨sgn, hsgn, hsplit⟩ := sign_split ((s.toList.map toAscii).dropWhile isIntSpace)
    obtain ⟨base, hbase, hbsplit⟩ :=
      dropHexPrefix_split (sign ((s.toList.map toAscii).dropWhile isIntSpace)).2
    refine ⟨⟨(s.toList.map toAscii).takeWhile isIntSpace, sgn, base,
      (hexTail s).takeWhile isHexOrUnderscore, (hexTail s).dropWhile isHexOrUnderscore,
      fun c hc => List.mem_takeWhile_imp hc, hsgn, hbase, fun c hc => List.mem_takeWhile_imp hc,
      hvalid, htrail⟩, ?_⟩
    change s.toList.map toAscii = (s.toList.map toAscii).takeWhile isIntSpace ++
      (sgn ++ (base ++ ((hexTail s).takeWhile isHexOrUnderscore ++
        (hexTail s).dropWhile isHexOrUnderscore)))
    rw [List.takeWhile_append_dropWhile, hexTail, ← hbsplit, ← hsplit,
      List.takeWhile_append_dropWhile]
  · rintro ⟨l, h⟩
    have htrail : ∀ c ∈ l.trail, isHexOrUnderscore c = false := fun c hc =>
      isHexOrUnderscore_of_blank (l.trail_blank c hc)
    have hstop : l.trail.takeWhile isHexOrUnderscore = [] ∧
        l.trail.dropWhile isHexOrUnderscore = l.trail := by
      cases htr : l.trail with
      | nil => exact ⟨rfl, rfl⟩
      | cons c w =>
        have hc := htrail c (htr ▸ List.mem_cons_self)
        exact ⟨List.takeWhile_cons_of_neg (by simp [hc]), List.dropWhile_cons_of_neg (by simp [hc])⟩
    rw [hexTail_of_literal h, List.takeWhile_append_of_pos l.numeral_chars,
      List.dropWhile_append_of_pos l.numeral_chars, hstop.1, hstop.2, List.append_nil]
    exact ⟨l.numeral_valid, l.trail_blank⟩

/-! ## Digits and nothing else -/

/-- `0` … `9` or `a` … `f`. -/
def IsLowerHex (c : Char) : Prop := ('0' ≤ c ∧ c ≤ '9') ∨ ('a' ≤ c ∧ c ≤ 'f')

instance (c : Char) : Decidable (IsLowerHex c) := inferInstanceAs (Decidable (_ ∨ _))

/-- `0` … `9`, `a` … `f` or `A` … `F`. -/
def IsHex (c : Char) : Prop := IsLowerHex c ∨ ('A' ≤ c ∧ c ≤ 'F')

instance (c : Char) : Decidable (IsHex c) := inferInstanceAs (Decidable (_ ∨ _))

theorem isSome_hexValue (c : Char) : (hexValue c).isSome = true ↔ IsHex c := by
  unfold hexValue IsHex IsLowerHex
  split_ifs <;> simp_all

theorem IsHex.toNat_lt {c : Char} (h : IsHex c) : c.toNat < 127 := by
  rcases h with (⟨-, h⟩ | ⟨-, h⟩) | ⟨-, h⟩
  · have hle : c.toNat ≤ 57 := h
    omega
  · have hle : c.toNat ≤ 102 := h
    omega
  · have hle : c.toNat ≤ 70 := h
    omega

theorem IsHex.isLowerHex_toLower {c : Char} (h : IsHex c) : IsLowerHex c.toLower := by
  have hall : ∀ n < 127, IsHex (Char.ofNat n) → IsLowerHex (Char.ofNat n).toLower := by decide
  have hc := hall c.toNat h.toNat_lt
  rw [Char.ofNat_toNat] at hc
  exact hc h

theorem toAscii_eq {c : Char} (h : c.toNat < 127) : toAscii c = c := if_pos h

/-- Digits are a numeral. -/
theorem isNumeral_of_hex {s : List Char} (hne : s ≠ []) (h : ∀ c ∈ s, IsHex c) :
    isNumeral s = true := by
  have hunder : ∀ c ∈ s, (c != '_') = true := by
    intro c hc
    exact bne_iff_ne.mpr (ne_of_hexValue ((isSome_hexValue c).mpr (h c hc))).2.2.2
  have hhead : s.head?.any (· != '_') = true := by
    rw [List.head?_eq_some_head hne]
    exact hunder _ (List.head_mem hne)
  have hlast : s.getLast?.any (· != '_') = true := by
    rw [List.getLast?_eq_getLast_of_ne_nil hne]
    exact hunder _ (List.getLast_mem hne)
  have hpairs : (s.zip s.tail).all (fun p => !(p.1 == '_' && p.2 == '_')) = true := by
    rw [List.all_eq_true]
    intro p hp
    have hp1 := hunder p.1 (List.of_mem_zip hp).1
    simp only [bne, Bool.not_eq_true'] at hp1
    rw [hp1]
    rfl
  rw [isNumeral, hhead, hlast, hpairs]
  rfl

/-- The literal that has digits only. -/
def HexLiteral.ofHex (s : List Char) (hne : s ≠ []) (h : ∀ c ∈ s, IsHex c) : HexLiteral where
  lead := []
  sgn := []
  base := []
  numeral := s
  trail := []
  lead_blank := List.forall_mem_nil _
  sgn_valid := List.mem_cons_self
  base_valid := List.mem_cons_self
  numeral_chars c hc := isHexOrUnderscore_iff.mpr (Or.inl ((isSome_hexValue c).mpr (h c hc)))
  numeral_valid := isNumeral_of_hex hne h
  trail_blank := List.forall_mem_nil _

/-- A literal of digits only has no decoration. -/
theorem HexLiteral.not_decorated {l : HexLiteral} (h : ∀ c ∈ l.text, IsHex c) : ¬ l.Decorated := by
  have hother : ∀ c ∈ l.text, isIntSpace c = false ∧ c ≠ '+' ∧ c ≠ '-' ∧ c ≠ '_' := fun c hc =>
    ne_of_hexValue ((isSome_hexValue c).mpr (h c hc))
  have hmem : ∀ c, c ∈ l.text ↔
      c ∈ l.lead ∨ c ∈ l.sgn ∨ c ∈ l.base ∨ c ∈ l.numeral ∨ c ∈ l.trail := by
    intro c
    simp only [text, List.mem_append]
  rintro (hlead | hsgn | hbase | hunder | htrail)
  · obtain ⟨c, hc⟩ := List.exists_mem_of_ne_nil _ hlead
    have hblank := (hother c ((hmem c).mpr (Or.inl hc))).1
    rw [l.lead_blank c hc] at hblank
    cases hblank
  · have hvalid := l.sgn_valid
    simp only [List.mem_cons, List.not_mem_nil, or_false] at hvalid
    rcases hvalid with hnil | hplus | hminus
    · exact hsgn hnil
    · exact (hother '+' ((hmem _).mpr (Or.inr (Or.inl (by rw [hplus]; decide))))).2.1 rfl
    · exact (hother '-' ((hmem _).mpr (Or.inr (Or.inl (by rw [hminus]; decide))))).2.2.1 rfl
  · have hmark : 'x' ∈ l.base ∨ 'X' ∈ l.base := by
      have hvalid := l.base_valid
      simp only [hexBases, List.mem_cons, List.not_mem_nil, or_false] at hvalid
      rcases hvalid with hnil | hx | hx | hx | hx
      · exact absurd hnil hbase
      all_goals
        rw [hx]
        decide
    rcases hmark with hx | hx
    · exact absurd (h 'x' ((hmem _).mpr (Or.inr (Or.inr (Or.inl hx))))) (by decide)
    · exact absurd (h 'X' ((hmem _).mpr (Or.inr (Or.inr (Or.inl hx))))) (by decide)
  · exact (hother '_' ((hmem _).mpr (Or.inr (Or.inr (Or.inr (Or.inl hunder)))))).2.2.2 rfl
  · obtain ⟨c, hc⟩ := List.exists_mem_of_ne_nil _ htrail
    have hblank := (hother c ((hmem c).mpr (Or.inr (Or.inr (Or.inr (Or.inr hc)))))).1
    rw [l.trail_blank c hc] at hblank
    cases hblank

/-- A literal without decoration has digits only. -/
theorem HexLiteral.isHex_of_not_decorated {l : HexLiteral} (h : ¬ l.Decorated) :
    ∀ c ∈ l.text, IsHex c := by
  simp only [Decorated, not_or, not_not] at h
  obtain ⟨hlead, hsgn, hbase, hunder, htrail⟩ := h
  intro c hc
  rw [text, hlead, hsgn, hbase, htrail, List.append_nil] at hc
  rcases isHexOrUnderscore_iff.mp (l.numeral_chars c hc) with hdigit | rfl
  · exact (isSome_hexValue c).mp hdigit
  · exact absurd hc hunder

end TpmAttest.Python
