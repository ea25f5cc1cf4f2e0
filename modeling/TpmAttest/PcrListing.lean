import Mathlib.Data.Bool.AllAny
import TpmAttest.PcrReader
import TpmAttest.Sha256
import TpmAttest.PythonBytes

/-! # A listing of PCR values

`tpm2_pcrread` prints a map from PCR indices to digests under a header for its bank, a
line for each index.  Of such a listing, whatever its blanks, the order of its lines and
the case of its digits, `read_pcrs` returns the six selected values in one spelling
(`readPcrs_listing`).
-/
namespace TpmAttest

open Python

/-! ## The text -/

/-- A blank within a line. -/
def IsLineBlank (c : Char) : Prop := isSpace c = true ∧ isLineBoundary c = false

/-- A PCR as `tpm2_pcrread` prints it: a register number of 32 bits, and the digest in
digits of either case. -/
structure PcrLine where
  index : Nat
  value : Digest
  lead : List Char
  before : List Char
  after : List Char
  digits : List Char
  trail : List Char
  index_lt : index < 2 ^ 32
  lead_ne : lead ≠ []
  lead_blank : ∀ c ∈ lead, IsLineBlank c
  before_blank : ∀ c ∈ before, IsLineBlank c
  after_blank : ∀ c ∈ after, IsLineBlank c
  trail_blank : ∀ c ∈ trail, IsLineBlank c
  digits_value : digits.map Char.toLower = (hex value.val).toList

/-- The line as it is printed. -/
def PcrLine.text (l : PcrLine) : List Char :=
  l.lead ++ (Nat.toDigits 10 l.index ++ (l.before ++ ':' :: (l.after ++ '0' :: 'x' ::
    (l.digits ++ l.trail))))

/-- A bank header, and the lines of a map that has the selected indices, in some order. -/
structure PcrListing where
  indent : List Char
  lines : List PcrLine
  indent_blank : ∀ c ∈ indent, IsLineBlank c
  distinct : (lines.map PcrLine.index).Nodup
  complete : ∀ i ∈ pcrIndices, i ∈ lines.map PcrLine.index

namespace PcrListing

/-- The output. -/
def text (l : PcrListing) : String :=
  String.ofList (l.indent ++ "sha256:\n".toList ++ l.lines.flatMap fun line => line.text ++ ['\n'])

/-- The map that is printed. -/
def value (l : PcrListing) (index : Nat) : Option Digest :=
  (l.lines.find? fun line => line.index = index).map PcrLine.value

end PcrListing

/-- `0x` and the digits of a digest in upper case. -/
def pcrText (d : Digest) : String :=
  String.ofList ('0' :: 'x' :: (hex d.val).toList.map Char.toUpper)

/-! ## One line of a listing -/

theorem head?_cons {p : Char → Bool} {x : Char} (h : p x = false) (s : List Char) :
    ∀ c ∈ (x :: s).head?, p c = false := by
  intro c hc
  obtain rfl : x = c := Option.some.inj hc
  exact h

/-- What follows begins with a character of another kind. -/
theorem takeWhile_stop {p : Char → Bool} {s t : List Char} (hs : ∀ a ∈ s, p a = true)
    (ht : ∀ c ∈ t.head?, p c = false) : (s ++ t).takeWhile p = s ∧ (s ++ t).dropWhile p = t := by
  rw [List.takeWhile_append_of_pos hs, List.dropWhile_append_of_pos hs]
  cases t with
  | nil => exact ⟨List.append_nil s, rfl⟩
  | cons c t =>
    have hc : ¬ p c = true := by
      rw [ht c rfl]
      exact Bool.false_ne_true
    rw [List.takeWhile_cons_of_neg hc, List.dropWhile_cons_of_neg hc]
    exact ⟨List.append_nil s, rfl⟩

theorem isSpace_of_isLineBoundary {c : Char} (h : isLineBoundary c = true) : isSpace c = true := by
  have hall : ∀ n ∈ [0xa, 0xb, 0xc, 0xd, 0x1c, 0x1d, 0x1e, 0x85, 0x2028, 0x2029],
      isSpace (Char.ofNat n) = true := by decide
  have hc := hall c.toNat (of_decide_eq_true h)
  rwa [Char.ofNat_toNat] at hc

/-- A blank is no digit. -/
theorem not_digit_of_isSpace {c : Char} (h : isSpace c = true) :
    isDecimal c = false ∧ isHexDigit c = false :=
  of_isSpace (p := fun c => isDecimal c = false ∧ isHexDigit c = false) (by decide) h

/-- The end of some blanks. -/
theorem head?_blanks {s t : List Char} {p : Char → Bool} (hs : ∀ c ∈ s, IsLineBlank c)
    (hp : ∀ c, isSpace c = true → p c = false) (ht : ∀ c ∈ t.head?, p c = false) :
    ∀ c ∈ (s ++ t).head?, p c = false := by
  cases s with
  | nil => exact ht
  | cons b s => exact head?_cons (hp b (hs b List.mem_cons_self).1) (s ++ t)

/-- A decimal digit of an index. -/
theorem decimalValue_of_isDigit {c : Char} (h : c.isDigit = true) :
    decimalValue c = some (c.toNat - '0'.toNat) ∧ isSpace c = false := by
  have hall : ∀ k < 10, decimalValue (Char.ofNat (48 + k)) = some k ∧
      isSpace (Char.ofNat (48 + k)) = false := by decide
  have hrange : 48 ≤ c.toNat ∧ c.toNat ≤ 57 := by
    have hbounds := h
    rw [Char.isDigit, Bool.and_eq_true, decide_eq_true_eq, decide_eq_true_eq] at hbounds
    exact hbounds
  have hk := hall (c.toNat - 48) (by omega)
  rw [Nat.add_sub_cancel' hrange.1, Char.ofNat_toNat] at hk
  exact hk

theorem intDecimal_toDigits {n : Nat} (h : n < 2 ^ 32) :
    intDecimal (Nat.toDigits 10 n) = .ok n := by
  have hlength : (Nat.toDigits 10 n).length ≤ 10 :=
    (Nat.length_toDigits_le_iff (by decide) (by decide)).mpr (Nat.lt_trans h (by decide))
  have hfold : ∀ (s : List Char) (m : Nat), (∀ c ∈ s, c.isDigit = true) →
      s.foldl (fun n c => 10 * n + (decimalValue c).getD 0) m = Nat.ofDigitChars 10 s m := by
    intro s
    induction s with
    | nil => exact fun _ _ => rfl
    | cons c s ih =>
      intro m hs
      obtain ⟨hc, hs⟩ := List.forall_mem_cons.mp hs
      rw [List.foldl_cons, ih _ hs, (decimalValue_of_isDigit hc).1, Nat.ofDigitChars_cons]
      rfl
  rw [intDecimal, if_neg (by omega),
    hfold _ 0 fun c hc => Nat.isDigit_of_mem_toDigits (by decide) (by decide) hc,
    Nat.ofDigitChars_toDigits (by decide) (by decide)]

theorem toUpper_toLower (c : Char) : c.toLower.toUpper = c.toUpper := by
  rcases toLower_cases c with h | ⟨k, hk, rfl⟩
  · rw [h]
  · revert k
    decide

theorem replacePrefix_of_notMem : ∀ {s : List Char}, 'X' ∉ s → replacePrefix s = s
  | [], _ => rfl
  | c :: s, h => by
    rw [List.mem_cons, not_or] at h
    have htail := replacePrefix_of_notMem h.2
    rw [replacePrefix, htail]
    rintro s' rfl rfl
    exact h.2 List.mem_cons_self

namespace PcrLine
variable (l : PcrLine)

/-- The digits of a line. -/
theorem isHexDigit_of_mem : ∀ c ∈ l.digits, isHexDigit c = true := by
  intro c hc
  have hmem : c.toLower ∈ (hex l.value.val).toList := l.digits_value ▸ List.mem_map_of_mem hc
  obtain ⟨n, hn, hlower⟩ := mem_hex hmem
  rw [isHexDigit, ← hexValue_toLower, hlower, hexValue_hexDigit hn]
  rfl

theorem length_digits : l.digits.length = 64 := by
  have hlength := congrArg List.length l.digits_value
  rw [List.length_map, String.length_toList, length_hex, l.value.property] at hlength
  exact hlength

/-- What the regular expression captures of it. -/
theorem matchPcrLine_text :
    matchPcrLine l.text = some (Nat.toDigits 10 l.index, '0' :: 'x' :: l.digits) := by
  have hblank : ∀ {s : List Char}, (∀ c ∈ s, IsLineBlank c) → ∀ c ∈ s, isSpace c = true :=
    fun h c hc => (h c hc).1
  have hdigit : ∀ c ∈ Nat.toDigits 10 l.index, c.isDigit = true :=
    fun c hc => Nat.isDigit_of_mem_toDigits (by decide) (by decide) hc
  have hdecimal : ∀ c ∈ Nat.toDigits 10 l.index, isDecimal c = true := by
    intro c hc
    rw [isDecimal, (decimalValue_of_isDigit (hdigit c hc)).1]
    rfl
  have hne : Nat.toDigits 10 l.index ≠ [] := Nat.toDigits_ne_nil
  -- the blanks in front, and the index
  obtain ⟨b, lead, hlead⟩ := List.exists_cons_of_ne_nil l.lead_ne
  have hfirst : l.text.head?.any isSpace = true := by
    rw [text, hlead]
    exact hblank l.lead_blank b (hlead ▸ List.mem_cons_self)
  have hindent := takeWhile_stop (hblank l.lead_blank)
    (t := Nat.toDigits 10 l.index ++ (l.before ++ ':' :: (l.after ++ '0' :: 'x' ::
      (l.digits ++ l.trail)))) (by
        obtain ⟨d, ds, hds⟩ := List.exists_cons_of_ne_nil hne
        rw [hds]
        exact head?_cons (decimalValue_of_isDigit (hdigit d (hds ▸ List.mem_cons_self))).2 _)
  have hindex := takeWhile_stop hdecimal
    (t := l.before ++ ':' :: (l.after ++ '0' :: 'x' :: (l.digits ++ l.trail)))
    (head?_blanks l.before_blank (fun c hc => (not_digit_of_isSpace hc).1) (head?_cons rfl _))
  -- the colon, and the digits
  have hbefore := takeWhile_stop (hblank l.before_blank)
    (t := ':' :: (l.after ++ '0' :: 'x' :: (l.digits ++ l.trail))) (head?_cons rfl _)
  have hafter := takeWhile_stop (hblank l.after_blank)
    (t := '0' :: 'x' :: (l.digits ++ l.trail)) (head?_cons rfl _)
  have hdigits := takeWhile_stop (s := l.digits) (t := l.trail) l.isHexDigit_of_mem (by
    rw [← List.append_nil l.trail]
    exact head?_blanks l.trail_blank (fun c hc => (not_digit_of_isSpace hc).2) (by simp))
  have hnonempty : l.digits.isEmpty = false := by
    rw [List.isEmpty_eq_false_iff, ← List.length_pos_iff, length_digits]
    decide
  have htrail : l.trail.all isSpace = true := List.all_eq_true.mpr (hblank l.trail_blank)
  unfold matchPcrLine
  rw [text] at hfirst ⊢
  rw [hindent.2, hfirst]
  dsimp only
  rw [hindex.1, hindex.2, hbefore.2, List.isEmpty_eq_false_iff.mpr hne, if_pos (by decide)]
  split
  · rename_i s hs
    obtain rfl := (List.cons.inj hs).2
    rw [hafter.2]
    split
    · rename_i s hs
      obtain rfl := (List.cons.inj (List.cons.inj hs).2).2
      rw [hdigits.1, hdigits.2, hnonempty, htrail]
      rfl
    · rename_i h
      exact absurd rfl (h _)
  · rename_i h
    exact absurd rfl (h _)

/-- The digits in the spelling of the agent: no `0X` stands among them. -/
theorem replacePrefix_toUpper :
    String.ofList (replacePrefix (('0' :: 'x' :: l.digits).map Char.toUpper)) =
      pcrText l.value := by
  have hupper : l.digits.map Char.toUpper = (hex l.value.val).toList.map Char.toUpper := by
    rw [← l.digits_value, List.map_map]
    exact List.map_congr_left fun c _ => (toUpper_toLower c).symm
  have hplain : 'X' ∉ (hex l.value.val).toList.map Char.toUpper := by
    have hdigit : ∀ n < 16, (hexDigit n).toUpper ≠ 'X' := by decide
    intro h
    obtain ⟨c, hc, hX⟩ := List.mem_map.mp h
    obtain ⟨n, hn, rfl⟩ := mem_hex hc
    exact hdigit n hn hX
  change String.ofList ('0' :: 'x' :: replacePrefix (l.digits.map Char.toUpper)) = _
  rw [hupper, replacePrefix_of_notMem hplain, pcrText]

/-- **A line of a listing.** -/
theorem readPcrLine_text (pcrs : PcrMap) :
    readPcrLine pcrs l.text =
      .ok (if l.index ∈ pcrIndices then pcrs.insert l.index (pcrText l.value) else pcrs) := by
  unfold readPcrLine
  rw [l.matchPcrLine_text]
  dsimp only
  rw [intDecimal_toDigits l.index_lt, l.replacePrefix_toUpper]
  rfl

/-- It is one line. -/
theorem text_not_boundary : ∀ c ∈ l.text, isLineBoundary c = false := by
  intro c hc
  have hdigit : isDecimal c = true ∨ isHexDigit c = true → isLineBoundary c = false := by
    intro h
    rw [← Bool.not_eq_true]
    intro hboundary
    have hdigits := not_digit_of_isSpace (isSpace_of_isLineBoundary hboundary)
    rw [hdigits.1, hdigits.2] at h
    exact h.elim Bool.false_ne_true Bool.false_ne_true
  simp only [text, List.mem_append, List.mem_cons] at hc
  rcases hc with hc | hc | hc | rfl | hc | rfl | rfl | hc | hc
  · exact (l.lead_blank c hc).2
  · apply hdigit
    left
    rw [isDecimal, (decimalValue_of_isDigit (Nat.isDigit_of_mem_toDigits (by decide) (by decide) hc)).1]
    rfl
  · exact (l.before_blank c hc).2
  · rfl
  · exact (l.after_blank c hc).2
  · rfl
  · rfl
  · exact hdigit (Or.inr (l.isHexDigit_of_mem c hc))
  · exact (l.trail_blank c hc).2

end PcrLine

/-! ## A listing -/

namespace PcrListing
variable (l : PcrListing)

theorem splitlines_text :
    splitlines l.text.toList = (l.indent ++ "sha256:".toList) :: l.lines.map PcrLine.text := by
  have hheader : ∀ c ∈ l.indent ++ "sha256:".toList, isLineBoundary c = false := by
    have hname : ∀ c ∈ "sha256:".toList, isLineBoundary c = false :=
      List.all_iff_forall_prop.mp (by decide)
    intro c hc
    rcases List.mem_append.mp hc with hc | hc
    · exact (l.indent_blank c hc).2
    · exact hname c hc
  have hlines : ∀ line ∈ l.lines.map PcrLine.text, ∀ c ∈ line, isLineBoundary c = false := by
    intro line hline
    obtain ⟨pcr, -, rfl⟩ := List.mem_map.mp hline
    exact pcr.text_not_boundary
  have htext : l.text.toList = ((l.indent ++ "sha256:".toList) :: l.lines.map PcrLine.text).flatMap
      fun line => line ++ ['\n'] := by
    rw [text, String.toList_ofList, List.flatMap_cons, List.flatMap_map]
    congr 1
    rw [List.append_assoc]
    rfl
  rw [htext]
  exact splitlines_flatMap (List.forall_mem_cons.mpr ⟨hheader, hlines⟩)

/-- The header is no PCR. -/
theorem matchPcrLine_header : matchPcrLine (l.indent ++ "sha256:".toList) = none := by
  have hindent := takeWhile_stop (s := l.indent) (t := "sha256:".toList)
    (fun c hc => (l.indent_blank c hc).1) (head?_cons rfl _)
  unfold matchPcrLine
  rw [hindent.2]
  refine if_neg ?_
  rw [show "sha256:".toList.takeWhile isDecimal = [] from by decide]
  simp

end PcrListing

/-- The map after the lines: a value of a selected index replaces what was there. -/
theorem get_foldl_insert {lines : List PcrLine} (h : (lines.map PcrLine.index).Nodup)
    (pcrs : PcrMap) (i : Nat) :
    (lines.foldl (fun pcrs line => if line.index ∈ pcrIndices
        then pcrs.insert line.index (pcrText line.value) else pcrs) pcrs).get i =
      if i ∈ pcrIndices then
        ((lines.find? fun line => line.index = i).map fun line => pcrText line.value).or (pcrs.get i)
      else pcrs.get i := by
  induction lines generalizing pcrs with
  | nil => simp
  | cons line lines ih =>
    rw [List.map_cons, List.nodup_cons] at h
    rw [List.foldl_cons, ih h.2]
    by_cases hline : line.index = i
    · -- no other line has this index
      have hnone : lines.find? (fun line => line.index = i) = none := by
        rw [List.find?_eq_none]
        intro line' hline'
        rw [decide_eq_true_eq]
        intro heq
        exact h.1 (List.mem_map.mpr ⟨line', hline', heq.trans hline.symm⟩)
      rw [hnone, List.find?_cons_of_pos (by simpa using hline)]
      by_cases hi : i ∈ pcrIndices
      · rw [if_pos hi, if_pos hi, if_pos (by rwa [hline]), PcrMap.get_insert, if_pos hline.symm]
        rfl
      · rw [if_neg hi, if_neg hi, if_neg (by rwa [hline])]
    · rw [List.find?_cons_of_neg (by simpa using hline)]
      have hne : ¬ i = line.index := fun heq => hline heq.symm
      by_cases hindex : line.index ∈ pcrIndices
      · rw [if_pos hindex, PcrMap.get_insert, if_neg hne]
      · rw [if_neg hindex]

/-- **What `read_pcrs` returns of a listing**: the selected values. -/
theorem readPcrs_listing (l : PcrListing) (stderr : String) :
    ∃ pcrs, readPcrs ⟨0, l.text, stderr⟩ = .ok pcrs ∧
      ∀ i, pcrs.get i = if i ∈ pcrIndices then (l.value i).map pcrText else none := by
  have hread : ∀ (lines : List PcrLine) (pcrs : PcrMap),
      (lines.map PcrLine.text).foldlM readPcrLine pcrs = .ok (lines.foldl (fun pcrs line =>
        if line.index ∈ pcrIndices then pcrs.insert line.index (pcrText line.value) else pcrs)
          pcrs) := by
    intro lines
    induction lines with
    | nil => exact fun _ => rfl
    | cons line lines ih =>
      intro pcrs
      rw [List.map_cons, List.foldlM_cons, line.readPcrLine_text, List.foldl_cons]
      exact ih _
  have hheader : readPcrLine .empty (l.indent ++ "sha256:".toList) = .ok .empty := by
    rw [readPcrLine, l.matchPcrLine_header]
  obtain ⟨pcrs, hpcrs⟩ : ∃ pcrs, pcrs = l.lines.foldl (fun pcrs line =>
    if line.index ∈ pcrIndices then pcrs.insert line.index (pcrText line.value) else pcrs)
      PcrMap.empty := ⟨_, rfl⟩
  have hget : ∀ i, pcrs.get i = if i ∈ pcrIndices then (l.value i).map pcrText else none := by
    intro i
    rw [hpcrs, get_foldl_insert l.distinct, PcrListing.value, Option.map_map]
    change (if _ then ((l.lines.find? _).map _).or none else none) = _
    rw [Option.or_none]
    rfl
  refine ⟨pcrs, ?_, hget⟩
  have hmissing : (pcrIndices.filter fun index => (pcrs.get index).isNone) = [] := by
    rw [List.filter_eq_nil_iff]
    intro i hi
    obtain ⟨line, hline, heq⟩ := List.mem_map.mp (l.complete i hi)
    rw [hget, if_pos hi, Option.isNone_map, PcrListing.value, Option.isNone_map,
      Option.isNone_iff_eq_none, List.find?_eq_none]
    intro hnone
    exact hnone line hline (by simpa using heq)
  unfold readPcrs
  rw [if_neg (by simp), l.splitlines_text, List.foldlM_cons, hheader]
  change ((l.lines.map PcrLine.text).foldlM readPcrLine PcrMap.empty >>= _) = _
  rw [hread, ← hpcrs]
  change (if _ then _ else _) = _
  rw [hmissing]
  rfl

end TpmAttest
