import Mathlib.Data.List.DropRight
import Mathlib.Data.List.TakeWhile

/-! # The text functions of Python's standard library

The agent and the server are Python programs, and much of what they decide rests
on what `str` methods, `int(s, 16)`, `bytes.hex` and `base64.b64decode` do with
odd input: Unicode blanks, underscores, digits of other scripts, characters
outside the base64 alphabet.  They are defined here after CPython 3.11, whose
Unicode tables are those of Unicode 14.

A `str` is a `String`: its code points, surrogates aside.  A `bytes` value is a
list of bytes.  Two tables are left out and are parameters: the case mapping of
`str.lower` outside ASCII, which `lower` consults only for text with a character
that could have a case, and the printable characters outside ASCII, for `repr`.
-/
namespace TpmAttest

/-- A Python `bytes` value. -/
abbrev Bytes := List UInt8

/-- The exceptions that the programs raise or let through, with their texts. -/
inductive Exn where
  | runtimeError (text : String)
  | valueError (text : String)
  | indexError (text : String)
  | overflowError (text : String)
  | databaseError (text : String)
  deriving DecidableEq, Repr

namespace Python

/-! ## Blanks, lines and fields -/

/-- `c.isspace()`. -/
def isSpace (c : Char) : Bool :=
  c.toNat ∈ [0x9, 0xa, 0xb, 0xc, 0xd, 0x1c, 0x1d, 0x1e, 0x1f, 0x20, 0x85, 0xa0, 0x1680,
    0x2000, 0x2001, 0x2002, 0x2003, 0x2004, 0x2005, 0x2006, 0x2007, 0x2008, 0x2009, 0x200a,
    0x2028, 0x2029, 0x202f, 0x205f, 0x3000]

/-- What holds of every blank. -/
theorem of_isSpace {p : Char → Prop}
    (h : ∀ n ∈ [0x9, 0xa, 0xb, 0xc, 0xd, 0x1c, 0x1d, 0x1e, 0x1f, 0x20, 0x85, 0xa0, 0x1680,
      0x2000, 0x2001, 0x2002, 0x2003, 0x2004, 0x2005, 0x2006, 0x2007, 0x2008, 0x2009, 0x200a,
      0x2028, 0x2029, 0x202f, 0x205f, 0x3000], p (Char.ofNat n)) {c : Char}
    (hc : isSpace c = true) : p c := by
  have hp := h c.toNat (of_decide_eq_true hc)
  rwa [Char.ofNat_toNat] at hp

/-- The characters at which `str.splitlines` ends a line. -/
def isLineBoundary (c : Char) : Bool :=
  c.toNat ∈ [0xa, 0xb, 0xc, 0xd, 0x1c, 0x1d, 0x1e, 0x85, 0x2028, 0x2029]

/-- `s.strip()`. -/
def strip (s : List Char) : List Char := (s.dropWhile isSpace).rdropWhile isSpace

/-- `s.split(sep, maxsplit)`: the separator is one character, and after
`maxsplit` cuts the rest is left whole. -/
def split (sep : Char) : Nat → List Char → List (List Char)
  | 0, s => [s]
  | maxsplit + 1, s =>
    match s.dropWhile (· != sep) with
    | [] => [s]
    | _ :: rest => s.takeWhile (· != sep) :: split sep maxsplit rest

/-- `splitlines` with the characters of the current line read so far. -/
def splitlinesFrom (line : List Char) : List Char → List (List Char)
  | [] => if line.isEmpty then [] else [line]
  | '\r' :: '\n' :: s => line :: splitlinesFrom [] s
  | c :: s => if isLineBoundary c then line :: splitlinesFrom [] s else splitlinesFrom (line ++ [c]) s

/-- `s.splitlines()`. -/
def splitlines (s : List Char) : List (List Char) := splitlinesFrom [] s

/-- A character that does not open a `\r\n` ends the line or joins it. -/
theorem splitlinesFrom_cons {line : List Char} {c : Char} {s : List Char}
    (h : ∀ s', c = '\r' → s = '\n' :: s' → False) :
    splitlinesFrom line (c :: s) =
      if isLineBoundary c then line :: splitlinesFrom [] s else splitlinesFrom (line ++ [c]) s := by
  rw [splitlinesFrom]
  exact h

/-- **A `\n` separates**: what stands after it does not change the lines before it. -/
theorem splitlinesFrom_newline (line s t : List Char) :
    splitlinesFrom line (s ++ '\n' :: t) = splitlinesFrom line (s ++ ['\n']) ++ splitlines t := by
  fun_induction splitlinesFrom line s with
  | case1 | case2 => simp [splitlinesFrom, splitlines, isLineBoundary]
  | case3 line s ih => simp [splitlinesFrom, ih]
  | case4 line c s hc hb ih =>
    cases s with
    | nil =>
      -- a `\r` here would join the `\n` that follows
      by_cases hr : c = '\r'
      · subst hr
        simp [splitlinesFrom, splitlines]
      · have hno : ∀ u s', c = '\r' → '\n' :: u = '\n' :: s' → False := fun _ _ h _ => hr h
        have hn : isLineBoundary '\n' = true := rfl
        simp [splitlinesFrom_cons (hno _), hb, hn, splitlinesFrom, splitlines]
    | cons d s =>
      have hno : ∀ u s', c = '\r' → d :: s ++ u = '\n' :: s' → False := by
        intro u s' hcr hs
        exact hc s hcr (by rw [(List.cons.inj hs).1])
      change splitlinesFrom line (c :: (d :: s ++ '\n' :: t)) =
        splitlinesFrom line (c :: (d :: s ++ ['\n'])) ++ splitlines t
      rw [splitlinesFrom_cons (hno _), splitlinesFrom_cons (hno _), if_pos hb, if_pos hb, ih]
      rfl
  | case5 line c s hc hb ih =>
    have hr : c ≠ '\r' := by
      rintro rfl
      exact hb (by decide)
    have hno : ∀ u s', c = '\r' → s ++ u = '\n' :: s' → False := fun _ _ h _ => hr h
    rw [List.cons_append, List.cons_append, splitlinesFrom_cons (hno _),
      splitlinesFrom_cons (hno _), if_neg hb, if_neg hb, ih]

theorem splitlinesFrom_boundary {line : List Char} {c : Char} {s : List Char}
    (hc : isLineBoundary c = true) (h : c = '\r' → ∀ s', s ≠ '\n' :: s') :
    splitlinesFrom line (c :: s) = line :: splitlinesFrom [] s := by
  rw [splitlinesFrom_cons fun s' hr hs => h hr s' hs, if_pos hc]

/-- A line and its newline. -/
theorem splitlinesFrom_line {line s : List Char} (h : ∀ c ∈ s, isLineBoundary c = false) :
    splitlinesFrom line (s ++ ['\n']) = [line ++ s] := by
  induction s generalizing line with
  | nil =>
    rw [List.nil_append, splitlinesFrom_boundary rfl fun h => absurd h (by decide), List.append_nil]
    rfl
  | cons c s ih =>
    obtain ⟨hc, hs⟩ := List.forall_mem_cons.mp h
    have hr : c ≠ '\r' := by
      rintro rfl
      exact absurd hc (by decide)
    rw [List.cons_append, splitlinesFrom_cons fun _ h _ => hr h, if_neg (by rw [hc]; decide), ih hs,
      List.append_assoc]
    rfl

/-- The lines of a text that follows a `\n` are added to those before it. -/
theorem splitlines_append {s : List Char} (h : s = [] ∨ ∃ s', s = s' ++ ['\n']) (t : List Char) :
    splitlines (s ++ t) = splitlines s ++ splitlines t := by
  rcases h with rfl | ⟨s, rfl⟩
  · rfl
  · rw [List.append_assoc]
    exact splitlinesFrom_newline [] s t

/-- Lines that end in `\n`. -/
theorem splitlines_flatMap {lines : List (List Char)}
    (h : ∀ line ∈ lines, ∀ c ∈ line, isLineBoundary c = false) :
    splitlines (lines.flatMap fun line => line ++ ['\n']) = lines := by
  induction lines with
  | nil => rfl
  | cons line lines ih =>
    obtain ⟨hline, hlines⟩ := List.forall_mem_cons.mp h
    rw [List.flatMap_cons, splitlines_append (Or.inr ⟨line, rfl⟩), ih hlines, splitlines,
      splitlinesFrom_line hline]
    rfl

/-! ## Case -/

/-- The zeros of the decimal digits: each starts a block `0` … `9`. -/
def decimalZeros : List Nat :=
  [0x30, 0x660, 0x6f0, 0x7c0, 0x966, 0x9e6, 0xa66, 0xae6, 0xb66, 0xbe6, 0xc66, 0xce6, 0xd66,
    0xde6, 0xe50, 0xed0, 0xf20, 0x1040, 0x1090, 0x17e0, 0x1810, 0x1946, 0x19d0, 0x1a80, 0x1a90,
    0x1b50, 0x1bb0, 0x1c40, 0x1c50, 0xa620, 0xa8d0, 0xa900, 0xa9d0, 0xa9f0, 0xaa50, 0xabf0,
    0xff10, 0x104a0, 0x10d30, 0x11066, 0x110f0, 0x11136, 0x111d0, 0x112f0, 0x11450, 0x114d0,
    0x11650, 0x116c0, 0x11730, 0x118e0, 0x11950, 0x11c50, 0x11d50, 0x11da0, 0x16a60, 0x16ac0,
    0x16b50, 0x1d7ce, 0x1d7d8, 0x1d7e2, 0x1d7ec, 0x1d7f6, 0x1e140, 0x1e2f0, 0x1e950, 0x1fbf0]

/-- The value of a decimal digit of any script. -/
def decimalValue (c : Char) : Option Nat :=
  (decimalZeros.find? fun z => z ≤ c.toNat && c.toNat < z + 10).map (c.toNat - ·)

/-- Characters whose lower case needs no table: the ASCII ones, and the blanks
and digits of every script, which have no case. -/
def isPlain (c : Char) : Bool := c.toNat < 128 || isSpace c || (decimalValue c).isSome

/-- `s.lower()`.  `table` is the lower-case mapping of texts with characters
other than the plain ones. -/
def lower (table : String → String) (s : String) : String :=
  if s.toList.all isPlain then String.ofList (s.toList.map Char.toLower) else table s

/-! ## Quoted text -/

/-- The lower-case hexadecimal digit of a value below 16. -/
def hexDigit (n : Nat) : Char := if n < 10 then Char.ofNat (48 + n) else Char.ofNat (87 + n)

/-- The last `k` hexadecimal digits of a number. -/
def hexDigits : Nat → Nat → List Char
  | 0, _ => []
  | k + 1, n => hexDigits k (n / 16) ++ [hexDigit (n % 16)]

/-- A character as `repr` writes it between quotes. -/
def escape (printable : Char → Bool) (quote c : Char) : List Char :=
  if c = quote ∨ c = '\\' then ['\\', c]
  else if c = '\t' then ['\\', 't']
  else if c = '\n' then ['\\', 'n']
  else if c = '\r' then ['\\', 'r']
  else if c.toNat < 32 ∨ c.toNat = 127 then '\\' :: 'x' :: hexDigits 2 c.toNat
  else if c.toNat < 127 ∨ printable c then [c]
  else if c.toNat < 256 then '\\' :: 'x' :: hexDigits 2 c.toNat
  else if c.toNat < 65536 then '\\' :: 'u' :: hexDigits 4 c.toNat
  else '\\' :: 'U' :: hexDigits 8 c.toNat

/-- `repr(s)`.  `printable` says which characters outside ASCII are printable. -/
def repr (printable : Char → Bool) (s : String) : String :=
  let quote := if '\'' ∈ s.toList ∧ '"' ∉ s.toList then '"' else '\''
  String.ofList (quote :: s.toList.flatMap (escape printable quote) ++ [quote])

/-! ## Integers -/

/-- The ASCII form that `int` reads a character in: a digit of another script is
its ASCII digit, another script's blank is a space, anything else is invalid. -/
def toAscii (c : Char) : Char :=
  if c.toNat < 127 then c
  else if isSpace c then ' '
  else match decimalValue c with
    | some d => Char.ofNat ('0'.toNat + d)
    | none => '?'

/-- The blanks that `int` skips around the ASCII form. -/
def isIntSpace (c : Char) : Bool := c ∈ [' ', '\t', '\n', '\x0b', '\x0c', '\r']

/-- The value of a hexadecimal digit. -/
def hexValue (c : Char) : Option Nat :=
  if '0' ≤ c ∧ c ≤ '9' then some (c.toNat - '0'.toNat)
  else if 'a' ≤ c ∧ c ≤ 'f' then some (c.toNat - 'a'.toNat + 10)
  else if 'A' ≤ c ∧ c ≤ 'F' then some (c.toNat - 'A'.toNat + 10)
  else none

/-- An optional sign, and what follows it. -/
def sign : List Char → Int × List Char
  | [] => (1, [])
  | c :: s => if c = '+' then (1, s) else if c = '-' then (-1, s) else (1, c :: s)

/-- One underscore at the front is skipped. -/
def dropUnderscore : List Char → List Char
  | [] => []
  | c :: s => if c = '_' then s else c :: s

/-- A prefix `0x` is skipped, with one underscore after it. -/
def dropHexPrefix : List Char → List Char
  | z :: x :: s => if z = '0' ∧ (x = 'x' ∨ x = 'X') then dropUnderscore s else z :: x :: s
  | s => s

/-- The characters of a hexadecimal numeral. -/
def isHexOrUnderscore (c : Char) : Bool := (hexValue c).isSome || c == '_'

/-- A numeral is not empty, and each underscore stands between two digits. -/
def isNumeral (s : List Char) : Bool :=
  s.head?.any (· != '_') && s.getLast?.any (· != '_') &&
    (s.zip s.tail).all fun p => !(p.1 == '_' && p.2 == '_')

/-- The number a numeral stands for. -/
def numeralValue (s : List Char) : Nat :=
  (s.filterMap hexValue).foldl (fun n d => 16 * n + d) 0

/-- `int(s, 16)`; `none` is its `ValueError`. -/
def intHex (s : String) : Option Int :=
  let (sgn, t) := sign ((s.toList.map toAscii).dropWhile isIntSpace)
  let t := dropHexPrefix t
  let numeral := t.takeWhile isHexOrUnderscore
  if isNumeral numeral && (t.dropWhile isHexOrUnderscore).all isIntSpace then
    some (sgn * numeralValue numeral)
  else none

/-! ## What `int` accepts, and letter case -/

/-- The characters that can occur in the ASCII form of an integer. -/
def isIntChar (c : Char) : Bool :=
  isIntSpace c || c ∈ ['+', '-', 'x', 'X'] || isHexOrUnderscore c

theorem isIntChar_of_sign {s : List Char} (h : ∀ c ∈ (sign s).2, isIntChar c) :
    ∀ c ∈ s, isIntChar c := by
  cases s with
  | nil => simp
  | cons c s =>
    simp only [sign] at h
    split_ifs at h with hp hm
    · subst hp
      simpa using ⟨by decide, h⟩
    · subst hm
      simpa using ⟨by decide, h⟩
    · exact h

theorem isIntChar_of_dropUnderscore {s : List Char} (h : ∀ c ∈ dropUnderscore s, isIntChar c) :
    ∀ c ∈ s, isIntChar c := by
  cases s with
  | nil => simp
  | cons c s =>
    simp only [dropUnderscore] at h
    split_ifs at h with hc
    · subst hc
      simpa using ⟨by decide, h⟩
    · exact h

theorem isIntChar_of_dropHexPrefix {s : List Char} (h : ∀ c ∈ dropHexPrefix s, isIntChar c) :
    ∀ c ∈ s, isIntChar c := by
  unfold dropHexPrefix at h
  split at h
  · rename_i z x s
    split_ifs at h with hx
    · obtain ⟨rfl, hx⟩ := hx
      have h0 : isIntChar '0' = true := by decide
      have hx' : isIntChar x = true := by rcases hx with rfl | rfl <;> decide
      simpa [h0, hx'] using isIntChar_of_dropUnderscore h
    · exact h
  · exact h

/-- **Every character of an integer is one `int` knows**, a blank, a sign, a
digit, a letter of the prefix or an underscore. -/
theorem isIntChar_of_intHex {s : String} {n : Int} (h : intHex s = some n) :
    ∀ c ∈ s.toList.map toAscii, isIntChar c := by
  unfold intHex at h
  simp only [Option.ite_none_right_eq_some, Bool.and_eq_true, List.all_eq_true] at h
  obtain ⟨⟨-, hrest⟩, -⟩ := h
  generalize s.toList.map toAscii = l at hrest ⊢
  have hbody : ∀ c ∈ dropHexPrefix (sign (l.dropWhile isIntSpace)).2, isIntChar c := by
    intro c hc
    rw [← List.takeWhile_append_dropWhile (p := isHexOrUnderscore)
      (l := dropHexPrefix (sign (l.dropWhile isIntSpace)).2), List.mem_append] at hc
    rcases hc with hc | hc
    · simp [isIntChar, List.mem_takeWhile_imp hc]
    · simp [isIntChar, hrest c hc]
  intro c hc
  rw [← List.takeWhile_append_dropWhile (p := isIntSpace) (l := l), List.mem_append] at hc
  rcases hc with hc | hc
  · simp [isIntChar, List.mem_takeWhile_imp hc]
  · exact isIntChar_of_sign (isIntChar_of_dropHexPrefix hbody) c hc

/-- A character with a case outside ASCII is none of them. -/
theorem isPlain_of_isIntChar {c : Char} (h : isIntChar (toAscii c)) : isPlain c := by
  unfold toAscii at h
  split_ifs at h with h1 h2
  · simp [isPlain, show c.toNat < 128 by omega]
  · simp [isPlain, h2]
  · cases hd : decimalValue c with
    | none => rw [hd] at h; exact absurd h (by decide)
    | some d => simp [isPlain, hd]

/-- **A hexadecimal integer has a plain lower case.** -/
theorem isPlain_of_intHex {s : String} {n : Int} (h : intHex s = some n) :
    s.toList.all isPlain := by
  rw [List.all_eq_true]
  exact fun c hc => isPlain_of_isIntChar (isIntChar_of_intHex h _ (List.mem_map_of_mem hc))

theorem lower_plain (table : String → String) {s : String} (h : s.toList.all isPlain) :
    lower table s = String.ofList (s.toList.map Char.toLower) := if_pos h

/-- Lowering plain text keeps its length. -/
theorem length_lower (table : String → String) {s : String} (h : s.toList.all isPlain) :
    (lower table s).length = s.length := by
  rw [lower_plain table h, String.length_ofList, List.length_map, String.length_toList]

/-- A character is its own lower case unless it is one of `A` … `Z`. -/
theorem toLower_cases (c : Char) : c.toLower = c ∨ ∃ k < 26, c = Char.ofNat (65 + k) := by
  by_cases h : 65 ≤ c.toNat ∧ c.toNat ≤ 90
  · exact Or.inr ⟨c.toNat - 65, by omega, by
      rw [Nat.add_sub_cancel' h.1, Char.ofNat_toNat]⟩
  · refine Or.inl ?_
    unfold Char.toLower
    rw [dif_neg]
    intro hc
    exact h ⟨hc.1, hc.2⟩

theorem toLower_toLower (c : Char) : c.toLower.toLower = c.toLower := by
  rcases toLower_cases c with h | ⟨k, hk, rfl⟩
  · rw [h, h]
  · revert k
    decide

/-- Lowering plain text twice is lowering it once. -/
theorem lower_lower (table : String → String) {s : String} (h : s.toList.all isPlain)
    (hlower : (lower table s).toList.all isPlain) : lower table (lower table s) = lower table s := by
  rw [lower_plain table hlower, lower_plain table h, String.toList_ofList, List.map_map]
  exact congrArg String.ofList (List.map_congr_left fun c _ => toLower_toLower c)

theorem eq_of_toLower {α : Type} {f : Char → α}
    (hf : ∀ k < 26, f (Char.ofNat (65 + k)).toLower = f (Char.ofNat (65 + k))) (c : Char) :
    f c.toLower = f c := by
  rcases toLower_cases c with h | ⟨k, hk, rfl⟩
  · rw [h]
  · exact hf k hk

@[simp] theorem hexValue_toLower (c : Char) : hexValue c.toLower = hexValue c :=
  eq_of_toLower (by decide) c

@[simp] theorem isPlain_toLower (c : Char) : isPlain c.toLower = isPlain c :=
  eq_of_toLower (by decide) c

@[simp] theorem isIntSpace_toLower (c : Char) : isIntSpace c.toLower = isIntSpace c :=
  eq_of_toLower (by decide) c

@[simp] theorem isHexOrUnderscore_toLower (c : Char) :
    isHexOrUnderscore c.toLower = isHexOrUnderscore c := eq_of_toLower (by decide) c

theorem toLower_eq_iff {d : Char} (hd : ∀ k < 26, Char.ofNat (65 + k) ≠ d ∧
    (Char.ofNat (65 + k)).toLower ≠ d) (c : Char) : c.toLower = d ↔ c = d := by
  rcases toLower_cases c with h | ⟨k, hk, rfl⟩
  · rw [h]
  · exact ⟨fun h => absurd h (hd k hk).2, fun h => absurd h (hd k hk).1⟩

theorem toLower_eq_x (c : Char) : (c.toLower = 'x' ∨ c.toLower = 'X') ↔ (c = 'x' ∨ c = 'X') := by
  have h := eq_of_toLower (f := fun c => decide (c = 'x' ∨ c = 'X')) (by decide) c
  exact decide_eq_decide.mp h

theorem decimalValue_lt {c : Char} {d : Nat} (h : decimalValue c = some d) : d < 10 := by
  obtain ⟨z, hz, rfl⟩ := Option.map_eq_some_iff.mp h
  have := List.find?_some hz
  simp only [Bool.and_eq_true, decide_eq_true_eq] at this
  omega

theorem toAscii_toLower (c : Char) : toAscii c.toLower = (toAscii c).toLower := by
  rcases toLower_cases c with h | ⟨k, hk, rfl⟩
  · rw [h]
    unfold toAscii
    split_ifs
    · exact h.symm
    · rfl
    · cases hd : decimalValue c with
      | none => rfl
      | some d =>
        have key : ∀ d < 10, Char.ofNat ('0'.toNat + d) = (Char.ofNat ('0'.toNat + d)).toLower := by
          decide
        exact key d (decimalValue_lt hd)
  · revert k
    decide

theorem dropWhile_map_toLower {p : Char → Bool} (hp : ∀ c, p c.toLower = p c) (s : List Char) :
    (s.map Char.toLower).dropWhile p = (s.dropWhile p).map Char.toLower := by
  rw [List.dropWhile_map, show p ∘ Char.toLower = p from funext hp]

theorem takeWhile_map_toLower {p : Char → Bool} (hp : ∀ c, p c.toLower = p c) (s : List Char) :
    (s.map Char.toLower).takeWhile p = (s.takeWhile p).map Char.toLower := by
  rw [List.takeWhile_map, show p ∘ Char.toLower = p from funext hp]

theorem sign_map_toLower (s : List Char) :
    sign (s.map Char.toLower) = ((sign s).1, (sign s).2.map Char.toLower) := by
  cases s with
  | nil => rfl
  | cons c s =>
    simp only [List.map_cons, sign, toLower_eq_iff (d := '+') (by decide),
      toLower_eq_iff (d := '-') (by decide)]
    split_ifs <;> rfl

theorem dropUnderscore_map_toLower (s : List Char) :
    dropUnderscore (s.map Char.toLower) = (dropUnderscore s).map Char.toLower := by
  cases s with
  | nil => rfl
  | cons c s =>
    simp only [List.map_cons, dropUnderscore, toLower_eq_iff (d := '_') (by decide)]
    split_ifs <;> rfl

theorem dropHexPrefix_map_toLower (s : List Char) :
    dropHexPrefix (s.map Char.toLower) = (dropHexPrefix s).map Char.toLower := by
  match s with
  | [] => rfl
  | [c] => rfl
  | z :: x :: s =>
    simp only [List.map_cons, dropHexPrefix, toLower_eq_iff (d := '0') (by decide), toLower_eq_x,
      dropUnderscore_map_toLower]
    split_ifs <;> rfl

theorem isNumeral_map_toLower (s : List Char) : isNumeral (s.map Char.toLower) = isNumeral s := by
  have hu : ∀ c : Char, (c.toLower == '_') = (c == '_') :=
    eq_of_toLower (f := (· == '_')) (by decide)
  unfold isNumeral
  rw [← List.map_tail, List.zip_map]
  simp [List.head?_map, List.getLast?_map, Option.any_map, List.all_map, Function.comp_def, hu, bne]

theorem numeralValue_map_toLower (s : List Char) :
    numeralValue (s.map Char.toLower) = numeralValue s := by
  unfold numeralValue
  rw [List.filterMap_map, show hexValue ∘ Char.toLower = hexValue from funext hexValue_toLower]

/-- **Letter case does not change a hexadecimal integer.** -/
theorem intHex_lower (table : String → String) {s : String} (h : s.toList.all isPlain) :
    intHex (lower table s) = intHex s := by
  rw [lower_plain table h]
  have hmap : (s.toList.map Char.toLower).map toAscii = (s.toList.map toAscii).map Char.toLower := by
    rw [List.map_map, List.map_map]
    exact List.map_congr_left fun c _ => toAscii_toLower c
  unfold intHex
  rw [String.toList_ofList, hmap, dropWhile_map_toLower isIntSpace_toLower, sign_map_toLower]
  simp only [dropHexPrefix_map_toLower, takeWhile_map_toLower isHexOrUnderscore_toLower,
    dropWhile_map_toLower isHexOrUnderscore_toLower, isNumeral_map_toLower,
    numeralValue_map_toLower, List.all_map, Function.comp_def, isIntSpace_toLower]

end Python
end TpmAttest
