import TpmAttest.RawStrings
import TpmAttest.PcrListing

/-! # Integers in JSON

The encoder writes an integer as its sign and its digits, and `_match_number` reads them
back (`scanNumber_intText`).  A number ends where its digits do, so what stands behind a
value must not go on with it (`Delimited`).
-/
namespace TpmAttest.Python

/-- A comma or a closing bracket follows, or nothing. -/
def Delimited (rest : Text) : Prop := ∀ c ∈ rest.head?, c = char ',' ∨ c = char ']' ∨ c = char '}'

theorem delimited_nil : Delimited [] := by
  intro c hc
  cases hc

theorem delimited_cons {c : CodePoint} (h : c = char ',' ∨ c = char ']' ∨ c = char '}') (s : Text) :
    Delimited (c :: s) := by
  intro c' hc
  obtain rfl : c = c' := Option.some.inj hc
  exact h

/-! ## Integers -/

/-- The digits of a number. -/
def digitsOf (n : Nat) : Text := chars (Nat.toDigits 10 n)

theorem digit_range {c : Char} (h : c.isDigit = true) : 48 ≤ c.toNat ∧ c.toNat ≤ 57 := by
  rw [Char.isDigit, Bool.and_eq_true, decide_eq_true_eq, decide_eq_true_eq] at h
  exact h

theorem isDigit_of_mem_digitsOf {n : Nat} : ∀ c ∈ digitsOf n, isDigit c = true := by
  intro c hc
  obtain ⟨d, hd, rfl⟩ := List.mem_map.mp hc
  have hrange := digit_range (Nat.isDigit_of_mem_toDigits (by decide) (by decide) hd)
  rw [isDigit, char_val, Bool.and_eq_true, decide_eq_true_eq, decide_eq_true_eq]
  exact hrange

theorem decimalNumber_digitsOf (n : Nat) : decimalNumber (digitsOf n) = n := by
  have hfold : ∀ (l : List Char) (m : Nat),
      (chars l).foldl (fun n c => 10 * n + (c.val - 0x30)) m = Nat.ofDigitChars 10 l m := by
    intro l
    induction l with
    | nil => exact fun m => Nat.ofDigitChars_nil.symm
    | cons c l ih =>
      intro m
      have hc : (char c).val - 0x30 = c.toNat - '0'.toNat := by rw [char_val]; rfl
      rw [Nat.ofDigitChars_cons, ← ih, ← hc]
      rfl
  rw [decimalNumber, digitsOf, hfold, Nat.ofDigitChars_toDigits (by decide) (by decide)]

/-- A number but zero does not begin with a zero. -/
theorem head_digitsOf {n : Nat} (h : 0 < n) : ∀ c ∈ (digitsOf n).head?, c ≠ char '0' := by
  induction n using Nat.strongRecOn with
  | ind n ih =>
    by_cases hn : n < 10
    · intro c hc
      rw [digitsOf, Nat.toDigits_of_lt_base hn] at hc
      obtain rfl : char n.digitChar = c := Option.some.inj hc
      apply char_ne
      intro heq
      have hdigit := Nat.toNat_digitChar_sub_48_of_lt_ten hn
      rw [heq] at hdigit
      exact absurd hdigit (by rw [show '0'.toNat - 48 = 0 from rfl]; omega)
    · intro c hc
      have hhead : (digitsOf (n / 10)).head? = some c := by
        rw [digitsOf, Nat.toDigits_of_base_le (by decide) (by omega)] at hc
        obtain ⟨d, ds, hds⟩ := List.exists_cons_of_ne_nil (Nat.toDigits_ne_nil (n := n / 10) (b := 10))
        rw [hds] at hc
        rw [digitsOf, hds]
        exact hc
      exact ih (n / 10) (by omega) (by omega) c hhead

/-- Nothing that may stand behind a value is part of a number. -/
theorem Delimited.ends {rest : Text} (h : Delimited rest) :
    (∀ c ∈ rest.head?, isDigit c = false) ∧ fractionDigits rest = [] ∧ scanExponent rest = none := by
  cases rest with
  | nil => exact ⟨fun c hc => (nomatch hc), rfl, rfl⟩
  | cons c s =>
    have hc := h c rfl
    have hne : ∀ d : Char, d ≠ ',' → d ≠ ']' → d ≠ '}' → c ≠ char d := by
      rintro d h₁ h₂ h₃ rfl
      rcases hc with hc | hc | hc
      · exact char_ne h₁ hc
      · exact char_ne h₂ hc
      · exact char_ne h₃ hc
    refine ⟨?_, if_neg (hne '.' (by decide) (by decide) (by decide)), if_neg ?_⟩
    · intro c' hc'
      obtain rfl : c = c' := Option.some.inj hc'
      rcases hc with rfl | rfl | rfl <;> rfl
    · rintro (hc | hc)
      · exact hne 'e' (by decide) (by decide) (by decide) hc
      · exact hne 'E' (by decide) (by decide) (by decide) hc

theorem takeWhile_digitsOf (n : Nat) {rest : Text} (h : Delimited rest) :
    (digitsOf n ++ rest).takeWhile isDigit = digitsOf n := by
  rw [List.takeWhile_append_of_pos isDigit_of_mem_digitsOf]
  have hstop : rest.takeWhile isDigit = [] := by
    cases rest with
    | nil => rfl
    | cons c s => exact List.takeWhile_cons_of_neg (by rw [h.ends.1 c rfl]; exact Bool.false_ne_true)
  rw [hstop, List.append_nil]

theorem digitsOf_cons (n : Nat) : ∃ d ds, digitsOf n = d :: ds ∧ isDigit d = true := by
  obtain ⟨d, ds, hds⟩ := List.exists_cons_of_ne_nil (Nat.toDigits_ne_nil (n := n) (b := 10))
  have htext : digitsOf n = char d :: chars ds := by
    rw [digitsOf, hds]
    rfl
  refine ⟨_, _, htext, isDigit_of_mem_digitsOf (char d) (n := n) ?_⟩
  rw [htext]
  exact List.mem_cons_self

theorem integerDigits_digitsOf (n : Nat) {rest : Text} (h : Delimited rest) :
    integerDigits (digitsOf n ++ rest) = digitsOf n := by
  by_cases hn : n = 0
  · subst hn
    rfl
  · obtain ⟨d, ds, htext, -⟩ := digitsOf_cons n
    have hhead := head_digitsOf (Nat.pos_of_ne_zero hn) d (by rw [htext]; rfl)
    have htake := takeWhile_digitsOf n h
    rw [htext, List.cons_append] at htake ⊢
    rw [integerDigits, if_neg hhead, htake]

/-- A number without a fraction and without an exponent. -/
theorem scanNumber_integer {s t integer rest : Text} {negative : Bool}
    (hsign : s.head? = some (char '-') ↔ negative = true)
    (ht : (if negative then s.drop 1 else s) = t) (hinteger : integerDigits t = integer)
    (hne : integer.isEmpty = false) (hrest : t.drop integer.length = rest)
    (hfraction : fractionDigits rest = []) (hexponent : scanExponent rest = none)
    (hlength : ¬ 4300 < integer.length) :
    scanNumber s = .ok (.int (if negative then -decimalNumber integer else decimalNumber integer),
      (if negative then 1 else 0) + integer.length) := by
  simp only [scanNumber, hsign, ht, hinteger, hne, hrest, hfraction]
  simp [hrest, hexponent, hlength]

/-- The characters of an integer: perhaps a sign, and digits. -/
def intText (negative : Bool) (n : Nat) : Text := (if negative then [char '-'] else []) ++ digitsOf n

theorem chars_toString (n : Int) :
    chars (toString n).toList = intText (decide (n < 0)) n.natAbs := by
  have hnat : ∀ m : Nat, (toString m).toList = Nat.toDigits 10 m := by
    intro m
    rw [Nat.toString_eq_ofList_toDigits, String.toList_ofList]
  cases n with
  | ofNat m =>
    change chars (toString m).toList = _
    rw [hnat]
    rfl
  | negSucc m =>
    change chars (("-" ++ toString (m + 1)).toList) = _
    rw [String.toList_append, hnat, decide_eq_true (Int.negSucc_lt_zero m)]
    rfl

/-- **An integer is read back.** -/
theorem scanNumber_intText (negative : Bool) {n : Nat}
    (h : (Nat.toDigits 10 n).length ≤ 4300) {rest : Text} (hrest : Delimited rest) :
    scanNumber (intText negative n ++ rest) =
      .ok (.int (if negative then -n else n), (intText negative n).length) := by
  obtain ⟨-, hfraction, hexponent⟩ := hrest.ends
  obtain ⟨d, ds, htext, hdigit⟩ := digitsOf_cons n
  have hminus : (digitsOf n ++ rest).head? ≠ some (char '-') := by
    intro heq
    rw [htext] at heq
    rw [Option.some.inj heq] at hdigit
    exact absurd hdigit (by decide)
  have hne : (digitsOf n).isEmpty = false := by
    rw [htext]
    rfl
  have hlength : ¬ 4300 < (digitsOf n).length := by
    rw [digitsOf, chars, List.length_map]
    omega
  have hscan : ∀ sign : Bool, ((intText sign n ++ rest).head? = some (char '-') ↔ sign = true) →
      (if sign then (intText sign n ++ rest).drop 1 else intText sign n ++ rest) = digitsOf n ++ rest →
      scanNumber (intText sign n ++ rest) = .ok (.int (if sign then -n else n),
        (if sign then 1 else 0) + (digitsOf n).length) := by
    intro sign hsign ht
    have hscan := scanNumber_integer hsign ht (integerDigits_digitsOf n hrest) hne List.drop_left
      hfraction hexponent hlength
    rwa [decimalNumber_digitsOf] at hscan
  cases negative
  · rw [hscan false (iff_of_false hminus Bool.false_ne_true) rfl]
    exact congrArg (fun k => Except.ok (_, k)) (Nat.zero_add _)
  · rw [hscan true (iff_of_true rfl rfl) rfl]
    exact congrArg (fun k => Except.ok (_, k)) (Nat.add_comm _ _)

/-- No literal begins as an integer does. -/
theorem find?_literals {s : Text} (h : ∃ c ∈ s.take 2, isDigit c = true) :
    (literals.find? fun l => text l.1 <+: s) = none := by
  have hletters : ∀ l ∈ literals.map fun l => text l.1,
      2 ≤ l.length ∧ (l.take 2).all (fun c => !isDigit c) = true :=
    List.all_iff_forall_prop.mp (by decide +kernel)
  rw [List.find?_eq_none]
  intro l hl hprefix
  obtain ⟨hlength, hno⟩ := hletters _ (List.mem_map_of_mem hl)
  obtain ⟨t, ht⟩ := of_decide_eq_true hprefix
  obtain ⟨c, hc, hdigit⟩ := h
  rw [← ht, List.take_append_of_le_length hlength] at hc
  have hnot := List.all_eq_true.mp hno c hc
  rw [hdigit] at hnot
  exact absurd hnot (by decide)

end TpmAttest.Python
