import TpmAttest.Base64Text

/-! # The round trip of `b64encode` and `b64decode`

The agent sends keys, quotes and signatures as base64.  The encoder takes three bytes at
a time, and the decoder's loop gives them back at the end of each group
(`a2bBase64_b64chars`).
-/
namespace TpmAttest.Python

/-- The character of the alphabet with this value. -/
def base64Char (v : Nat) : Char :=
  if v < 26 then Char.ofNat ('A'.toNat + v)
  else if v < 52 then Char.ofNat ('a'.toNat + (v - 26))
  else if v < 62 then Char.ofNat ('0'.toNat + (v - 52))
  else if v = 62 then '+' else '/'

/-- Four characters for three bytes; padding fills up the last group. -/
def b64chars : Bytes → List Char
  | a :: b :: c :: s =>
    base64Char (a.toNat / 4) :: base64Char (a.toNat % 4 * 16 + b.toNat / 16) ::
      base64Char (b.toNat % 16 * 4 + c.toNat / 64) :: base64Char (c.toNat % 64) :: b64chars s
  | [a, b] => [base64Char (a.toNat / 4), base64Char (a.toNat % 4 * 16 + b.toNat / 16),
      base64Char (b.toNat % 16 * 4), '=']
  | [a] => [base64Char (a.toNat / 4), base64Char (a.toNat % 4 * 16), '=', '=']
  | [] => []

/-- `base64.b64encode(s).decode()`. -/
def b64encode (s : Bytes) : String := String.ofList (b64chars s)

theorem base64Char_spec {v : Nat} (h : v < 64) : base64Char v ≠ '=' ∧ (base64Char v).toNat < 128 ∧
    base64Value (base64Char v) = some v := by
  revert v
  decide

section
variable {v : Nat} (h : v < 64) (l p : Nat) (d : Bytes) (s : List Char)
include h

/-! The next character, at each position of a group. -/

theorem a2bBase64_first :
    a2bBase64 ⟨0, l, p, d⟩ (base64Char v :: s) = a2bBase64 ⟨1, v, 0, d⟩ s :=
  a2bBase64_push (base64Char_spec h).1 (base64Char_spec h).2.2

theorem a2bBase64_second : a2bBase64 ⟨1, l, p, d⟩ (base64Char v :: s) =
    a2bBase64 ⟨2, v % 16, 0, d ++ [UInt8.ofNat (l * 4 + v / 16)]⟩ s :=
  a2bBase64_push (base64Char_spec h).1 (base64Char_spec h).2.2

theorem a2bBase64_third : a2bBase64 ⟨2, l, p, d⟩ (base64Char v :: s) =
    a2bBase64 ⟨3, v % 4, 0, d ++ [UInt8.ofNat (l * 16 + v / 4)]⟩ s :=
  a2bBase64_push (base64Char_spec h).1 (base64Char_spec h).2.2

theorem a2bBase64_fourth : a2bBase64 ⟨3, l, p, d⟩ (base64Char v :: s) =
    a2bBase64 ⟨0, 0, 0, d ++ [UInt8.ofNat (l * 64 + v)]⟩ s :=
  a2bBase64_push (base64Char_spec h).1 (base64Char_spec h).2.2

end

/-- A byte from the parts of it that two characters carry. -/
theorem ofNat_parts {n : Nat} (a : UInt8) (h : n = a.toNat) : UInt8.ofNat n = a := by
  rw [h, UInt8.ofNat_toNat]

/-- **What is encoded is decoded**, behind any bytes that are written already. -/
theorem a2bBase64_b64chars (l p : Nat) (d s : Bytes) :
    a2bBase64 ⟨0, l, p, d⟩ (b64chars s) = .ok (d ++ s) := by
  fun_induction b64chars s generalizing l p d with
  | case1 a b c s ih =>
    have ha := a.toNat_lt
    have hb := b.toNat_lt
    have hc := c.toNat_lt
    rw [a2bBase64_first (by omega), a2bBase64_second (by omega), a2bBase64_third (by omega),
      a2bBase64_fourth (by omega), ih, ofNat_parts a (by omega), ofNat_parts b (by omega),
      ofNat_parts c (by omega)]
    simp
  | case2 a b =>
    have ha := a.toNat_lt
    have hb := b.toNat_lt
    rw [a2bBase64_first (by omega), a2bBase64_second (by omega), a2bBase64_third (by omega),
      a2bBase64_stop (by simp) (by simp), ofNat_parts a (by omega), ofNat_parts b (by omega)]
    simp
  | case3 a =>
    have ha := a.toNat_lt
    rw [a2bBase64_first (by omega), a2bBase64_second (by omega), a2bBase64_pad (by simp) (by simp),
      a2bBase64_stop (by simp) (by simp), ofNat_parts a (by omega)]
  | case4 => exact congrArg Except.ok (List.append_nil d).symm

theorem ascii_b64chars (s : Bytes) : ∀ c ∈ b64chars s, c.toNat < 128 := by
  have hascii : ∀ {v : Nat}, v < 64 → (base64Char v).toNat < 128 := fun h => (base64Char_spec h).2.1
  fun_induction b64chars s with
  | case1 a b c s ih =>
    have ha := a.toNat_lt
    have hb := b.toNat_lt
    have hc := c.toNat_lt
    simp only [List.forall_mem_cons]
    exact ⟨hascii (by omega), hascii (by omega), hascii (by omega), hascii (by omega), ih⟩
  | case2 a b =>
    have ha := a.toNat_lt
    have hb := b.toNat_lt
    simp only [List.forall_mem_cons]
    exact ⟨hascii (by omega), hascii (by omega), hascii (by omega), by decide, List.forall_mem_nil _⟩
  | case3 a =>
    have ha := a.toNat_lt
    simp only [List.forall_mem_cons]
    exact ⟨hascii (by omega), hascii (by omega), by decide, by decide, List.forall_mem_nil _⟩
  | case4 => exact List.forall_mem_nil _

/-- **`b64decode` undoes `b64encode`.** -/
theorem b64decode_b64encode (s : Bytes) : b64decode (b64encode s) = .ok s := by
  have hascii : ((b64encode s).toList.all (·.toNat < 128)) = true := by
    rw [b64encode, String.toList_ofList, List.all_eq_true]
    exact fun c hc => decide_eq_true (ascii_b64chars s c hc)
  rw [b64decode, if_pos hascii, b64encode, String.toList_ofList, a2bBase64_b64chars]
  rfl

theorem b64encode_injective {s t : Bytes} (h : b64encode s = b64encode t) : s = t := by
  have hdecode := b64decode_b64encode s
  rw [h, b64decode_b64encode] at hdecode
  exact (Except.ok.inj hdecode).symm

end TpmAttest.Python
