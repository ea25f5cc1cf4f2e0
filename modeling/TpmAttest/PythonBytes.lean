import TpmAttest.PythonText

/-! # Bytes as text: `bytes.hex` and `base64.b64decode`

`bytes.hex` is injective (`hex_injective`): a comparison of two hexadecimal
digests is a comparison of the digests.

`base64.b64decode` is modelled in its default, non-validating mode, the one the
server calls it in.  That mode skips characters outside the alphabet, stops at
the padding that completes a group, and fails only when the data characters do
not fill their last group.
-/
namespace TpmAttest.Python

/-- `s.encode()`. -/
def encode (s : String) : Bytes := s.toUTF8.data.toList

theorem encode_injective {s t : String} (h : encode s = encode t) : s = t :=
  String.toByteArray_inj.mp (ByteArray.ext (Array.toList_inj.mp h))

/-- `b.hex()`. -/
def hex (b : Bytes) : String :=
  String.ofList (b.flatMap fun x => [hexDigit (x.toNat / 16), hexDigit (x.toNat % 16)])

theorem length_hex (b : Bytes) : (hex b).length = 2 * b.length := by
  rw [hex, String.length_ofList]
  induction b with
  | nil => rfl
  | cons x b ih =>
    rw [List.flatMap_cons, List.length_append, ih]
    change 2 + 2 * b.length = 2 * (b.length + 1)
    omega

/-- Every digit of `hex` is a digit of a value below 16. -/
theorem mem_hex {b : Bytes} {c : Char} (h : c ∈ (hex b).toList) : ∃ n < 16, c = hexDigit n := by
  rw [hex, String.toList_ofList] at h
  obtain ⟨x, -, hx⟩ := List.mem_flatMap.mp h
  have hlt := x.toNat_lt
  rcases List.mem_cons.mp hx with rfl | hx
  · exact ⟨_, by omega, rfl⟩
  · exact ⟨_, by omega, List.mem_singleton.mp hx⟩

/-- The bytes that pairs of hexadecimal digits stand for. -/
def bytesOfDigits : List Char → Option Bytes
  | [] => some []
  | a :: b :: s => do
    let hi ← hexValue a
    let lo ← hexValue b
    let rest ← bytesOfDigits s
    return UInt8.ofNat (16 * hi + lo) :: rest
  | [_] => none

/-- `bytes.fromhex(s)`, for text without blanks. -/
def fromhex (s : String) : Option Bytes := bytesOfDigits s.toList

theorem hexValue_hexDigit {n : Nat} (h : n < 16) : hexValue (hexDigit n) = some n := by
  revert n
  decide

/-- **Reading back the digits of `hex` gives the bytes.** -/
theorem fromhex_hex (b : Bytes) : fromhex (hex b) = some b := by
  unfold fromhex hex
  rw [String.toList_ofList]
  induction b with
  | nil => rfl
  | cons x b ih =>
    have hx := x.toNat_lt
    have hdigits : 16 * (x.toNat / 16) + x.toNat % 16 = x.toNat := by omega
    simp only [List.flatMap_cons, List.cons_append, List.nil_append, bytesOfDigits, ih,
      hexValue_hexDigit (show x.toNat / 16 < 16 by omega),
      hexValue_hexDigit (show x.toNat % 16 < 16 by omega)]
    change some (UInt8.ofNat (16 * (x.toNat / 16) + x.toNat % 16) :: b) = some (x :: b)
    rw [hdigits, UInt8.ofNat_toNat]

theorem hex_injective {a b : Bytes} (h : hex a = hex b) : a = b := by
  have := congrArg fromhex h
  rw [fromhex_hex, fromhex_hex] at this
  exact Option.some.inj this

/-! ## Base64 -/

/-- The value of a character of the base64 alphabet. -/
def base64Value (c : Char) : Option Nat :=
  if 'A' ≤ c ∧ c ≤ 'Z' then some (c.toNat - 'A'.toNat)
  else if 'a' ≤ c ∧ c ≤ 'z' then some (c.toNat - 'a'.toNat + 26)
  else if '0' ≤ c ∧ c ≤ '9' then some (c.toNat - '0'.toNat + 52)
  else if c = '+' then some 62
  else if c = '/' then some 63
  else none

/-- The decoder's state between two characters: the position in the group of
four, the bits of it not written yet, the padding characters just seen, and the
bytes written. -/
structure Base64State where
  quadPos : Nat
  leftchar : Nat
  pads : Nat
  binData : Bytes

/-- The next data character of a group, of value `v`. -/
def Base64State.push (st : Base64State) (v : Nat) : Base64State :=
  match st.quadPos with
  | 0 => ⟨1, v, 0, st.binData⟩
  | 1 => ⟨2, v % 16, 0, st.binData ++ [UInt8.ofNat (st.leftchar * 4 + v / 16)]⟩
  | 2 => ⟨3, v % 4, 0, st.binData ++ [UInt8.ofNat (st.leftchar * 16 + v / 4)]⟩
  | _ => ⟨0, 0, 0, st.binData ++ [UInt8.ofNat (st.leftchar * 64 + v)]⟩

/-- The decoder at the end of its input: an unfinished group is an error. -/
def Base64State.finish (st : Base64State) : Except String Bytes :=
  match st.quadPos with
  | 0 => .ok st.binData
  | 1 => .error s!"Invalid base64-encoded string: number of data characters ({st.binData.length / 3 * 4 + 1}) cannot be 1 more than a multiple of 4"
  | _ => .error "Incorrect padding"

/-- The decoder's loop.  Padding that completes a group ends the input there;
any other character outside the alphabet is skipped. -/
def a2bBase64 (st : Base64State) : List Char → Except String Bytes
  | [] => st.finish
  | c :: s =>
    if c = '=' then
      if 2 ≤ st.quadPos then
        if 4 ≤ st.quadPos + (st.pads + 1) then .ok st.binData
        else a2bBase64 { st with pads := st.pads + 1 } s
      else a2bBase64 st s
    else match base64Value c with
      | none => a2bBase64 st s
      | some v => a2bBase64 (st.push v) s

/-- `base64.b64decode(s)`, or the text of the exception it raises. -/
def b64decode (s : String) : Except String Bytes :=
  if s.toList.all (·.toNat < 128) then a2bBase64 ⟨0, 0, 0, []⟩ s.toList
  else .error "string argument should contain only ASCII characters"

end TpmAttest.Python
