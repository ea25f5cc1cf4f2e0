import TpmAttest.PythonText

/-! # Python's `str` with surrogates, and the Unicode codecs

What a client or a server sends need not be text.  `json.loads` decodes bytes with
the handler `surrogatepass` and takes `\ud800` for a character, so the shim's
strings may hold surrogates and are lists of code points here (`Text`).

`decodeUtf8` follows CPython's decoder: an ill-formed sequence ends before the first
byte that cannot continue it, and the error handler says what becomes of it.
-/
namespace TpmAttest.Python

/-- A code point, surrogates included. -/
abbrev CodePoint := Fin 0x110000

/-- A Python `str`. -/
abbrev Text := List CodePoint

/-- A number that is a code point; no other is given to it. -/
def codePoint (n : Nat) : CodePoint := Fin.ofNat 0x110000 n

/-- A text without surrogates. -/
def text (s : String) : Text := s.toList.map fun c => codePoint c.toNat

/-- Every character is read back. -/
theorem ofList_text (s : String) : String.ofList ((text s).map fun c => Char.ofNat c.val) = s := by
  have hchar : (fun c : CodePoint => Char.ofNat c.val) ∘ (fun c : Char => codePoint c.toNat) = id := by
    funext c
    have hlt : c.toNat < 0x110000 := by
      rcases c.valid with h | ⟨-, h⟩
      · exact Nat.lt_trans h (by decide)
      · exact h
    change Char.ofNat (c.toNat % 0x110000) = c
    rw [Nat.mod_eq_of_lt hlt, Char.ofNat_toNat]
  rw [text, List.map_map, hchar, List.map_id, String.ofList_toList]

def isHighSurrogate (n : Nat) : Bool := 0xd800 ≤ n && n ≤ 0xdbff

def isLowSurrogate (n : Nat) : Bool := 0xdc00 ≤ n && n ≤ 0xdfff

/-- The character of a surrogate pair. -/
def joinSurrogates (high low : Nat) : CodePoint :=
  codePoint (0x10000 + (high - 0xd800) * 0x400 + (low - 0xdc00))

/-! ## UTF-8 -/

/-- The first byte of a sequence: how many follow, what it contributes, and the range
of the next byte. -/
def utf8Lead (b : Nat) : Option (Nat × Nat × Nat × Nat) :=
  if b < 0x80 then some (0, b, 0x80, 0xbf)
  else if 0xc2 ≤ b ∧ b ≤ 0xdf then some (1, b - 0xc0, 0x80, 0xbf)
  else if b = 0xe0 then some (2, 0, 0xa0, 0xbf)
  else if b = 0xed then some (2, 0xd, 0x80, 0x9f)
  else if 0xe1 ≤ b ∧ b ≤ 0xef then some (2, b - 0xe0, 0x80, 0xbf)
  else if b = 0xf0 then some (3, 0, 0x90, 0xbf)
  else if 0xf1 ≤ b ∧ b ≤ 0xf3 then some (3, b - 0xf0, 0x80, 0xbf)
  else if b = 0xf4 then some (3, 4, 0x80, 0x8f)
  else none

/-- The following bytes, after `length` bytes that make `value`: the code point and
the length of its sequence, or the length of what was well formed. -/
def utf8Continue (length value lo hi : Nat) : Nat → Bytes → Except Nat (CodePoint × Nat)
  | 0, _ => .ok (codePoint value, length)
  | _ + 1, [] => .error length
  | more + 1, b :: s =>
    if lo ≤ b.toNat ∧ b.toNat ≤ hi then
      utf8Continue (length + 1) (value * 64 + (b.toNat - 0x80)) 0x80 0xbf more s
    else .error length

/-- The sequence at the front of some bytes. -/
def utf8Next (b : UInt8) (s : Bytes) : Except Nat (CodePoint × Nat) :=
  match utf8Lead b.toNat with
  | some (more, value, lo, hi) => utf8Continue 1 value lo hi more s
  | none => .error 1

/-- An error handler: from the bytes at an error and the length of the ill-formed
sequence, a code point and how many bytes it is for; or it raises. -/
abbrev ErrorHandler := Bytes → Nat → Option (CodePoint × Nat)

def strict : ErrorHandler := fun _ _ => none

def replace : ErrorHandler := fun _ n => some (0xfffd, n)

/-- A surrogate that is encoded in three bytes is passed. -/
def surrogatepass : ErrorHandler
  | 0xed :: b :: c :: _, _ =>
    if 0xa0 ≤ b.toNat ∧ b.toNat ≤ 0xbf ∧ 0x80 ≤ c.toNat ∧ c.toNat ≤ 0xbf then
      some (codePoint (0xd000 + (b.toNat - 0x80) * 64 + (c.toNat - 0x80)), 3)
    else none
  | _, _ => none

/-- `bytes.decode("utf-8", errors)`, past `skip` bytes that have been decoded already;
`none` is a `UnicodeDecodeError`. -/
def decodeUtf8 (errors : ErrorHandler) : Nat → Bytes → Option Text
  | _, [] => some []
  | skip + 1, _ :: s => decodeUtf8 errors skip s
  | 0, b :: s =>
    match utf8Next b s with
    | .ok (c, n) => (decodeUtf8 errors (n - 1) s).map (c :: ·)
    | .error n =>
      match errors (b :: s) n with
      | some (c, n) => (decodeUtf8 errors (n - 1) s).map (c :: ·)
      | none => none

/-- `replace` never raises. -/
theorem isSome_decodeUtf8_replace (skip : Nat) (s : Bytes) :
    (decodeUtf8 replace skip s).isSome := by
  induction s generalizing skip with
  | nil => cases skip <;> rfl
  | cons b s ih =>
    cases skip with
    | succ skip => exact ih skip
    | zero =>
      rw [decodeUtf8]
      cases utf8Next b s with
      | ok r =>
        rw [Option.isSome_map]
        exact ih _
      | error n =>
        change (Option.map _ _).isSome
        rw [Option.isSome_map]
        exact ih _

/-- `bytes.decode("utf-8", errors="replace")`. -/
def decodeReplace (s : Bytes) : Text := (decodeUtf8 replace 0 s).get (isSome_decodeUtf8_replace 0 s)

/-! ## UTF-16 and UTF-32, with `surrogatepass` -/

/-- The code units; an odd byte at the end is an error that no handler passes. -/
def utf16Units (bigEndian : Bool) : Bytes → Option (List Nat)
  | [] => some []
  | [_] => none
  | a :: b :: s =>
    (utf16Units bigEndian s).map
      ((if bigEndian then a.toNat * 256 + b.toNat else b.toNat * 256 + a.toNat) :: ·)

/-- Pairs of surrogates are joined, and others passed. -/
def joinUnits : List Nat → Text
  | [] => []
  | [n] => [codePoint n]
  | n :: m :: s =>
    if isHighSurrogate n && isLowSurrogate m then joinSurrogates n m :: joinUnits s
    else codePoint n :: joinUnits (m :: s)

def decodeUtf16 (bigEndian : Bool) (s : Bytes) : Option Text :=
  (utf16Units bigEndian s).map joinUnits

def decodeUtf32 (bigEndian : Bool) : Bytes → Option Text
  | [] => some []
  | a :: b :: c :: d :: s =>
    let n := if bigEndian then ((a.toNat * 256 + b.toNat) * 256 + c.toNat) * 256 + d.toNat
      else ((d.toNat * 256 + c.toNat) * 256 + b.toNat) * 256 + a.toNat
    if n < 0x110000 then (decodeUtf32 bigEndian s).map (codePoint n :: ·) else none
  | _ => none

/-! ## The encoding of a JSON text -/

inductive Encoding where
  | utf8
  | utf8Sig
  | utf16 (bigEndian : Bool)
  | utf32 (bigEndian : Bool)
deriving DecidableEq

/-- `json.detect_encoding`, and the length of the byte order mark. -/
def detectEncoding (b : Bytes) : Encoding × Nat :=
  if [0x00, 0x00, 0xfe, 0xff] <+: b then (.utf32 true, 4)
  else if [0xff, 0xfe, 0x00, 0x00] <+: b then (.utf32 false, 4)
  else if [0xfe, 0xff] <+: b then (.utf16 true, 2)
  else if [0xff, 0xfe] <+: b then (.utf16 false, 2)
  else if [0xef, 0xbb, 0xbf] <+: b then (.utf8Sig, 3)
  else match b with
    | [b0, b1] =>
      if b0 = 0 then (.utf16 true, 0) else if b1 = 0 then (.utf16 false, 0) else (.utf8, 0)
    | b0 :: b1 :: b2 :: b3 :: _ =>
      if b0 = 0 then (if b1 = 0 then (.utf32 true, 0) else (.utf16 true, 0))
      else if b1 = 0 then (if b2 = 0 ∧ b3 = 0 then (.utf32 false, 0) else (.utf16 false, 0))
      else (.utf8, 0)
    | _ => (.utf8, 0)

/-- `b.decode(detect_encoding(b), "surrogatepass")`. -/
def decodeDetected (b : Bytes) : Option Text :=
  match detectEncoding b with
  | (.utf8, n) | (.utf8Sig, n) => decodeUtf8 surrogatepass 0 (b.drop n)
  | (.utf16 bigEndian, n) => decodeUtf16 bigEndian (b.drop n)
  | (.utf32 bigEndian, n) => decodeUtf32 bigEndian (b.drop n)

example : decodeReplace [0x61, 0xe2, 0x82, 0x41, 0xff] = [0x61, 0xfffd, 0x41, 0xfffd] := by decide

end TpmAttest.Python
