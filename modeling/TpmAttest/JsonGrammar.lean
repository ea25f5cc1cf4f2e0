import Mathlib.Data.List.Basic

/-! # The grammar of JSON

A value of these types is a JSON text: what it is a text of, and how it is written
(its white space, the escapes of its strings, the digits of its numbers).
`render` is the text in UTF-8.  Names are compared as their UTF-16 code units,
after the escapes are undone.
-/
namespace TpmAttest.JsonGrammar

/-- An ASCII character. -/
def byte (c : Char) : UInt8 := UInt8.ofNat c.toNat

/-- An ASCII text. -/
def bytes (s : String) : List UInt8 := s.toList.map byte

/-! ## White space -/

inductive Space where
  | space
  | tab
  | newline
  | carriageReturn
deriving DecidableEq

def Space.byte : Space → UInt8
  | space => JsonGrammar.byte ' '
  | tab => JsonGrammar.byte '\t'
  | newline => JsonGrammar.byte '\n'
  | carriageReturn => JsonGrammar.byte '\r'

abbrev Spaces := List Space

def renderSpaces (ws : Spaces) : List UInt8 := ws.map Space.byte

/-! ## Strings -/

/-- The escapes of one letter. -/
inductive Escape where
  | quote
  | backslash
  | slash
  | backspace
  | formFeed
  | newline
  | carriageReturn
  | tab
deriving DecidableEq

/-- The character after the backslash. -/
def Escape.letter : Escape → Char
  | quote => '"'
  | backslash => '\\'
  | slash => '/'
  | backspace => 'b'
  | formFeed => 'f'
  | newline => 'n'
  | carriageReturn => 'r'
  | tab => 't'

/-- The code unit that the escape stands for. -/
def Escape.unit : Escape → Nat
  | quote => 0x22
  | backslash => 0x5c
  | slash => 0x2f
  | backspace => 0x08
  | formFeed => 0x0c
  | newline => 0x0a
  | carriageReturn => 0x0d
  | tab => 0x09

/-- A hexadecimal digit; the letters have two cases. -/
structure HexDigit where
  value : Fin 16
  upper : Bool
deriving DecidableEq

def HexDigit.byte (d : HexDigit) : UInt8 :=
  if d.value < 10 then .ofNat (48 + d.value)
  else if d.upper then .ofNat (55 + d.value)
  else .ofNat (87 + d.value)

/-- A character that a string may hold as it is. -/
def IsUnescaped (c : Char) : Prop := 0x20 ≤ c.toNat ∧ c ≠ '"' ∧ c ≠ '\\'

instance (c : Char) : Decidable (IsUnescaped c) := inferInstanceAs (Decidable (_ ∧ _))

inductive StringItem where
  | raw (c : Char) (h : IsUnescaped c)
  | escape (e : Escape)
  | unicode (d₁ d₂ d₃ d₄ : HexDigit)
deriving DecidableEq

def StringItem.render : StringItem → List UInt8
  | raw c _ => String.utf8EncodeChar c
  | escape e => [byte '\\', byte e.letter]
  | unicode d₁ d₂ d₃ d₄ => [byte '\\', byte 'u', d₁.byte, d₂.byte, d₃.byte, d₄.byte]

/-- The UTF-16 code units of a code point. -/
def utf16 (n : Nat) : List Nat :=
  if n < 0x10000 then [n] else [0xd800 + (n - 0x10000) / 0x400, 0xdc00 + (n - 0x10000) % 0x400]

def StringItem.units : StringItem → List Nat
  | raw c _ => utf16 c.toNat
  | escape e => [e.unit]
  | unicode d₁ d₂ d₃ d₄ =>
    [((d₁.value.val * 16 + d₂.value.val) * 16 + d₃.value.val) * 16 + d₄.value.val]

/-- A string, as it is written between its quotes. -/
abbrev StringText := List StringItem

/-- What stands between the quotes. -/
def body (s : StringText) : List UInt8 := s.flatMap StringItem.render

def renderString (s : StringText) : List UInt8 := byte '"' :: (body s ++ [byte '"'])

/-- What the string says. -/
def units (s : StringText) : List Nat := s.flatMap StringItem.units

/-! ## Numbers -/

abbrev Digit := Fin 10

def Digit.byte (d : Digit) : UInt8 := .ofNat (48 + d.val)

/-- At least one digit. -/
abbrev Digits := Digit × List Digit

def renderDigits (ds : Digits) : List UInt8 := (ds.1 :: ds.2).map Digit.byte

/-- No digit follows a leading zero. -/
inductive IntegerPart where
  | zero
  | nonzero (d : Fin 9) (ds : List Digit)

def IntegerPart.render : IntegerPart → List UInt8
  | zero => [byte '0']
  | nonzero d ds => Digit.byte d.succ :: ds.map Digit.byte

structure Exponent where
  upper : Bool
  /-- A sign, if there is one: `true` is a minus. -/
  sign : Option Bool
  digits : Digits

def Exponent.render (e : Exponent) : List UInt8 :=
  byte (if e.upper then 'E' else 'e') ::
    ((e.sign.map fun minus => byte (if minus then '-' else '+')).toList ++ renderDigits e.digits)

structure Number where
  minus : Bool
  integer : IntegerPart
  fraction : Option Digits
  exponent : Option Exponent

def Number.render (n : Number) : List UInt8 :=
  (if n.minus then [byte '-'] else []) ++ (n.integer.render ++
    ((n.fraction.elim [] fun ds => byte '.' :: renderDigits ds) ++
      n.exponent.elim [] Exponent.render))

/-! ## Values -/

mutual
inductive Value where
  | null
  | true
  | false
  | number (n : Number)
  | string (s : StringText)
  | array (ws : Spaces) (elements : Elements)
  | object (ws : Spaces) (members : Members)

/-- The elements of an array, each between white space. -/
inductive Elements where
  | nil
  | cons (before : Spaces) (value : Value) (after : Spaces) (rest : Elements)

/-- The members of an object. -/
inductive Members where
  | nil
  | cons (before : Spaces) (key : StringText) (beforeColon afterColon : Spaces) (value : Value)
      (after : Spaces) (rest : Members)
end

mutual
def Value.render : Value → List UInt8
  | .null => bytes "null"
  | .true => bytes "true"
  | .false => bytes "false"
  | .number n => n.render
  | .string s => renderString s
  | .array ws elements => byte '[' :: (renderSpaces ws ++ (elements.render [] ++ [byte ']']))
  | .object ws members => byte '{' :: (renderSpaces ws ++ (members.render [] ++ [byte '}']))

/-- Elements after `separator`; there is a comma between them. -/
def Elements.render : List UInt8 → Elements → List UInt8
  | _, .nil => []
  | separator, .cons before value after rest =>
    separator ++ (renderSpaces before ++ (value.render ++ (renderSpaces after ++
      rest.render [byte ','])))

def Members.render : List UInt8 → Members → List UInt8
  | _, .nil => []
  | separator, .cons before key beforeColon afterColon value after rest =>
    separator ++ (renderSpaces before ++ (renderString key ++ (renderSpaces beforeColon ++
      (byte ':' :: (renderSpaces afterColon ++ (value.render ++ (renderSpaces after ++
        rest.render [byte ','])))))))
end

/-- A member's name and value. -/
structure Member where
  name : List Nat
  value : Value

def Members.toList : Members → List Member
  | nil => []
  | cons _ key _ _ value _ rest => ⟨units key, value⟩ :: rest.toList

/-- The text of an object whose names are distinct. -/
structure ObjectText where
  before : Spaces
  ws : Spaces
  members : Members
  after : Spaces
  distinct : (members.toList.map Member.name).Nodup

def ObjectText.render (t : ObjectText) : List UInt8 :=
  renderSpaces t.before ++ ((Value.object t.ws t.members).render ++ renderSpaces t.after)

/-- The object has a member of this name whose value is the literal `true`. -/
def ObjectText.HasTrue (t : ObjectText) (name : String) : Prop :=
  ∃ m ∈ t.members.toList, m.name = name.toList.flatMap (utf16 ·.toNat) ∧ m.value = .true

end TpmAttest.JsonGrammar
