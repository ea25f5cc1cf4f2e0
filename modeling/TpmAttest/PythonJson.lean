import Mathlib.Algebra.Group.Nat.Defs
import TpmAttest.PythonUnicode
import TpmAttest.PythonBytes
import TpmAttest.JsonGrammar

/-! # Python's `json`

`json.loads` and `json.dumps`, after the C scanner and the C encoder of CPython.  The
scanner goes through the text with an index, and a function of it answers with what it
has read and how far it came; here the loops walk down the text, and skip what an
inner call has read.

The interpreter bounds how deep a call may nest, and both functions count a level for
each list and each dict.  The bound depends on where they are called from, so it is an
argument.
-/
namespace TpmAttest.Python

open JsonGrammar (utf16)

/-- An ASCII character. -/
def char (c : Char) : CodePoint := codePoint c.toNat

/-- A decimal numeral with a fraction or an exponent. -/
structure Decimal where
  negative : Bool
  mantissa : Nat
  exponent : Int
deriving DecidableEq

/-- The float nearest to the numeral is a zero: the numeral is no more than half the
least positive float. -/
def Decimal.isZero (d : Decimal) : Bool :=
  d.mantissa = 0 || d.exponent < 0 && d.mantissa * 2 ^ 1075 ≤ 10 ^ (-d.exponent).toNat

inductive FloatValue where
  | nearest (d : Decimal)
  | nan
  | infinity (negative : Bool)
deriving DecidableEq

/-- What `json.loads` returns; a dict is its items. -/
inductive Json where
  | null
  | bool (b : Bool)
  | int (n : Int)
  | float (f : FloatValue)
  | str (s : Text)
  | list (items : List Json)
  | dict (items : List (Text × Json))

/-- `d[key] = value`. -/
def setItem (key : Text) (value : Json) : List (Text × Json) → List (Text × Json)
  | [] => [(key, value)]
  | item :: items =>
    if item.1 = key then (key, value) :: items else item :: setItem key value items

/-- The dict that some assignments make. -/
def dictOf (items : List (Text × Json)) : List (Text × Json) :=
  items.foldl (fun d item => setItem item.1 item.2 d) []

theorem setItem_of_notMem {key : Text} {d : List (Text × Json)} (h : key ∉ d.map Prod.fst)
    (value : Json) : setItem key value d = d ++ [(key, value)] := by
  induction d with
  | nil => rfl
  | cons item d ih =>
    rw [List.map_cons, List.mem_cons, not_or] at h
    rw [setItem, if_neg fun heq => h.1 heq.symm, ih h.2, List.cons_append]

/-- Items with distinct keys are a dict. -/
theorem dictOf_of_nodup {items : List (Text × Json)} (h : (items.map Prod.fst).Nodup) :
    dictOf items = items := by
  have hfold : ∀ d : List (Text × Json), ((d ++ items).map Prod.fst).Nodup →
      items.foldl (fun d item => setItem item.1 item.2 d) d = d ++ items := by
    clear h
    induction items with
    | nil => exact fun d _ => (List.append_nil d).symm
    | cons item items ih =>
      intro d hd
      have hnew : item.1 ∉ d.map Prod.fst := by
        intro hmem
        rw [List.map_append, List.nodup_append] at hd
        exact hd.2.2 _ hmem _ List.mem_cons_self rfl
      rw [← List.singleton_append, ← List.append_assoc] at hd
      rw [List.foldl_cons, setItem_of_notMem hnew, ih _ hd, List.append_assoc, List.singleton_append]
  exact hfold [] h

/-- `d.get(key)`, if the key is there. -/
def getItem (key : String) (d : List (Text × Json)) : Option Json := d.lookup (text key)

namespace Json

/-- `bool(value)`. -/
def truthy : Json → Bool
  | null => false
  | bool b => b
  | int n => n ≠ 0
  | float (.nearest d) => !d.isZero
  | float _ => true
  | str s => !s.isEmpty
  | list items => !items.isEmpty
  | dict items => !items.isEmpty

mutual
/-- How deep lists and dicts nest. -/
def nesting : Json → Nat
  | list items => nestingList items + 1
  | dict items => nestingDict items + 1
  | _ => 0

def nestingList : List Json → Nat
  | [] => 0
  | item :: items => max item.nesting (nestingList items)

def nestingDict : List (Text × Json) → Nat
  | [] => 0
  | (_, value) :: items => max value.nesting (nestingDict items)
end

end Json

/-! ## Strings -/

/-- The exceptions of `json.loads`: `JSONDecodeError`, `UnicodeDecodeError`, the
`ValueError` of an integer with too many digits, and `RecursionError`. -/
inductive LoadsError where
  | json (msg : String)
  | unicode
  | digits
  | recursion
deriving DecidableEq, Repr

/-- What is read, and the number of characters it takes. -/
abbrev Scan (α : Type) := Except LoadsError (α × Nat)

/-- One character more. -/
def Scan.advance {α : Type} (r : Scan α) : Scan α := r.map fun p => (p.1, p.2 + 1)

/-- Four hexadecimal digits, with some character behind them. -/
def scanHex : Text → Option Nat
  | a :: b :: c :: d :: _ :: _ => do
    let a ← hexValue (Char.ofNat a)
    let b ← hexValue (Char.ofNat b)
    let c ← hexValue (Char.ofNat c)
    let d ← hexValue (Char.ofNat d)
    return ((a * 16 + b) * 16 + c) * 16 + d
  | _ => none

/-- The character of an escape of one letter. -/
def simpleEscape (c : CodePoint) : Option CodePoint :=
  [('"', '"'), ('\\', '\\'), ('/', '/'), ('b', '\x08'), ('f', '\x0c'), ('n', '\n'), ('r', '\r'),
    ('t', '\t')].findSome? fun p => if c = char p.1 then some (char p.2) else none

/-- The second escape of a surrogate pair: nothing, if the text does not go on with
`\u`. -/
def scanLow (s : Text) : Except LoadsError (Option Nat) :=
  if s.take 2 = [char '\\', char 'u'] then
    match scanHex (s.drop 2) with
    | none => .error (.json "Invalid \\uXXXX escape")
    | some low => .ok (if isLowSurrogate low then some low else none)
  else .ok none

/-- What follows a backslash. -/
def scanEscape : Text → Scan CodePoint
  | [] => .error (.json "Unterminated string starting at")
  | c :: s =>
    if c = char 'u' then
      match scanHex s with
      | none => .error (.json "Invalid \\uXXXX escape")
      | some n =>
        if isHighSurrogate n then
          match scanLow (s.drop 4) with
          | .error e => .error e
          | .ok none => .ok (codePoint n, 5)
          | .ok (some low) => .ok (joinSurrogates n low, 11)
        else .ok (codePoint n, 5)
    else
      match simpleEscape c with
      | none => .error (.json "Invalid \\escape")
      | some c => .ok (c, 1)

/-- `scanstring`, after the opening quote and past `skip` characters of an escape. -/
def scanString : Nat → Text → Scan Text
  | _, [] => .error (.json "Unterminated string starting at")
  | skip + 1, _ :: s => (scanString skip s).advance
  | 0, c :: s =>
    if c = char '"' then .ok ([], 1)
    else if c = char '\\' then
      match scanEscape s with
      | .error e => .error e
      | .ok (c, n) => (scanString n s).map fun p => (c :: p.1, p.2 + 1)
    else if c.val < 0x20 then .error (.json "Invalid control character at")
    else (scanString 0 s).map fun p => (c :: p.1, p.2 + 1)

/-! ## Numbers -/

def isDigit (c : CodePoint) : Bool := 0x30 ≤ c.val && c.val ≤ 0x39

def decimalNumber (digits : Text) : Nat := digits.foldl (fun n c => 10 * n + (c.val - 0x30)) 0

/-- The digits of the integer part: none follow a leading zero. -/
def integerDigits : Text → Text
  | [] => []
  | c :: s => if c = char '0' then [c] else (c :: s).takeWhile isDigit

/-- A point and the digits behind it, if there are any. -/
def fractionDigits : Text → Text
  | [] => []
  | c :: s => if c = char '.' then s.takeWhile isDigit else []

/-- An exponent that has a digit: its sign, the length of the sign, and the digits. -/
def scanExponent : Text → Option (Bool × Nat × Text)
  | [] => none
  | c :: s =>
    if c = char 'e' ∨ c = char 'E' then
      let signed : Nat := if s.head? = some (char '-') ∨ s.head? = some (char '+') then 1 else 0
      let digits := (s.drop signed).takeWhile isDigit
      if digits.isEmpty then none else some (s.head? = some (char '-'), signed, digits)
    else none

/-- `_match_number`. -/
def scanNumber (s : Text) : Scan Json :=
  let negative := s.head? = some (char '-')
  let t := if negative then s.drop 1 else s
  let integer := integerDigits t
  if integer.isEmpty then .error (.json "Expecting value")
  else
    let fraction := fractionDigits (t.drop integer.length)
    let point := if fraction.isEmpty then 0 else fraction.length + 1
    let length := (if negative then 1 else 0) + integer.length + point
    let mantissa := decimalNumber (integer ++ fraction)
    match scanExponent (t.drop (integer.length + point)) with
    | some (minus, signed, digits) =>
      let exponent : Int := if minus then -decimalNumber digits else decimalNumber digits
      .ok (.float (.nearest ⟨negative, mantissa, exponent - fraction.length⟩),
        length + 1 + signed + digits.length)
    | none =>
      if fraction.isEmpty then
        -- `int` reads at most 4300 digits
        if 4300 < integer.length then .error .digits
        else .ok (.int (if negative then -mantissa else mantissa), length)
      else .ok (.float (.nearest ⟨negative, mantissa, -fraction.length⟩), length)

/-! ## Values -/

/-- The white space of JSON. -/
def isJsonSpace (c : CodePoint) : Bool := c = char ' ' || c = char '\t' || c = char '\n' || c = char '\r'

/-- Where the loop over a list stands: before an element, perhaps the first, or behind
one. -/
inductive ElementPhase where
  | value (first : Bool)
  | delimiter

def ElementPhase.error : ElementPhase → LoadsError
  | value _ => .json "Expecting value"
  | delimiter => .json "Expecting ',' delimiter"

/-- `_parse_array`, after the bracket; `scan` reads a value. -/
def scanElements (scan : Text → Scan Json) : ElementPhase → Nat → Text → Scan (List Json)
  | phase, _, [] => .error phase.error
  | phase, skip + 1, _ :: s => (scanElements scan phase skip s).advance
  | phase, 0, c :: s =>
    if isJsonSpace c then (scanElements scan phase 0 s).advance
    else match phase with
      | .value first =>
        if first ∧ c = char ']' then .ok ([], 1)
        else match scan (c :: s) with
          | .error e => .error e
          | .ok (value, n) =>
            (scanElements scan .delimiter (n - 1) s).map fun p => (value :: p.1, p.2 + 1)
      | .delimiter =>
        if c = char ']' then .ok ([], 1)
        else if c = char ',' then (scanElements scan (.value false) 0 s).advance
        else .error ElementPhase.delimiter.error

inductive MemberPhase where
  | key (first : Bool)
  | colon (key : Text)
  | value (key : Text)
  | delimiter

def MemberPhase.error : MemberPhase → LoadsError
  | key _ => .json "Expecting property name enclosed in double quotes"
  | colon _ => .json "Expecting ':' delimiter"
  | value _ => .json "Expecting value"
  | delimiter => .json "Expecting ',' delimiter"

/-- `_parse_object`, after the brace. -/
def scanMembers (scan : Text → Scan Json) : MemberPhase → Nat → Text → Scan (List (Text × Json))
  | phase, _, [] => .error phase.error
  | phase, skip + 1, _ :: s => (scanMembers scan phase skip s).advance
  | phase, 0, c :: s =>
    if isJsonSpace c then (scanMembers scan phase 0 s).advance
    else match phase with
      | .key first =>
        if c = char '"' then
          match scanString 0 s with
          | .error e => .error e
          | .ok (key, n) => (scanMembers scan (.colon key) n s).advance
        else if first ∧ c = char '}' then .ok ([], 1)
        else .error (MemberPhase.key first).error
      | .colon key =>
        if c = char ':' then (scanMembers scan (.value key) 0 s).advance
        else .error (MemberPhase.colon key).error
      | .value key =>
        match scan (c :: s) with
        | .error e => .error e
        | .ok (value, n) =>
          (scanMembers scan .delimiter (n - 1) s).map fun p => ((key, value) :: p.1, p.2 + 1)
      | .delimiter =>
        if c = char '}' then .ok ([], 1)
        else if c = char ',' then (scanMembers scan (.key false) 0 s).advance
        else .error MemberPhase.delimiter.error

/-- The literals. -/
def literals : List (String × Json) :=
  [("null", .null), ("true", .bool true), ("false", .bool false), ("NaN", .float .nan),
    ("Infinity", .float (.infinity false)), ("-Infinity", .float (.infinity true))]

/-- The body of `scan_once`; `scan` reads the values in a list or a dict, unless the
nesting is too deep. -/
def scanValue (scan : Option (Text → Scan Json)) : Text → Scan Json
  | [] => .error (.json "Expecting value")
  | c :: s =>
    if c = char '"' then (scanString 0 s).map fun p => (.str p.1, p.2 + 1)
    else if c = char '{' then
      match scan with
      | none => .error .recursion
      | some scan => (scanMembers scan (.key true) 0 s).map fun p => (.dict (dictOf p.1), p.2 + 1)
    else if c = char '[' then
      match scan with
      | none => .error .recursion
      | some scan => (scanElements scan (.value true) 0 s).map fun p => (.list p.1, p.2 + 1)
    else match literals.find? fun l => text l.1 <+: c :: s with
      | some (literal, value) => .ok (value, literal.length)
      | none => scanNumber (c :: s)

/-- `scan_once`, in which lists and dicts may nest as deep as the limit says. -/
def scanOnce : Nat → Text → Scan Json
  | 0 => scanValue none
  | limit + 1 => scanValue (some (scanOnce limit))

/-- `JSONDecoder.decode`. -/
def decodeJson (limit : Nat) (s : Text) : Except LoadsError Json :=
  let s := s.dropWhile isJsonSpace
  match scanOnce limit s with
  | .error e => .error e
  | .ok (value, n) =>
    if (s.drop n).all isJsonSpace then .ok value else .error (.json "Extra data")

/-- `json.loads` of a `str`. -/
def loadsText (limit : Nat) (s : Text) : Except LoadsError Json :=
  if s.head? = some (codePoint 0xfeff) then
    .error (.json "Unexpected UTF-8 BOM (decode using utf-8-sig)")
  else decodeJson limit s

/-- `json.loads` of `bytes`. -/
def loads (limit : Nat) (b : Bytes) : Except LoadsError Json :=
  match decodeDetected b with
  | none => .error .unicode
  | some s => decodeJson limit s

/-! ## `json.dumps` -/

/-- A UTF-16 code unit between quotes. -/
def escapeUnit (n : Nat) : List Char :=
  if n = 0x22 then ['\\', '"']
  else if n = 0x5c then ['\\', '\\']
  else if 0x20 ≤ n ∧ n ≤ 0x7e then [Char.ofNat n]
  else if n = 0x08 then ['\\', 'b']
  else if n = 0x0c then ['\\', 'f']
  else if n = 0x0a then ['\\', 'n']
  else if n = 0x0d then ['\\', 'r']
  else if n = 0x09 then ['\\', 't']
  else '\\' :: 'u' :: hexDigits 4 n

/-- What stands between the quotes: a character outside the basic plane is a
surrogate pair. -/
def escapeText (s : Text) : List Char :=
  (s.flatMap fun c : CodePoint => utf16 c.val).flatMap escapeUnit

def quoteText (s : Text) : List Char := '"' :: (escapeText s ++ ['"'])

section
variable (floatRepr : Decimal → String)

def floatChars : FloatValue → List Char
  | .nearest d => (floatRepr d).toList
  | .nan => "NaN".toList
  | .infinity false => "Infinity".toList
  | .infinity true => "-Infinity".toList

mutual
/-- The text of a value. -/
def jsonChars : Json → List Char
  | .null => "null".toList
  | .bool true => "true".toList
  | .bool false => "false".toList
  | .int n => (toString n).toList
  | .float f => floatChars floatRepr f
  | .str s => quoteText s
  | .list items => '[' :: (elementChars [] items ++ [']'])
  | .dict items => '{' :: (memberChars [] items ++ ['}'])

def elementChars : List Char → List Json → List Char
  | _, [] => []
  | separator, item :: items => separator ++ (jsonChars item ++ elementChars [',', ' '] items)

def memberChars : List Char → List (Text × Json) → List Char
  | _, [] => []
  | separator, (key, value) :: items =>
    separator ++ (quoteText key ++ (':' :: ' ' :: (jsonChars value ++ memberChars [',', ' '] items)))
end

/-- `json.dumps(value)`; `none` is a `RecursionError`. -/
def dumps (limit : Nat) (value : Json) : Option String :=
  if value.nesting ≤ limit then some (String.ofList (jsonChars floatRepr value)) else none

end

example : (loads 2 (encode "[\x7b\"a\": -0.5e1,\"a\" :\"\\ud83d\\ude00\"\x7d, 0]")).toOption.bind
    (dumps (fun _ => "-5.0") 2) = some "[\x7b\"a\": \"\\ud83d\\ude00\"\x7d, 0]" := by
  decide +kernel

end TpmAttest.Python
