import MessageDispatch.Decimal.Shortest
import MessageDispatch.Json.Value

/-! The compact text of a JSON value: no blanks, members in the order of their names, integers
in full, doubles in the shortest form that reads back. -/
namespace MessageDispatch.Json

def hexDigit (n : Nat) : Char :=
  Nat.digitChar n

/-- A character inside a string. -/
def quoteChar (c : Char) : List Char :=
  if c = '"' then ['\\', '"']
  else if c = '\\' then ['\\', '\\']
  else if c = '\x08' then ['\\', 'b']
  else if c = '\t' then ['\\', 't']
  else if c = '\n' then ['\\', 'n']
  else if c = '\x0c' then ['\\', 'f']
  else if c = '\r' then ['\\', 'r']
  else if c.toNat < 0x20 then
    ['\\', 'u', '0', '0', hexDigit (c.toNat / 16), hexDigit (c.toNat % 16)]
  else [c]

def quote (s : String) : List Char :=
  '"' :: (s.toList.flatMap quoteChar ++ ['"'])

/-- A positive decimal: positional from `1e-5` up to below `1e16`, with a digit on both sides
of the point; otherwise with one digit before the point and a signed exponent. -/
def decimalChars (s : Decimal.Scaled) : List Char :=
  let digits := Nat.toDigits 10 s.digits
  let lead : Int := s.exponent + digits.length - 1
  if -5 ≤ lead ∧ lead ≤ 15 then
    if 0 ≤ s.exponent then digits ++ List.replicate s.exponent.toNat '0' ++ ['.', '0']
    else if 0 ≤ lead then digits.take (lead.toNat + 1) ++ '.' :: digits.drop (lead.toNat + 1)
    else '0' :: '.' :: (List.replicate (-lead - 1).toNat '0' ++ digits)
  else
    let tail := digits.drop 1
    digits.take 1 ++ (if tail = [] then [] else '.' :: tail) ++
      'e' :: (if lead < 0 then '-' else '+') :: Nat.toDigits 10 lead.natAbs

def floatChars (x : Float) : List Char :=
  let bits := x.toBits
  let size : UInt64 := bits &&& 0x7FFFFFFFFFFFFFFF
  let unsigned := if size = 0 then ['0', '.', '0'] else decimalChars (Decimal.shortest size)
  if bits = size then unsigned else '-' :: unsigned

def numberChars : Number → List Char
  | .integer n => (toString n).toList
  | .decimal x => floatChars x

mutual

def chars : Json → List Char
  | .null => ['n', 'u', 'l', 'l']
  | .bool true => ['t', 'r', 'u', 'e']
  | .bool false => ['f', 'a', 'l', 's', 'e']
  | .number n => numberChars n
  | .string s => quote s
  | .array [] => ['[', ']']
  | .array (item :: items) => '[' :: (item.chars ++ itemChars items)
  | .object [] => ['\x7b', '\x7d']
  | .object ((name, value) :: members) =>
    '\x7b' :: (quote name ++ ':' :: (value.chars ++ memberChars members))

/-- The items after the first, and the end of the array. -/
def itemChars : List Json → List Char
  | [] => [']']
  | item :: items => ',' :: (item.chars ++ itemChars items)

def memberChars : List (String × Json) → List Char
  | [] => ['\x7d']
  | (name, value) :: members =>
    ',' :: (quote name ++ ':' :: (value.chars ++ memberChars members))

end

/-- The compact text of a value. -/
def render (v : Json) : String :=
  String.ofList v.chars

end MessageDispatch.Json
