import MessageDispatch.Json.Value
import MessageDispatch.Text.Utf8

/-! JSON text as tokens. The scanner reads one character at a time and never fails: at the
first character that fits no token it emits `stray` and stops, so whoever consumes the tokens
meets a mistake exactly where it was written, after everything that stands before it. What is no
character at all may stand in a string, which then has no value. -/
namespace MessageDispatch.Json

/-- A string token has no value when it holds half of a surrogate pair or what is no character, and
a number token has none when it is too large for a double. -/
inductive Token where
  | openArray
  | closeArray
  | openObject
  | closeObject
  | comma
  | colon
  | null
  | bool (b : Bool)
  | number (n : Option Number)
  | string (s : Option String)
  | stray
deriving Inhabited

/-- A number as it is written. -/
structure Literal where
  negative : Bool
  whole : List Nat
  fraction : List Nat
  exponentNegative : Bool
  exponent : List Nat
deriving Inhabited

namespace Literal

/-- Append digits to `n` as long as the result fits in 64 bits; how many were left over. -/
def append (n : Nat) : List Nat → Nat × Nat
  | [] => (n, 0)
  | d :: rest => if n * 10 + d < UInt64.size then append (n * 10 + d) rest else (n, rest.length + 1)

def natural (digits : List Nat) : Nat :=
  digits.foldl (fun n d => n * 10 + d) 0

/-- `x` times a power of ten, in steps of at most `10 ^ 308`; nothing when it is too large. -/
def scale (x : Float) (exponent : Int) : Nat → Option Float
  | 0 => some x
  | fuel + 1 =>
    if exponent.natAbs ≤ 308 then
      let power := Float.ofScientific 1 false exponent.natAbs
      if 0 ≤ exponent then
        let y := x * power
        if y.isInf then none else some y
      else some (x / power)
    else if x == 0.0 then some x
    else if 0 ≤ exponent then none
    else scale (x / Float.ofScientific 1 false 308) (exponent + 308) fuel

/-- The double of a literal: its leading digits that fit in 64 bits, rounded, then scaled by a
power of ten. -/
def decimal? (l : Literal) : Option Float :=
  let (n, dropped) := append 0 l.whole
  let (m, late) := append n l.fraction
  let shift : Int := (dropped : Int) - ((l.fraction.length - late : Nat) : Int)
  let written : Int := natural l.exponent
  let exponent := if l.exponentNegative then shift - written else shift + written
  -- a nonzero start is zero after three steps down
  (scale m.toUInt64.toFloat exponent 4).map fun x => if l.negative then -x else x

/-- The number of a literal. Without point and exponent it is an exact integer where that fits;
`-0` does not, for it keeps its sign. -/
def number? (l : Literal) : Option Number :=
  let n : Int := natural l.whole
  let signed := if l.negative then -n else n
  if l.fraction = [] ∧ l.exponent = [] ∧ Number.isExact signed ∧ ¬ (l.negative ∧ n = 0) then
    some (.integer signed)
  else l.decimal?.map .decimal

end Literal

/-- How far a number has been read. -/
inductive Place where
  | sign
  | zero
  | whole
  | point
  | fraction
  | mark
  | markSign
  | exponent
deriving DecidableEq

/-- May a number end here? -/
def Place.mayEnd : Place → Bool
  | .zero | .whole | .fraction | .exponent => true
  | _ => false

def digit? (c : Char) : Option Nat :=
  if '0' ≤ c ∧ c ≤ '9' then some (c.toNat - '0'.toNat) else none

/-- The number after one more character, if that can belong to it. -/
def Place.next? (l : Literal) (c : Char) : Place → Option (Literal × Place)
  | .sign =>
    (digit? c).map fun d => ({ l with whole := [d] }, if d = 0 then .zero else .whole)
  | .zero => afterWhole l c
  | .whole =>
    match digit? c with
    | some d => some ({ l with whole := l.whole ++ [d] }, .whole)
    | none => afterWhole l c
  | .point => (digit? c).map fun d => ({ l with fraction := [d] }, .fraction)
  | .fraction =>
    match digit? c with
    | some d => some ({ l with fraction := l.fraction ++ [d] }, .fraction)
    | none => if c = 'e' ∨ c = 'E' then some (l, .mark) else none
  | .mark =>
    if c = '+' then some (l, .markSign)
    else if c = '-' then some ({ l with exponentNegative := true }, .markSign)
    else (digit? c).map fun d => ({ l with exponent := [d] }, .exponent)
  | .markSign => (digit? c).map fun d => ({ l with exponent := [d] }, .exponent)
  | .exponent => (digit? c).map fun d => ({ l with exponent := l.exponent ++ [d] }, .exponent)
where
  afterWhole (l : Literal) (c : Char) : Option (Literal × Place) :=
    if c = '.' then some (l, .point) else if c = 'e' ∨ c = 'E' then some (l, .mark) else none

/-- A string being read: its characters in reverse, the first half of a surrogate pair that
waits for the second, and whether some half stood alone or something was no character. -/
structure Quoted where
  reversed : List Char
  half : Option Nat
  broken : Bool
deriving Inhabited

namespace Quoted

def empty : Quoted := ⟨[], none, false⟩

def push (q : Quoted) (c : Char) : Quoted :=
  ⟨c :: q.reversed, none, q.broken || q.half.isSome⟩

/-- One `\u` escape. -/
def pushUnit (q : Quoted) (unit : Nat) : Quoted :=
  if 0xD800 ≤ unit ∧ unit < 0xDC00 then ⟨q.reversed, some unit, q.broken || q.half.isSome⟩
  else if 0xDC00 ≤ unit ∧ unit < 0xE000 then
    match q.half with
    | some high =>
      ⟨Char.ofNat (0x10000 + (high - 0xD800) * 0x400 + (unit - 0xDC00)) :: q.reversed, none,
        q.broken⟩
    | none => ⟨q.reversed, none, true⟩
  else q.push (Char.ofNat unit)

/-- What is no character spoils the string. -/
def spoil (q : Quoted) : Quoted := { q with broken := true }

def text? (q : Quoted) : Option String :=
  if q.broken || q.half.isSome then none else some (String.ofList q.reversed.reverse)

end Quoted

def hexDigit? (c : Char) : Option Nat :=
  if '0' ≤ c ∧ c ≤ '9' then some (c.toNat - '0'.toNat)
  else if 'a' ≤ c ∧ c ≤ 'f' then some (c.toNat - 'a'.toNat + 10)
  else if 'A' ≤ c ∧ c ≤ 'F' then some (c.toNat - 'A'.toNat + 10)
  else none

/-- The character that a one-letter escape stands for. -/
def escaped? : Char → Option Char
  | '"' => some '"'
  | '\\' => some '\\'
  | '/' => some '/'
  | 'b' => some '\x08'
  | 'f' => some '\x0c'
  | 'n' => some '\n'
  | 'r' => some '\r'
  | 't' => some '\t'
  | _ => none

/-- Where the scanner stands. -/
inductive Mode where
  | between
  | word (left : List Char) (token : Token)
  | number (l : Literal) (place : Place)
  | quoted (q : Quoted)
  | escape (q : Quoted)
  | unicode (q : Quoted) (owed : Nat) (unit : Nat)

def isBlank (c : Char) : Bool :=
  c == ' ' || c == '\t' || c == '\n' || c == '\r'

/-- What a character between tokens begins: the token it is by itself, if it is one, and how to
go on. -/
def start (c : Char) : Option (List Token × Mode) :=
  if isBlank c then some ([], .between)
  else match c with
    | '[' => some ([.openArray], .between)
    | ']' => some ([.closeArray], .between)
    | '\x7b' => some ([.openObject], .between)
    | '\x7d' => some ([.closeObject], .between)
    | ',' => some ([.comma], .between)
    | ':' => some ([.colon], .between)
    | 'n' => some ([], .word ['u', 'l', 'l'] .null)
    | 't' => some ([], .word ['r', 'u', 'e'] (.bool true))
    | 'f' => some ([], .word ['a', 'l', 's', 'e'] (.bool false))
    | '"' => some ([], .quoted .empty)
    | '-' => some ([], .number ⟨true, [], [], false, []⟩ .sign)
    | c =>
      match digit? c with
      | some 0 => some ([], .number ⟨false, [0], [], false, []⟩ .zero)
      | some d => some ([], .number ⟨false, [d], [], false, []⟩ .whole)
      | none => none

/-- One character: the tokens it completes and the mode after it, or nothing when no token can
hold it. -/
def advance (c : Char) : Mode → Option (List Token × Mode)
  | .between => start c
  | .word [] token => (start c).map fun (out, mode) => (token :: out, mode)
  | .word (w :: left) token =>
    if c ≠ w then none
    else if left = [] then some ([token], .between)
    else some ([], .word left token)
  | .number l place =>
    match place.next? l c with
    | some (l, place) => some ([], .number l place)
    | none =>
      if place.mayEnd ∧ ¬ (place = .zero ∧ (digit? c).isSome) then
        (start c).map fun (out, mode) => (.number l.number? :: out, mode)
      else none
  | .quoted q =>
    if c = '"' then some ([.string q.text?], .between)
    else if c = '\\' then some ([], .escape q)
    else if c.toNat < 0x20 then none
    else some ([], .quoted (q.push c))
  | .escape q =>
    if c = 'u' then some ([], .unicode q 4 0)
    else (escaped? c).map fun e => ([], .quoted (q.push e))
  | .unicode q owed unit =>
    (hexDigit? c).map fun d =>
      let unit := unit * 16 + d
      if owed ≤ 1 then ([], .quoted (q.pushUnit unit)) else ([], .unicode q (owed - 1) unit)

/-- What the end of the text completes. -/
def finish : Mode → List Token
  | .between => []
  | .number l place => if place.mayEnd then [.number l.number?] else [.stray]
  | _ => [.stray]

/-- One piece of a text that may hold what is no character. -/
def advancePiece : Option Char → Mode → Option (List Token × Mode)
  | some c, mode => advance c mode
  | none, .quoted q => some ([], .quoted q.spoil)
  | none, _ => none

/-- What becomes of a token when a piece cannot belong to it and begins nothing: a number that may
end there still comes before the `stray`. -/
def mistake (piece : Option Char) : Mode → List Token
  | .number l place =>
    if place.mayEnd ∧ ¬ (place = .zero ∧ (piece.bind digit?).isSome) then
      [.number l.number?, .stray]
    else [.stray]
  | _ => [.stray]

/-- The tokens of a text in pieces. -/
def scanPieces : Mode → List (Option Char) → List Token
  | mode, [] => finish mode
  | mode, piece :: rest =>
    match advancePiece piece mode with
    | some (out, next) => out ++ scanPieces next rest
    | none => mistake piece mode

/-- The tokens of a text. -/
def scan (mode : Mode) (cs : List Char) : List Token :=
  scanPieces mode (cs.map some)

section
variable (mode : Mode) (c : Char) (cs : List Char)

@[simp] theorem scan_nil : scan mode [] = finish mode := by
  rw [scan, List.map_nil, scanPieces]

theorem scan_cons :
    scan mode (c :: cs) =
      match advance c mode with
      | some (out, next) => out ++ scan next cs
      | none => mistake (some c) mode := by
  rw [scan, List.map_cons, scanPieces]
  rfl

end

def tokens (text : String) : List Token :=
  scan .between text.toList

/-- The tokens of bytes, which should be UTF-8 but need not be within strings. -/
def tokensOfBytes (bytes : ByteArray) : List Token :=
  scanPieces .between (Text.pieces bytes)

theorem tokensOfBytes_of_decode? {bytes : ByteArray} {text : String}
    (h : Text.decode? bytes = some text) : tokensOfBytes bytes = tokens text := by
  rw [tokensOfBytes, Text.pieces_of_decode? h, tokens, scan]

end MessageDispatch.Json
