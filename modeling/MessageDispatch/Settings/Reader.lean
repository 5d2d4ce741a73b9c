import MessageDispatch.Json.Document

/-! Reading settings from JSON text. Members are taken from left to right and reading stops at
the first problem, which is either that the text is not JSON or that a value does not suit its
setting. A record may also be written as an array of its values in order of declaration. -/
namespace MessageDispatch.Settings
open Json (Token)

inductive Fault where
  /-- The text is not JSON. -/
  | malformed
  /-- A value is not one that its setting takes. -/
  | unsuitable
deriving DecidableEq

abbrev Reader (α : Type) := List Token → Except Fault (α × List Token)

/-- What is wrong when a value of another type was expected at these tokens. Scalars are read
before they are refused, arrays and objects are refused at once. -/
def mismatch : List Token → Fault
  | .null :: _ | .bool _ :: _ | .number (some _) :: _ | .string (some _) :: _
  | .openArray :: _ | .openObject :: _ => .unsuitable
  | _ => .malformed

/-- A whole value of at most `room` levels, whatever it is. -/
def value (room : Nat) : Reader Json := fun tokens =>
  match Document.take? tokens with
  | some (d, rest) =>
    match d.value? room with
    | some v => .ok (v, rest)
    | none => .error .malformed
  | none => .error .malformed

def bool : Reader Bool
  | .bool b :: rest => .ok (b, rest)
  | tokens => .error (mismatch tokens)

def string : Reader String
  | .string (some s) :: rest => .ok (s, rest)
  | tokens => .error (mismatch tokens)

/-- A whole number below `size`. -/
def natural (size : Nat) : Reader Nat
  | .number (some (.integer (.ofNat n))) :: rest =>
    if n < size then .ok (n, rest) else .error .unsuitable
  | tokens => .error (mismatch tokens)

def option {α : Type} (read : Reader α) : Reader (Option α)
  | .null :: rest => .ok (none, rest)
  | tokens => (read tokens).map fun (a, rest) => (some a, rest)

/-- The digits of a number: at least one, perhaps after a plus sign. -/
def digits? (text : List Char) : Option Nat :=
  let digits := match text with
    | '+' :: rest => rest
    | text => text
  if digits = [] then none
  else (digits.mapM Json.digit?).map Json.Literal.natural

/-- The levels left to the values in a record. -/
def fieldRoom : Nat := Document.maxDepth - 1

/-- A whole number below `size`, written as a number or as a string of digits. -/
def naturalOrText (size : Nat) : Reader Nat := fun tokens =>
  match value fieldRoom tokens with
  | .error fault => .error fault
  | .ok (v, rest) =>
    let found :=
      match v with
      | .string s => digits? s.toList
      | v => v.natural?
    match found.filter (· < size) with
    | some n => .ok (n, rest)
    | none => .error .unsuitable

/-- A setting of a record `σ`: its name, and how its value changes the record. -/
structure Field (σ : Type) where
  name : String
  read : σ → Reader σ

def field {σ α : Type} (name : String) (read : Reader α) (set : σ → α → σ) : Field σ :=
  ⟨name, fun s tokens => (read tokens).map fun (a, rest) => (set s a, rest)⟩

section
variable {σ : Type}

/-- The members of an object after its brace or a comma, `seen` being the names so far. -/
def members (fields : List (Field σ)) : Nat → List String → σ → Reader σ
  | 0, _, _, _ => .error .malformed
  | fuel + 1, seen, s, .string (some name) :: rest =>
    let step : Except Fault (List String × σ × List Token) :=
      match fields.find? (·.name == name) with
      | some f =>
        if seen.contains name then .error .unsuitable
        else
          match rest with
          | .colon :: rest => (f.read s rest).map fun (s, rest) => (name :: seen, s, rest)
          | _ => .error .malformed
      | none =>
        match rest with
        | .colon :: rest =>
          match Document.take? rest with
          | some (_, rest) => .ok (seen, s, rest)
          | none => .error .malformed
        | _ => .error .malformed
    match step with
    | .error fault => .error fault
    | .ok (_, s, .closeObject :: rest) => .ok (s, rest)
    | .ok (seen, s, .comma :: rest) => members fields fuel seen s rest
    | .ok _ => .error .malformed
  | _ + 1, _, _, _ => .error .malformed

/-- The values of an array after its bracket. Fewer values than fields are accepted if missing
settings have defaults. -/
def items (defaults : Bool) : List (Field σ) → Bool → σ → Reader σ
  | [], _, s, .closeArray :: rest => .ok (s, rest)
  | [], _, _, _ => .error .malformed
  | _ :: _, _, s, .closeArray :: rest => if defaults then .ok (s, rest) else .error .unsuitable
  | f :: fields, true, s, tokens =>
    match f.read s tokens with
    | .error fault => .error fault
    | .ok (s, rest) => items defaults fields false s rest
  | f :: fields, false, s, .comma :: tokens =>
    match tokens with
    | .closeArray :: _ => .error .malformed
    | tokens =>
      match f.read s tokens with
      | .error fault => .error fault
      | .ok (s, rest) => items defaults fields false s rest
  | _ :: _, false, _, _ => .error .malformed

/-- A record, starting from `s`. -/
def record (fields : List (Field σ)) (defaults : Bool) (s : σ) : Reader σ
  | .openObject :: .closeObject :: rest => .ok (s, rest)
  | .openObject :: rest => members fields rest.length [] s rest
  | .openArray :: rest => items defaults fields true s rest
  | tokens => .error (mismatch tokens)

end

/-- What a whole text holds. -/
def readText {α : Type} (read : Reader α) (text : String) : Except Fault α :=
  match read (Json.tokens text) with
  | .error fault => .error fault
  | .ok (a, []) => .ok a
  | .ok (_, _ :: _) => .error .malformed

end MessageDispatch.Settings
