import MessageDispatch.Assoc

/-! JSON values. A number is an exact integer where it fits in 64 bits, signed or unsigned, and
a double otherwise. An object holds its members by name, each name once, in the order of the
names, so the order in which members were written cannot be seen. -/
namespace MessageDispatch

/-- A JSON number: the integers from `-2 ^ 63` to `2 ^ 64 - 1`, and doubles. -/
inductive Number where
  | integer (n : Int)
  | decimal (x : Float)
deriving Inhabited

inductive Json where
  | null
  | bool (b : Bool)
  | number (n : Number)
  | string (s : String)
  | array (items : List Json)
  | object (members : List (String × Json))
deriving Inhabited

namespace Number

/-- Is `n` kept exactly? -/
def isExact (n : Int) : Bool :=
  decide (-0x8000000000000000 ≤ n ∧ n < 0x10000000000000000)

/-- Equality as numbers: an integer never equals a double, and zero has no sign. -/
def same : Number → Number → Bool
  | .integer a, .integer b => a == b
  | .decimal a, .decimal b => a == b
  | _, _ => false

end Number

namespace Json

/-- The object with these members, the last of those with one name winning. -/
def ofMembers (members : List (String × Json)) : Json :=
  .object (Assoc.ofList members)

def integer (n : Int) : Json := .number (.integer n)

def natural (n : Nat) : Json := .integer n

def ofOption {α : Type} (view : α → Json) : Option α → Json
  | none => .null
  | some a => view a

/-- A member of an object; `null` is the same as no member. -/
def member? (name : String) : Json → Option Json
  | .object members =>
    match Assoc.get? name members with
    | some .null => none
    | found => found
  | _ => none

def string? : Json → Option String
  | .string s => some s
  | _ => none

def bool? : Json → Option Bool
  | .bool b => some b
  | _ => none

def integer? : Json → Option Int
  | .number (.integer n) => some n
  | _ => none

def natural? : Json → Option Nat
  | .number (.integer (.ofNat n)) => some n
  | _ => none

def array? : Json → Option (List Json)
  | .array items => some items
  | _ => none

def object? : Json → Option (List (String × Json))
  | .object members => some members
  | _ => none

mutual

/-- Equality of values: members by name, numbers as numbers. -/
def same : Json → Json → Bool
  | .null, .null => true
  | .bool a, .bool b => a == b
  | .number a, .number b => a.same b
  | .string a, .string b => a == b
  | .array a, .array b => sameItems a b
  | .object a, .object b => sameMembers a b
  | _, _ => false

def sameItems : List Json → List Json → Bool
  | [], [] => true
  | a :: as, b :: bs => a.same b && sameItems as bs
  | _, _ => false

def sameMembers : List (String × Json) → List (String × Json) → Bool
  | [], [] => true
  | (m, a) :: as, (n, b) :: bs => m == n && a.same b && sameMembers as bs
  | _, _ => false

end

mutual

/-- How deep arrays and objects nest. -/
def depth : Json → Nat
  | .array items => depthItems items + 1
  | .object members => depthMembers members + 1
  | _ => 0

def depthItems : List Json → Nat
  | [] => 0
  | a :: as => max a.depth (depthItems as)

def depthMembers : List (String × Json) → Nat
  | [] => 0
  | (_, a) :: as => max a.depth (depthMembers as)

end

end Json
end MessageDispatch
