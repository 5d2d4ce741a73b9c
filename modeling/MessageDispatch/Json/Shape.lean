import MessageDispatch.Json.Document

/-! Shapes: what a typed consumer expects a body to be. A value can be held against a shape, and
so can a text that has not been merged into a value yet. The two differ for records: a text that
writes a field twice has no single value for it and is refused, while in a value the last one
has already won; and the members of a text that no field asks for need only have the form of
JSON. -/
namespace MessageDispatch

inductive Shape where
  | integer (low high : Int)
  | bool
  | string
  | unit
  | option (s : Shape)
  | list (s : Shape)
  | map (s : Shape)
  /-- An object with these fields, or an array of exactly their values. -/
  | record (fields : List (String × Shape))
  | any
deriving Inhabited

namespace Shape

/-- The whole numbers below `size`. -/
def unsigned (size : Nat) : Shape := .integer 0 ((size : Int) - 1)

/-- As many whole numbers as `size`, half of them negative. -/
def signed (size : Nat) : Shape := .integer (-(size / 2 : Nat)) ((size / 2 : Nat) - 1)

def readInteger (low high : Int) : Json → Option Json
  | .number (.integer n) => if low ≤ n ∧ n ≤ high then some (.integer n) else none
  | _ => none

mutual

/-- The part of a value that a shape asks for. -/
def ofValue : Shape → Json → Option Json
  | .integer low high, v => readInteger low high v
  | .bool, .bool b => some (.bool b)
  | .string, .string s => some (.string s)
  | .unit, .null => some .null
  | .option _, .null => some .null
  | .option s, v => ofValue s v
  | .list s, .array items => (items.mapM (ofValue s)).map .array
  | .map s, .object members =>
    (members.mapM fun m : String × Json => (ofValue s m.2).map (m.1, ·)).map .ofMembers
  | .record fields, .object members => (fieldsOfValue fields members).map .ofMembers
  | .record fields, .array items => (fieldsOfItems fields items).map .ofMembers
  | .any, v => some v
  | _, _ => none

def fieldsOfValue : List (String × Shape) → List (String × Json) → Option (List (String × Json))
  | [], _ => some []
  | (name, s) :: rest, members =>
    match Assoc.get? name members with
    | none => none
    | some v =>
      match ofValue s v, fieldsOfValue rest members with
      | some w, some ws => some ((name, w) :: ws)
      | _, _ => none

def fieldsOfItems : List (String × Shape) → List Json → Option (List (String × Json))
  | [], [] => some []
  | (name, s) :: rest, v :: items =>
    match ofValue s v, fieldsOfItems rest items with
    | some w, some ws => some ((name, w) :: ws)
    | _, _ => none
  | _, _ => none

end

/-- The one member of an object with this name. -/
def only? (name : String) (members : List (Option String × Document)) : Option Document :=
  match members.filter (fun m => m.1 == some name) with
  | [(_, d)] => some d
  | _ => none

mutual

/-- The part of a text that a shape asks for, below at most `room` levels. -/
def ofDocument (room : Nat) : Shape → Document → Option Json
  | .integer low high, d => (d.value? room).bind (readInteger low high)
  | .bool, .bool b => some (.bool b)
  | .string, .string s => s.map .string
  | .unit, .null => some .null
  | .option _, .null => some .null
  | .option s, d => ofDocument room s d
  | .list s, .array items =>
    if room = 0 then none else (items.mapM (ofDocument (room - 1) s)).map .array
  | .map s, .object members =>
    if room = 0 then none
    else (members.mapM fun m : Option String × Document =>
      m.1.bind fun n => (ofDocument (room - 1) s m.2).map (n, ·)).map .ofMembers
  | .record fields, .object members =>
    if room = 0 ∨ members.any (fun m => m.1.isNone) then none
    else (fieldsOfMembers (room - 1) fields members).map .ofMembers
  | .record fields, .array items =>
    if room = 0 then none else (fieldsOfList (room - 1) fields items).map .ofMembers
  | .any, d => d.value? room
  | _, _ => none

def fieldsOfMembers (room : Nat) :
    List (String × Shape) → List (Option String × Document) → Option (List (String × Json))
  | [], _ => some []
  | (name, s) :: rest, members =>
    match only? name members with
    | none => none
    | some d =>
      match ofDocument room s d, fieldsOfMembers room rest members with
      | some w, some ws => some ((name, w) :: ws)
      | _, _ => none

def fieldsOfList (room : Nat) :
    List (String × Shape) → List Document → Option (List (String × Json))
  | [], [] => some []
  | (name, s) :: rest, d :: items =>
    match ofDocument room s d, fieldsOfList room rest items with
    | some w, some ws => some ((name, w) :: ws)
    | _, _ => none
  | _, _ => none

end

/-- What a shape asks for in JSON bytes. -/
def ofBytes (s : Shape) (bytes : ByteArray) : Option Json :=
  (Document.parseBytes? bytes).bind (ofDocument Document.maxDepth s)

end Shape
end MessageDispatch
