import MessageDispatch.Headers
import MessageDispatch.Json.Document
import MessageDispatch.Json.Printer
import MessageDispatch.Text.Utf8

/-! JSON forms: how values of the domain are written as JSON and read from it. A member that is
missing, or of another type than asked for, reads as the least value of the type asked for. -/
namespace MessageDispatch

namespace Json

/-- A member that may be anything, null included. -/
def given? (name : String) : Json → Option Json
  | .object members => Assoc.get? name members
  | _ => none

def textAt? (name : String) (v : Json) : Option String :=
  (v.member? name).bind string?

def textAt (name : String) (v : Json) : String :=
  (v.textAt? name).getD ""

def flagAt (name : String) (v : Json) : Bool :=
  ((v.member? name).bind bool?).getD false

def naturalAt? (name : String) (v : Json) : Option Nat :=
  (v.member? name).bind natural?

def itemsAt (name : String) (v : Json) : List Json :=
  ((v.member? name).bind array?).getD []

def textsAt (name : String) (v : Json) : List String :=
  (v.itemsAt name).filterMap string?

/-- The single member of an object that has just one. -/
def single? : Json → Option (String × Json)
  | .object [member] => some member
  | _ => none

/-- Is there nothing in a value? -/
def isVoid : Json → Bool
  | .null => true
  | .array [] => true
  | .object [] => true
  | _ => false

/-- The object of those members that have something in them. -/
def sparse (members : List (String × Json)) : Json :=
  ofMembers (members.filter fun m => !m.2.isVoid)

def text : Option String → Json := ofOption .string

end Json

namespace Form

def hexOfByte (b : UInt8) : List Char :=
  [Nat.digitChar (b.toNat / 16), Nat.digitChar (b.toNat % 16)]

/-- Bytes are written as the text they encode, or in hexadecimal if they encode none. -/
def bytes (b : ByteArray) : Json :=
  match Text.decode? b with
  | some s => .string s
  | none => .object [("hex", .string (String.ofList (b.toList.flatMap hexOfByte)))]

def bytesOfHex? : List Char → Option (List UInt8)
  | [] => some []
  | a :: b :: rest =>
    match Json.hexDigit? a, Json.hexDigit? b, bytesOfHex? rest with
    | some high, some low, some bs => some (UInt8.ofNat (high * 16 + low) :: bs)
    | _, _, _ => none
  | [_] => none

def bytes? : Json → Option ByteArray
  | .string s => some s.toUTF8
  | v => ((v.textAt? "hex").bind fun s => bytesOfHex? s.toList).map fun bs => ⟨bs.toArray⟩

def bytesAt? (name : String) (v : Json) : Option ByteArray :=
  (v.member? name).bind bytes?

def bytesAt (name : String) (v : Json) : ByteArray :=
  (bytesAt? name v).getD .empty

def headers (h : Headers) : Json :=
  .object (h.entries.map fun e => (e.1, .string e.2))

/-- The members of an object that are texts. -/
def headerEntries (v : Json) : List (String × String) :=
  (v.object?.getD []).filterMap fun m => m.2.string?.map (m.1, ·)

def headersOf (v : Json) : Headers := .ofList (headerEntries v)

def headersAt (name : String) (v : Json) : Headers :=
  ((v.member? name).map headersOf).getD .empty

/-- What came of something that can fail. -/
def result {ε α : Type} (error : ε → Json) (value : α → Json) : Except ε α → Json
  | .ok a => .object [("ok", value a)]
  | .error e => .object [("err", error e)]

def done (_ : Unit) : Json := .null

def list {α : Type} (view : α → Json) (items : List α) : Json :=
  .array (items.map view)

/-- A day in seconds. -/
def day : Nat := 86400

/-- A time in `unit`ths of a second: within a day of `clock` it is only said to be now. -/
def time (clock : UInt64) (unit : Nat) (t : Int) : Json :=
  if (t - (clock.toNat * unit : Nat)).natAbs ≤ day * unit then .string "now" else .integer t

def timestamp (clock : UInt64) (t : UInt64) : Json := time clock 1 t.toNat

end Form
end MessageDispatch
