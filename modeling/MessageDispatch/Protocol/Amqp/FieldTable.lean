import MessageDispatch.Headers
import MessageDispatch.Text.Utf8

/-! AMQP field tables: header values with types. As plain headers, numbers, truth values and
timestamps are written out and values of the other types are left behind. -/
namespace MessageDispatch.Amqp

inductive IntegerType where
  | i8
  | u8
  | i16
  | u16
  | i32
  | u32
  | i64
deriving DecidableEq

/-- The types of values that have no text form. -/
inductive OpaqueType where
  | f32
  | f64
  | decimal
  | bytes
  | array
  | table
  | void
deriving DecidableEq

inductive FieldValue where
  | bool (b : Bool)
  | integer (type : IntegerType) (n : Int)
  | timestamp (seconds : UInt64)
  | short (s : String)
  | long (bytes : ByteArray)
  | other (type : OpaqueType)

namespace FieldValue

/-- The value of a string, short or long. -/
def string? : FieldValue → Option String
  | .short s => some s
  | .long b => some (Text.lossy b)
  | _ => none

def header? : FieldValue → Option String
  | .bool b => some (if b then "true" else "false")
  | .integer _ n => some (toString n)
  | .timestamp t => some (toString t.toNat)
  | v => v.string?

end FieldValue

structure FieldTable where
  entries : List (String × FieldValue)
  sorted : Assoc.Sorted entries

namespace FieldTable

def empty : FieldTable := ⟨[], List.Pairwise.nil⟩

def get? (t : FieldTable) (name : String) : Option FieldValue :=
  Assoc.get? name t.entries

def insert (t : FieldTable) (name : String) (value : FieldValue) : FieldTable :=
  ⟨Assoc.put name value t.entries, t.sorted.put⟩

def ofList (entries : List (String × FieldValue)) : FieldTable :=
  entries.foldl (fun t e => t.insert e.1 e.2) empty

def headers (t : FieldTable) : Headers :=
  .ofList (t.entries.filterMap fun e => e.2.header?.map (e.1, ·))

def ofHeaders (h : Headers) : FieldTable :=
  ofList (h.entries.map fun e => (e.1, .long e.2.toUTF8))

/-- A table as plain headers has the values with a text form, under their names. -/
theorem get?_headers (t : FieldTable) (name : String) :
    t.headers.get? name = (t.get? name).bind FieldValue.header? := by
  rw [headers, Headers.get?_ofList]
  exact Assoc.lookup_reverse_filterMap t.sorted _ name

theorem entries_ofList {entries : List (String × FieldValue)} (h : Assoc.Sorted entries) :
    (ofList entries).entries = entries := by
  have hfoldl : ∀ (es : List (String × FieldValue)) (t : FieldTable),
      (es.foldl (fun t e => t.insert e.1 e.2) t).entries =
        es.foldl (fun acc e => Assoc.put e.1 e.2 acc) t.entries := by
    intro es
    induction es with
    | nil => exact fun _ => rfl
    | cons e rest ih => exact fun t => ih _
  exact (hfoldl entries empty).trans (Assoc.ofList_of_sorted h)

/-- Plain headers come back from a table as they went into it. -/
theorem headers_ofHeaders (h : Headers) : (ofHeaders h).headers = h := by
  have hsorted : Assoc.Sorted (h.entries.map fun e => (e.1, FieldValue.long e.2.toUTF8)) :=
    List.pairwise_map.mpr h.sorted
  have htext : (fun e : String × FieldValue => e.2.header?.map (e.1, ·)) ∘
      (fun e : String × String => (e.1, .long e.2.toUTF8)) = some :=
    funext fun e => congrArg (fun text => some (e.1, text)) (Text.lossy_toUTF8 e.2)
  rw [headers, ofHeaders, entries_ofList hsorted, List.filterMap_map, htext, List.filterMap_some,
    Headers.ofList_entries]

end FieldTable
end MessageDispatch.Amqp
