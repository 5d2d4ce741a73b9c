import MessageDispatch.Assoc

/-! Message headers: text values under distinct names. Two header sets are equal exactly when
they have the same entries. -/
namespace MessageDispatch

structure Headers where
  entries : List (String × String)
  sorted : Assoc.Sorted entries := by decide
deriving DecidableEq

namespace Headers

def empty : Headers := ⟨[], List.Pairwise.nil⟩

instance : Inhabited Headers := ⟨empty⟩

instance : EmptyCollection Headers := ⟨empty⟩

def get? (h : Headers) (name : String) : Option String :=
  Assoc.get? name h.entries

/-- Set a header, replacing the value it had. -/
def insert (h : Headers) (name value : String) : Headers :=
  ⟨Assoc.put name value h.entries, h.sorted.put⟩

/-- Set a header if there is a value for it. -/
def insert? (h : Headers) (name : String) : Option String → Headers
  | some value => h.insert name value
  | none => h

/-- Set all of `entries` in turn, the last of those with one name winning. -/
def insertAll (h : Headers) (entries : List (String × String)) : Headers :=
  entries.foldl (fun acc e => acc.insert e.1 e.2) h

def ofList (entries : List (String × String)) : Headers :=
  empty.insertAll entries

/-- The header of this name, unless it is missing or empty. -/
def nonEmpty? (h : Headers) (name : String) : Option String :=
  (h.get? name).filter (· ≠ "")

@[simp] theorem get?_empty (name : String) : empty.get? name = none := rfl

theorem get?_insert (h : Headers) (name value needle : String) :
    (h.insert name value).get? needle = if name = needle then some value else h.get? needle :=
  Assoc.get?_put name value h.entries needle

@[simp] theorem get?_insert_self (h : Headers) (name value : String) :
    (h.insert name value).get? name = some value := by
  simp [get?_insert]

theorem get?_insert_of_ne (h : Headers) {name needle : String} (value : String)
    (hne : name ≠ needle) : (h.insert name value).get? needle = h.get? needle := by
  simp [get?_insert, hne]

theorem get?_insertAll (entries : List (String × String)) (h : Headers) (name : String) :
    (h.insertAll entries).get? name = (entries.reverse.lookup name).or (h.get? name) := by
  induction entries generalizing h with
  | nil => rfl
  | cons e rest ih =>
    obtain ⟨n, v⟩ := e
    have hstep : h.insertAll ((n, v) :: rest) = (h.insert n v).insertAll rest := rfl
    rw [hstep, ih, List.reverse_cons, Assoc.lookup_concat, get?_insert]
    by_cases hn : n = name <;> simp [hn]

/-- Of the entries with one name the last one counts. -/
theorem get?_ofList (entries : List (String × String)) (name : String) :
    (ofList entries).get? name = entries.reverse.lookup name := by
  simp [ofList, get?_insertAll]

theorem entries_insertAll (entries : List (String × String)) (h : Headers) :
    (h.insertAll entries).entries =
      entries.foldl (fun acc e => Assoc.put e.1 e.2 acc) h.entries := by
  induction entries generalizing h with
  | nil => rfl
  | cons e rest ih => exact ih _

/-- Headers are the headers of their entries. -/
@[simp] theorem ofList_entries (h : Headers) : ofList h.entries = h := by
  obtain ⟨entries, hsorted⟩ := h
  have hentries := entries_insertAll entries empty
  rw [show empty.entries = [] from rfl, Assoc.foldl_put_of_sorted [] entries hsorted] at hentries
  unfold ofList
  cases hall : empty.insertAll entries
  simpa [hall] using hentries

theorem get?_insert? (h : Headers) (name : String) (value : Option String) (needle : String) :
    (h.insert? name value).get? needle =
      if name = needle then value.or (h.get? needle) else h.get? needle := by
  cases value with
  | some value => exact get?_insert h name value needle
  | none => simp [insert?]

end Headers

/-! The header names that carry the metadata of a message. -/

namespace HeaderName

def contentType : String := "content-type"
def correlationId : String := "correlation_id"
def replyTo : String := "reply_to"
def messageId : String := "message_id"

end HeaderName
end MessageDispatch
