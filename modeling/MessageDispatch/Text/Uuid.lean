/-! Random ids in a text. An id has the form of a random UUID: lower case hexadecimal in five
groups, the third of which starts with 4 and the fourth with 8, 9, a or b. Numbering replaces
each id by its rank of first appearance, so texts that differ only in the ids they use read the
same. -/
namespace MessageDispatch.Uuid

/-- What may stand at each place of an id. -/
inductive Slot where
  | hex
  | dash
  | version
  | variant
deriving DecidableEq

def Slot.accepts (c : Char) : Slot → Bool
  | .hex => ('0' ≤ c && c ≤ '9') || ('a' ≤ c && c ≤ 'f')
  | .dash => c == '-'
  | .version => c == '4'
  | .variant => c == '8' || c == '9' || c == 'a' || c == 'b'

def hexes (n : Nat) : List Slot := List.replicate n .hex

def shape : List Slot :=
  hexes 8 ++ .dash :: hexes 4 ++ .dash :: .version :: hexes 3 ++ .dash :: .variant :: hexes 3 ++
    .dash :: hexes 12

/-- The characters that fill the slots, and the text after them. -/
def take? : List Slot → List Char → Option (List Char × List Char)
  | [], rest => some ([], rest)
  | _ :: _, [] => none
  | slot :: slots, c :: rest =>
    if slot.accepts c then (take? slots rest).map fun (id, rest) => (c :: id, rest) else none

theorem length_of_take? {slots : List Slot} {text id rest : List Char}
    (h : take? slots text = some (id, rest)) : text.length = slots.length + rest.length := by
  induction slots generalizing text id with
  | nil => simp_all [take?]
  | cons slot slots ih =>
    cases text with
    | nil => simp [take?] at h
    | cons c text =>
      simp only [take?] at h
      split at h
      · obtain ⟨⟨id', rest'⟩, h', he⟩ := Option.map_eq_some_iff.mp h
        obtain ⟨-, rfl⟩ := Prod.mk.inj he
        simp [ih h', Nat.add_right_comm]
      · simp at h

/-- The mark for the `n`-th id. -/
def mark (n : Nat) : List Char :=
  "<uuid:".toList ++ Nat.toDigits 10 n ++ ['>']

/-- The rank of an id among those seen, and the ids seen with it. -/
def rank (id : List Char) (seen : List (List Char)) : Nat × List (List Char) :=
  match seen.findIdx? (· == id) with
  | some i => (i + 1, seen)
  | none => (seen.length + 1, seen ++ [id])

/-- Replace the ids that are not `known`, those in `seen` having their ranks already. -/
def numberFrom (known : List Char → Bool) (seen : List (List Char)) : List Char → List Char
  | [] => []
  | c :: text =>
    match h : take? shape (c :: text) with
    | some (id, rest) =>
      have : rest.length ≤ text.length := by
        have := length_of_take? h
        simp [shape, hexes] at this
        omega
      if known id then id ++ numberFrom known seen rest
      else
        let (n, seen) := rank id seen
        mark n ++ numberFrom known seen rest
    | none => c :: numberFrom known seen text
termination_by text => text.length
decreasing_by all_goals (simp only [List.length_cons]; omega)

/-- The ids of a text. -/
def ids : List Char → List (List Char)
  | [] => []
  | c :: text =>
    match take? shape (c :: text) with
    | some (id, _) => id :: ids text
    | none => ids text

/-- Number the ids of `text` that do not occur in `given`. -/
def number (given text : String) : String :=
  let known := ids given.toList
  String.ofList (numberFrom known.contains [] text.toList)

end MessageDispatch.Uuid
