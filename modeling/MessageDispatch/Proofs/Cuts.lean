import Mathlib.Data.List.Forall2

/-! Lists that are cut into parts for a row of takers. -/
namespace MessageDispatch

section
variable {α β : Type} (Takes : α → List β → Prop)

/-- A list can be cut into consecutive parts that the members of a row take in order. -/
def Cut (row : List α) (all : List β) : Prop :=
  ∃ parts, all = parts.flatten ∧ List.Forall₂ Takes row parts

variable {Takes} {a : α} {b : β} {row before after : List α} {all : List β}

theorem cut_nil : Cut Takes [] all ↔ all = [] := by
  constructor
  · rintro ⟨parts, rfl, h⟩
    cases h
    rfl
  · rintro rfl
    exact ⟨[], rfl, .nil⟩

theorem cut_cons :
    Cut Takes (a :: row) all ↔ ∃ part rest, all = part ++ rest ∧ Takes a part ∧
      Cut Takes row rest := by
  constructor
  · rintro ⟨parts, rfl, h⟩
    cases h with
    | @cons _ part _ parts hpart hrest => exact ⟨part, parts.flatten, rfl, hpart, parts, rfl, hrest⟩
  · rintro ⟨part, rest, rfl, hpart, parts, rfl, hrest⟩
    exact ⟨part :: parts, rfl, .cons hpart hrest⟩

theorem Cut.length_le (htakes : ∀ a part, Takes a part → 0 < part.length) (h : Cut Takes row all) :
    row.length ≤ all.length := by
  induction row generalizing all with
  | nil => exact Nat.zero_le _
  | cons a row ih =>
    obtain ⟨part, rest, rfl, hpart, hrest⟩ := cut_cons.mp h
    have hpos := htakes a part hpart
    have hle := ih hrest
    rw [List.length_cons, List.length_append]
    omega

/-- What takes any part takes one from the front of the list, however long. -/
theorem cut_any (hany : ∀ part, Takes a part) :
    Cut Takes (a :: row) all ↔ ∃ n, Cut Takes row (all.drop n) := by
  rw [cut_cons]
  constructor
  · rintro ⟨part, rest, rfl, -, hrest⟩
    refine ⟨part.length, ?_⟩
    rwa [List.drop_left]
  · rintro ⟨n, hrest⟩
    exact ⟨all.take n, all.drop n, (List.take_append_drop n all).symm, hany _, hrest⟩

section
variable (hone : ∀ part, Takes a part → ∃ b, part = [b])
include hone

theorem not_cut_nil : ¬ Cut Takes (a :: row) [] := by
  rw [cut_cons]
  rintro ⟨part, rest, hall, hpart, -⟩
  obtain ⟨b, rfl⟩ := hone part hpart
  cases hall

theorem cut_one :
    Cut Takes (a :: row) (b :: all) ↔ Takes a [b] ∧ Cut Takes row all := by
  rw [cut_cons]
  constructor
  · rintro ⟨part, rest, hall, hpart, hrest⟩
    obtain ⟨c, rfl⟩ := hone part hpart
    obtain ⟨rfl, rfl⟩ := List.cons.inj hall
    exact ⟨hpart, hrest⟩
  · rintro ⟨hpart, hrest⟩
    exact ⟨[b], all, rfl, hpart, hrest⟩

end

theorem cut_append :
    Cut Takes (before ++ after) all ↔
      ∃ front rest, all = front ++ rest ∧ Cut Takes before front ∧ Cut Takes after rest := by
  induction before generalizing all with
  | nil => simp [cut_nil]
  | cons a before ih =>
    rw [List.cons_append, cut_cons]
    constructor
    · rintro ⟨part, rest, rfl, hpart, hrest⟩
      obtain ⟨front, rest, rfl, hfront, hrest⟩ := ih.mp hrest
      exact ⟨part ++ front, rest, (List.append_assoc ..).symm,
        cut_cons.mpr ⟨part, front, rfl, hpart, hfront⟩, hrest⟩
    · rintro ⟨front, rest, rfl, hfront, hrest⟩
      obtain ⟨part, front, rfl, hpart, hfront⟩ := cut_cons.mp hfront
      exact ⟨part, front ++ rest, List.append_assoc .., hpart,
        ih.mpr ⟨front, rest, rfl, hfront, hrest⟩⟩

section
variable (hany : ∀ part, Takes a part)
include hany

/-- What takes any part can stand in for any other member of the row. -/
theorem Cut.widen {c : α} (h : Cut Takes (before ++ c :: after) all) :
    Cut Takes (before ++ a :: after) all := by
  obtain ⟨front, rest, rfl, hfront, hrest⟩ := cut_append.mp h
  obtain ⟨part, rest, rfl, -, hrest⟩ := cut_cons.mp hrest
  exact cut_append.mpr
    ⟨front, part ++ rest, rfl, hfront, cut_cons.mpr ⟨part, rest, rfl, hany part, hrest⟩⟩

/-- One that takes any part takes what two of them do. -/
theorem cut_merge :
    Cut Takes (before ++ a :: a :: after) all ↔ Cut Takes (before ++ a :: after) all := by
  have hrest (rest : List β) : Cut Takes (a :: a :: after) rest ↔ Cut Takes (a :: after) rest := by
    simp only [cut_any hany, List.drop_drop]
    constructor
    · rintro ⟨n, m, h⟩
      exact ⟨n + m, h⟩
    · rintro ⟨n, h⟩
      exact ⟨n, 0, h⟩
  simp only [cut_append, hrest]

end

end

end MessageDispatch
