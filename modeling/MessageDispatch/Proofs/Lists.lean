import Mathlib.Data.List.InsertIdx
import Mathlib.Data.List.Nodup
import Mathlib.Data.List.Perm.Basic

/-! Lists of which one entry is changed, or one is added at the end. -/
namespace MessageDispatch

variable {β γ : Type} {l : List β} {i j : Nat} {c c' d : β}

theorem getElem?_set_iff (hc : l[i]? = some c) :
    (l.set i c')[j]? = some d ↔ (j = i ∧ d = c') ∨ (j ≠ i ∧ l[j]? = some d) := by
  have hi : i < l.length := (List.getElem?_eq_some_iff.mp hc).1
  rw [List.getElem?_set]
  by_cases hij : i = j
  · subst hij
    simp [hi, eq_comm]
  · simp [hij, Ne.symm hij]

theorem getElem?_concat_iff :
    (l ++ [c])[j]? = some d ↔ l[j]? = some d ∨ (j = l.length ∧ d = c) := by
  rw [List.getElem?_append]
  split
  · rename_i hlt
    simp [Nat.ne_of_lt hlt]
  · rename_i hge
    rw [List.getElem?_eq_none (Nat.le_of_not_lt hge), List.getElem?_singleton]
    by_cases hj : j = l.length
    · simp [hj, eq_comm]
    · have hsub : j - l.length ≠ 0 := by omega
      simp [hj, hsub]

/-- What there is one of can be read off a single entry. -/
theorem eq_of_filterMap_eq_singleton {f : β → Option γ} {x y : γ} (hl : l.filterMap f = [x])
    (hc : c ∈ l) (hf : f c = some y) : y = x := by
  have hmem : y ∈ l.filterMap f := List.mem_filterMap.mpr ⟨c, hc, hf⟩
  rw [hl] at hmem
  exact List.mem_singleton.mp hmem

theorem lt_length_of_getElem? (hc : l[i]? = some c) : i < l.length :=
  (List.getElem?_eq_some_iff.mp hc).1

/-- A view of the entries that the change leaves alone. -/
theorem map_set_eq {f : β → γ} (hc : l[i]? = some c) (hf : f c' = f c) :
    (l.set i c').map f = l.map f := by
  refine List.ext_getElem? fun j => ?_
  rw [List.getElem?_map, List.getElem?_map, List.getElem?_set]
  split
  · rename_i hij
    subst hij
    rw [if_pos (lt_length_of_getElem? hc), hc, Option.map_some, Option.map_some, hf]
  · rfl

theorem set_self (hc : l[i]? = some c) : l.set i c = l := by
  obtain ⟨hi, rfl⟩ := List.getElem?_eq_some_iff.mp hc
  exact List.set_getElem_self hi

/-- An entry, and the others. -/
theorem perm_of_getElem? (hc : l[i]? = some c) : l.Perm (c :: l.eraseIdx i) := by
  obtain ⟨hi, rfl⟩ := List.getElem?_eq_some_iff.mp hc
  exact (List.getElem_cons_eraseIdx_perm hi).symm

/-- An entry that is changed, and the others. -/
theorem perm_set_of_getElem? (hc : l[i]? = some c) (c' : β) :
    (l.set i c').Perm (c' :: l.eraseIdx i) :=
  List.set_perm_cons_eraseIdx (lt_length_of_getElem? hc) c'

theorem modify_eq_set {f : β → β} (hc : l[i]? = some c) : l.modify i f = l.set i (f c) := by
  refine List.ext_getElem? fun j => ?_
  rw [List.getElem?_modify, List.getElem?_set]
  by_cases hij : i = j
  · subst hij
    rw [if_pos rfl, if_pos (lt_length_of_getElem? hc), hc]
    simp
  · simp [hij]

theorem filterMap_range (l : List β) (n : Nat) :
    (List.range n).filterMap (l[·]?) = l.take n := by
  induction n with
  | zero => simp
  | succ n ih =>
    rw [List.range_succ, List.filterMap_append, ih, List.take_add_one]
    cases hn : l[n]? <;> simp [hn]

/-- Entries that are told apart by a view are at different places. -/
theorem eq_of_nodup_map {f : β → γ} (h : (l.map f).Nodup) (hc : l[i]? = some c)
    (hd : l[j]? = some d) (hf : f c = f d) : i = j := by
  have hi : i < (l.map f).length := by
    rw [List.length_map]
    exact lt_length_of_getElem? hc
  refine (List.getElem?_inj hi h).mp ?_
  rw [List.getElem?_map, List.getElem?_map, hc, hd, Option.map_some, Option.map_some, hf]

/-- A view of some entries that tells those apart. -/
theorem eq_of_nodup_filterMap {f : β → Option γ} {b : γ} (h : (l.filterMap f).Nodup) (hc : c ∈ l)
    (hd : d ∈ l) (hfc : f c = some b) (hfd : f d = some b) : c = d := by
  induction l with
  | nil => cases hc
  | cons e l ih =>
    have hfresh : f e = some b → ∀ x ∈ l, f x ≠ some b := by
      intro he x hx hfx
      rw [List.filterMap_cons_some he] at h
      exact (List.nodup_cons.mp h).1 (List.mem_filterMap.mpr ⟨x, hx, hfx⟩)
    rcases List.mem_cons.mp hc with rfl | hmem <;> rcases List.mem_cons.mp hd with rfl | hmem'
    · rfl
    · exact absurd hfd (hfresh hfc d hmem')
    · exact absurd hfc (hfresh hfd c hmem)
    · exact ih (h.sublist ((List.sublist_cons_self e l).filterMap f)) hmem hmem'

theorem nodup_concat (h : l.Nodup) (hc : c ∉ l) : (l ++ [c]).Nodup :=
  List.concat_eq_append ▸ h.concat hc

theorem mem_of_lookup [BEq β] [LawfulBEq β] {entries : List (β × γ)} {key : β} {value : γ}
    (h : entries.lookup key = some value) : (key, value) ∈ entries := by
  obtain ⟨before, after, rfl, -⟩ := List.lookup_eq_some_iff.mp h
  simp

end MessageDispatch
