/-! Association lists ordered by name. Names are compared by code point, which is also the
order of their UTF-8 bytes. Storing under a name that is present replaces its value, so a list
built by `put` holds each name once and two such lists with the same entries are equal. -/
namespace MessageDispatch.Assoc

variable {α : Type}

/-- Strictly increasing names. -/
def Sorted (entries : List (String × α)) : Prop :=
  entries.Pairwise (fun a b => a.1 < b.1)

instance (entries : List (String × α)) : Decidable (Sorted entries) :=
  inferInstanceAs (Decidable (List.Pairwise _ _))

/-- Store `value` under `name`, at its place in the order. -/
def put (name : String) (value : α) : List (String × α) → List (String × α)
  | [] => [(name, value)]
  | (n, v) :: rest =>
    if name < n then (name, value) :: (n, v) :: rest
    else if name = n then (name, value) :: rest
    else (n, v) :: put name value rest

/-- The value stored under `name`. -/
def get? (name : String) : List (String × α) → Option α
  | [] => none
  | (n, v) :: rest => if n = name then some v else get? name rest

/-- The entries without the one stored under `name`. -/
def erase (name : String) (entries : List (String × α)) : List (String × α) :=
  entries.filter (fun e => e.1 != name)

/-- The entries in order, the last of those with one name winning. -/
def ofList (entries : List (String × α)) : List (String × α) :=
  entries.foldl (fun acc e => put e.1 e.2 acc) []

theorem mem_put {name : String} {value : α} {entries : List (String × α)} {e : String × α}
    (h : e ∈ put name value entries) : e = (name, value) ∨ e ∈ entries := by
  induction entries with
  | nil => simpa [put] using h
  | cons head rest ih =>
    obtain ⟨n, v⟩ := head
    simp only [put] at h
    split at h
    · simpa using h
    · split at h
      · rcases List.mem_cons.mp h with h | h
        · exact .inl h
        · exact .inr (List.mem_cons_of_mem _ h)
      · rcases List.mem_cons.mp h with h | h
        · exact .inr (h ▸ List.mem_cons_self ..)
        · exact (ih h).imp id (List.mem_cons_of_mem _)

theorem lt_of_not {a b : String} (h : ¬ a < b) (hne : a ≠ b) : b < a := by
  rcases Std.le_total (a := a) (b := b) with hle | hle
  · exact absurd (Std.lt_iff_le_and_ne.mpr ⟨hle, hne⟩) h
  · exact Std.lt_iff_le_and_ne.mpr ⟨hle, fun e => hne e.symm⟩

theorem Sorted.put {name : String} {value : α} {entries : List (String × α)}
    (h : Sorted entries) : Sorted (put name value entries) := by
  induction entries with
  | nil => simp [Sorted, Assoc.put]
  | cons head rest ih =>
    obtain ⟨n, v⟩ := head
    have hrest := List.pairwise_cons.mp h
    simp only [Assoc.put]
    split
    · rename_i hlt
      refine List.pairwise_cons.mpr ⟨?_, h⟩
      intro e he
      rcases List.mem_cons.mp he with rfl | he
      · exact hlt
      · exact String.lt_trans hlt (hrest.1 e he)
    · rename_i hnlt
      split
      · rename_i heq
        subst heq
        exact List.pairwise_cons.mpr ⟨fun e he => hrest.1 e he, hrest.2⟩
      · rename_i hne
        refine List.pairwise_cons.mpr ⟨?_, ih hrest.2⟩
        intro e he
        rcases mem_put he with rfl | he
        · exact lt_of_not hnlt hne
        · exact hrest.1 e he

theorem sorted_foldl_put (entries acc : List (String × α)) (h : Sorted acc) :
    Sorted (entries.foldl (fun acc e => put e.1 e.2 acc) acc) := by
  induction entries generalizing acc with
  | nil => exact h
  | cons e rest ih => exact ih _ h.put

theorem sorted_ofList (entries : List (String × α)) : Sorted (ofList entries) :=
  sorted_foldl_put entries [] List.Pairwise.nil

/-- A name after all others is stored at the end. -/
theorem put_eq_concat {name : String} (value : α) {entries : List (String × α)}
    (h : ∀ e ∈ entries, e.1 < name) : put name value entries = entries ++ [(name, value)] := by
  induction entries with
  | nil => rfl
  | cons e rest ih =>
    obtain ⟨hlt, hrest⟩ := List.forall_mem_cons.mp h
    rw [put, if_neg (String.lt_asymm hlt), if_neg (String.ne_of_lt hlt).symm, ih hrest,
      List.cons_append]

theorem foldl_put_of_sorted (acc entries : List (String × α)) (h : Sorted (acc ++ entries)) :
    entries.foldl (fun acc e => put e.1 e.2 acc) acc = acc ++ entries := by
  induction entries generalizing acc with
  | nil => simp
  | cons e rest ih =>
    have hbefore : ∀ e' ∈ acc, e'.1 < e.1 := fun e' he' =>
      (List.pairwise_append.mp h).2.2 e' he' e (List.mem_cons_self ..)
    rw [List.foldl_cons, put_eq_concat e.2 hbefore, ih _ (by simpa using h), List.append_assoc]
    rfl

/-- A list in order stays as it is. -/
theorem ofList_of_sorted {entries : List (String × α)} (h : Sorted entries) :
    ofList entries = entries :=
  foldl_put_of_sorted [] entries h

theorem get?_put (name : String) (value : α) (entries : List (String × α)) (needle : String) :
    get? needle (put name value entries) =
      if name = needle then some value else get? needle entries := by
  induction entries with
  | nil => simp [put, get?]
  | cons head rest ih =>
    obtain ⟨n, v⟩ := head
    simp only [put]
    split
    · simp [get?]
    · split
      · rename_i heq
        subst heq
        by_cases hn : name = needle <;> simp [get?, hn]
      · rename_i hne
        by_cases hn : name = needle
        · subst hn
          have hne' : ¬ n = name := fun h => hne h.symm
          simp [get?, hne', ih]
        · simp [get?, ih, hn]

theorem Sorted.erase {entries : List (String × α)} (h : Sorted entries) (name : String) :
    Sorted (erase name entries) :=
  h.filter _

theorem get?_erase (name : String) (entries : List (String × α)) (needle : String) :
    get? needle (erase name entries) = if needle = name then none else get? needle entries := by
  induction entries with
  | nil => simp [erase, get?]
  | cons head rest ih =>
    obtain ⟨n, v⟩ := head
    simp only [erase] at ih ⊢
    by_cases hn : n = name
    · subst hn
      by_cases hne : needle = n
      · subst hne
        simpa using ih
      · have hne' : ¬ n = needle := fun e => hne e.symm
        simpa [get?, hne, hne'] using ih
    · by_cases hne : n = needle
      · subst hne
        simp [get?, hn]
      · simpa [get?, hn, hne] using ih

theorem get?_eq_none {name : String} {entries : List (String × α)}
    (h : ∀ e ∈ entries, e.1 ≠ name) : get? name entries = none := by
  induction entries with
  | nil => rfl
  | cons e rest ih =>
    obtain ⟨n, v⟩ := e
    have hn : n ≠ name := h (n, v) (by simp)
    simp only [get?, if_neg hn]
    exact ih fun e he => h e (by simp [he])

theorem get?_eq_some {name : String} {value : α} {entries : List (String × α)}
    (h : Sorted entries) : get? name entries = some value ↔ (name, value) ∈ entries := by
  induction entries with
  | nil => simp [get?]
  | cons e rest ih =>
    obtain ⟨n, v⟩ := e
    obtain ⟨hlt, hrest⟩ := List.pairwise_cons.mp h
    rw [get?, List.mem_cons, Prod.mk.injEq]
    split
    · rename_i hn
      subst hn
      have hnone : (n, value) ∉ rest := fun hmem => String.lt_irrefl n (hlt _ hmem)
      simp [hnone, eq_comm]
    · rename_i hn
      simp [ih hrest, Ne.symm hn]

theorem lookup_concat (entries : List (String × α)) (n : String) (v : α) (name : String) :
    (entries ++ [(n, v)]).lookup name =
      (entries.lookup name).or (if n = name then some v else none) := by
  rw [List.lookup_append]
  by_cases hn : n = name
  · subst hn
    simp
  · have hb : (name == n) = false := by simpa using Ne.symm hn
    simp [List.lookup_cons, hb, hn]

/-- Ordered entries of which some are left out and the others rewritten, searched from the end. -/
theorem lookup_reverse_filterMap {β : Type} {entries : List (String × α)} (h : Sorted entries)
    (f : α → Option β) (name : String) :
    (entries.filterMap fun e => (f e.2).map (e.1, ·)).reverse.lookup name =
      (get? name entries).bind f := by
  induction entries with
  | nil => rfl
  | cons e rest ih =>
    obtain ⟨n, v⟩ := e
    obtain ⟨hlt, hrest⟩ := List.pairwise_cons.mp h
    specialize ih hrest
    by_cases hn : n = name
    · subst hn
      -- no later entry has this name
      rw [get?_eq_none fun e he => (String.ne_of_lt (hlt e he)).symm] at ih
      cases hv : f v with
      | none =>
        rw [List.filterMap_cons_none (by simp [hv]), ih]
        simp [get?, hv]
      | some w =>
        rw [List.filterMap_cons_some (by simp [hv]; rfl), List.reverse_cons, lookup_concat, ih]
        simp [get?, hv]
    · cases hv : f v with
      | none =>
        rw [List.filterMap_cons_none (by simp [hv]), ih]
        simp [get?, hn]
      | some w =>
        rw [List.filterMap_cons_some (by simp [hv]; rfl), List.reverse_cons, lookup_concat, ih]
        simp [get?, hn]

end MessageDispatch.Assoc
