import Mathlib.Data.List.Pairwise
import MessageDispatch.Proofs.Grammar
import MessageDispatch.Proofs.Lists
import MessageDispatch.Settings.Retry

/-! What the readers of settings make of documents. A reader takes the tokens of one document, and
what it makes of them does not depend on what comes after. So a record is made by its settings, one
member of the object after another, and where the settings leave each other alone the members may
come in any order. -/
namespace MessageDispatch.Settings

open Json (Token)

variable {α β σ : Type}

/-- A reader takes documents whole, whatever comes after them, and makes this of them. -/
def Reader.Makes (read : Reader α) (make : Document → Option α) : Prop :=
  ∀ d rest, (read (d.spelled ++ rest)).toOption = (make d).map (·, rest)

/-- What a reader makes of a document by itself. -/
def Reader.ofDocument? (read : Reader α) (d : Document) : Option α :=
  (read d.spelled).toOption.map Prod.fst

section
variable {read : Reader α} {make : Document → Option α} {d : Document}

theorem Reader.Makes.ofDocument?_eq (h : read.Makes make) (d : Document) :
    read.ofDocument? d = make d := by
  have hd := h d []
  rw [List.append_nil] at hd
  rw [Reader.ofDocument?, hd]
  simp [Option.map_map, Function.comp_def]

theorem Reader.Makes.canonical (h : read.Makes make) : read.Makes read.ofDocument? := by
  intro d rest
  rw [h.ofDocument?_eq]
  exact h d rest

theorem Reader.Makes.ok_or_error (h : read.Makes make) (d : Document) (rest : List Token) :
    (∃ a, make d = some a ∧ read (d.spelled ++ rest) = .ok (a, rest)) ∨
      (make d = none ∧ ∃ fault, read (d.spelled ++ rest) = .error fault) := by
  have hd := h d rest
  cases hmake : make d with
  | none =>
    cases hread : read (d.spelled ++ rest) with
    | error fault => exact .inr ⟨rfl, fault, rfl⟩
    | ok r => simp [hmake, hread, Except.toOption] at hd
  | some a =>
    cases hread : read (d.spelled ++ rest) with
    | error fault => simp [hmake, hread, Except.toOption] at hd
    | ok r =>
      obtain rfl : r = (a, rest) := by simpa [hmake, hread, Except.toOption] using hd
      exact .inl ⟨a, rfl, rfl⟩

/-- The document that a text is decides what the text holds. -/
theorem Reader.Makes.readText (h : read.Makes make) {text : String}
    (htext : Document.parse? text = some d) : (readText read text).toOption = make d := by
  have htokens : Json.tokens text = d.spelled ++ [] := by
    rw [List.append_nil]
    exact Document.whole?_eq_some.mp htext
  unfold Settings.readText
  rw [htokens]
  obtain ⟨a, hmake, hread⟩ | ⟨hmake, fault, hread⟩ := h.ok_or_error d []
  · rw [hread, hmake]
    rfl
  · rw [hread, hmake]
    rfl

end

/-! ## Values -/

theorem makes_value (room : Nat) : (value room).Makes (Document.value? room) := by
  intro d rest
  simp only [value, Document.take?_spelled]
  cases d.value? room <;> rfl

/-- Does a reader look at a single token, and at none that opens an array or an object? -/
structure Single (read : Reader α) : Prop where
  token : ∀ t rest, (read (t :: rest)).toOption =
    ((read [t]).toOption.map Prod.fst).map (·, rest)
  array : (read [.openArray]).toOption = none
  object : (read [.openObject]).toOption = none

theorem Single.makes {read : Reader α} (h : Single read) : read.Makes read.ofDocument? := by
  intro d rest
  have hopen : ∀ t more, (read [t]).toOption = none → (read (t :: more)).toOption = none := by
    intro t more ht
    rw [h.token, ht]
    rfl
  cases d with
  | array items =>
    cases items <;> simp [Document.spelled, Reader.ofDocument?, hopen _ _ h.array]
  | object members =>
    rcases members with _ | ⟨⟨name, d⟩, members⟩ <;>
      simp [Document.spelled, Reader.ofDocument?, hopen _ _ h.object]
  | null => exact h.token .null rest
  | bool b => exact h.token (.bool b) rest
  | number n => exact h.token (.number n) rest
  | string s => exact h.token (.string s) rest

theorem makes_bool : Reader.Makes bool (Reader.ofDocument? bool) :=
  Single.makes ⟨fun t _ => by cases t <;> rfl, rfl, rfl⟩

theorem makes_string : Reader.Makes string (Reader.ofDocument? string) := by
  refine Single.makes ⟨fun t rest => ?_, rfl, rfl⟩
  cases t with
  | string s => cases s <;> rfl
  | _ => rfl

theorem makes_natural (size : Nat) : (natural size).Makes (natural size).ofDocument? := by
  refine Single.makes ⟨fun t rest => ?_, rfl, rfl⟩
  cases t with
  | number x =>
    rcases x with _ | ⟨n | n⟩ | _ <;> try rfl
    by_cases hn : n < size <;> simp [natural, hn, Except.toOption]
  | _ => rfl

/-- A reader that reads with another one and then looks at what it has read. -/
theorem Reader.Makes.bind {read : Reader α} {make : Document → Option α} {check : α → Option β}
    {checked : Reader β} (h : read.Makes make)
    (hchecked : ∀ tokens, (checked tokens).toOption =
      (read tokens).toOption.bind fun r => (check r.1).map (·, r.2)) :
    checked.Makes fun d => (make d).bind check := by
  intro d rest
  dsimp only
  rw [hchecked, h]
  cases make d <;> rfl

/-- The number that a value is, or that it holds in a string. -/
def numberOf : Json → Option Nat
  | .string s => digits? s.toList
  | v => v.natural?

theorem makes_naturalOrText (size : Nat) :
    (naturalOrText size).Makes fun d =>
      (d.value? fieldRoom).bind fun v => (numberOf v).filter (· < size) := by
  refine (makes_value fieldRoom).bind fun tokens => ?_
  unfold naturalOrText
  cases value fieldRoom tokens with
  | error fault => rfl
  | ok result =>
    obtain ⟨v, rest⟩ := result
    show _ = ((numberOf v).filter (· < size)).map (·, rest)
    dsimp only
    split
    · rename_i n hfound
      have hn : (numberOf v).filter (· < size) = some n := hfound
      rw [hn]
      rfl
    · rename_i hfound
      have hnone : (numberOf v).filter (· < size) = none := hfound
      rw [hnone]
      rfl

theorem makes_retryPolicy (room : Nat) :
    (RetryPolicy.read room).Makes fun d => (d.value? room).bind RetryPolicy.ofJson? := by
  refine (makes_value room).bind fun tokens => ?_
  unfold RetryPolicy.read
  cases value room tokens with
  | error fault => rfl
  | ok result =>
    obtain ⟨v, rest⟩ := result
    show _ = (RetryPolicy.ofJson? v).map (·, rest)
    dsimp only
    cases RetryPolicy.ofJson? v <;> rfl

/-- Null stands for nothing. -/
def orNull (make : Document → Option α) : Document → Option (Option α)
  | .null => some none
  | d => (make d).map some

theorem toOption_map (f : α → β) (r : Except Fault α) :
    (r.map f).toOption = r.toOption.map f := by
  cases r <;> rfl

theorem Reader.Makes.option {read : Reader α} {make : Document → Option α} (h : read.Makes make) :
    (option read).Makes (orNull make) := by
  intro d rest
  by_cases hnull : d = .null
  · subst hnull
    rfl
  · have hsome : Settings.option read (d.spelled ++ rest) =
        (read (d.spelled ++ rest)).map fun r => (some r.1, r.2) := by
      cases d with
      | array items => cases items <;> rfl
      | object members => cases members <;> rfl
      | null => exact absurd rfl hnull
      | _ => rfl
    have hmake : orNull make d = (make d).map some := by
      cases d <;> first | rfl | exact absurd rfl hnull
    rw [hsome, hmake, toOption_map, h]
    cases make d <;> rfl

theorem ofDocument?_field (name : String) (read : Reader α) (set : σ → α → σ) (s : σ)
    (d : Document) :
    ((field name read set).read s).ofDocument? d = (read.ofDocument? d).map (set s) := by
  rw [Reader.ofDocument?, Reader.ofDocument?, Settings.field]
  dsimp only
  rw [toOption_map]
  cases (read d.spelled).toOption <;> rfl

theorem Reader.Makes.field {read : Reader α} {make : Document → Option α} (h : read.Makes make)
    (name : String) (set : σ → α → σ) (s : σ) :
    ((field name read set).read s).Makes fun d => (make d).map (set s) := by
  intro d rest
  dsimp only [Settings.field]
  rw [toOption_map, h]
  cases make d <;> rfl

/-! ## Records -/

/-- Does a setting take documents whole? -/
def Field.Steady (f : Field σ) : Prop := ∀ s, (f.read s).Makes (f.read s).ofDocument?

theorem Reader.Makes.steady {read : Reader α} {make : Document → Option α} (h : read.Makes make)
    {name : String} {set : σ → α → σ} : (Settings.field name read set).Steady :=
  fun s => (h.field name set s).canonical

/-- Do the settings of a record take documents whole? -/
def Steady (fields : List (Field σ)) : Prop := ∀ f ∈ fields, f.Steady

/-- The setting that a member is for. -/
def setting? (fields : List (Field σ)) (m : Option String × Document) : Option (Field σ) :=
  m.1.bind fun name => fields.find? (·.name == name)

/-- The settings that the members of an object are for. -/
def named (fields : List (Field σ)) (members : List (Option String × Document)) : List String :=
  members.filterMap fun m => (setting? fields m).map (·.name)

/-- A record with one more member. What is no setting is passed over if it has a name at all. -/
def extend (fields : List (Field σ)) (s : Option σ) (m : Option String × Document) : Option σ :=
  s.bind fun s =>
    match setting? fields m with
    | some f => (f.read s).ofDocument? m.2
    | none => m.1.map fun _ => s

/-- The record of an object: no setting may be made twice. -/
def ofMembers (fields : List (Field σ)) (s : σ) (members : List (Option String × Document)) :
    Option σ :=
  if (named fields members).Nodup then members.foldl (extend fields) (some s) else none

/-- The record of an array. -/
def ofItems (defaults : Bool) : List (Field σ) → σ → List Document → Option σ
  | [], s, [] => some s
  | [], _, _ :: _ => none
  | _ :: _, s, [] => if defaults then some s else none
  | f :: fields, s, d :: items => ((f.read s).ofDocument? d).bind fun s =>
    ofItems defaults fields s items

/-- The record of a document. -/
def ofDocument (fields : List (Field σ)) (defaults : Bool) (s : σ) : Document → Option σ
  | .object members => ofMembers fields s members
  | .array items => ofItems defaults fields s items
  | _ => none

section
variable {fields : List (Field σ)} {members : List (Option String × Document)}

theorem foldl_extend_none (members : List (Option String × Document)) :
    members.foldl (extend fields) none = none := by
  induction members with
  | nil => rfl
  | cons m members ih => exact ih

/-- How the loop over the members goes on after one of them, with the settings that were named, the
record so far and the tokens that are left. -/
def goOn (fields : List (Field σ)) (fuel : Nat) : List String × σ × List Token →
    Option (σ × List Token)
  | (_, s, .closeObject :: rest) => some (s, rest)
  | (seen, s, .comma :: rest) => (Settings.members fields fuel seen s rest).toOption
  | _ => none

theorem named_cons (m : Option String × Document) :
    named fields (m :: members) = named fields [m] ++ named fields members := by
  rw [named, ← List.singleton_append, List.filterMap_append]
  rfl

/-- One turn of the loop over the members of an object. -/
theorem members_succ (h : Steady fields) (fuel : Nat) {seen : List String} (hseen : seen.Nodup)
    (s : σ) (m : Option String × Document) (rest : List Token) :
    (Settings.members fields (fuel + 1) seen s
        (.string m.1 :: .colon :: (m.2.spelled ++ rest))).toOption =
      if (named fields [m] ++ seen).Nodup then
        (extend fields (some s) m).bind fun s =>
          goOn fields fuel (named fields [m] ++ seen, s, rest)
      else none := by
  obtain ⟨name, d⟩ := m
  cases name with
  | none => simp [Settings.members, Except.toOption, extend, setting?]
  | some name =>
    rw [Settings.members]
    cases hfind : fields.find? (·.name == name) with
    | none =>
      -- what is no setting is skipped, whatever it is
      have hnamed : named fields [(some name, d)] = [] := by simp [named, setting?, hfind]
      have hextend : extend fields (some s) (some name, d) = some s := by
        simp [extend, setting?, hfind]
      simp only [hnamed, hextend, Document.take?_spelled, List.nil_append, hseen, if_true,
        Option.bind_some]
      rcases rest with _ | ⟨_ | _, rest⟩ <;> rfl
    | some f =>
      have hname : f.name = name := by simpa using List.find?_some hfind
      have hnamed : named fields [(some name, d)] = [name] := by
        simp [named, setting?, hfind, hname]
      have hextend : extend fields (some s) (some name, d) = (f.read s).ofDocument? d := by
        simp [extend, setting?, hfind]
      simp only [hnamed, hextend, List.singleton_append, List.nodup_cons, hseen, and_true]
      by_cases hmem : name ∈ seen
      · simp [hmem, Except.toOption]
      · have hmakes := h f (List.mem_of_find?_eq_some hfind) s
        obtain ⟨s', hmake, hread⟩ | ⟨hmake, fault, hread⟩ := hmakes.ok_or_error d rest
        · simp only [List.contains_iff_mem, hmem, hread, hmake, not_false_eq_true, if_true,
            if_false, Except.map, Option.bind_some]
          rcases rest with _ | ⟨_ | _, rest⟩ <;> rfl
        · simp [hmem, hread, hmake, Except.map, Except.toOption]

/-- The rest of the loop. No setting is made that is named already, and none twice. -/
theorem goOn_spelled (h : Steady fields) {fuel : Nat} {seen : List String} (s : σ)
    (rest : List Token) (hfuel : members.length ≤ fuel) (hseen : seen.Nodup) :
    goOn fields fuel (seen, s, Document.spelledMembers members ++ rest) =
      (if (named fields members ++ seen).Nodup then members.foldl (extend fields) (some s)
        else none).map (·, rest) := by
  induction members generalizing fuel seen s with
  | nil =>
    rw [named, List.filterMap_nil, List.nil_append, if_pos hseen]
    rfl
  | cons m members ih =>
    obtain ⟨fuel, rfl⟩ : ∃ k, fuel = k + 1 := ⟨fuel - 1, by simp at hfuel; omega⟩
    have hfuel' : members.length ≤ fuel := Nat.le_of_succ_le_succ hfuel
    have hnames : (named fields (m :: members) ++ seen).Perm
        (named fields members ++ (named fields [m] ++ seen)) := by
      rw [named_cons, ← List.append_assoc]
      exact List.perm_append_comm.append_right seen
    simp only [Document.spelledMembers, List.cons_append, List.append_assoc, goOn,
      members_succ h fuel hseen, hnames.nodup_iff, List.foldl_cons]
    by_cases hm : (named fields [m] ++ seen).Nodup
    · rw [if_pos hm]
      cases extend fields (some s) m with
      | none => simp [foldl_extend_none]
      | some s' => exact ih s' hfuel' hm
    · rw [if_neg hm, if_neg fun hall => hm (List.nodup_append.mp hall).2.1]
      rfl

/-- The first item of an array is read like those after a comma. -/
theorem items_first (defaults : Bool) (s : σ) (d : Document) (rest : List Token) :
    items defaults fields true s (d.spelled ++ rest) =
      items defaults fields false s (.comma :: (d.spelled ++ rest)) := by
  obtain ⟨t, more, hspelled, hne⟩ := Document.spelled_cons d
  rw [hspelled, List.cons_append]
  cases fields <;> cases t <;> first | rfl | exact absurd rfl hne

theorem items_comma (defaults : Bool) (f : Field σ) (s : σ) (d : Document) (rest : List Token) :
    items defaults (f :: fields) false s (.comma :: (d.spelled ++ rest)) =
      match f.read s (d.spelled ++ rest) with
      | .error fault => .error fault
      | .ok (s, rest) => items defaults fields false s rest := by
  obtain ⟨t, more, hspelled, hne⟩ := Document.spelled_cons d
  rw [hspelled, List.cons_append]
  cases t <;> first | rfl | exact absurd rfl hne

theorem items_spelled (h : Steady fields) (defaults : Bool) (s : σ) (ds : List Document)
    (rest : List Token) :
    (items defaults fields false s (Document.spelledItems ds ++ rest)).toOption =
      (ofItems defaults fields s ds).map (·, rest) := by
  induction fields generalizing s ds with
  | nil => cases ds <;> rfl
  | cons f fields ih =>
    cases ds with
    | nil => cases defaults <;> rfl
    | cons d ds =>
      simp only [Document.spelledItems, List.cons_append, List.append_assoc, items_comma]
      have hrest : Steady fields := fun g hg => h g (List.mem_cons_of_mem f hg)
      obtain ⟨s', hmake, hread⟩ | ⟨hmake, fault, hread⟩ :=
        (h f List.mem_cons_self s).ok_or_error d (Document.spelledItems ds ++ rest)
      · rw [hread, ofItems, hmake]
        exact ih hrest s' ds
      · rw [hread, ofItems, hmake]
        rfl

/-- A record is what its settings make of the members of an object, or of the items of an array. -/
theorem makes_record (h : Steady fields) (defaults : Bool) (s : σ) :
    (record fields defaults s).Makes (ofDocument fields defaults s) := by
  intro d rest
  cases d with
  | array ds =>
    cases ds with
    | nil => cases fields <;> cases defaults <;> rfl
    | cons d ds =>
      have hitems := items_spelled h defaults s (d :: ds) rest
      simp only [Document.spelledItems, List.cons_append, List.append_assoc] at hitems
      simp only [Document.spelled, List.cons_append, List.append_assoc, record, items_first]
      exact hitems
  | object members =>
    cases members with
    | nil => rfl
    | cons m members =>
      have hmembers : ∀ fuel, (m :: members).length ≤ fuel →
          goOn fields fuel ([], s, Document.spelledMembers (m :: members) ++ rest) =
            (ofMembers fields s (m :: members)).map (·, rest) := by
        intro fuel hfuel
        rw [goOn_spelled h s rest hfuel List.nodup_nil, List.append_nil, ofMembers]
      simp only [Document.spelledMembers, List.cons_append, List.append_assoc, goOn] at hmembers
      simp only [Document.spelled, List.cons_append, List.append_assoc, record]
      -- there are at least as many tokens as members
      refine hmembers _ ?_
      have hlength := Document.length_lt_spelledMembers members
      simp only [List.length_cons, List.length_append]
      omega
  | _ => rfl

/-! ## The order of members -/

/-- Two settings of which either may be made first. -/
def Field.Commutes (f g : Field σ) : Prop :=
  ∀ s d e, ((f.read s).ofDocument? d).bind (fun s => (g.read s).ofDocument? e) =
    ((g.read s).ofDocument? e).bind fun s => (f.read s).ofDocument? d

instance : Std.Symm (@Field.Commutes σ) := ⟨fun _ _ h s d e => (h s e d).symm⟩

/-- The settings of a record take documents whole and leave each other alone. -/
structure Lawful (fields : List (Field σ)) : Prop where
  steady : Steady fields
  commutes : fields.Pairwise Field.Commutes

theorem commutes_field (nameA nameB : String) (readA : Reader α) (readB : Reader β)
    {setA : σ → α → σ} {setB : σ → β → σ}
    (hset : ∀ s a b, setB (setA s a) b = setA (setB s b) a) :
    (field nameA readA setA).Commutes (field nameB readB setB) := by
  intro s d e
  simp only [ofDocument?_field]
  cases readA.ofDocument? d <;> cases readB.ofDocument? e <;> simp [hset]

theorem mem_of_setting? {m : Option String × Document} {f : Field σ}
    (h : setting? fields m = some f) : f ∈ fields := by
  obtain ⟨name, -, hfind⟩ := Option.bind_eq_some_iff.mp h
  exact List.mem_of_find?_eq_some hfind

theorem extend_comm (h : Lawful fields) {m m' : Option String × Document} (s : Option σ)
    (hapart : ∀ f f', setting? fields m = some f → setting? fields m' = some f' → f ≠ f') :
    extend fields (extend fields s m) m' = extend fields (extend fields s m') m := by
  cases s with
  | none => rfl
  | some s =>
    cases hm : setting? fields m with
    | none => cases hname : m.1 <;> cases hm' : setting? fields m' <;> simp [extend, hm, hm', hname]
    | some f =>
      cases hm' : setting? fields m' with
      | none => cases hname : m'.1 <;> simp [extend, hm, hm', hname]
      | some f' =>
        have hcommutes : f.Commutes f' :=
          h.commutes.forall (mem_of_setting? hm) (mem_of_setting? hm') (hapart f f' hm hm')
        simpa [extend, hm, hm'] using hcommutes s m.2 m'.2

/-- The members of an object may come in any order. -/
theorem ofMembers_perm (h : Lawful fields) (s : σ)
    {members' : List (Option String × Document)} (hperm : members.Perm members') :
    ofMembers fields s members = ofMembers fields s members' := by
  have hnamed : (named fields members).Perm (named fields members') := hperm.filterMap _
  unfold ofMembers
  simp only [hnamed.nodup_iff]
  by_cases hnodup : (named fields members').Nodup
  · rw [if_pos hnodup, if_pos hnodup]
    refine hperm.foldl_eq' ?_ _
    intro m hm m' hm' s
    by_cases hsame : m = m'
    · rw [hsame]
    · refine extend_comm h s ?_
      -- two members for one setting are one member, for no setting is named twice
      rintro f _ hf hf' rfl
      exact hsame (eq_of_nodup_filterMap (hnamed.nodup_iff.mpr hnodup) hm hm'
        (congrArg (Option.map _) hf) (congrArg (Option.map _) hf'))
  · rw [if_neg hnodup, if_neg hnodup]

/-- Is there a member of this name? -/
def Sets (members : List (Option String × Document)) (name : String) : Prop :=
  ∃ m ∈ members, m.1 = some name

instance (members : List (Option String × Document)) (name : String) :
    Decidable (Sets members name) :=
  inferInstanceAs (Decidable (∃ m ∈ members, m.1 = some name))

theorem mem_named_iff {f : Field σ} (hfind : fields.find? (·.name == f.name) = some f) :
    f.name ∈ named fields members ↔ Sets members f.name := by
  rw [named, List.mem_filterMap]
  refine exists_congr fun m => and_congr_right fun _ => ?_
  constructor
  · intro hlabel
    obtain ⟨g, hg, hname⟩ := Option.map_eq_some_iff.mp hlabel
    obtain ⟨name, hm, hfound⟩ := Option.bind_eq_some_iff.mp hg
    have hgname : g.name = name := by simpa using List.find?_some hfound
    rw [hm, ← hgname, hname]
  · intro hm
    simp [setting?, hm, hfind]

/-- A record is made with a setting as it is without, and then the setting is made, if no other
member makes it. -/
theorem ofMembers_insert (h : Lawful fields) {f : Field σ}
    (hfind : fields.find? (·.name == f.name) = some f) (s : σ)
    (before after : List (Option String × Document)) (d : Document) :
    ofMembers fields s (before ++ (some f.name, d) :: after) =
      if Sets (before ++ after) f.name then none
      else (ofMembers fields s (before ++ after)).bind fun s => (f.read s).ofDocument? d := by
  have hperm : (before ++ (some f.name, d) :: after).Perm
      ((before ++ after) ++ [(some f.name, d)]) :=
    List.perm_middle.trans (List.perm_append_singleton _ _).symm
  have hsetting : setting? fields (some f.name, d) = some f := hfind
  have hnamed : named fields ((before ++ after) ++ [(some f.name, d)]) =
      named fields (before ++ after) ++ [f.name] := by
    rw [named, List.filterMap_append]
    simp [named, hsetting]
  have hextend : ∀ s, extend fields s (some f.name, d) =
      s.bind fun s => (f.read s).ofDocument? d := by
    intro s
    simp [extend, hsetting]
  rw [ofMembers_perm h s hperm]
  unfold ofMembers
  simp only [hnamed, List.foldl_append, List.foldl_cons, List.foldl_nil, hextend,
    ← mem_named_iff hfind]
  by_cases hmem : f.name ∈ named fields (before ++ after)
  · rw [if_pos hmem, if_neg fun hnodup => (List.nodup_append.mp hnodup).2.2 _ hmem _ (by simp) rfl]
  · rw [if_neg hmem]
    by_cases hnodup : (named fields (before ++ after)).Nodup
    · rw [if_pos (nodup_concat hnodup hmem), if_pos hnodup]
    · rw [if_neg fun hall => hnodup (List.nodup_append.mp hall).1, if_neg hnodup]
      rfl

end

end MessageDispatch.Settings
