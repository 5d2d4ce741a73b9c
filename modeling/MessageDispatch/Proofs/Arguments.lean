import MessageDispatch.Protocol.Amqp

/-! What the arguments of a binding ask of the headers of a message. Which of them count is a matter
of their names and of the mode; a message has to carry one of those, or all of them, and headers
that no argument names are of no account. -/
namespace MessageDispatch.HeaderMatch

variable {arguments headers more other : Headers} {name value : String}

/-- A message has to carry this argument: it is not the mode itself, and it is no extension unless
the mode lets extensions count. -/
def Considered (mode name : String) : Prop :=
  name ≠ modeName ∧ (¬ "x-".toList <+: name.toList ∨ "-with-x".toList <:+ mode.toList)

/-- The arguments that a message is held against. -/
def Asked (arguments : Headers) (name value : String) : Prop :=
  arguments.get? name = some value ∧ Considered (mode arguments) name

/-- Is it enough to carry one of them? -/
def Lenient (mode : String) : Prop := "any".toList <+: mode.toList

instance (mode : String) : Decidable (Lenient mode) :=
  inferInstanceAs (Decidable ("any".toList <+: mode.toList))

/-- Nothing is asked, or one of what is asked is carried, or all of it is. -/
def Fits (arguments headers : Headers) : Prop :=
  (∀ name value, ¬ Asked arguments name value) ∨
    (Lenient (mode arguments) ∧
      ∃ name value, Asked arguments name value ∧ headers.get? name = some value) ∨
    (¬ Lenient (mode arguments) ∧
      ∀ name value, Asked arguments name value → headers.get? name = some value)

theorem considered_iff {mode : String} : considered mode name = true ↔ Considered mode name := by
  rw [considered, Considered, Bool.and_eq_true, bne_iff_ne, Bool.or_eq_true,
    List.isSuffixOf_iff_suffix, Bool.not_eq_true', ← Bool.not_eq_true,
    List.isPrefixOf_iff_prefix, or_comm]

theorem present_iff : present headers (name, value) = true ↔ headers.get? name = some value := by
  simp [present]

/-- The decision, with the arguments gone through in some order. -/
def acceptsIn (order : List (String × String)) (arguments headers : Headers) : Bool :=
  let wanted := order.filter (fun e => considered (mode arguments) e.1)
  wanted.isEmpty ||
    if "any".toList.isPrefixOf (mode arguments).toList then wanted.any (present headers)
    else wanted.all (present headers)

theorem acceptsIn_iff {order : List (String × String)} (h : order.Perm arguments.entries) :
    acceptsIn order arguments headers = true ↔ Fits arguments headers := by
  -- all that is left of the order is what the list has in it
  have hwanted : ∀ name value,
      (name, value) ∈ order.filter (fun e => considered (mode arguments) e.1) ↔
        Asked arguments name value := by
    intro name value
    rw [List.mem_filter, h.mem_iff, considered_iff, Asked]
    exact and_congr_left fun _ => (Assoc.get?_eq_some arguments.sorted).symm
  unfold acceptsIn
  dsimp only
  generalize order.filter _ = wanted at hwanted ⊢
  have hnothing : wanted.isEmpty = true ↔ ∀ name value, ¬ Asked arguments name value := by
    simp only [List.isEmpty_iff, List.eq_nil_iff_forall_not_mem, Prod.forall, hwanted]
  rw [Bool.or_eq_true, hnothing, Fits]
  refine or_congr_right ?_
  by_cases hlenient : Lenient (mode arguments)
  · rw [if_pos (List.isPrefixOf_iff_prefix.mpr hlenient)]
    simp [hlenient, hwanted, present_iff]
  · rw [if_neg fun h => hlenient (List.isPrefixOf_iff_prefix.mp h)]
    simp [hlenient, hwanted, present_iff]

theorem fits_iff : accepts arguments headers = true ↔ Fits arguments headers :=
  acceptsIn_iff (.refl _)

/-- All that counts of the headers is whether they carry what is asked. -/
theorem Fits.mono (h : Fits arguments headers)
    (hmore : ∀ name value, Asked arguments name value → headers.get? name = some value →
      more.get? name = some value) : Fits arguments more := by
  rcases h with hnone | ⟨hlenient, name, value, hasked, hget⟩ | ⟨hstrict, hall⟩
  · exact .inl hnone
  · exact .inr (.inl ⟨hlenient, name, value, hasked, hmore name value hasked hget⟩)
  · exact .inr (.inr ⟨hstrict, fun name value hasked =>
      hmore name value hasked (hall name value hasked)⟩)

/-- Where all that is asked is carried, one of it is. -/
theorem Fits.loosen {relaxed : Headers} (h : Fits arguments headers)
    (hstrict : ¬ Lenient (mode arguments))
    (hsame : ∀ name value, Asked relaxed name value ↔ Asked arguments name value) :
    Fits relaxed headers := by
  rcases h with hnone | ⟨hlenient, -⟩ | ⟨-, hall⟩
  · exact .inl fun name value h => hnone name value ((hsame name value).mp h)
  · exact absurd hlenient hstrict
  · have hcarried : ∀ name value, Asked relaxed name value → headers.get? name = some value :=
      fun name value h => hall name value ((hsame name value).mp h)
    by_cases hlenient : Lenient (mode relaxed)
    · by_cases hnone : ∃ name value, Asked relaxed name value
      · obtain ⟨name, value, h⟩ := hnone
        exact .inr (.inl ⟨hlenient, name, value, h, hcarried name value h⟩)
      · exact .inl fun name value h => hnone ⟨name, value, h⟩
    · exact .inr (.inr ⟨hlenient, hcarried⟩)

theorem mode_insert (arguments : Headers) (mode : String) :
    HeaderMatch.mode (arguments.insert modeName mode) = mode := by
  rw [HeaderMatch.mode, Headers.get?_insert_self]
  rfl

/-- Another mode that lets extensions count as much asks for the same. -/
theorem asked_insert {mode : String}
    (hsame : "-with-x".toList <:+ mode.toList ↔
      "-with-x".toList <:+ (HeaderMatch.mode arguments).toList) (name value : String) :
    Asked (arguments.insert modeName mode) name value ↔ Asked arguments name value := by
  unfold Asked Considered
  rw [mode_insert, hsame]
  by_cases hname : name = modeName
  · simp [hname]
  · rw [Headers.get?_insert_of_ne _ _ (Ne.symm hname)]

/-- What is decided about a message with these headers and a binding with these arguments. -/
structure Decides (arguments headers : Headers) : Prop where
  fits : accepts arguments headers = true ↔ Fits arguments headers
  /-- It does not matter in which order the arguments are gone through. -/
  inAnyOrder : ∀ order, order.Perm arguments.entries →
    acceptsIn order arguments headers = accepts arguments headers
  /-- More headers lose no match. -/
  widened : ∀ more : Headers,
    (∀ name value, headers.get? name = some value → more.get? name = some value) →
      accepts arguments headers = true → accepts arguments more = true
  /-- Headers that no argument names do not matter. -/
  unnamed : ∀ other : Headers,
    (∀ name, arguments.get? name ≠ none → other.get? name = headers.get? name) →
      accepts arguments other = accepts arguments headers
  /-- What matches when all is asked matches when anything of it is enough. -/
  loosened : ∀ extension ∈ ["", "-with-x"], mode arguments = "all" ++ extension →
    accepts arguments headers = true →
      accepts (arguments.insert modeName ("any" ++ extension)) headers = true
  /-- So are messages chosen that go through an exchange of this kind. -/
  routed : ∀ (b : Amqp.Binding) (exchange : Amqp.Exchange) (route : Amqp.Route),
    b.arguments = arguments → b.exchange = some exchange → exchange.name ≠ "" →
      exchange.kind = .headers →
        (Amqp.accepts b route headers = true ↔
          exchange.name = route.exchange ∧ Fits arguments headers)

theorem decides_arguments (arguments headers : Headers) : Decides arguments headers where
  fits := fits_iff
  inAnyOrder := by
    intro order h
    rw [Bool.eq_iff_iff, acceptsIn_iff h, fits_iff]
  widened := by
    intro more hmore h
    rw [fits_iff] at h ⊢
    exact h.mono fun name value _ => hmore name value
  unnamed := by
    intro other hsame
    rw [Bool.eq_iff_iff, fits_iff, fits_iff]
    have hnamed : ∀ name value, Asked arguments name value →
        other.get? name = headers.get? name := by
      intro name value hasked
      exact hsame name (by simp [hasked.1])
    exact ⟨fun h => h.mono fun name value hasked hget => hnamed name value hasked ▸ hget,
      fun h => h.mono fun name value hasked hget => (hnamed name value hasked).trans hget⟩
  loosened := by
    intro extension hextension hmode h
    rw [fits_iff] at h ⊢
    have hmodes : ¬ Lenient ("all" ++ extension) ∧
        ("-with-x".toList <:+ ("any" ++ extension).toList ↔
          "-with-x".toList <:+ ("all" ++ extension).toList) := by
      have hcases : extension = "" ∨ extension = "-with-x" := by simpa using hextension
      rcases hcases with rfl | rfl <;> decide
    rw [← hmode] at hmodes
    exact h.loosen hmodes.1 (asked_insert hmodes.2)
  routed := by
    rintro b exchange route rfl hexchange hnamed hkind
    have hfilter : b.exchange.filter (·.name ≠ "") = some exchange := by
      simp [hexchange, hnamed]
    simp only [Amqp.accepts, hfilter, Amqp.acceptsFrom, hkind, Bool.and_eq_true, beq_iff_eq,
      fits_iff]

example : accepts (.ofList [("x-match", "any"), ("x-tenant", "a")]) .empty = true := by decide

example : accepts (.ofList [("x-match", "any-with-x"), ("x-tenant", "a")]) .empty = false := by
  decide

end MessageDispatch.HeaderMatch
