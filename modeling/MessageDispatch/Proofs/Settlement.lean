import MessageDispatch.Acker
import MessageDispatch.Proofs.Lists

/-! One message settled from several sides at once. A call to settle it claims the message, then
tells the broker, and gives the claim back if the broker refuses; others may take their steps in
between. The claim keeps two calls from telling the broker at the same time, and is kept for good
once the broker has accepted. A call that finds the message claimed is over at once and reports
success, whatever becomes of that claim. -/
namespace MessageDispatch

/-- How far a call to settle a message has got. -/
inductive Settler.Stage where
  | made
  /-- It holds the claim and is yet to tell the broker. -/
  | claimed
  | telling
  | answered (answer : Except String Unit)
  /-- It is over. The answer is the broker's, if the broker was told. -/
  | returned (answer : Option (Except String Unit)) (result : Except AckError Unit)

/-- A call to settle a message. -/
structure Settler where
  action : Action
  stage : Settler.Stage
  /-- The call that held the claim when this one found the message claimed. -/
  behind : Option Nat

/-- What a call does next. -/
inductive Settler.Move where
  | claim
  | tell
  /-- The broker answers. -/
  | hear (answer : Except String Unit)
  | complete

namespace Settler

def make (action : Action) : Settler := ⟨action, .made, none⟩

/-- Is it past its claim, and not over? -/
def holds (c : Settler) : Bool :=
  match c.stage with
  | .claimed | .telling | .answered _ => true
  | _ => false

/-- What the broker said to it. -/
def answer? (c : Settler) : Option (Except String Unit) :=
  match c.stage with
  | .answered answer => some answer
  | .returned answer _ => answer
  | _ => none

def result? (c : Settler) : Option (Except AckError Unit) :=
  match c.stage with
  | .returned _ result => some result
  | _ => none

def Accepted (c : Settler) : Prop := c.answer? = some (.ok ())

def Refused (c : Settler) : Prop := ∃ reason, c.answer? = some (.error reason)

/-- One move of a call on the acker that all share. `holder` is who holds the claim. -/
def move (c : Settler) (a : Acker) (holder : Option Nat) : Move → Option (Settler × Acker)
  | .claim =>
    match c.stage with
    | .made =>
      match a.claim? c.action with
      | none => some ({ c with stage := .returned none (.ok ()), behind := holder }, a)
      | some claimed =>
        some ({ c with stage := if claimed.backed then .claimed else .returned none (.ok ()) },
          claimed)
    | _ => none
  | .tell =>
    match c.stage with
    | .claimed => some ({ c with stage := .telling }, a)
    | _ => none
  | .hear answer =>
    match c.stage with
    | .telling => some ({ c with stage := .answered answer }, a)
    | _ => none
  | .complete =>
    match c.stage with
    | .answered answer =>
      some ({ c with stage := .returned (some answer) (a.complete c.action answer).1 },
        (a.complete c.action answer).2)
    | _ => none

end Settler

/-- A message with all calls to settle it, made through whatever clones of its acker. -/
structure Settling where
  acker : Acker
  settlers : List Settler

namespace Settling

inductive Event where
  | call (action : Action)
  | move (i : Nat) (m : Settler.Move)

def start (a : Acker) : Settling := ⟨a, []⟩

/-- The state of the `i`-th call. -/
def At (s : Settling) (i : Nat) (c : Settler) : Prop := s.settlers[i]? = some c

/-- Who holds the claim. -/
def holder? (s : Settling) : Option Nat := s.settlers.findIdx? (·.holds)

def step (s : Settling) : Event → Option Settling
  | .call action => some { s with settlers := s.settlers ++ [.make action] }
  | .move i m =>
    (s.settlers[i]?).bind fun c =>
      (c.move s.acker s.holder? m).map fun (c', a) => ⟨a, s.settlers.set i c'⟩

def run (s : Settling) : List Event → Option Settling
  | [] => some s
  | ev :: rest => (s.step ev).bind (·.run rest)

/-- What any calls on any clones of an acker that was not settled before have come to so far. -/
def Reachable (s : Settling) : Prop :=
  ∃ a evs, a.settlement = none ∧ (start a).run evs = some s

def result? (s : Settling) (i : Nat) : Option (Except AckError Unit) :=
  (s.settlers[i]?).bind (·.result?)

/-! ## What one call can do -/

end Settling

namespace Settler

variable {c c' : Settler} {a a' : Acker} {holder : Option Nat} {m : Move}

/-- Does it hold the claim, or has it kept it for good? -/
def Stands (c : Settler) : Prop :=
  match c.stage with
  | .claimed | .telling | .answered _ | .returned (some (.ok ())) _ => True
  | _ => False

/-- Has it ever held the claim of a message that has a broker? -/
def engaged (c : Settler) : Bool := c.holds || c.answer?.isSome

/-- What a call returns, by what the broker said to it. -/
def outcome (action : Action) : Option (Except String Unit) → Except AckError Unit
  | some (.error reason) => .error ⟨action, reason⟩
  | _ => .ok ()

theorem stands_iff : c.Stands ↔ c.holds = true ∨ c.Accepted := by
  obtain ⟨action, stage, behind⟩ := c
  rcases stage with _ | _ | _ | _ | ⟨_ | (_ | ⟨⟩), _⟩ <;>
    simp [Stands, holds, Accepted, answer?]

theorem holds_of_over (h : c.result?.isSome = true) : c.holds = false := by
  obtain ⟨action, stage, behind⟩ := c
  cases stage with
  | returned answer result => rfl
  | _ => cases h

/-- All that a call can do. -/
inductive Moved (a : Acker) (holder : Option Nat) : Settler → Move → Settler → Acker → Prop where
  | found {action : Action} {behind : Option Nat} (h : a.isSettled = true) :
      Moved a holder ⟨action, .made, behind⟩ .claim ⟨action, .returned none (.ok ()), holder⟩ a
  | claim {action : Action} {behind : Option Nat} (h : a.settlement = none)
      (hbacked : a.backed = true) :
      Moved a holder ⟨action, .made, behind⟩ .claim ⟨action, .claimed, behind⟩
        { a with settlement := some action }
  | record {action : Action} {behind : Option Nat} (h : a.settlement = none)
      (hbacked : a.backed = false) :
      Moved a holder ⟨action, .made, behind⟩ .claim ⟨action, .returned none (.ok ()), behind⟩
        { a with settlement := some action }
  | tell {action : Action} {behind : Option Nat} :
      Moved a holder ⟨action, .claimed, behind⟩ .tell ⟨action, .telling, behind⟩ a
  | hear {action : Action} {behind : Option Nat} (answer : Except String Unit) :
      Moved a holder ⟨action, .telling, behind⟩ (.hear answer) ⟨action, .answered answer, behind⟩ a
  | accept {action : Action} {behind : Option Nat} :
      Moved a holder ⟨action, .answered (.ok ()), behind⟩ .complete
        ⟨action, .returned (some (.ok ())) (.ok ()), behind⟩ a
  | refuse {action : Action} {behind : Option Nat} {reason : String} :
      Moved a holder ⟨action, .answered (.error reason), behind⟩ .complete
        ⟨action, .returned (some (.error reason)) (.error ⟨action, reason⟩), behind⟩
        { a with settlement := none }

theorem moved_of_move (h : c.move a holder m = some (c', a')) : Moved a holder c m c' a' := by
  obtain ⟨action, stage, behind⟩ := c
  cases m with
  | claim =>
    cases stage with
    | made =>
      cases ha : a.settlement with
      | some settled =>
        simp only [move, Acker.claim?, ha, Option.some.injEq, Prod.mk.injEq] at h
        obtain ⟨rfl, rfl⟩ := h
        exact .found (by simp [Acker.isSettled, ha])
      | none =>
        simp only [move, Acker.claim?, ha, Option.some.injEq, Prod.mk.injEq] at h
        obtain ⟨rfl, rfl⟩ := h
        by_cases hb : a.backed = true
        · rw [if_pos hb]
          exact .claim ha hb
        · rw [if_neg hb]
          exact .record ha (Bool.not_eq_true _ ▸ hb)
    | _ => cases h
  | tell =>
    cases stage with
    | claimed =>
      obtain ⟨rfl, rfl⟩ := Prod.mk.inj (Option.some.inj h)
      exact .tell
    | _ => cases h
  | hear answer =>
    cases stage with
    | telling =>
      obtain ⟨rfl, rfl⟩ := Prod.mk.inj (Option.some.inj h)
      exact .hear answer
    | _ => cases h
  | complete =>
    cases stage with
    | answered answer =>
      obtain ⟨rfl, rfl⟩ := Prod.mk.inj (Option.some.inj h)
      rcases answer with reason | ⟨⟩
      · exact .refuse
      · exact .accept
    | _ => cases h

/-- What later states of a call have in common with it. -/
structure Onward (c c' : Settler) : Prop where
  action : c'.action = c.action
  accepted : c.Accepted → c'.Accepted
  engaged : c.engaged = true → c'.engaged = true
  result : ∀ result, c.result? = some result → c'.result? = some result

theorem Onward.rfl : Onward c c := ⟨Eq.refl _, id, id, fun _ => id⟩

theorem Onward.trans {c'' : Settler} (h : Onward c c') (h' : Onward c' c'') : Onward c c'' :=
  ⟨h'.action.trans h.action, h'.accepted ∘ h.accepted, h'.engaged ∘ h.engaged,
    fun result hresult => h'.result result (h.result result hresult)⟩

theorem Moved.onward (h : Moved a holder c m c' a') : Onward c c' := by
  cases h <;>
    exact ⟨Eq.refl _, by simp [Accepted, answer?], by simp [engaged, holds, answer?],
      by simp [result?]⟩

theorem Moved.backed_eq (h : Moved a holder c m c' a') : a'.backed = a.backed := by
  cases h <;> rfl

end Settler

namespace Settling

variable {s s' : Settling} {ev : Event} {evs : List Event}

/-- A step is a new call or a move of one. -/
theorem step_cases (hstep : s.step ev = some s') :
    (∃ action, ev = .call action ∧ s' = ⟨s.acker, s.settlers ++ [.make action]⟩) ∨
      ∃ i m c c' a, ev = .move i m ∧ s.At i c ∧
        Settler.Moved s.acker s.holder? c m c' a ∧ s' = ⟨a, s.settlers.set i c'⟩ := by
  cases ev with
  | call action => exact .inl ⟨action, rfl, (Option.some.inj hstep).symm⟩
  | move i m =>
    obtain ⟨c, hc, hmove⟩ := Option.bind_eq_some_iff.mp hstep
    obtain ⟨⟨c', a⟩, hmoved, rfl⟩ := Option.map_eq_some_iff.mp hmove
    exact .inr ⟨i, m, c, c', a, rfl, hc, Settler.moved_of_move hmoved, rfl⟩

/-- No call ever goes back. -/
theorem onward_step (hstep : s.step ev = some s') {i : Nat} {c : Settler}
    (hc : s.At i c) : ∃ c', s'.At i c' ∧ c.Onward c' := by
  rcases step_cases hstep with ⟨action, rfl, rfl⟩ | ⟨j, m, d, d', a, rfl, hd, hmoved, rfl⟩
  · exact ⟨c, getElem?_concat_iff.mpr (.inl hc), .rfl⟩
  · by_cases hij : i = j
    · subst hij
      obtain rfl := Option.some.inj (hd.symm.trans hc)
      exact ⟨d', (getElem?_set_iff hd).mpr (.inl ⟨rfl, rfl⟩), hmoved.onward⟩
    · exact ⟨c, (getElem?_set_iff hd).mpr (.inr ⟨hij, hc⟩), .rfl⟩

/-! ## What holds at any time -/

/-- What is known of the message and of the other calls by how far one call has got. -/
structure Known (s : Settling) (c : Settler) : Prop where
  result : ∀ result, c.result? = some result → result = Settler.outcome c.action c.answer?
  unbacked : s.acker.backed = false → c.stage ≠ .made →
    s.acker.isSettled = true ∧ c.engaged = false
  /-- A call that had nothing to do and stood behind nobody came after one that was accepted. -/
  after : s.acker.backed = true → c.result?.isSome = true → c.answer? = none → c.behind = none →
    ∃ j d, s.At j d ∧ d.Accepted
  behind : ∀ j, c.behind = some j → (c.result?.isSome = true ∧ c.answer? = none) ∧
    ∃ d, s.At j d ∧ d.engaged = true

structure Valid (s : Settling) : Prop where
  one_stands : ∀ i j c d, s.At i c → s.At j d → c.Stands →
    d.Stands → i = j
  settled : ∀ i c, s.At i c → c.Stands →
    s.acker.backed = true ∧ s.acker.settlement = some c.action
  stands : s.acker.backed = true → s.acker.isSettled = true →
    ∃ i c, s.At i c ∧ c.Stands
  known : ∀ i c, s.At i c → s.Known c

/-- What is known of a call that others leave alone stays known. -/
theorem Known.mono {c : Settler} (h : s.Known c) (hbacked : s'.acker.backed = s.acker.backed)
    (hsettled : s.acker.backed = false → s.acker.isSettled = true → s'.acker.isSettled = true)
    (honward : ∀ i d, s.At i d → ∃ d', s'.At i d' ∧ d.Onward d') :
    s'.Known c where
  result := h.result
  unbacked := by
    intro hunbacked hmade
    rw [hbacked] at hunbacked
    obtain ⟨hs, hengaged⟩ := h.unbacked hunbacked hmade
    exact ⟨hsettled hunbacked hs, hengaged⟩
  after := by
    intro hb hover hanswer hbehind
    obtain ⟨j, d, hd, haccepted⟩ := h.after (hbacked ▸ hb) hover hanswer hbehind
    obtain ⟨d', hd', hon⟩ := honward j d hd
    exact ⟨j, d', hd', hon.accepted haccepted⟩
  behind := by
    intro j hj
    obtain ⟨hover, d, hd, hengaged⟩ := h.behind j hj
    obtain ⟨d', hd', hon⟩ := honward j d hd
    exact ⟨hover, d', hd', hon.engaged hengaged⟩

theorem Known.make (s : Settling) (action : Action) : s.Known (.make action) :=
  ⟨nofun, fun _ h => absurd rfl h, nofun, nofun⟩

theorem Valid.call (hv : s.Valid) (action : Action) :
    Valid ⟨s.acker, s.settlers ++ [.make action]⟩ := by
  have honward : ∀ i d, s.At i d →
      ∃ d', At ⟨s.acker, s.settlers ++ [.make action]⟩ i d' ∧ d.Onward d' :=
    fun i d hd => ⟨d, getElem?_concat_iff.mpr (.inl hd), .rfl⟩
  refine ⟨?_, ?_, ?_, ?_⟩
  · intro i j c d hc hd hcs hds
    rcases getElem?_concat_iff.mp hc with hc | ⟨-, rfl⟩
    · rcases getElem?_concat_iff.mp hd with hd | ⟨-, rfl⟩
      · exact hv.one_stands i j c d hc hd hcs hds
      · exact hds.elim
    · exact hcs.elim
  · intro i c hc hcs
    rcases getElem?_concat_iff.mp hc with hc | ⟨-, rfl⟩
    · exact hv.settled i c hc hcs
    · exact hcs.elim
  · intro hbacked hsettled
    obtain ⟨i, c, hc, hcs⟩ := hv.stands hbacked hsettled
    exact ⟨i, c, getElem?_concat_iff.mpr (.inl hc), hcs⟩
  · intro i c hc
    rcases getElem?_concat_iff.mp hc with hc | ⟨-, rfl⟩
    · exact (hv.known i c hc).mono rfl (fun _ => id) honward
    · exact .make _ action

section
variable {i : Nat} {c c' : Settler} {m : Settler.Move} {a : Acker}

/-- A move keeps what holds if it fits in with the calls that stand. -/
theorem Valid.set (hv : s.Valid) (hc : s.At i c)
    (hmoved : Settler.Moved s.acker s.holder? c m c' a)
    (halone : c'.Stands → ∀ j d, j ≠ i → s.At j d → ¬ d.Stands)
    (hsettled : c'.Stands → a.backed = true ∧ a.settlement = some c'.action)
    (hkept : ∀ j d, j ≠ i → s.At j d → d.Stands → a.settlement = s.acker.settlement)
    (hstands : a.backed = true → a.isSettled = true →
      c'.Stands ∨ ∃ j d, j ≠ i ∧ s.At j d ∧ d.Stands)
    (hunbacked : s.acker.backed = false → s.acker.isSettled = true → a.isSettled = true)
    (hknown : Known ⟨a, s.settlers.set i c'⟩ c') : Valid ⟨a, s.settlers.set i c'⟩ := by
  have honward : ∀ j d, s.At j d → ∃ d', At ⟨a, s.settlers.set i c'⟩ j d' ∧ d.Onward d' := by
    intro j d hd
    by_cases hij : j = i
    · subst hij
      obtain rfl := Option.some.inj (hc.symm.trans hd)
      exact ⟨c', (getElem?_set_iff hc).mpr (.inl ⟨rfl, rfl⟩), hmoved.onward⟩
    · exact ⟨d, (getElem?_set_iff hc).mpr (.inr ⟨hij, hd⟩), .rfl⟩
  refine ⟨?_, ?_, ?_, ?_⟩
  · intro j k d e hd he hds hes
    rw [At, getElem?_set_iff hc] at hd he
    rcases hd with ⟨hj, rfl⟩ | ⟨hj, hd⟩ <;> rcases he with ⟨hk, rfl⟩ | ⟨hk, he⟩
    · exact hj.trans hk.symm
    · exact absurd hes (halone hds k e hk he)
    · exact absurd hds (halone hes j d hj hd)
    · exact hv.one_stands j k d e hd he hds hes
  · intro j d hd hds
    rcases (getElem?_set_iff hc).mp hd with ⟨rfl, rfl⟩ | ⟨hj, hd⟩
    · exact hsettled hds
    · obtain ⟨hbacked, haction⟩ := hv.settled j d hd hds
      exact ⟨hmoved.backed_eq.trans hbacked, (hkept j d hj hd hds).trans haction⟩
  · intro hbacked hset
    rcases hstands hbacked hset with h | ⟨j, d, hj, hd, hds⟩
    · exact ⟨i, c', (getElem?_set_iff hc).mpr (.inl ⟨rfl, rfl⟩), h⟩
    · exact ⟨j, d, (getElem?_set_iff hc).mpr (.inr ⟨hj, hd⟩), hds⟩
  · intro j d hd
    rcases (getElem?_set_iff hc).mp hd with ⟨rfl, rfl⟩ | ⟨-, hd⟩
    · exact hknown
    · exact (hv.known j d hd).mono hmoved.backed_eq hunbacked honward

/-- Somebody who stands is somebody else than a call that does not. -/
theorem ne_of_stands {j : Nat} {d : Settler} (hc : s.At i c) (hcs : ¬ c.Stands) (hd : s.At j d)
    (hds : d.Stands) : j ≠ i := by
  rintro rfl
  obtain rfl := Option.some.inj (hc.symm.trans hd)
  exact hcs hds

/-- A move of a call that goes on holding the claim, or keeps it for good. -/
theorem Valid.move_standing (hv : s.Valid) (hc : s.At i c)
    (hmoved : Settler.Moved s.acker s.holder? c m c' s.acker) (hcs : c.Stands) (hcs' : c'.Stands)
    (hbehind : c'.behind = c.behind)
    (hunfinished : c.result?.isSome = false)
    (hresult : ∀ result, c'.result? = some result →
      c'.answer? ≠ none ∧ result = Settler.outcome c'.action c'.answer?) :
    Valid ⟨s.acker, s.settlers.set i c'⟩ := by
  refine hv.set hc hmoved ?_ ?_ (fun _ _ _ _ _ => rfl) (fun _ _ => .inl hcs') (fun _ => id)
    ⟨?_, ?_, ?_, ?_⟩
  · intro _ j d hj hd hds
    exact hj (hv.one_stands j i d c hd hc hds hcs)
  · intro _
    rw [hmoved.onward.action]
    exact hv.settled i c hc hcs
  · intro result hreturned
    exact (hresult result hreturned).2
  · intro hunbacked _
    -- without a broker nobody ever holds the claim
    have hbacked := (hv.settled i c hc hcs).1
    exact absurd (hbacked.symm.trans hunbacked) (by decide)
  · intro _ hover hanswer
    obtain ⟨result, hreturned⟩ := Option.isSome_iff_exists.mp hover
    exact absurd hanswer (hresult result hreturned).1
  · intro j hj
    have hover := ((hv.known i c hc).behind j (hbehind ▸ hj)).1.1
    rw [hunfinished] at hover
    cases hover

variable {action : Action} {behind : Option Nat}

/-- A call finds the message settled, by whoever stands. -/
theorem Valid.move_found (hv : s.Valid) (hc : s.At i ⟨action, .made, behind⟩)
    (h : s.acker.isSettled = true) :
    Valid ⟨s.acker, s.settlers.set i ⟨action, .returned none (.ok ()), s.holder?⟩⟩ := by
  refine hv.set hc (.found h) nofun nofun (fun _ _ _ _ _ => rfl) ?_ (fun _ => id)
    ⟨?_, fun _ _ => ⟨h, rfl⟩, ?_, ?_⟩
  · intro hbacked hsettled
    obtain ⟨j, d, hd, hds⟩ := hv.stands hbacked hsettled
    exact .inr ⟨j, d, ne_of_stands hc id hd hds, hd, hds⟩
  · rintro _ ⟨⟩
    rfl
  · intro hbacked _ _ hbehind
    obtain ⟨j, d, hd, hds⟩ := hv.stands hbacked h
    refine ⟨j, d, (getElem?_set_iff hc).mpr (.inr ⟨ne_of_stands hc id hd hds, hd⟩), ?_⟩
    -- nobody holds the claim, so it was kept for good
    have hholds := List.findIdx?_eq_none_iff.mp hbehind d (List.mem_of_getElem? hd)
    rcases Settler.stands_iff.mp hds with h | h
    · rw [h] at hholds
      cases hholds
    · exact h
  · intro j hbehind
    refine ⟨⟨rfl, rfl⟩, ?_⟩
    obtain ⟨hlt, hholds, -⟩ := List.findIdx?_eq_some_iff_getElem.mp hbehind
    have hd : s.At j s.settlers[j] := List.getElem?_eq_getElem hlt
    have hne := ne_of_stands hc id hd (Settler.stands_iff.mpr (.inl hholds))
    exact ⟨_, (getElem?_set_iff hc).mpr (.inr ⟨hne, hd⟩), by simp [Settler.engaged, hholds]⟩

/-- A call claims the message, so that it is the one that stands. -/
theorem Valid.move_claim (hv : s.Valid) (hc : s.At i ⟨action, .made, behind⟩)
    (h : s.acker.settlement = none) (hbacked : s.acker.backed = true) :
    Valid ⟨{ s.acker with settlement := some action },
      s.settlers.set i ⟨action, .claimed, behind⟩⟩ := by
  have hnobody : ∀ j d, s.At j d → ¬ d.Stands := by
    intro j d hd hds
    have hsettled := (hv.settled j d hd hds).2
    rw [h] at hsettled
    cases hsettled
  refine hv.set hc (.claim h hbacked) (fun _ j d _ hd => hnobody j d hd)
    (fun _ => ⟨hbacked, rfl⟩) (fun j d _ hd hds => absurd hds (hnobody j d hd))
    (fun _ _ => .inl trivial) (fun _ _ => rfl) ⟨nofun, ?_, nofun, ?_⟩
  · intro hunbacked _
    exact absurd (hbacked.symm.trans hunbacked) (by decide)
  · intro j hj
    cases ((hv.known i _ hc).behind j hj).1.1

/-- Without a broker the claim is all there is to do. -/
theorem Valid.move_record (hv : s.Valid) (hc : s.At i ⟨action, .made, behind⟩)
    (h : s.acker.settlement = none) (hunbacked : s.acker.backed = false) :
    Valid ⟨{ s.acker with settlement := some action },
      s.settlers.set i ⟨action, .returned none (.ok ()), behind⟩⟩ := by
  have hbacked : s.acker.backed ≠ true := by simp [hunbacked]
  refine hv.set hc (.record h hunbacked) nofun nofun ?_ (fun hb _ => absurd hb hbacked)
    (fun _ _ => rfl) ⟨?_, fun _ _ => ⟨rfl, rfl⟩, fun hb => absurd hb hbacked, ?_⟩
  · intro j d _ hd hds
    exact absurd (hv.settled j d hd hds).1 hbacked
  · rintro _ ⟨⟩
    rfl
  · intro j hj
    cases ((hv.known i _ hc).behind j hj).1.1

/-- A call that was refused gives the claim up, and nobody else has it. -/
theorem Valid.move_refuse {reason : String} (hv : s.Valid)
    (hc : s.At i ⟨action, .answered (.error reason), behind⟩) :
    Valid ⟨{ s.acker with settlement := none },
      s.settlers.set i
        ⟨action, .returned (some (.error reason)) (.error ⟨action, reason⟩), behind⟩⟩ := by
  have hcs : Settler.Stands ⟨action, .answered (.error reason), behind⟩ := trivial
  have hbacked := (hv.settled i _ hc hcs).1
  have hothers : ∀ j d, j ≠ i → s.At j d → ¬ d.Stands := by
    intro j d hj hd hds
    exact hj (hv.one_stands j i d _ hd hc hds hcs)
  have hnot : s.acker.backed ≠ false := by simp [hbacked]
  refine hv.set hc .refuse nofun nofun (fun j d hj hd hds => absurd hds (hothers j d hj hd))
    nofun (fun hb => absurd hb hnot) ⟨?_, fun hb => absurd hb hnot, nofun, ?_⟩
  · rintro _ ⟨⟩
    rfl
  · intro j hj
    cases ((hv.known i _ hc).behind j hj).1.1

theorem Valid.move (hv : s.Valid) (hc : s.At i c)
    (hmoved : Settler.Moved s.acker s.holder? c m c' a) :
    Valid ⟨a, s.settlers.set i c'⟩ := by
  cases hmoved with
  | found h => exact hv.move_found hc h
  | claim h hbacked => exact hv.move_claim hc h hbacked
  | record h hunbacked => exact hv.move_record hc h hunbacked
  | tell => exact hv.move_standing hc .tell trivial trivial rfl rfl nofun
  | hear answer => exact hv.move_standing hc (.hear answer) trivial trivial rfl rfl nofun
  | accept =>
    refine hv.move_standing hc .accept trivial trivial rfl rfl ?_
    rintro _ ⟨⟩
    exact ⟨nofun, rfl⟩
  | refuse => exact hv.move_refuse hc

end

theorem Valid.step (hv : s.Valid) (hstep : s.step ev = some s') : s'.Valid := by
  rcases step_cases hstep with ⟨action, -, rfl⟩ | ⟨i, m, c, c', a, -, hc, hmoved, rfl⟩
  · exact hv.call action
  · exact hv.move hc hmoved

/-! ## What a run keeps -/

theorem run_cons (hrun : s.run (ev :: evs) = some s') :
    ∃ s₁, s.step ev = some s₁ ∧ s₁.run evs = some s' :=
  Option.bind_eq_some_iff.mp hrun

theorem run_cons_of_step {s₁ : Settling} (hstep : s.step ev = some s₁)
    (hrest : s₁.run evs = some s') : s.run (ev :: evs) = some s' :=
  Option.bind_eq_some_iff.mpr ⟨s₁, hstep, hrest⟩

theorem run_append {more : List Event} : s.run (evs ++ more) = (s.run evs).bind (·.run more) := by
  induction evs generalizing s with
  | nil => rfl
  | cons ev rest ih =>
    rw [List.cons_append, run, run, Option.bind_assoc]
    exact congrArg _ (funext fun s₁ => ih)

theorem Reachable.run (h : s.Reachable) (hrun : s.run evs = some s') : s'.Reachable := by
  obtain ⟨a, before, ha, hbefore⟩ := h
  exact ⟨a, before ++ evs, ha, by rw [run_append, hbefore, Option.bind_some, hrun]⟩

theorem Valid.run (hv : s.Valid) (hrun : s.run evs = some s') : s'.Valid := by
  induction evs generalizing s with
  | nil =>
    obtain rfl := Option.some.inj hrun
    exact hv
  | cons ev rest ih =>
    obtain ⟨s₁, hstep, hrest⟩ := run_cons hrun
    exact ih (hv.step hstep) hrest

theorem Valid.start {a : Acker} (ha : a.settlement = none) : (start a).Valid := by
  have hnobody : ∀ i c, ¬ (Settling.start a).At i c := by simp [At, Settling.start]
  refine ⟨fun i _ c _ hc => absurd hc (hnobody i c), fun i c hc => absurd hc (hnobody i c), ?_,
    fun i c hc => absurd hc (hnobody i c)⟩
  intro _ hsettled
  simp [Settling.start, Acker.isSettled, ha] at hsettled

theorem Reachable.valid (h : s.Reachable) : s.Valid := by
  obtain ⟨a, evs, ha, hrun⟩ := h
  exact (Valid.start ha).run hrun

theorem onward_run (hrun : s.run evs = some s') {i : Nat} {c : Settler} (hc : s.At i c) :
    ∃ c', s'.At i c' ∧ c.Onward c' := by
  induction evs generalizing s c with
  | nil =>
    obtain rfl := Option.some.inj hrun
    exact ⟨c, hc, .rfl⟩
  | cons ev rest ih =>
    obtain ⟨s₁, hstep, hrest⟩ := run_cons hrun
    obtain ⟨c₁, hc₁, hon₁⟩ := onward_step hstep hc
    obtain ⟨c', hc', hon'⟩ := ih hrest hc₁
    exact ⟨c', hc', hon₁.trans hon'⟩

theorem result?_eq_some_iff {i : Nat} {result : Except AckError Unit} :
    s.result? i = some result ↔ ∃ c, s.At i c ∧ c.result? = some result :=
  Option.bind_eq_some_iff

/-! ## Once a call was accepted -/

section
variable {i : Nat} {c : Settler} (hv : s.Valid) (hc : s.At i c) (haccepted : c.Accepted)
include hv hc haccepted

/-- Nobody else holds the claim any more. -/
theorem Valid.eq_accepted {j : Nat} {d : Settler} (hd : s.At j d) (hds : d.Stands) : d = c := by
  obtain rfl := hv.one_stands i j c d hc hd (Settler.stands_iff.mpr (.inr haccepted)) hds
  exact Option.some.inj (hd.symm.trans hc)

theorem Valid.step_accepted (hstep : s.step ev = some s') :
    (∀ j, ev ≠ .move j .tell) ∧ ∀ j result, s'.result? j = some result →
      s.result? j = some result ∨ result = .ok () := by
  rcases step_cases hstep with ⟨action, rfl, rfl⟩ | ⟨j, m, d, d', a, rfl, hd, hmoved, rfl⟩
  · refine ⟨nofun, ?_⟩
    intro k result hresult
    obtain ⟨e, he, hresult⟩ := result?_eq_some_iff.mp hresult
    rcases getElem?_concat_iff.mp he with he | ⟨-, rfl⟩
    · exact .inl (result?_eq_some_iff.mpr ⟨e, he, hresult⟩)
    · cases hresult
  · have hok : ∀ result, d'.result? = some result → result = .ok () := by
      intro result hresult
      cases hmoved with
      | found | record | accept => exact (Option.some.inj hresult).symm
      | claim | tell | hear => cases hresult
      | refuse =>
        -- it would be the call that was accepted
        obtain rfl := hv.eq_accepted hc haccepted hd trivial
        cases haccepted
    constructor
    · rintro k ⟨rfl, rfl⟩
      cases hmoved
      obtain rfl := hv.eq_accepted hc haccepted hd trivial
      cases haccepted
    · intro k result hresult
      obtain ⟨e, he, hreturned⟩ := result?_eq_some_iff.mp hresult
      rcases (getElem?_set_iff hd).mp he with ⟨-, rfl⟩ | ⟨-, he⟩
      · exact .inr (hok result hreturned)
      · exact .inl (result?_eq_some_iff.mpr ⟨e, he, hreturned⟩)

theorem Valid.run_accepted (hrun : s.run evs = some s') :
    (∀ j, .move j .tell ∉ evs) ∧ ∀ j result, s'.result? j = some result →
      s.result? j = some result ∨ result = .ok () := by
  induction evs generalizing s c with
  | nil =>
    obtain rfl := Option.some.inj hrun
    exact ⟨by simp, fun _ _ => .inl⟩
  | cons ev rest ih =>
    obtain ⟨s₁, hstep, hrest⟩ := run_cons hrun
    obtain ⟨c₁, hc₁, hon⟩ := onward_step hstep hc
    obtain ⟨htell, hresults⟩ := hv.step_accepted hc haccepted hstep
    obtain ⟨htells, hlater⟩ := ih (hv.step hstep) hc₁ (hon.accepted haccepted) hrest
    constructor
    · intro j hj
      rcases List.mem_cons.mp hj with h | h
      · exact htell j h.symm
      · exact htells j h
    · intro j result hresult
      rcases hlater j result hresult with h | h
      · exact hresults j result h
      · exact .inr h

end

theorem step_move {i : Nat} {c c' : Settler} {m : Settler.Move} {a : Acker} (hc : s.At i c)
    (hmove : c.move s.acker s.holder? m = some (c', a)) :
    ∃ s', s.step (.move i m) = some s' ∧ s'.At i c' ∧ s'.acker = a := by
  have hstep : s.step (.move i m) = some ⟨a, s.settlers.set i c'⟩ :=
    Option.bind_eq_some_iff.mpr ⟨c, hc, by rw [hmove]; rfl⟩
  exact ⟨_, hstep, (getElem?_set_iff hc).mpr (.inl ⟨rfl, rfl⟩), rfl⟩

/-- A call that finds the message settled is over at once. -/
theorem claim_settled {j : Nat} {d : Settler} (hd : s.At j d) (hstage : d.stage = .made)
    (hsettled : s.acker.isSettled = true) :
    ∃ s', s.step (.move j .claim) = some s' ∧ s'.result? j = some (.ok ()) := by
  obtain ⟨action, haction⟩ := Option.isSome_iff_exists.mp hsettled
  have hmove : d.move s.acker s.holder? .claim =
      some ({ d with stage := .returned none (.ok ()), behind := s.holder? }, s.acker) := by
    simp [Settler.move, hstage, Acker.claim?, haction]
  obtain ⟨s', hstep, hd', -⟩ := step_move hd hmove
  exact ⟨s', hstep, result?_eq_some_iff.mpr ⟨_, hd', rfl⟩⟩

/-- A call that the broker refused says so, and the message can be settled anew. -/
theorem complete_refused {i : Nat} {c : Settler} {reason : String} (hc : s.At i c)
    (hstage : c.stage = .answered (.error reason)) :
    ∃ s', s.step (.move i .complete) = some s' ∧
      s'.result? i = some (.error ⟨c.action, reason⟩) ∧ s'.acker.settlement = none := by
  have hmove : c.move s.acker s.holder? .complete =
      some ({ c with stage := .returned (some (.error reason)) (.error ⟨c.action, reason⟩) },
        { s.acker with settlement := none }) := by
    simp [Settler.move, hstage, Acker.complete]
  obtain ⟨s', hstep, hc', hacker⟩ := step_move hc hmove
  exact ⟨s', hstep, result?_eq_some_iff.mpr ⟨_, hc', rfl⟩, by rw [hacker]⟩

/-- A call that nobody else comes in between of does what settling a message does in one go. -/
theorem run_alone (s : Settling) (action : Action) (answer : Except String Unit) :
    ∃ (moves : List Settler.Move) (s' : Settling),
      s.run (.call action :: moves.map (.move s.settlers.length)) = some s' ∧
        s'.result? s.settlers.length =
          some (s.acker.settle (fun _ u => (answer, u)) action ()).1 ∧
        s'.acker = (s.acker.settle (fun _ u => (answer, u)) action ()).2.1 := by
  let s₀ : Settling := ⟨s.acker, s.settlers ++ [.make action]⟩
  have hc₀ : s₀.At s.settlers.length (.make action) := getElem?_concat_iff.mpr (.inr ⟨rfl, rfl⟩)
  cases hclaim : s.acker.claim? action with
  | none =>
    have hmove : (Settler.make action).move s₀.acker s₀.holder? .claim =
        some (⟨action, .returned none (.ok ()), s₀.holder?⟩, s.acker) := by
      simp [Settler.move, Settler.make, s₀, hclaim]
    obtain ⟨s₁, hstep₁, hc₁, hacker⟩ := step_move hc₀ hmove
    refine ⟨[.claim], s₁, ?_, result?_eq_some_iff.mpr ⟨_, hc₁, ?_⟩, ?_⟩
    · exact run_cons_of_step rfl (run_cons_of_step hstep₁ rfl)
    · simp [Settler.result?, Acker.settle, hclaim]
    · simp [Acker.settle, hclaim, hacker]
  | some claimed =>
    by_cases hbacked : claimed.backed = true
    · have hmove : (Settler.make action).move s₀.acker s₀.holder? .claim =
          some (⟨action, .claimed, none⟩, claimed) := by
        simp [Settler.move, Settler.make, s₀, hclaim, hbacked]
      obtain ⟨s₁, hstep₁, hc₁, hacker₁⟩ := step_move hc₀ hmove
      obtain ⟨s₂, hstep₂, hc₂, hacker₂⟩ := step_move (m := .tell) hc₁ rfl
      obtain ⟨s₃, hstep₃, hc₃, hacker₃⟩ := step_move (m := .hear answer) hc₂ rfl
      obtain ⟨s₄, hstep₄, hc₄, hacker₄⟩ := step_move (m := .complete) hc₃ rfl
      rw [hacker₃, hacker₂, hacker₁] at hc₄ hacker₄
      refine ⟨[.claim, .tell, .hear answer, .complete], s₄, ?_,
        result?_eq_some_iff.mpr ⟨_, hc₄, ?_⟩, ?_⟩
      · exact run_cons_of_step rfl (run_cons_of_step hstep₁ (run_cons_of_step hstep₂
          (run_cons_of_step hstep₃ (run_cons_of_step hstep₄ rfl))))
      · simp [Settler.result?, Acker.settle, hclaim, hbacked]
      · simp [Acker.settle, hclaim, hbacked, hacker₄]
    · have hmove : (Settler.make action).move s₀.acker s₀.holder? .claim =
          some (⟨action, .returned none (.ok ()), none⟩, claimed) := by
        simp [Settler.move, Settler.make, s₀, hclaim, hbacked]
      obtain ⟨s₁, hstep₁, hc₁, hacker⟩ := step_move hc₀ hmove
      refine ⟨[.claim], s₁, ?_, result?_eq_some_iff.mpr ⟨_, hc₁, ?_⟩, ?_⟩
      · exact run_cons_of_step rfl (run_cons_of_step hstep₁ rfl)
      · simp [Settler.result?, Acker.settle, hclaim, hbacked]
      · simp [Acker.settle, hclaim, hbacked, hacker]

/-- So to settle a message in one go is one of the things that calls can come to. -/
theorem Reachable.exists_settle (h : s.Reachable) (action : Action) (answer : Except String Unit) :
    ∃ s' : Settling, s'.Reachable ∧
      s'.acker = (s.acker.settle (fun _ u => (answer, u)) action ()).2.1 ∧
      s'.result? s.settlers.length =
        some (s.acker.settle (fun _ u => (answer, u)) action ()).1 := by
  obtain ⟨moves, s', hrun, hresult, hacker⟩ := run_alone s action answer
  exact ⟨s', h.run hrun, hacker, hresult⟩

/-! ## Settling is exclusive and final -/

/-- What calls to settle a message can have come to, and what comes of them. -/
structure Exclusive (s : Settling) : Prop where
  /-- The broker is told by one call at a time. -/
  one_tells : ∀ i j c d, s.At i c → s.At j d → c.stage = .telling → d.stage = .telling → i = j
  one_accepted : ∀ i j c d, s.At i c → s.At j d → c.Accepted → d.Accepted → i = j
  /-- Once a call was accepted the message stays settled as it asked, the broker is not told
  again, and whatever returns from then on reports success, a new call at once. -/
  final : ∀ i c evs s', s.At i c → c.Accepted → s.run evs = some s' →
    s'.acker.settlement = some c.action ∧ (∀ j, .move j .tell ∉ evs) ∧
      (∀ j result, s'.result? j = some result → s.result? j = some result ∨ result = .ok ()) ∧
        ∀ j d, s'.At j d → d.stage = .made →
          ∃ s'', s'.step (.move j .claim) = some s'' ∧ s''.result? j = some (.ok ())
  /-- A call that the broker refused reports that of its own action, and leaves the message
  unsettled. -/
  refused : ∀ i c reason, s.At i c → c.stage = .answered (.error reason) →
    ∃ s', s.step (.move i .complete) = some s' ∧
      s'.result? i = some (.error ⟨c.action, reason⟩) ∧ s'.acker.settlement = none

theorem Reachable.exclusive (h : s.Reachable) : s.Exclusive where
  one_tells := by
    intro i j c d hc hd hcs hds
    exact h.valid.one_stands i j c d hc hd (by simp [Settler.Stands, hcs])
      (by simp [Settler.Stands, hds])
  one_accepted := by
    intro i j c d hc hd hcs hds
    exact h.valid.one_stands i j c d hc hd (Settler.stands_iff.mpr (.inr hcs))
      (Settler.stands_iff.mpr (.inr hds))
  final := by
    intro i c evs s' hc haccepted hrun
    obtain ⟨c', hc', hon⟩ := onward_run hrun hc
    obtain ⟨htells, hresults⟩ := h.valid.run_accepted hc haccepted hrun
    have hstands := Settler.stands_iff.mpr (.inr (hon.accepted haccepted))
    have hsettled := ((h.valid.run hrun).settled i c' hc' hstands).2
    refine ⟨hon.action ▸ hsettled, htells, hresults, ?_⟩
    intro j d hd hstage
    exact claim_settled hd hstage (by simp [Acker.isSettled, hsettled])
  refused := fun _ _ _ => complete_refused

/-- The broker refuses to acknowledge a message, somebody else having found it claimed meanwhile. -/
def lost : Settling where
  acker := ⟨none, true, true⟩
  settlers :=
    [⟨.ack, .returned (some (.error "channel closed")) (.error ⟨.ack, "channel closed"⟩), none⟩,
      ⟨.nack, .returned none (.ok ()), some 0⟩]

theorem lost_reachable : lost.Reachable :=
  ⟨⟨none, true, true⟩, [.call .ack, .call .nack, .move 0 .claim, .move 0 .tell, .move 1 .claim,
    .move 0 (.hear (.error "channel closed")), .move 0 .complete], rfl, rfl⟩

/-- The message is then rejected. -/
def retried : Settling where
  acker := ⟨some .reject, true, true⟩
  settlers := lost.settlers ++ [⟨.reject, .returned (some (.ok ())) (.ok ()), none⟩]

theorem retried_reachable : retried.Reachable :=
  ⟨⟨none, true, true⟩, [.call .ack, .call .nack, .move 0 .claim, .move 0 .tell, .move 1 .claim,
    .move 0 (.hear (.error "channel closed")), .move 0 .complete, .call .reject, .move 2 .claim,
    .move 2 .tell, .move 2 (.hear (.ok ())), .move 2 .complete], rfl, rfl⟩

/-- Whoever then settles the message in one go finds it rejected. -/
theorem exclusive_retried : retried.Reachable ∧ retried.Exclusive ∧
    ∃ s : Settling, s.Reachable ∧ s.Exclusive ∧ s.acker = retried.acker ∧
      s.result? 3 = some (.ok ()) := by
  obtain ⟨s, hs, hacker, hresult⟩ := retried_reachable.exists_settle .ack (.error "channel closed")
  exact ⟨retried_reachable, Reachable.exclusive retried_reachable, s, hs, Reachable.exclusive hs,
    hacker, hresult⟩

/-! ## Whether a settlement that was reported is lost -/

/-- Is every call over? -/
def Quiet (s : Settling) : Prop := ∀ i c, s.At i c → c.result?.isSome = true

/-- Is the message settled, with the broker's consent if there is one? -/
def Kept (s : Settling) : Prop :=
  s.acker.isSettled = true ∧ (s.acker.backed = true → ∃ i c, s.At i c ∧ c.Accepted)

/-- Did a call find the message claimed by one that the broker refused? -/
def Misled (s : Settling) (c : Settler) : Prop :=
  ∃ j d, c.behind = some j ∧ s.At j d ∧ d.Refused

section
variable {i : Nat} {c : Settler}

/-- A call that was refused says so. -/
theorem Valid.not_refused (hv : s.Valid) (hc : s.At i c) (hok : c.result? = some (.ok ())) :
    ¬ c.Refused := by
  rintro ⟨reason, hrefused⟩
  have hresult := (hv.known i c hc).result _ hok
  rw [hrefused] at hresult
  cases hresult

/-- When every call is over, a success that was not reported behind a call that the broker refused
comes with a call that it accepted. -/
theorem Valid.accepted_of_ok (hv : s.Valid) (hquiet : s.Quiet) (hbacked : s.acker.backed = true)
    (hc : s.At i c) (hok : c.result? = some (.ok ())) (hled : ¬ s.Misled c) :
    ∃ j d, s.At j d ∧ d.Accepted := by
  cases hanswer : c.answer? with
  | some answer =>
    rcases answer with reason | ⟨⟩
    · exact absurd ⟨reason, hanswer⟩ (hv.not_refused hc hok)
    · exact ⟨i, c, hc, hanswer⟩
  | none =>
    cases hbehind : c.behind with
    | none => exact (hv.known i c hc).after hbacked (by rw [hok]; rfl) hanswer hbehind
    | some j =>
      obtain ⟨-, d, hd, hengaged⟩ := (hv.known i c hc).behind j hbehind
      -- the call that it stood behind is over by now, so the broker has answered it
      have hanswered : d.answer?.isSome = true := by
        rw [Settler.engaged, Settler.holds_of_over (hquiet j d hd)] at hengaged
        simpa using hengaged
      obtain ⟨reason | ⟨⟩, hsaid⟩ := Option.isSome_iff_exists.mp hanswered
      · exact absurd ⟨j, d, hbehind, hd, reason, hsaid⟩ hled
      · exact ⟨j, d, hd, hsaid⟩

end

/-- When every call is over and some call has reported success, the message is settled with the
broker's consent exactly if some call reported success without having stood behind a call that the
broker refused. -/
theorem Reachable.kept_iff (h : s.Reachable) (hquiet : s.Quiet)
    (hok : ∃ i, s.result? i = some (.ok ())) :
    s.Kept ↔ ∃ i c, s.At i c ∧ c.result? = some (.ok ()) ∧ ¬ s.Misled c := by
  have hv := h.valid
  obtain ⟨i, hi⟩ := hok
  obtain ⟨c, hc, hreported⟩ := result?_eq_some_iff.mp hi
  cases hbacked : s.acker.backed with
  | true =>
    constructor
    · rintro ⟨-, haccepted⟩
      obtain ⟨j, d, hd, haccepted⟩ := haccepted hbacked
      refine ⟨j, d, hd, ?_, ?_⟩
      · obtain ⟨result, hover⟩ := Option.isSome_iff_exists.mp (hquiet j d hd)
        have hresult := (hv.known j d hd).result result hover
        rw [haccepted] at hresult
        rw [hover, hresult]
        rfl
      · -- a call that stood behind another was never answered
        rintro ⟨k, e, hbehind, -⟩
        have hanswer := ((hv.known j d hd).behind k hbehind).1.2
        rw [haccepted] at hanswer
        cases hanswer
    · rintro ⟨j, d, hd, hreported, hled⟩
      obtain ⟨k, e, he, haccepted⟩ := hv.accepted_of_ok hquiet hbacked hd hreported hled
      have hsettled := (hv.settled k e he (Settler.stands_iff.mpr (.inr haccepted))).2
      exact ⟨by simp [Acker.isSettled, hsettled], fun _ => ⟨k, e, he, haccepted⟩⟩
  | false =>
    have hmade : ∀ j d, s.At j d → d.stage ≠ .made := by
      intro j d hd hstage
      have hover := hquiet j d hd
      simp [Settler.result?, hstage] at hover
    -- without a broker there is nobody to stand behind
    have hnobody : ∀ j d, s.At j d → d.engaged = false := by
      intro j d hd
      exact ((hv.known j d hd).unbacked hbacked (hmade j d hd)).2
    refine iff_of_true ⟨?_, fun hb => ?_⟩ ⟨i, c, hc, hreported, ?_⟩
    · exact ((hv.known i c hc).unbacked hbacked (hmade i c hc)).1
    · exact absurd (hb.symm.trans hbacked) (by decide)
    · rintro ⟨j, d, -, hd, reason, hrefused⟩
      have hengaged := hnobody j d hd
      simp [Settler.engaged, hrefused] at hengaged

theorem retried_quiet : retried.Quiet := by
  intro i c hc
  match i, hc with
  | 0, hc | 1, hc | 2, hc =>
    obtain rfl := Option.some.inj hc
    rfl

theorem kept_retried : retried.Reachable ∧ retried.Quiet ∧ retried.result? 1 = some (.ok ()) ∧
    (retried.Kept ↔ ∃ i c, retried.At i c ∧ c.result? = some (.ok ()) ∧ ¬ retried.Misled c) :=
  ⟨retried_reachable, retried_quiet, rfl,
    Reachable.kept_iff retried_reachable retried_quiet ⟨1, rfl⟩⟩

theorem not_forall_kept :
    ¬ ∀ s : Settling, s.Reachable → s.Quiet → (∃ i, s.result? i = some (.ok ())) → s.Kept := by
  intro hkept
  have hquiet : lost.Quiet := by
    intro i c hc
    match i, hc with
    | 0, hc | 1, hc =>
      obtain rfl := Option.some.inj hc
      rfl
  obtain ⟨hsettled, -⟩ := hkept lost lost_reachable hquiet ⟨1, rfl⟩
  cases hsettled

end Settling
end MessageDispatch
