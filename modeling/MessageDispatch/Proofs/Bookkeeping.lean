import MessageDispatch.Proofs.Execution
import MessageDispatch.Proofs.Lists

/-! What a subscriber keeps on record of its messages, over attempts at many messages that overlap
in any way. When an attempt ends, the record is kept for a message that is handed back to a broker
that delivers it again. Whether the message really comes back is another matter: its handler may
have acknowledged or rejected it by hand, and then the broker is not told to take it back. -/
namespace MessageDispatch

namespace Watcher

/-- The messages on record. -/
def ids : Watcher → List String
  | .counting _ attempts => attempts.map (·.1)
  | _ => []

variable {id id' : String} {w : Watcher}

theorem tracked_eq (w : Watcher) : w.tracked = w.ids.length := by
  cases w <;> simp [tracked, ids]

theorem mem_ids_of_mem_add (h : id' ∈ (w.add id).ids) : id' = id ∨ id' ∈ w.ids := by
  cases w with
  | counting limit attempts =>
    obtain ⟨entry, hentry, rfl⟩ := List.mem_map.mp h
    rcases Assoc.mem_put hentry with rfl | hold
    · exact .inl rfl
    · exact .inr (List.mem_map_of_mem hold)
  | _ => cases h

theorem mem_ids_remove : id' ∈ (w.remove id).ids ↔ id' ≠ id ∧ id' ∈ w.ids := by
  cases w with
  | counting limit attempts =>
    simp only [remove, ids, Assoc.erase, List.mem_map, List.mem_filter, bne_iff_ne]
    constructor
    · rintro ⟨entry, ⟨hentry, hne⟩, rfl⟩
      exact ⟨hne, entry, hentry, rfl⟩
    · rintro ⟨hne, entry, hentry, rfl⟩
      exact ⟨entry, ⟨hentry, hne⟩, rfl⟩
  | _ => simp [remove, ids]

/-- Each message is on record once. -/
def Tidy : Watcher → Prop
  | .counting _ attempts => Assoc.Sorted attempts
  | _ => True

theorem Tidy.add (h : w.Tidy) : (w.add id).Tidy := by
  cases w with
  | counting limit attempts => exact Assoc.Sorted.put h
  | _ => trivial

theorem Tidy.remove (h : w.Tidy) : (w.remove id).Tidy := by
  cases w with
  | counting limit attempts => exact Assoc.Sorted.erase h id
  | _ => trivial

theorem Tidy.nodup_ids (h : w.Tidy) : w.ids.Nodup := by
  cases w with
  | counting limit attempts =>
    refine List.pairwise_map.mpr (List.Pairwise.imp ?_ h)
    intro entry later hlt
    exact String.ne_of_lt hlt
  | _ => exact List.nodup_nil

end Watcher

/-! ## One attempt -/

/-- Was the message settled so that it does not come back? -/
def Acker.Disposed (a : Acker) : Prop := ∃ action, a.settlement = some action ∧ action ≠ .nack

/-- Will the broker deliver the message again? -/
def Acker.ComesBack (a : Acker) : Prop := a.settlement = some .nack ∧ a.redelivers = true

theorem Acker.settle_of_settled {σ : Type} {call : Action → σ → Except String Unit × σ}
    {action settled : Action} {a : Acker} {s : σ} (h : a.settlement = some settled) :
    a.settle call action s = (.ok (), a, s) := by
  simp only [settle, claim?, h]

namespace Attempt

variable {σ : Type} {call : Action → σ → Except String Unit × σ} {w : Watcher} {id : String}
  {outcome : Outcome} {a : Acker} {s : σ}

/-- A message that is already settled stays as it is. -/
theorem acker_exit_of_settled {settled : Action} (h : a.settlement = some settled) :
    (exit call w id outcome a s).acker = a := by
  unfold exit
  cases instruction w id outcome with
  | none => rfl
  | some action => simp only [Acker.settle_of_settled h]

theorem nacked_exit_iff (h : (exit call w id outcome a s).result = .ok (some .nack)) :
    (exit call w id outcome a s).acker.settlement = some .nack ↔ ¬ a.Disposed := by
  cases ha : a.settlement with
  | none => exact iff_of_true (settlement_exit ha h) (by simp [Acker.Disposed, ha])
  | some settled =>
    rw [acker_exit_of_settled ha]
    simp [Acker.Disposed, ha]

theorem forgets_eq_false {action : Option Action} (h : forgets a action = false) :
    action = some .nack ∧ a.redelivers = true := by
  unfold forgets at h
  split at h
  · exact ⟨rfl, by simpa using h⟩
  · cases h

/-- The record is kept for a message that is handed back to a broker that delivers it again, and of
other messages in any case. -/
theorem mem_ids_exit {action : Option Action} {id' : String}
    (h : (exit call w id outcome a s).result = .ok action) :
    id' ∈ (exit call w id outcome a s).watcher.ids ↔
      id' ∈ w.ids ∧ (id' = id → action = some .nack ∧ a.redelivers = true) := by
  rw [(watcher_exit h).2]
  cases hforgets : forgets a action with
  | true =>
    have hdrop : ¬ (action = some .nack ∧ a.redelivers = true) := by
      rintro ⟨rfl, hredelivers⟩
      simp [forgets, hredelivers] at hforgets
    rw [if_pos rfl, Watcher.mem_ids_remove]
    constructor
    · rintro ⟨hne, hmem⟩
      exact ⟨hmem, fun heq => absurd heq hne⟩
    · rintro ⟨hmem, hkept⟩
      exact ⟨fun heq => hdrop (hkept heq), hmem⟩
  | false =>
    rw [if_neg Bool.false_ne_true]
    exact ⟨fun hmem => ⟨hmem, fun _ => forgets_eq_false hforgets⟩, fun h => h.1⟩

/-- A settlement that the broker refuses leaves the record as it is. -/
theorem watcher_exit_of_error {e : AckError}
    (h : (exit call w id outcome a s).result = .error e) :
    (exit call w id outcome a s).watcher = w := by
  unfold exit at h ⊢
  dsimp only at h ⊢
  split at h
  · rfl
  · cases h

/-- Is the record kept of a message that was settled by hand and does not come back? -/
structure Overruled (w : Watcher) (id : String) (outcome : Outcome) (a : Acker) : Prop where
  recorded : id ∈ w.ids
  instruction : instruction w id outcome = some .nack
  redelivers : a.redelivers = true
  disposed : a.Disposed

/-- What an attempt leaves on record comes back, unless its handler overruled it. -/
theorem comesBack_exit_iff {action : Option Action}
    (h : (exit call w id outcome a s).result = .ok action) :
    (id ∈ (exit call w id outcome a s).watcher.ids →
      (exit call w id outcome a s).acker.ComesBack) ↔ ¬ Overruled w id outcome a := by
  have hinstruction := (watcher_exit h).1
  constructor
  · intro hback hover
    have hasked : action = some .nack := hinstruction.trans hover.instruction
    obtain ⟨hnacked, -⟩ := hback
      ((mem_ids_exit h).mpr ⟨hover.recorded, fun _ => ⟨hasked, hover.redelivers⟩⟩)
    subst hasked
    exact (nacked_exit_iff h).mp hnacked hover.disposed
  · intro hover hmem
    obtain ⟨hrecorded, hkept⟩ := (mem_ids_exit h).mp hmem
    obtain ⟨rfl, hredelivers⟩ := hkept rfl
    refine ⟨(nacked_exit_iff h).mpr ?_, redelivers_exit.trans hredelivers⟩
    exact fun hdisposed => hover ⟨hrecorded, hinstruction.symm, hredelivers, hdisposed⟩

end Attempt

/-! ## Attempts at many messages -/

/-- An attempt at a message. -/
structure Books.Course where
  id : String
  acker : Acker
  ended : Bool

/-- How an attempt ended. -/
structure Books.Closing where
  id : String
  result : Except AckError (Option Action)
  /-- The message as its handler left it. -/
  before : Acker
  after : Acker

/-- The watcher of a subscriber with all attempts so far, and the ends of those that are over, the
last one first. -/
structure Books where
  watcher : Watcher
  courses : List Books.Course
  closings : List Books.Closing

namespace Books

inductive Event where
  /-- An attempt starts at a message, which may have been settled before. -/
  | enter (id : String) (acker : Acker)
  /-- The handler settles its message by hand. -/
  | settle (i : Nat) (action : Action) (answer : Except String Unit)
  | exit (i : Nat) (outcome : Outcome) (answer : Except String Unit)

def start (w : Watcher) : Books := ⟨w, [], []⟩

/-- The broker, where it is told anything, gives this answer. -/
def answers (answer : Except String Unit) : Action → Unit → Except String Unit × Unit :=
  fun _ u => (answer, u)

/-- The `i`-th attempt, if it is not over. -/
def course? (s : Books) (i : Nat) : Option Course :=
  (s.courses[i]?).filter (!·.ended)

def step (s : Books) : Event → Option Books
  | .enter id a =>
    some { s with
      watcher := Attempt.enter s.watcher id
      courses := s.courses ++ [⟨id, a, false⟩] }
  | .settle i action answer =>
    (s.course? i).map fun c =>
      { s with
        courses :=
          s.courses.set i { c with acker := (c.acker.settle (answers answer) action ()).2.1 } }
  | .exit i outcome answer =>
    (s.course? i).map fun c =>
      let ended := Attempt.exit (answers answer) s.watcher c.id outcome c.acker ()
      { watcher := ended.watcher
        courses := s.courses.set i ⟨c.id, ended.acker, true⟩
        closings := ⟨c.id, ended.result, c.acker, ended.acker⟩ :: s.closings }

def run (s : Books) : List Event → Option Books
  | [] => some s
  | ev :: rest => (s.step ev).bind (·.run rest)

/-- Is there an attempt at this message that is not over? -/
def Busy (s : Books) (id : String) : Prop := ∃ c ∈ s.courses, c.id = id ∧ c.ended = false

/-- How the last attempt at a message ended. -/
def last? (s : Books) (id : String) : Option Closing := s.closings.find? (·.id == id)

/-- What any attempts at any messages have come to so far. -/
def Reachable (s : Books) : Prop := ∃ policy evs, (start (.ofPolicy policy)).run evs = some s

variable {s s' : Books} {ev : Event} {evs : List Event}

theorem course?_eq_some {i : Nat} {c : Course} (h : s.course? i = some c) :
    s.courses[i]? = some c ∧ c.ended = false := by
  obtain ⟨hc, hopen⟩ := Option.filter_eq_some_iff.mp h
  exact ⟨hc, by simpa using hopen⟩

/-- All that can happen. -/
theorem step_cases (hstep : s.step ev = some s') :
    (∃ id a, s' = ⟨s.watcher.add id, s.courses ++ [⟨id, a, false⟩], s.closings⟩) ∨
      (∃ i c a, s.courses[i]? = some c ∧ c.ended = false ∧
        s' = ⟨s.watcher, s.courses.set i { c with acker := a }, s.closings⟩) ∨
      ∃ i c outcome answer attempt, s.courses[i]? = some c ∧
        Attempt.exit (answers answer) s.watcher c.id outcome c.acker () = attempt ∧
          s' = ⟨attempt.watcher, s.courses.set i ⟨c.id, attempt.acker, true⟩,
            ⟨c.id, attempt.result, c.acker, attempt.acker⟩ :: s.closings⟩ := by
  cases ev with
  | enter id a => exact .inl ⟨id, a, (Option.some.inj hstep).symm⟩
  | settle i action answer =>
    obtain ⟨c, hc, rfl⟩ := Option.map_eq_some_iff.mp hstep
    obtain ⟨hc, hopen⟩ := course?_eq_some hc
    exact .inr (.inl ⟨i, c, _, hc, hopen, rfl⟩)
  | exit i outcome answer =>
    obtain ⟨c, hc, rfl⟩ := Option.map_eq_some_iff.mp hstep
    exact .inr (.inr ⟨i, c, outcome, answer, _, (course?_eq_some hc).1, rfl, rfl⟩)

/-- An attempt that goes on, or that is at another message, leaves a message busy. -/
theorem Busy.set {id : String} {i : Nat} {c c' : Course} {w : Watcher} {closings : List Closing}
    (h : s.Busy id) (hc : s.courses[i]? = some c)
    (hsame : c.id = id → c'.id = id ∧ c'.ended = false) :
    Busy ⟨w, s.courses.set i c', closings⟩ id := by
  obtain ⟨d, hd, hid, hopen⟩ := h
  obtain ⟨j, hj⟩ := List.mem_iff_getElem?.mp hd
  by_cases hij : j = i
  · subst hij
    obtain rfl := Option.some.inj (hc.symm.trans hj)
    obtain ⟨hid', hopen'⟩ := hsame hid
    exact ⟨c', List.mem_iff_getElem?.mpr ⟨j, (getElem?_set_iff hc).mpr (.inl ⟨rfl, rfl⟩)⟩, hid',
      hopen'⟩
  · exact ⟨d, List.mem_iff_getElem?.mpr ⟨j, (getElem?_set_iff hc).mpr (.inr ⟨hij, hj⟩)⟩, hid, hopen⟩

/-- If the broker accepted, was the message handed back to be delivered again? -/
def Closing.HandedBack (c : Closing) : Prop :=
  ∀ action, c.result = .ok action → action = some .nack ∧ c.after.redelivers = true

structure Valid (s : Books) : Prop where
  tidy : s.watcher.Tidy
  recorded : ∀ id ∈ s.watcher.ids, s.Busy id ∨ ∃ c, s.last? id = some c ∧ c.HandedBack
  settled : ∀ c ∈ s.closings, c.result = .ok (some .nack) →
    (c.after.settlement = some .nack ↔ ¬ c.before.Disposed)

theorem Valid.start (policy : RetryPolicy) : (start (.ofPolicy policy)).Valid := by
  have hnone : (Watcher.ofPolicy policy).ids = [] := by cases policy <;> rfl
  refine ⟨?_, ?_, fun _ hc => absurd hc List.not_mem_nil⟩
  · cases policy with
    | times limit => exact List.Pairwise.nil
    | _ => trivial
  · intro id hid
    simp [Books.start, hnone] at hid

theorem Valid.enter (hv : s.Valid) (id : String) (a : Acker) :
    Valid ⟨s.watcher.add id, s.courses ++ [⟨id, a, false⟩], s.closings⟩ := by
  refine ⟨hv.tidy.add, ?_, hv.settled⟩
  intro id' hid
  rcases Watcher.mem_ids_of_mem_add hid with rfl | hold
  · exact .inl ⟨_, List.mem_append_right _ (List.mem_singleton_self _), rfl, rfl⟩
  · refine (hv.recorded id' hold).imp_left ?_
    rintro ⟨c, hc, hopen⟩
    exact ⟨c, List.mem_append_left _ hc, hopen⟩

section
variable {i : Nat} {c : Course} (hv : s.Valid) (hc : s.courses[i]? = some c)
include hv hc

theorem Valid.settle (hopen : c.ended = false) (a : Acker) :
    Valid ⟨s.watcher, s.courses.set i { c with acker := a }, s.closings⟩ :=
  ⟨hv.tidy, fun id hid => (hv.recorded id hid).imp_left (·.set hc fun heq => ⟨heq, hopen⟩),
    hv.settled⟩

theorem Valid.exit {outcome : Outcome} {answer : Except String Unit}
    {attempt : Attempt.Ended Unit}
    (hattempt : Attempt.exit (answers answer) s.watcher c.id outcome c.acker () = attempt) :
    Valid ⟨attempt.watcher, s.courses.set i ⟨c.id, attempt.acker, true⟩,
      ⟨c.id, attempt.result, c.acker, attempt.acker⟩ :: s.closings⟩ := by
  subst hattempt
  -- an attempt at one message says nothing of the others
  have hothers : ∀ id ∈ s.watcher.ids, id ≠ c.id → ∀ w c' (d : Closing), d.id = c.id →
      Busy ⟨w, s.courses.set i c', d :: s.closings⟩ id ∨
        ∃ e, last? ⟨w, s.courses.set i c', d :: s.closings⟩ id = some e ∧ e.HandedBack := by
    intro id hid hne w c' d hd
    refine (hv.recorded id hid).imp (·.set hc fun heq => absurd heq.symm hne) ?_
    rintro ⟨e, he, hback⟩
    refine ⟨e, ?_, hback⟩
    rw [last?, List.find?_cons_of_neg (by simpa [hd] using hne.symm)]
    exact he
  cases hresult : (Attempt.exit (answers answer) s.watcher c.id outcome c.acker ()).result with
  | error e =>
    have hwatcher := Attempt.watcher_exit_of_error hresult
    refine ⟨?_, ?_, ?_⟩
    · rw [hwatcher]
      exact hv.tidy
    · intro id hid
      by_cases heq : id = c.id
      · subst heq
        exact .inr ⟨_, List.find?_cons_of_pos (by simp), nofun⟩
      · rw [hwatcher] at hid
        exact hothers id hid heq _ _ _ rfl
    · intro d hd hnack
      rcases List.mem_cons.mp hd with rfl | hd
      · cases hnack
      · exact hv.settled d hd hnack
  | ok action =>
    refine ⟨?_, ?_, ?_⟩
    · rw [(Attempt.watcher_exit hresult).2]
      split
      · exact hv.tidy.remove
      · exact hv.tidy
    · intro id hid
      obtain ⟨hold, hkept⟩ := (Attempt.mem_ids_exit hresult).mp hid
      by_cases heq : id = c.id
      · subst heq
        refine .inr ⟨_, List.find?_cons_of_pos (by simp), ?_⟩
        intro action' h
        obtain rfl := Except.ok.inj h
        obtain ⟨hnack, hredelivers⟩ := hkept rfl
        exact ⟨hnack, Attempt.redelivers_exit.trans hredelivers⟩
      · exact hothers id hold heq _ _ _ rfl
    · intro d hd hnack
      rcases List.mem_cons.mp hd with rfl | hd
      · obtain rfl := Except.ok.inj hnack
        exact Attempt.nacked_exit_iff hresult
      · exact hv.settled d hd hnack

end

theorem Valid.step (hv : s.Valid) (hstep : s.step ev = some s') : s'.Valid := by
  rcases step_cases hstep with ⟨id, a, rfl⟩ | ⟨i, c, a, hc, hopen, rfl⟩ |
    ⟨i, c, outcome, answer, attempt, hc, hattempt, rfl⟩
  · exact hv.enter id a
  · exact hv.settle hc hopen a
  · exact hv.exit hc hattempt

theorem Valid.run (hv : s.Valid) (hrun : s.run evs = some s') : s'.Valid := by
  induction evs generalizing s with
  | nil =>
    obtain rfl := Option.some.inj hrun
    exact hv
  | cons ev rest ih =>
    obtain ⟨s₁, hstep, hrest⟩ := Option.bind_eq_some_iff.mp hrun
    exact ih (hv.step hstep) hrest

theorem Reachable.valid (h : s.Reachable) : s.Valid := by
  obtain ⟨policy, evs, hrun⟩ := h
  exact (Valid.start policy).run hrun

/-! ## Whether what is on record comes back -/

/-- What a subscriber has on record once an attempt has ended belongs to a message that comes back,
exactly if that was not disposed of by hand before it was handed back; and so over any attempts at
any messages, where each message counts once. -/
theorem comesBack_iff {σ : Type} (call : Action → σ → Except String Unit × σ) (w : Watcher)
    (id : String) (outcome : Outcome) (a : Acker) (broker : σ) (hreach : s.Reachable) :
    (∀ action, (Attempt.exit call w id outcome a broker).result = .ok action →
      ((id ∈ (Attempt.exit call w id outcome a broker).watcher.ids →
        (Attempt.exit call w id outcome a broker).acker.ComesBack) ↔
          ¬ Attempt.Overruled w id outcome a)) ∧
      s.watcher.tracked = s.watcher.ids.length ∧ s.watcher.ids.Nodup ∧
        ∀ id ∈ s.watcher.ids, ¬ s.Busy id → ∃ c, s.last? id = some c ∧
          ∀ action, c.result = .ok action →
            action = some .nack ∧ (c.after.ComesBack ↔ ¬ c.before.Disposed) := by
  have hv := hreach.valid
  refine ⟨fun _ => Attempt.comesBack_exit_iff, Watcher.tracked_eq _, hv.tidy.nodup_ids, ?_⟩
  intro id hid hidle
  obtain ⟨c, hlast, hback⟩ := (hv.recorded id hid).resolve_left hidle
  refine ⟨c, hlast, ?_⟩
  intro action haction
  obtain ⟨rfl, hredelivers⟩ := hback action haction
  have hsettled := hv.settled c (List.mem_of_find?_eq_some hlast) haction
  exact ⟨rfl, fun h => hsettled.mp h.1, fun h => ⟨hsettled.mpr h, hredelivers⟩⟩

/-- Two messages end with a nack, one after its handler has acknowledged it by hand. -/
def nackedTwice : Books where
  watcher := .counting 3 [("m-1", 1), ("m-2", 1)]
  courses := [⟨"m-1", ⟨some .ack, true, true⟩, true⟩, ⟨"m-2", ⟨some .nack, true, true⟩, true⟩]
  closings :=
    [⟨"m-2", .ok (some .nack), ⟨none, true, true⟩, ⟨some .nack, true, true⟩⟩,
      ⟨"m-1", .ok (some .nack), ⟨some .ack, true, true⟩, ⟨some .ack, true, true⟩⟩]

theorem nackedTwice_reachable : nackedTwice.Reachable :=
  ⟨.times 3, [.enter "m-1" ⟨none, true, true⟩, .enter "m-2" ⟨none, true, true⟩,
    .settle 0 .ack (.ok ()), .exit 0 .nack (.ok ()), .exit 1 .nack (.ok ())], rfl⟩

theorem nackedTwice_idle (id : String) : ¬ nackedTwice.Busy id := by
  rintro ⟨c, hc, -, hopen⟩
  simp only [nackedTwice, List.mem_cons, List.not_mem_nil, or_false] at hc
  rcases hc with rfl | rfl <;> cases hopen

theorem comesBack_nackedTwice :
    ((Attempt.exit (answers (.ok ())) (.counting 3 [("m-2", 1)]) "m-2" .nack
        ⟨none, true, true⟩ ()).result = .ok (some .nack) ∧
      (("m-2" ∈ (Attempt.exit (answers (.ok ())) (.counting 3 [("m-2", 1)]) "m-2" .nack
          ⟨none, true, true⟩ ()).watcher.ids →
        (Attempt.exit (answers (.ok ())) (.counting 3 [("m-2", 1)]) "m-2" .nack
          ⟨none, true, true⟩ ()).acker.ComesBack) ↔
            ¬ Attempt.Overruled (.counting 3 [("m-2", 1)]) "m-2" .nack ⟨none, true, true⟩)) ∧
      nackedTwice.watcher.tracked = 2 ∧ ∀ id ∈ nackedTwice.watcher.ids, ∃ c,
        nackedTwice.last? id = some c ∧ ∀ action, c.result = .ok action →
          action = some .nack ∧ (c.after.ComesBack ↔ ¬ c.before.Disposed) := by
  have hresult : (Attempt.exit (answers (.ok ())) (.counting 3 [("m-2", 1)]) "m-2" .nack
      ⟨none, true, true⟩ ()).result = .ok (some .nack) := rfl
  obtain ⟨hexit, -, -, hkept⟩ := comesBack_iff (answers (.ok ())) (.counting 3 [("m-2", 1)]) "m-2"
    .nack ⟨none, true, true⟩ () nackedTwice_reachable
  exact ⟨⟨hresult, hexit _ hresult⟩, rfl, fun id hid => hkept id hid (nackedTwice_idle id)⟩

theorem not_forall_comesBack :
    (¬ ∀ (w : Watcher) (id : String) (outcome : Outcome) (a : Acker) (action : Option Action),
      (Attempt.exit (answers (.ok ())) w id outcome a ()).result = .ok action →
        id ∈ (Attempt.exit (answers (.ok ())) w id outcome a ()).watcher.ids →
          (Attempt.exit (answers (.ok ())) w id outcome a ()).acker.ComesBack) ∧
      ¬ ∀ s : Books, s.Reachable → (∀ c ∈ s.closings, ∃ action, c.result = .ok action) →
        ∀ id ∈ s.watcher.ids, ¬ s.Busy id → ∃ c, s.last? id = some c ∧ c.after.ComesBack := by
  constructor
  · intro hback
    have h := hback (.counting 3 [("m-1", 1)]) "m-1" .nack ⟨some .ack, true, true⟩ (some .nack)
      rfl (List.mem_singleton_self _)
    cases h.1
  · intro hback
    have haccepted : ∀ c ∈ nackedTwice.closings, ∃ action, c.result = .ok action := by
      intro c hc
      simp only [nackedTwice, List.mem_cons, List.not_mem_nil, or_false] at hc
      rcases hc with rfl | rfl <;> exact ⟨_, rfl⟩
    obtain ⟨c, hlast, hnack, -⟩ := hback nackedTwice nackedTwice_reachable haccepted "m-1"
      (List.mem_cons_self ..) (nackedTwice_idle _)
    obtain rfl : c = ⟨"m-1", .ok (some .nack), ⟨some .ack, true, true⟩, ⟨some .ack, true, true⟩⟩ :=
      (Option.some.inj hlast).symm
    cases hnack

end Books
end MessageDispatch
