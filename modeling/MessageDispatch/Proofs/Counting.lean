import Mathlib.Algebra.Group.Nat.Defs
import MessageDispatch.Proofs.Bookkeeping
import MessageDispatch.Proofs.Redelivery

/-! How often each message was handed back, over attempts at many messages that overlap, but not two
at one message. What a watcher that counts has on record of a message is the number of its attempts
since one of them last ended otherwise than with a nack. -/
namespace MessageDispatch

/-! ## One record among others -/

namespace Watcher

variable {w : Watcher} {id id' : String}

theorem attempts_eq (w : Watcher) (id : String) : w.attempts id = (w.record? id).getD 0 := by
  cases w <;> rfl

theorem record?_add_of_ne (h : id' ≠ id) : (w.add id).record? id' = w.record? id' := by
  cases w with
  | counting limit attempts => simp [add, record?, Assoc.get?_put, h.symm]
  | _ => rfl

theorem record?_remove_of_ne (h : id' ≠ id) : (w.remove id).record? id' = w.record? id' := by
  cases w with
  | counting limit attempts => simp [remove, record?, Assoc.get?_erase, h]
  | _ => rfl

theorem mem_ids_iff : id ∈ w.ids ↔ w.record? id ≠ none := by
  cases w with
  | counting limit attempts =>
    simp only [ids, record?]
    induction attempts with
    | nil => simp [Assoc.get?]
    | cons entry rest ih =>
      obtain ⟨name, count⟩ := entry
      by_cases hname : name = id
      · simp [Assoc.get?, hname]
      · simpa [Assoc.get?, hname, Ne.symm hname] using ih
  | _ => simp [ids, record?]

end Watcher

namespace Attempt

variable {σ : Type} {call : Action → σ → Except String Unit × σ} {w : Watcher} {id id' : String}
  {outcome : Outcome} {a : Acker} {s : σ}

theorem record?_exit_of_ne (h : id' ≠ id) :
    (exit call w id outcome a s).watcher.record? id' = w.record? id' := by
  cases hresult : (exit call w id outcome a s).result with
  | error err => rw [watcher_exit_of_error hresult]
  | ok action =>
    rw [(watcher_exit hresult).2]
    split
    · exact Watcher.record?_remove_of_ne h
    · rfl

/-- The end of an attempt that the broker accepts, where nobody settled the message by hand. -/
theorem exit_accepted (w : Watcher) (id : String) (outcome : Outcome) :
    exit (Books.answers (.ok ())) w id outcome (.ofBackend true) () =
      { result := .ok (instruction w id outcome)
        watcher := if instruction w id outcome = some .nack then w else w.remove id
        acker := { Acker.ofBackend true with settlement := instruction w id outcome }
        broker := () } := by
  unfold exit
  cases instruction w id outcome with
  | none => rfl
  | some action => cases action <;> rfl

end Attempt

namespace Books

variable {s s' : Books} {ev : Event} {id id' : String} {n : UInt32}

/-! ## Who is busy -/

instance : Decidable (s.Busy id) := inferInstanceAs (Decidable (∃ c ∈ s.courses, _))

theorem busy_enter_iff {a : Acker} {w : Watcher} {closings : List Closing} :
    Busy ⟨w, s.courses ++ [⟨id, a, false⟩], closings⟩ id' ↔ s.Busy id' ∨ id' = id := by
  simp only [Busy, List.mem_append, List.mem_singleton]
  constructor
  · rintro ⟨c, hc | rfl, rfl, hopen⟩
    · exact .inl ⟨c, hc, rfl, hopen⟩
    · exact .inr rfl
  · rintro (⟨c, hc, rfl, hopen⟩ | rfl)
    · exact ⟨c, .inl hc, rfl, hopen⟩
    · exact ⟨_, .inr rfl, rfl, rfl⟩

/-- There are no two attempts at one message at a time. -/
def Alone (s : Books) : Prop :=
  ∀ (i j : Nat) (c d : Course), s.courses[i]? = some c → s.courses[j]? = some d →
    c.ended = false → d.ended = false → c.id = d.id → i = j

section
variable {i : Nat} {c : Course} (hc : s.courses[i]? = some c)
include hc

theorem busy_exit_iff (halone : s.Alone) (hopen : c.ended = false) {a : Acker} {w : Watcher}
    {closings : List Closing} :
    Busy ⟨w, s.courses.set i ⟨c.id, a, true⟩, closings⟩ id' ↔ s.Busy id' ∧ id' ≠ c.id := by
  constructor
  · rintro ⟨d, hd, rfl, hd_open⟩
    obtain ⟨j, hj⟩ := List.mem_iff_getElem?.mp hd
    rcases (getElem?_set_iff hc).mp hj with ⟨-, rfl⟩ | ⟨hne, hj⟩
    · cases hd_open
    · refine ⟨⟨d, List.mem_of_getElem? hj, rfl, hd_open⟩, fun heq => hne ?_⟩
      exact halone j i d c hj hc hd_open hopen heq
  · rintro ⟨hbusy, hne⟩
    exact hbusy.set hc fun heq => absurd heq.symm hne

theorem Alone.exit (halone : s.Alone) {a : Acker} {w : Watcher} {closings : List Closing} :
    Alone ⟨w, s.courses.set i ⟨c.id, a, true⟩, closings⟩ := by
  intro j k d e hd he hd_open he_open
  rcases (getElem?_set_iff hc).mp hd with ⟨-, rfl⟩ | ⟨-, hd⟩
  · cases hd_open
  rcases (getElem?_set_iff hc).mp he with ⟨-, rfl⟩ | ⟨-, he⟩
  · cases he_open
  exact halone j k d e hd he hd_open he_open

end

theorem Alone.enter (halone : s.Alone) (hidle : ¬ s.Busy id) {a : Acker} {w : Watcher}
    {closings : List Closing} :
    Alone ⟨w, s.courses ++ [⟨id, a, false⟩], closings⟩ := by
  intro i j c d hc hd hc_open hd_open hsame
  rcases getElem?_concat_iff.mp hc with hc | ⟨rfl, rfl⟩
  · rcases getElem?_concat_iff.mp hd with hd | ⟨rfl, rfl⟩
    · exact halone i j c d hc hd hc_open hd_open hsame
    · exact absurd ⟨c, List.mem_of_getElem? hc, hsame, hc_open⟩ hidle
  · rcases getElem?_concat_iff.mp hd with hd | ⟨rfl, rfl⟩
    · exact absurd ⟨d, List.mem_of_getElem? hd, hsame.symm, hd_open⟩ hidle
    · rfl

/-! ## Attempts that were handed back -/

/-- Did the attempt end with a nack that the broker accepted? -/
def Closing.nacked (c : Closing) : Bool :=
  match c.result with
  | .ok (some .nack) => true
  | _ => false

/-- How many attempts at a message ended with a nack since one ended otherwise. -/
def streak (s : Books) (id : String) : Nat :=
  ((s.closings.filter (·.id == id)).takeWhile Closing.nacked).length

theorem streak_cons {w : Watcher} {courses : List Course} {c : Closing} :
    streak ⟨w, courses, c :: s.closings⟩ id =
      if c.id = id then (if c.nacked then s.streak id + 1 else 0) else s.streak id := by
  by_cases hid : c.id = id
  · cases hnacked : c.nacked <;> simp [streak, hid, hnacked]
  · simp [streak, hid]

/-! ## Orderly runs -/

/-- What may happen: an attempt at a message that no other is under way at, and its end with the
broker's consent. Nothing is settled by hand, and nacked messages are delivered again. -/
def Permits (s : Books) : Event → Prop
  | .enter id a => ¬ s.Busy id ∧ a = .ofBackend true
  | .settle .. => False
  | .exit _ _ answer => answer = .ok ()

/-- What such attempts come to, in whatever order those at different messages start and end. -/
inductive Orderly (n : UInt32) : Books → Prop where
  | start : Orderly n (start (.ofPolicy (.times n)))
  | step {s s' : Books} {ev : Event} (h : Orderly n s) (hpermits : s.Permits ev)
      (hstep : s.step ev = some s') : Orderly n s'

/-- What is on record of each message. The counter wraps around. -/
structure Counted (n : UInt32) (s : Books) : Prop where
  limit : s.watcher.limit? = some n
  tidy : s.watcher.Tidy
  alone : s.Alone
  fresh : ∀ c ∈ s.courses, c.ended = false → c.acker = .ofBackend true
  busy : ∀ id, s.Busy id → s.watcher.record? id = some (.ofNat (s.streak id + 1))
  idle : ∀ id, ¬ s.Busy id →
    s.watcher.record? id = if s.streak id = 0 then none else some (.ofNat (s.streak id))

theorem Counted.start (n : UInt32) : Counted n (start (.ofPolicy (.times n))) where
  limit := rfl
  tidy := List.Pairwise.nil
  alone := by
    intro i j c d hc
    cases hc
  fresh := by simp [Books.start]
  busy := by
    rintro id ⟨c, hc, -⟩
    cases hc
  idle := fun _ _ => rfl

/-- An attempt is counted on top of those that were handed back. -/
theorem Counted.enter (h : Counted n s) (hidle : ¬ s.Busy id) :
    Counted n ⟨s.watcher.add id, s.courses ++ [⟨id, .ofBackend true, false⟩], s.closings⟩ where
  limit := (Watcher.limit?_add ..).trans h.limit
  tidy := h.tidy.add
  alone := h.alone.enter hidle
  fresh := by
    intro c hc hopen
    rcases List.mem_append.mp hc with hc | hc
    · exact h.fresh c hc hopen
    · obtain rfl := List.mem_singleton.mp hc
      rfl
  busy := by
    intro id' hbusy
    show (s.watcher.add id).record? id' = some (.ofNat (s.streak id' + 1))
    by_cases hid : id' = id
    · subst hid
      rw [Watcher.record?_add h.limit, h.idle id' hidle, UInt32.ofNat_add]
      split
      · rename_i hzero
        rw [hzero]
        rfl
      · rfl
    · rw [Watcher.record?_add_of_ne hid]
      exact h.busy id' ((busy_enter_iff.mp hbusy).resolve_right hid)
  idle := by
    intro id' hidle'
    obtain ⟨hold, hid⟩ := not_or.mp (mt busy_enter_iff.mpr hidle')
    show (s.watcher.add id).record? id' =
      if s.streak id' = 0 then none else some (.ofNat (s.streak id'))
    rw [Watcher.record?_add_of_ne hid]
    exact h.idle id' hold

/-- A nack adds the attempt to those that were handed back, anything else drops the record. -/
theorem Counted.exit {i : Nat} {c : Course} (h : Counted n s) (hc : s.courses[i]? = some c)
    (hopen : c.ended = false) {outcome : Outcome} {attempt : Attempt.Ended Unit}
    (hattempt :
      Attempt.exit (answers (.ok ())) s.watcher c.id outcome (.ofBackend true) () = attempt) :
    Counted n ⟨attempt.watcher, s.courses.set i ⟨c.id, attempt.acker, true⟩,
      ⟨c.id, attempt.result, c.acker, attempt.acker⟩ :: s.closings⟩ := by
  have hcbusy : s.Busy c.id := ⟨c, List.mem_of_getElem? hc, rfl, hopen⟩
  have hexited := Attempt.exit_accepted s.watcher c.id outcome
  rw [hattempt] at hexited
  subst hexited
  refine { limit := ?_, tidy := ?_, alone := h.alone.exit hc, fresh := ?_, busy := ?_, idle := ?_ }
  · dsimp only
    split
    · exact h.limit
    · exact (Watcher.limit?_remove ..).trans h.limit
  · dsimp only
    split
    · exact h.tidy
    · exact h.tidy.remove
  · intro d hd hd_open
    obtain ⟨j, hj⟩ := List.mem_iff_getElem?.mp hd
    rcases (getElem?_set_iff hc).mp hj with ⟨-, rfl⟩ | ⟨-, hj⟩
    · cases hd_open
    · exact h.fresh d (List.mem_of_getElem? hj) hd_open
  · intro id hbusy
    obtain ⟨hbusy, hid⟩ := (busy_exit_iff hc h.alone hopen).mp hbusy
    rw [streak_cons, if_neg (Ne.symm hid), ← h.busy id hbusy]
    dsimp only
    split
    · rfl
    · exact Watcher.record?_remove_of_ne hid
  · intro id hidle
    rw [streak_cons]
    by_cases hid : id = c.id
    · subst hid
      rw [if_pos rfl]
      -- the message was busy with this attempt alone, so its record is what the attempt found
      cases hinstruction : Attempt.instruction s.watcher c.id outcome with
      | none => exact Watcher.record?_remove h.limit c.id
      | some action =>
        cases action with
        | nack => exact h.busy c.id hcbusy
        | _ => exact Watcher.record?_remove h.limit c.id
    · have hold : ¬ s.Busy id := fun hbusy =>
        hidle ((busy_exit_iff hc h.alone hopen).mpr ⟨hbusy, hid⟩)
      rw [if_neg (Ne.symm hid), ← h.idle id hold]
      dsimp only
      split
      · rfl
      · exact Watcher.record?_remove_of_ne hid

theorem Counted.step (h : Counted n s) (hpermits : s.Permits ev) (hstep : s.step ev = some s') :
    Counted n s' := by
  cases ev with
  | enter id a =>
    obtain ⟨hidle, rfl⟩ := hpermits
    obtain rfl := Option.some.inj hstep
    exact h.enter hidle
  | settle i action answer => cases hpermits
  | exit i outcome answer =>
    obtain rfl := hpermits
    obtain ⟨c, hc, rfl⟩ := Option.map_eq_some_iff.mp hstep
    obtain ⟨hc, hopen⟩ := course?_eq_some hc
    have hfresh := h.fresh c (List.mem_of_getElem? hc) hopen
    exact h.exit hc hopen (by rw [hfresh])

theorem Orderly.counted (h : Orderly n s) : Counted n s := by
  induction h with
  | start => exact .start n
  | step _ hpermits hstep ih => exact ih.step hpermits hstep

/-! ## Exact counts -/

/-- The message that an event is about. -/
def subject? (s : Books) : Event → Option String
  | .enter id _ => some id
  | .settle i .. | .exit i .. => (s.course? i).map (·.id)

/-- Nothing happens to the record of a message by what happens to others. -/
theorem record?_step (hstep : s.step ev = some s') (hsubject : s.subject? ev ≠ some id) :
    s'.watcher.record? id = s.watcher.record? id ∧ s'.streak id = s.streak id := by
  cases ev with
  | enter id' a =>
    obtain rfl := Option.some.inj hstep
    have hne : id ≠ id' := fun heq => hsubject (by rw [heq]; rfl)
    exact ⟨Watcher.record?_add_of_ne hne, rfl⟩
  | settle i action answer =>
    obtain ⟨c, -, rfl⟩ := Option.map_eq_some_iff.mp hstep
    exact ⟨rfl, rfl⟩
  | exit i outcome answer =>
    obtain ⟨c, hc, rfl⟩ := Option.map_eq_some_iff.mp hstep
    have hne : id ≠ c.id := fun heq => hsubject (by rw [subject?, hc, heq]; rfl)
    exact ⟨Attempt.record?_exit_of_ne hne, streak_cons.trans (if_neg hne.symm)⟩

/-- The counts of a watcher are those of the attempts that were handed back. -/
structure Exact (n : UInt32) (s : Books) : Prop where
  attempts : ∀ id, ¬ s.Busy id → (s.watcher.attempts id).toNat = s.streak id
  tracked : (∀ id, ¬ s.Busy id) →
    ∃ ids : List String, ids.Nodup ∧ (∀ id, id ∈ ids ↔ s.streak id ≠ 0) ∧
      s.watcher.tracked = ids.length
  /-- A failure is rejected once the message was handed back as often as the limit says, the attempt
  that ends not counted. -/
  failure : ∀ i c type s', s.course? i = some c →
    s.step (.exit i (.failure type) (.ok ())) = some s' →
    ∃ closing verdict, s'.closings = closing :: s.closings ∧ closing.id = c.id ∧
      closing.result = .ok (some verdict) ∧ closing.after.settlement = some verdict ∧
      verdict = if n.toNat ≤ s.streak c.id then .reject else .nack
  apart : ∀ ev s' id, s.step ev = some s' → s.subject? ev ≠ some id →
    s'.watcher.attempts id = s.watcher.attempts id ∧ s'.streak id = s.streak id

/-- However attempts at different messages overlap, a watcher counts for each message the attempts
that were handed back since it was last done with. -/
theorem Orderly.exact (h : Orderly n s) (hbound : ∀ id, s.streak id < 2 ^ 32 - 1) :
    Exact n s := by
  have hcounted := h.counted
  have hsize : ∀ id, s.streak id + 1 < UInt32.size := fun id => Nat.add_lt_of_lt_sub (hbound id)
  refine { attempts := ?_, tracked := ?_, failure := ?_, apart := ?_ }
  · intro id hidle
    rw [Watcher.attempts_eq, hcounted.idle id hidle]
    split
    · rename_i hzero
      exact hzero.symm
    · exact UInt32.toNat_ofNat_of_lt' (Nat.lt_of_succ_lt (hsize id))
  · intro hidle
    refine ⟨s.watcher.ids, hcounted.tidy.nodup_ids, fun id => ?_, Watcher.tracked_eq _⟩
    rw [Watcher.mem_ids_iff, hcounted.idle id (hidle id)]
    simp
  · intro i c type s' hc hstep
    obtain ⟨hcourse, hopen⟩ := course?_eq_some hc
    have hfresh := hcounted.fresh c (List.mem_of_getElem? hcourse) hopen
    have hbusy : s.Busy c.id := ⟨c, List.mem_of_getElem? hcourse, rfl, hopen⟩
    -- the attempt that ends is on record beside those that were handed back
    have hexhausted : s.watcher.isExhausted c.id = decide (n.toNat ≤ s.streak c.id) := by
      rw [Watcher.isExhausted_eq hcounted.limit, hcounted.busy c.id hbusy, Option.getD_some]
      refine decide_eq_decide.mpr ?_
      rw [UInt32.lt_iff_toNat_lt, UInt32.toNat_ofNat_of_lt' (hsize c.id), Nat.lt_succ_iff]
    simp only [Books.step, hc, Option.map_some, Option.some.injEq, hfresh,
      Attempt.exit_accepted] at hstep
    subst hstep
    refine ⟨_, _, rfl, rfl, rfl, rfl, ?_⟩
    rw [hexhausted]
    simp
  · intro ev s' id hstep hsubject
    obtain ⟨hrecord, hstreak⟩ := record?_step hstep hsubject
    exact ⟨by rw [Watcher.attempts_eq, Watcher.attempts_eq, hrecord], hstreak⟩

/-- Two messages at a time, of which one is handed back and tried again. -/
def overlapping : Books where
  watcher := .counting 1 [("m-1", 2)]
  courses := [⟨"m-1", ⟨some .nack, true, true⟩, true⟩, ⟨"m-2", ⟨some .ack, true, true⟩, true⟩,
    ⟨"m-1", ⟨none, true, true⟩, false⟩]
  closings :=
    [⟨"m-2", .ok (some .ack), ⟨none, true, true⟩, ⟨some .ack, true, true⟩⟩,
      ⟨"m-1", .ok (some .nack), ⟨none, true, true⟩, ⟨some .nack, true, true⟩⟩]

theorem overlapping_orderly : Orderly 1 overlapping := by
  have h₁ := @Orderly.step _ _ _ (.enter "m-1" (.ofBackend true)) (.start (n := 1))
    ⟨by decide, rfl⟩ rfl
  have h₂ := @Orderly.step _ _ _ (.enter "m-2" (.ofBackend true)) h₁ ⟨by decide, rfl⟩ rfl
  have h₃ := @Orderly.step _ _ _ (.exit 0 (.failure .transient) (.ok ())) h₂ rfl rfl
  have h₄ := @Orderly.step _ _ _ (.exit 1 .ack (.ok ())) h₃ rfl rfl
  exact @Orderly.step _ _ _ (.enter "m-1" (.ofBackend true)) h₄ ⟨by decide, rfl⟩ rfl

/-- The message that is tried again is rejected if it fails once more. -/
theorem exact_overlapping : Exact 1 overlapping := by
  refine overlapping_orderly.exact ?_
  intro id
  have hle : overlapping.streak id ≤ overlapping.closings.length :=
    Nat.le_trans (List.takeWhile_sublist _).length_le (List.length_filter_le ..)
  exact Nat.lt_of_le_of_lt hle (by decide)

end Books
end MessageDispatch
