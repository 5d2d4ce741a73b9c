import MessageDispatch.ReplyTable

/-! Requesters and the inbox at one reply table, in any order of what they do. A registration is in
the table until something clears its correlation id, and once it is out it never comes back. Letting
go of a registration clears the correlation id too, whoever is registered under it by then. -/
namespace MessageDispatch
namespace ReplyTable

/-! ## What each operation does to the registrations -/

theorem mem_cancel {t : ReplyTable} {id : String} {p : String × Nat} :
    p ∈ (t.cancel id).pending ↔ p ∈ t.pending ∧ id ≠ p.1 := by
  simp only [cancel, List.mem_filter, bne_iff_ne]
  exact and_congr_right fun _ => ne_comm

theorem mem_drop {t : ReplyTable} {id : String} {handle : Nat} {p : String × Nat} :
    p ∈ (t.drop id handle).pending ↔ p ∈ t.pending ∧ id ≠ p.1 :=
  mem_cancel

theorem ne_of_lookup_none {id : String} {entries : List (String × Nat)}
    (h : entries.lookup id = none) {p : String × Nat} (hp : p ∈ entries) : id ≠ p.1 := by
  have hb := List.lookup_eq_none_iff.mp h p hp
  simpa using hb

theorem mem_resolve {t : ReplyTable} {id : String} {reply : Decoded} {p : String × Nat} :
    p ∈ (t.resolve id reply).2.pending ↔ p ∈ t.pending ∧ id ≠ p.1 := by
  unfold resolve
  split
  · exact mem_cancel
  · rename_i hnone
    exact ⟨fun hp => ⟨hp, ne_of_lookup_none hnone hp⟩, fun hp => hp.1⟩

/-- What registering comes to: a refusal, or an entry with the next handle. -/
theorem register_cases (t : ReplyTable) (id : String) :
    t.register id = (none, t) ∨
      (∀ p ∈ t.pending, id ≠ p.1) ∧
        t.register id = (some t.handles,
          { t with pending := (id, t.handles) :: t.pending, handles := t.handles + 1 }) := by
  unfold register
  split
  · exact .inl rfl
  · rename_i hnone
    exact .inr ⟨fun p hp => ne_of_lookup_none hnone hp, rfl⟩

/-- What resolving comes to: nobody waits, or the entry for the correlation id goes. -/
theorem resolve_cases (t : ReplyTable) (id : String) (reply : Decoded) :
    (t.pending.lookup id = none ∧ t.resolve id reply = (false, t)) ∨
      ∃ handle, t.pending.lookup id = some handle ∧
        t.resolve id reply =
          (true, { t.cancel id with answered := (handle, reply) :: t.answered }) := by
  cases h : t.pending.lookup id with
  | none => exact .inl ⟨rfl, by simp only [resolve, h]⟩
  | some handle => exact .inr ⟨handle, rfl, by simp only [resolve, h]⟩

theorem lookup_of_mem {entries : List (String × Nat)} (hids : entries.Pairwise (·.1 ≠ ·.1))
    {p : String × Nat} (hp : p ∈ entries) : entries.lookup p.1 = some p.2 := by
  induction entries with
  | nil => simp at hp
  | cons e rest ih =>
    obtain ⟨hhead, htail⟩ := List.pairwise_cons.mp hids
    rw [List.lookup_cons]
    rcases List.mem_cons.mp hp with rfl | hrest
    · simp
    · have hb : (p.1 == e.1) = false := by simpa using (hhead p hrest).symm
      rw [hb]
      exact ih htail hrest

/-- With one entry for each correlation id, a reply reaches the entry for its own. -/
theorem resolve_of_mem {t : ReplyTable} (hids : t.pending.Pairwise (·.1 ≠ ·.1))
    {p : String × Nat} (hp : p ∈ t.pending) (reply : Decoded) :
    (t.resolve p.1 reply).1 = true ∧
      (t.resolve p.1 reply).2.status p.2 = .answered reply := by
  unfold resolve
  rw [lookup_of_mem hids hp]
  exact ⟨rfl, by simp [status]⟩

/-! ## Any order of events -/

/-- What a requester or the inbox does. -/
inductive Event where
  | register (id : String)
  | resolve (id : String) (reply : Decoded)
  | cancel (id : String)
  /-- A requester lets go of the registration that it got this handle for. -/
  | drop (id : String) (handle : Nat)

/-- Does it take out whatever is registered under `id`? -/
def Event.Clears (id : String) : Event → Prop
  | .register _ => False
  | .resolve other _ => other = id
  | .cancel other => other = id
  | .drop other _ => other = id

/-- Neither a reply nor a cancellation for this registration, nor its own requester letting go. -/
def Event.Spares (p : String × Nat) : Event → Prop
  | .register _ => True
  | .resolve id _ => id ≠ p.1
  | .cancel id => id ≠ p.1
  | .drop id handle => (id, handle) ≠ p

instance (p : String × Nat) : DecidablePred (Event.Spares p)
  | .register _ => inferInstanceAs (Decidable True)
  | .resolve .. => inferInstanceAs (Decidable (_ ≠ _))
  | .cancel _ => inferInstanceAs (Decidable (_ ≠ _))
  | .drop .. => inferInstanceAs (Decidable (_ ≠ _))

/-- The table, and the registrations that their requesters have not let go of. -/
structure Shared where
  table : ReplyTable
  held : List (String × Nat)

namespace Shared

def start : Shared := ⟨.empty, []⟩

def step (s : Shared) : Event → Option Shared
  | .register id =>
    match s.table.register id with
    | (some handle, table) => some ⟨table, (id, handle) :: s.held⟩
    | (none, table) => some { s with table }
  | .resolve id reply => some { s with table := (s.table.resolve id reply).2 }
  | .cancel id => some { s with table := s.table.cancel id }
  | .drop id handle =>
    if (id, handle) ∈ s.held then
      some ⟨s.table.drop id handle, s.held.erase (id, handle)⟩
    else none

def run (s : Shared) : List Event → Option Shared
  | [] => some s
  | ev :: rest => (s.step ev).bind (·.run rest)

def Reachable (s : Shared) : Prop :=
  ∃ evs, start.run evs = some s

structure Valid (s : Shared) : Prop where
  held_of_pending : ∀ p ∈ s.table.pending, p ∈ s.held
  lt_handles : ∀ p ∈ s.held, p.2 < s.table.handles
  ids_distinct : s.table.pending.Pairwise (·.1 ≠ ·.1)
  handles_distinct : s.held.Pairwise (·.2 ≠ ·.2)

variable {s s' : Shared} {ev : Event} {evs : List Event} {p : String × Nat}

/-! ## What a step keeps -/

theorem handles_le_step (hstep : s.step ev = some s') : s.table.handles ≤ s'.table.handles := by
  cases ev with
  | register id =>
    rcases register_cases s.table id with hr | ⟨-, hr⟩ <;>
      simp only [step, hr, Option.some.injEq] at hstep <;> subst hstep
    · exact Nat.le_refl _
    · exact Nat.le_succ _
  | resolve id reply =>
    obtain rfl := Option.some.inj hstep
    show s.table.handles ≤ (s.table.resolve id reply).2.handles
    unfold resolve
    split <;> exact Nat.le_refl _
  | cancel id =>
    obtain rfl := Option.some.inj hstep
    exact Nat.le_refl _
  | drop id handle =>
    simp only [step, Option.ite_none_right_eq_some, Option.some.injEq] at hstep
    obtain ⟨-, rfl⟩ := hstep
    exact Nat.le_refl _

/-- A registration that has been made stays exactly as long as its correlation id is not cleared. -/
theorem mem_step (hstep : s.step ev = some s') (hp : p.2 < s.table.handles) :
    p ∈ s'.table.pending ↔ p ∈ s.table.pending ∧ ¬ ev.Clears p.1 := by
  cases ev with
  | register id =>
    rcases register_cases s.table id with hr | ⟨-, hr⟩ <;>
      simp only [step, hr, Option.some.injEq] at hstep <;> subst hstep
    · simp [Event.Clears]
    · -- nobody has had the handle of the new registration before
      have hne : p ≠ (id, s.table.handles) := by
        intro heq
        rw [heq] at hp
        exact absurd hp (Nat.lt_irrefl _)
      simp [Event.Clears, hne]
  | resolve id reply =>
    obtain rfl := Option.some.inj hstep
    exact mem_resolve
  | cancel id =>
    obtain rfl := Option.some.inj hstep
    exact mem_cancel
  | drop id handle =>
    simp only [step, Option.ite_none_right_eq_some, Option.some.injEq] at hstep
    obtain ⟨-, rfl⟩ := hstep
    exact mem_drop

theorem pending_filter_pairwise {R : String × Nat → String × Nat → Prop} {t : ReplyTable}
    (h : t.pending.Pairwise R) (id : String) : (t.cancel id).pending.Pairwise R :=
  h.filter _

theorem Valid.step (hv : s.Valid) (hstep : s.step ev = some s') : s'.Valid := by
  cases ev with
  | register id =>
    rcases register_cases s.table id with hr | ⟨hnew, hr⟩ <;>
      simp only [Shared.step, hr, Option.some.injEq] at hstep <;> subst hstep
    · exact hv
    · refine ⟨?_, ?_, ?_, ?_⟩
      · intro p hp
        rcases List.mem_cons.mp hp with rfl | hp
        · exact List.mem_cons_self
        · exact List.mem_cons_of_mem _ (hv.held_of_pending p hp)
      · intro p hp
        rcases List.mem_cons.mp hp with rfl | hp
        · exact Nat.lt_succ_self _
        · exact Nat.lt_succ_of_lt (hv.lt_handles p hp)
      · exact List.pairwise_cons.mpr ⟨hnew, hv.ids_distinct⟩
      · refine List.pairwise_cons.mpr ⟨?_, hv.handles_distinct⟩
        intro p hp
        have hlt := hv.lt_handles p hp
        show s.table.handles ≠ p.2
        omega
  | resolve id reply =>
    have hle := handles_le_step hstep
    obtain rfl := Option.some.inj hstep
    refine ⟨?_, ?_, ?_, hv.handles_distinct⟩
    · intro p hp
      exact hv.held_of_pending p (mem_resolve.mp hp).1
    · intro p hp
      exact Nat.lt_of_lt_of_le (hv.lt_handles p hp) hle
    · show (s.table.resolve id reply).2.pending.Pairwise _
      unfold resolve
      split
      · exact pending_filter_pairwise hv.ids_distinct id
      · exact hv.ids_distinct
  | cancel id =>
    obtain rfl := Option.some.inj hstep
    refine ⟨?_, hv.lt_handles, pending_filter_pairwise hv.ids_distinct id, hv.handles_distinct⟩
    intro p hp
    exact hv.held_of_pending p (mem_cancel.mp hp).1
  | drop id handle =>
    simp only [Shared.step, Option.ite_none_right_eq_some, Option.some.injEq] at hstep
    obtain ⟨-, rfl⟩ := hstep
    refine ⟨?_, ?_, pending_filter_pairwise hv.ids_distinct id,
      hv.handles_distinct.sublist List.erase_sublist⟩
    · -- what is let go of is out of the table by then, so the rest is still held
      intro p hp
      obtain ⟨hp, hid⟩ := mem_drop.mp hp
      have hne : p ≠ (id, handle) := fun heq => hid (by rw [heq])
      exact (List.mem_erase_of_ne hne).mpr (hv.held_of_pending p hp)
    · intro p hp
      exact hv.lt_handles p (List.mem_of_mem_erase hp)

/-! ## What a run keeps -/

theorem run_cons (hrun : s.run (ev :: evs) = some s') :
    ∃ s₁, s.step ev = some s₁ ∧ s₁.run evs = some s' :=
  Option.bind_eq_some_iff.mp hrun

theorem Valid.run (hv : s.Valid) (hrun : s.run evs = some s') : s'.Valid := by
  induction evs generalizing s with
  | nil =>
    obtain rfl := Option.some.inj hrun
    exact hv
  | cons ev rest ih =>
    obtain ⟨s₁, hstep, hrest⟩ := run_cons hrun
    exact ih (hv.step hstep) hrest

theorem Valid.start : start.Valid :=
  ⟨by simp [Shared.start, empty], by simp [Shared.start], List.Pairwise.nil, List.Pairwise.nil⟩

theorem Reachable.valid (h : s.Reachable) : s.Valid := by
  obtain ⟨evs, hrun⟩ := h
  exact Valid.start.run hrun

/-- Once it is out of the table, a registration never comes back. -/
theorem mem_run (hrun : s.run evs = some s') (hp : p.2 < s.table.handles) :
    p ∈ s'.table.pending ↔ p ∈ s.table.pending ∧ ∀ ev ∈ evs, ¬ ev.Clears p.1 := by
  induction evs generalizing s with
  | nil =>
    obtain rfl := Option.some.inj hrun
    simp
  | cons ev rest ih =>
    obtain ⟨s₁, hstep, hrest⟩ := run_cons hrun
    have hp₁ : p.2 < s₁.table.handles := Nat.lt_of_lt_of_le hp (handles_le_step hstep)
    rw [ih hrest hp₁, mem_step hstep hp, List.forall_mem_cons, and_assoc]

/-! ## Who is reached -/

/-- A reply to this registration finds it and gets to its requester. -/
def Reaches (s : Shared) (p : String × Nat) : Prop :=
  p ∈ s.table.pending ∧ ∀ reply, (s.table.resolve p.1 reply).1 = true ∧
    (s.table.resolve p.1 reply).2.status p.2 = .answered reply

theorem Valid.reaches_iff (hv : s.Valid) : s.Reaches p ↔ p ∈ s.table.pending :=
  ⟨fun h => h.1, fun h => ⟨h, resolve_of_mem hv.ids_distinct h⟩⟩

/-- What still clears the correlation id of a registration is another requester, letting go of a
registration under the same one. -/
theorem clears_iff_of_spares (h : ev.Spares p) :
    ev.Clears p.1 ↔ ∃ handle, ev = .drop p.1 handle := by
  cases ev with
  | drop id handle => simp [Event.Clears]
  | _ => simp_all [Event.Clears, Event.Spares]

/-- A registration that is spared stays in the table, where a reply still reaches it, exactly as
long as no requester lets go of an older registration under its correlation id. -/
theorem reaches_run_iff (hs : s.Reachable) (hp : p ∈ s.table.pending)
    (hrun : s.run evs = some s') (hspared : ∀ ev ∈ evs, ev.Spares p) :
    s'.Reaches p ↔ ∀ handle, .drop p.1 handle ∉ evs := by
  have hlt := hs.valid.lt_handles p (hs.valid.held_of_pending p hp)
  rw [(hs.valid.run hrun).reaches_iff, mem_run hrun hlt, and_iff_right hp]
  constructor
  · intro h handle hmem
    exact h _ hmem rfl
  · intro h ev hev hclears
    obtain ⟨handle, rfl⟩ := (clears_iff_of_spares (hspared ev hev)).mp hclears
    exact h handle hev

/-- Two requests under one correlation id, the first of which was answered but is still held. -/
def overlapping : Shared where
  table := { pending := [("c", 1)], answered := [(0, .empty)], handles := 2 }
  held := [("c", 1), ("c", 0)]

theorem overlapping_reachable : overlapping.Reachable :=
  ⟨[.register "c", .resolve "c" .empty, .register "c"], rfl⟩

theorem overlapping_reaches :
    Reaches ⟨⟨[("c", 1)], [(2, .text "late"), (0, .empty)], 3⟩,
      [("d", 2), ("c", 1), ("c", 0)]⟩ ("c", 1) := by
  have hrun : overlapping.run [.register "d", .resolve "d" (.text "late"), .register "c"] =
      some ⟨⟨[("c", 1)], [(2, .text "late"), (0, .empty)], 3⟩,
        [("d", 2), ("c", 1), ("c", 0)]⟩ := rfl
  exact (reaches_run_iff overlapping_reachable (by decide) hrun (by decide)).mpr (by simp)

/-- The first requester lets go, and the second one is out of the table. -/
theorem not_forall_stays :
    ¬ ∀ (s s' : Shared) (p : String × Nat) (evs : List Event), s.Reachable →
      p ∈ s.table.pending → s.run evs = some s' → (∀ ev ∈ evs, ev.Spares p) →
        p ∈ s'.table.pending := by
  intro h
  have hstays := h overlapping ⟨⟨[], [], 2⟩, [("c", 1)]⟩ ("c", 1) [.drop "c" 0]
    overlapping_reachable (by decide) rfl (by decide)
  exact absurd hstays (by decide)

end Shared
end ReplyTable
end MessageDispatch
