import MessageDispatch.Dispatcher

/-! What a dispatcher does with the messages it receives. Each of them is given to a task once, in
the order in which they came; there are never more tasks than workers, and with one worker they
complete in that order as well. -/
namespace MessageDispatch.Dispatcher

variable {μ : Type}

/-- The message that an event brings. -/
def Event.message? : Event μ → Option μ
  | .received m => some m
  | _ => none

/-- The task that an event completes. -/
def Event.task? : Event μ → Option Nat
  | .completed task => some task
  | _ => none

/-- Does the event neither bring a message nor complete a task? -/
def Event.Bare (event : Event μ) : Prop := event.message? = none ∧ event.task? = none

/-- The task that an effect starts, and its message. -/
def Effect.start? : Effect μ → Option (Nat × μ)
  | .start task m => some (task, m)
  | _ => none

def starts (effects : List (Effect μ)) : List (Nat × μ) := effects.filterMap Effect.start?

/-- May as many tasks be in flight? -/
def Workers.Admits : Workers → Nat → Prop
  | .one, k => k ≤ 1
  | .bounded n, k => k ≤ n
  | .unbounded, _ => True

theorem Workers.Admits.mono {workers : Workers} {j k : Nat} (h : workers.Admits k) (hjk : j ≤ k) :
    workers.Admits j := by
  cases workers with
  | one | bounded n => exact Nat.le_trans hjk h
  | unbounded => trivial

theorem Workers.ofMax_some (max : Nat) :
    ofMax (some max) = if max ≤ 1 then .one else .bounded max := rfl

theorem Workers.admits_ofMax {max k : Nat} (h : (ofMax (some max)).Admits k) :
    k ≤ Nat.max max 1 := by
  rw [ofMax_some] at h
  split at h
  · exact Nat.le_trans h (Nat.le_max_right ..)
  · exact Nat.le_trans h (Nat.le_max_left ..)

namespace State

/-- The message that waits for a worker. -/
def held (s : State μ) : List μ :=
  match s.phase with
  | .holding m => [m]
  | _ => []

/-! ## What a step can do -/

/-- What an event comes to: the dispatcher goes from one part of its loop to another, gives a
message to a worker, holds one, or lets a task go. -/
inductive Steps (s : State μ) : Event μ → State μ → List (Effect μ) → Prop where
  | moved {event : Event μ} {phase : Phase μ} {lost : Bool} {effects : List (Effect μ)}
      (hmessage : event.message? = none) (htask : event.task? = none)
      (hstarts : starts effects = []) (hbefore : s.held = [])
      (hafter : (s.goto phase).held = []) :
      Steps s event { s with phase := phase, lost := lost } effects
  | started {event : Event μ} {m : μ} {lost : Bool} {effects : List (Effect μ)}
      (htask : event.task? = none) (hfree : s.hasWorker = true)
      (hmessage : s.held ++ event.message?.toList = [m])
      (hstarts : starts effects = [(s.started, m)]) :
      Steps s event { (s.start m s.afterStart).1 with lost := lost } effects
  | held {m : μ} {effects : List (Effect μ)} (hbefore : s.held = []) (hstarts : starts effects = [])
      (hbusy : s.hasWorker = false) :
      Steps s (.received m) { s with phase := .holding m, lost := false } effects
  | completed {task : Nat} (hmem : task ∈ s.inFlight) (hunfinished : s.isFinished = false) :
      Steps s (.completed task) (s.complete task) []

theorem steps_lose {s : State μ} {event : Event μ} (hmessage : event.message? = none)
    (htask : event.task? = none) (hbefore : s.held = []) : s.Steps event s.lose.1 s.lose.2 := by
  have hlog : starts (if s.lost then [] else [(.log lostLine : Effect μ)]) = [] := by
    cases s.lost <;> rfl
  exact .moved hmessage htask hlog hbefore rfl

theorem steps_receive {s : State μ} (hbefore : s.held = []) (m : μ) :
    s.Steps (.received m) (s.receive m).1 (s.receive m).2 := by
  let t : State μ := { s with lost := false }
  have hassigned : ∀ effects : List (Effect μ),
      starts ((if s.lost then [.log restoredLine] else []) ++ effects) = starts effects := by
    intro effects
    rw [starts, List.filterMap_append]
    cases s.lost <;> rfl
  show s.Steps (.received m) (t.assign m).1
    ((if s.lost then [.log restoredLine] else []) ++ (t.assign m).2)
  have hworker : t.hasWorker = s.hasWorker := rfl
  cases hfree : s.hasWorker with
  | true =>
    rw [assign, hworker, hfree, if_pos rfl]
    refine .started rfl hfree ?_ (hassigned _)
    rw [hbefore]
    rfl
  | false =>
    rw [assign, hworker, hfree, if_neg Bool.false_ne_true]
    exact .held hbefore (hassigned _) hfree

theorem isFinished_of_mem {s : State μ} {task : Nat} (h : task ∈ s.inFlight) :
    s.isFinished = false := by
  unfold isFinished
  split
  · exact List.isEmpty_eq_false_iff.mpr (List.ne_nil_of_mem h)
  · rfl

theorem steps_of_step {s s' : State μ} {event : Event μ} {effects : List (Effect μ)}
    (h : s.step event = some (s', effects)) : s.Steps event s' effects := by
  -- a task can come to its end in every phase, and it is the same in all of them
  have hcompleted : ∀ task, event = .completed task →
      (if s.inFlight.contains task then some (s.complete task, []) else none) =
        some (s', effects) → s.Steps event s' effects := by
    rintro task rfl h
    obtain ⟨hmem, h⟩ := Option.ite_none_right_eq_some.mp h
    obtain ⟨rfl, rfl⟩ := Prod.mk.inj (Option.some.inj h)
    have hmem : task ∈ s.inFlight := by simpa using hmem
    exact .completed hmem (isFinished_of_mem hmem)
  cases hphase : s.phase with
  | subscribing =>
    have hheld : s.held = [] := by simp only [held, hphase]
    cases event with
    | shutdown | closed | subscribed =>
      simp only [step, hphase, Option.some.injEq, Prod.mk.injEq] at h
      obtain ⟨rfl, rfl⟩ := h
      exact .moved rfl rfl rfl hheld rfl
    | subscribeFailed =>
      simp only [step, hphase, Option.some.injEq] at h
      obtain ⟨rfl, rfl⟩ := Prod.mk.inj h
      exact steps_lose rfl rfl hheld
    | completed task => exact hcompleted task rfl (by simpa only [step, hphase] using h)
    | _ => simp [step, hphase] at h
  | receiving =>
    have hheld : s.held = [] := by simp only [held, hphase]
    cases event with
    | shutdown | closed | ended =>
      simp only [step, hphase, Option.some.injEq, Prod.mk.injEq] at h
      obtain ⟨rfl, rfl⟩ := h
      exact .moved rfl rfl rfl hheld rfl
    | receiveFailed =>
      simp only [step, hphase, Option.some.injEq] at h
      obtain ⟨rfl, rfl⟩ := Prod.mk.inj h
      exact steps_lose rfl rfl hheld
    | received m =>
      simp only [step, hphase, Option.some.injEq] at h
      obtain ⟨rfl, rfl⟩ := Prod.mk.inj h
      exact steps_receive hheld m
    | completed task => exact hcompleted task rfl (by simpa only [step, hphase] using h)
    | _ => simp [step, hphase] at h
  | pausing =>
    have hheld : s.held = [] := by simp only [held, hphase]
    cases event with
    | shutdown | closed | resumed =>
      simp only [step, hphase, Option.some.injEq, Prod.mk.injEq] at h
      obtain ⟨rfl, rfl⟩ := h
      exact .moved rfl rfl rfl hheld rfl
    | completed task => exact hcompleted task rfl (by simpa only [step, hphase] using h)
    | _ => simp [step, hphase] at h
  | holding m =>
    cases event with
    | workerFree =>
      simp only [step, hphase] at h
      obtain ⟨hfree, h⟩ := Option.ite_none_right_eq_some.mp h
      obtain ⟨rfl, rfl⟩ := Prod.mk.inj (Option.some.inj h)
      exact .started rfl hfree (by simp only [held, hphase]; rfl) rfl
    | completed task => exact hcompleted task rfl (by simpa only [step, hphase] using h)
    | _ => simp [step, hphase] at h
  | working | left =>
    cases event with
    | completed task => exact hcompleted task rfl (by simpa only [step, hphase] using h)
    | _ => simp [step, hphase] at h

/-- Nothing happens any more to a dispatcher that has come to its end. -/
theorem step_of_isFinished {s : State μ} (h : s.isFinished = true) (event : Event μ) :
    s.step event = none := by
  unfold isFinished at h
  split at h
  · rename_i hphase
    have hnone : s.inFlight = [] := List.isEmpty_iff.mp h
    cases event <;> simp [step, hphase, hnone]
  · cases h

theorem complete_keeps (s : State μ) (task : Nat) :
    (s.complete task).workers = s.workers ∧ (s.complete task).started = s.started ∧
      (s.complete task).inFlight = s.inFlight.erase task := by
  unfold complete
  cases s.phase <;> simp [goto]

theorem workers_of_step {s s' : State μ} {event : Event μ} {effects : List (Effect μ)}
    (h : s.step event = some (s', effects)) : s'.workers = s.workers := by
  cases steps_of_step h with
  | moved | started | held => rfl
  | completed => exact (complete_keeps s _).1

theorem starts_of_completed {s s' : State μ} {task : Nat} {effects : List (Effect μ)}
    (h : s.step (.completed task) = some (s', effects)) : starts effects = [] := by
  cases steps_of_step h with
  | moved _ htask => cases htask
  | started htask => cases htask
  | completed => rfl

theorem held_complete (s : State μ) (task : Nat) : (s.complete task).held = s.held := by
  unfold complete
  cases hphase : s.phase <;> simp [held, goto, hphase]

theorem held_afterStart (s : State μ) (m : μ) (lost : Bool) :
    State.held { (s.start m s.afterStart).1 with lost := lost } = [] := by
  cases hworkers : s.workers <;> simp [held, start, afterStart, hworkers]

theorem admits_start {s : State μ} (h : s.hasWorker = true) :
    s.workers.Admits (s.inFlight.length + 1) := by
  unfold hasWorker at h
  cases hworkers : s.workers with
  | one =>
    rw [hworkers] at h
    simp [Workers.Admits, List.isEmpty_iff.mp h]
  | bounded n =>
    simp only [hworkers, decide_eq_true_eq] at h
    exact h
  | unbounded => trivial

/-! ## The account of a dispatcher -/

/-- The messages that were received, the tasks that were begun for them, and those of the tasks
that have completed. -/
structure Ledger (received : List μ) (begun : List (Nat × μ)) (completed : List Nat)
    (s : State μ) : Prop where
  once : begun.map (·.2) ++ s.held = received
  numbered : begun.map (·.1) = List.range s.started
  accounted : (completed ++ s.inFlight).Perm (List.range s.started)
  admitted : s.workers.Admits s.inFlight.length
  inOrder : s.workers = .one → completed ++ s.inFlight = List.range s.started

variable {received : List μ} {begun : List (Nat × μ)} {completed : List Nat} {s s' : State μ}

theorem ledger_new (workers : Workers) : Ledger [] [] [] (.new workers : State μ) where
  once := rfl
  numbered := rfl
  accounted := .refl _
  admitted := by cases workers <;> simp [new, Workers.Admits]
  inOrder := fun _ => rfl

theorem Ledger.length_begun (h : Ledger received begun completed s) :
    begun.length = s.started := by
  rw [← List.length_map (f := (·.1)), h.numbered, List.length_range]

theorem Ledger.start {m : μ} {lost : Bool} {more : List μ}
    (h : Ledger received begun completed s) (hfree : s.hasWorker = true)
    (hmessage : s.held ++ more = [m]) :
    Ledger (received ++ more) (begun ++ [(s.started, m)]) completed
      { (s.start m s.afterStart).1 with lost := lost } where
  once := by
    rw [held_afterStart, List.append_nil, List.map_append, ← h.once, List.append_assoc, hmessage]
    rfl
  numbered := by
    rw [List.map_append, h.numbered]
    exact List.range_succ.symm
  accounted := by
    show (completed ++ (s.inFlight ++ [s.started])).Perm (List.range (s.started + 1))
    rw [← List.append_assoc, List.range_succ]
    exact h.accounted.append_right _
  admitted := by
    show s.workers.Admits (s.inFlight ++ [s.started]).length
    rw [List.length_append]
    exact admits_start hfree
  inOrder := by
    intro hone
    show completed ++ (s.inFlight ++ [s.started]) = List.range (s.started + 1)
    rw [← List.append_assoc, List.range_succ, h.inOrder hone]

theorem Ledger.complete {task : Nat} (h : Ledger received begun completed s)
    (hmem : task ∈ s.inFlight) :
    Ledger received begun (completed ++ [task]) (s.complete task) := by
  obtain ⟨hworkers, hstarted, hinFlight⟩ := complete_keeps s task
  refine ⟨?_, ?_, ?_, ?_, ?_⟩
  · rw [held_complete, h.once]
  · rw [hstarted, h.numbered]
  · rw [hstarted, hinFlight, List.append_assoc]
    exact ((List.perm_cons_erase hmem).symm.append_left _).trans h.accounted
  · rw [hworkers, hinFlight]
    exact h.admitted.mono List.length_erase_le
  · intro hone
    rw [hworkers] at hone
    have honly : s.inFlight = [task] := by
      have hlength : s.inFlight.length ≤ 1 := by
        have hadmitted := h.admitted
        rwa [hone] at hadmitted
      obtain ⟨other, hother⟩ :=
        List.length_eq_one_iff.mp (Nat.le_antisymm hlength (List.length_pos_of_mem hmem))
      rw [hother] at hmem ⊢
      rw [List.mem_singleton.mp hmem]
    rw [hstarted, hinFlight, ← h.inOrder hone, honly, List.erase_cons_head, List.append_nil]

/-- An event is entered with what it brings, and a task with its start and its completion. -/
theorem Ledger.step {event : Event μ} {effects : List (Effect μ)}
    (h : Ledger received begun completed s) (hstep : s.step event = some (s', effects)) :
    Ledger (received ++ event.message?.toList) (begun ++ starts effects)
      (completed ++ event.task?.toList) s' := by
  cases steps_of_step hstep with
  | moved hmessage htask hstarts hbefore hafter =>
    rw [hmessage, htask, hstarts]
    refine ⟨?_, ?_, ?_, h.admitted, ?_⟩
    · have honce := h.once
      rw [hbefore] at honce
      rw [List.append_nil, Option.toList_none, List.append_nil, ← honce]
      exact congrArg _ hafter
    · rw [List.append_nil]
      exact h.numbered
    · rw [Option.toList_none, List.append_nil]
      exact h.accounted
    · rw [Option.toList_none, List.append_nil]
      exact h.inOrder
  | started htask hfree hmessage hstarts =>
    rw [htask, hstarts, Option.toList_none, List.append_nil]
    exact h.start hfree hmessage
  | @held m effects hbefore hstarts hbusy =>
    rw [hstarts, List.append_nil]
    refine ⟨?_, h.numbered, ?_, h.admitted, ?_⟩
    · have honce := h.once
      rw [hbefore, List.append_nil] at honce
      rw [honce]
      rfl
    · exact (List.append_nil completed).symm ▸ h.accounted
    · exact (List.append_nil completed).symm ▸ h.inOrder
  | completed hmem hunfinished =>
    have hnext := h.complete hmem
    rw [← List.append_nil received, ← List.append_nil begun] at hnext
    exact hnext

/-- At the end every message was given to a task, and every task has completed. -/
theorem Ledger.finished (h : Ledger received begun completed s) (hfinished : s.isFinished = true) :
    begun.map (·.2) = received ∧ s.inFlight = [] ∧
      completed.Perm (List.range received.length) := by
  unfold isFinished at hfinished
  split at hfinished
  · rename_i hphase
    have hnone : s.inFlight = [] := List.isEmpty_iff.mp hfinished
    have hreceived : begun.map (·.2) = received := by
      have honce := h.once
      simpa only [held, hphase, List.append_nil] using honce
    refine ⟨hreceived, hnone, ?_⟩
    have hcompleted := h.accounted
    rw [hnone, List.append_nil, ← h.length_begun] at hcompleted
    rwa [← hreceived, List.length_map]
  · cases hfinished

/-- A message that is held is taken once no task is in flight. -/
theorem step_workerFree {m : μ} {max : Option Nat} (hphase : s.phase = .holding m)
    (hworkers : s.workers = .ofMax max) (hnone : s.inFlight = []) :
    (s.step .workerFree).isSome = true := by
  have hfree : s.hasWorker = true := by
    unfold hasWorker
    cases max with
    | none =>
      rw [hworkers]
      rfl
    | some n =>
      rw [hworkers, hnone, Workers.ofMax_some]
      by_cases hone : n ≤ 1
      · rw [if_pos hone]
        rfl
      · rw [if_neg hone]
        exact decide_eq_true (Nat.lt_of_succ_lt (Nat.lt_of_not_le hone))
  simp [step, hphase, hfree]

end State
end MessageDispatch.Dispatcher
