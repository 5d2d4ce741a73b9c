import MessageDispatch.Proofs.GroupSteps
import MessageDispatch.Protocol.Nats

/-! The dispatchers of a group process what they receive. Whatever else goes on, each message that a
dispatcher receives is taken into processing once, in the order of reception, by no more tasks at a
time than the subscriber has workers, and all of them have completed when the dispatcher has come to
its end. -/
namespace MessageDispatch

variable {P : Protocol} {κ α : Type}

/-- What is put down of the dispatchers of a group. -/
inductive Deed (P : Protocol) (κ : Type) where
  | received (dispatcher : Nat) (message : Nat × Message P.Route)
  | begun (t : ProcessingTask P κ)
  | completed (t : ProcessingTask P κ)

namespace Deed

/-- The messages that a dispatcher has received, with their queues. -/
def receivedBy (i : Nat) (log : List (Deed P κ)) : List (Nat × Message P.Route) :=
  log.filterMap fun
    | .received j message => if j = i then some message else none
    | _ => none

/-- The tasks that it has begun, as they were then. -/
def begunBy (i : Nat) (log : List (Deed P κ)) : List (ProcessingTask P κ) :=
  log.filterMap fun
    | .begun t => if t.receiver = i then some t else none
    | _ => none

/-- Which of its tasks have completed. -/
def completedBy (i : Nat) (log : List (Deed P κ)) : List Nat :=
  log.filterMap fun
    | .completed t => if t.receiver = i then some t.number else none
    | _ => none

variable {i : Nat} {log more : List (Deed P κ)}

theorem receivedBy_append : receivedBy i (log ++ more) = receivedBy i log ++ receivedBy i more :=
  List.filterMap_append

theorem begunBy_append : begunBy i (log ++ more) = begunBy i log ++ begunBy i more :=
  List.filterMap_append

theorem completedBy_append :
    completedBy i (log ++ more) = completedBy i log ++ completedBy i more :=
  List.filterMap_append

/-- Tasks that were begun for one dispatcher. -/
theorem begun_only {new : List (ProcessingTask P κ)} {d : Nat} (hnew : ∀ t ∈ new, t.receiver = d)
    (i : Nat) :
    receivedBy i (new.map .begun) = [] ∧ completedBy i (new.map .begun) = [] ∧
      begunBy i (new.map .begun) = if d = i then new else [] := by
  induction new with
  | nil => exact ⟨rfl, rfl, by split <;> rfl⟩
  | cons t new ih =>
    obtain ⟨ht, hnew⟩ := List.forall_mem_cons.mp hnew
    obtain ⟨hreceived, hcompleted, hbegun⟩ := ih hnew
    refine ⟨hreceived, hcompleted, ?_⟩
    rw [List.map_cons, ← List.singleton_append, begunBy_append, hbegun]
    by_cases hd : d = i <;> simp [begunBy, ht, hd]

end Deed

open Deed (receivedBy begunBy completedBy)

/-- The numbers of those of the tasks that a dispatcher has begun. -/
def ProcessingTask.numbers (i : Nat) (tasks : List (ProcessingTask P κ)) : List Nat :=
  (tasks.filter fun t => t.receiver == i).map (·.number)

namespace ProcessingTask

theorem numbers_append (i : Nat) (tasks more : List (ProcessingTask P κ)) :
    numbers i (tasks ++ more) = numbers i tasks ++ numbers i more := by
  rw [numbers, List.filter_append, List.map_append]
  rfl

theorem numbers_cons (i : Nat) (t : ProcessingTask P κ) (tasks : List (ProcessingTask P κ)) :
    numbers i (t :: tasks) = (if t.receiver = i then [t.number] else []) ++ numbers i tasks := by
  unfold numbers
  by_cases ht : t.receiver = i <;> simp [ht]

theorem perm_numbers {tasks tasks' : List (ProcessingTask P κ)} (h : tasks.Perm tasks') (i : Nat) :
    (numbers i tasks).Perm (numbers i tasks') :=
  (h.filter _).map _

/-- A task stays the task of its dispatcher while it goes on. -/
theorem perm_numbers_set {tasks : List (ProcessingTask P κ)} {j : Nat} {t t' : ProcessingTask P κ}
    (ht : tasks[j]? = some t) (hsame : t'.receiver = t.receiver ∧ t'.number = t.number) (i : Nat) :
    (numbers i (tasks.set j t')).Perm (numbers i tasks) := by
  refine (perm_numbers (perm_set_of_getElem? ht t') i).trans
    (List.Perm.trans ?_ (perm_numbers (perm_of_getElem? ht) i).symm)
  rw [numbers_cons, numbers_cons, hsame.1, hsame.2]

theorem numbers_of_receiver {new : List (ProcessingTask P κ)} {d : Nat}
    (hnew : ∀ t ∈ new, t.receiver = d) (i : Nat) :
    numbers i new = if d = i then new.map (·.number) else [] := by
  unfold numbers
  split
  · rename_i hd
    rw [List.filter_eq_self.mpr fun t ht => by simp [hnew t ht, hd]]
  · rename_i hd
    rw [List.filter_eq_nil_iff.mpr fun t ht => by simp [hnew t ht, hd], List.map_nil]

/-- A task that processes this message for a subscriber, from the start. -/
def Processes (ref : SubscriberRef) (message : Nat × Message P.Route) (t : ProcessingTask P κ) :
    Prop :=
  t.scope.subscriber = ref ∧
    ∃ (s : Subscriber P κ) (publisher : Publisher P.Route κ) (ids : FreshIds),
      t.program = s.process publisher (P.build ids message.2)

end ProcessingTask

open ProcessingTask (numbers Processes)

/-- What of a dispatcher only its own steps change. -/
def Receiver.core (r : Receiver P) : SubscriberRef × Dispatcher.State (Nat × Message P.Route) :=
  (r.subscriber, r.state)

namespace Live

variable {l l' l₀ : Live P κ α} {log : List (Deed P κ)}

/-! ## A group at work, put down in a log -/

/-- The task that is about to complete. -/
def completing? (l : Live P κ α) (j : Nat) : Option (ProcessingTask P κ) :=
  (l.tasks[j]?).bind fun t =>
    match t.program with
    | .done _ => some t
    | .call .. => none

/-- What is put down of a step that leads to another state. -/
def deeds (l : Live P κ α) (ev : LiveStep) (l' : Live P κ α) : List (Deed P κ) :=
  let begun := (l'.tasks.drop l.tasks.length).map .begun
  match ev with
  | .receive i => ((l.received? i).map (.received i)).toList ++ begun
  | .heed _ => begun
  | .task j => ((l.completing? j).map .completed).toList
  | .client _ | .elapse _ => []

/-- How a group can go on: it takes its steps, and others do what is theirs. -/
inductive Goes (others : Live P κ α → Live P κ α → Prop) (l₀ : Live P κ α) :
    List (Deed P κ) → Live P κ α → Prop where
  | start : Goes others l₀ [] l₀
  | step {log : List (Deed P κ)} {l l' : Live P κ α} {ev : LiveStep} (h : Goes others l₀ log l)
      (hstep : l.step ev = some l') : Goes others l₀ (log ++ l.deeds ev l') l'
  | others {log : List (Deed P κ)} {l l' : Live P κ α} (h : Goes others l₀ log l)
      (hothers : others l l') : Goes others l₀ log l'

/-- Others may do what they like, as long as it is not to the dispatchers and their tasks. So
anybody may use the group, the broker may do anything, subscribers may come and be closed, and the
group may be shut down at any time. -/
structure Beside (l l' : Live P κ α) : Prop where
  tasks : l'.tasks = l.tasks
  receivers : l'.receivers.map (·.core) = l.receivers.map (·.core)
  persists : l.engine.Persists l'.engine

theorem beside_addClient (l : Live P κ α) (p : Program (Calling P.Route κ) α) :
    Beside l (l.addClient p).2 :=
  ⟨rfl, rfl, .refl _⟩

theorem beside_endSubscriptions (l : Live P κ α) : Beside l l.endSubscriptions := by
  refine ⟨rfl, ?_, .refl _⟩
  rw [endSubscriptions, List.map_map]
  refine List.map_congr_left fun r _ => ?_
  show Receiver.core (if r.queue.isSome then { r with ended := true } else r) = r.core
  split <;> rfl

/-- A subscriber is closed from outside. -/
theorem beside_close (l : Live P κ α) (ref : SubscriberRef) :
    Beside l { l with engine := l.engine.updateSubscriber ref .close } :=
  ⟨rfl, rfl, Engine.persists_execProcessing .close l.engine ⟨ref, 0, none⟩⟩

/-! ## The account of each dispatcher -/

/-- What is known of a dispatcher from what was put down. -/
structure Account (log : List (Deed P κ)) (l : Live P κ α) (i : Nat) (r : Receiver P) : Prop where
  standing : ∃ workers closed, l.engine.standing? r.subscriber = some (workers, closed) ∧
    r.state.workers = .ofMax workers
  ledger : ∃ begun, r.state.Ledger (receivedBy i log) begun (completedBy i log) ∧
    List.Forall₂ (fun x (t : ProcessingTask P κ) => t.number = x.1 ∧
      Processes r.subscriber x.2 t) begun (begunBy i log)
  accounted : (completedBy i log ++ numbers i l.tasks).Perm ((begunBy i log).map (·.number))

/-- Every dispatcher keeps its account, and there is nothing of any other. -/
structure Kept (log : List (Deed P κ)) (l : Live P κ α) : Prop where
  served : ∀ i r, l.receivers[i]? = some r → Account log l i r
  known : ∀ t ∈ l.tasks, t.receiver < l.receivers.length
  silent : ∀ i, l.receivers.length ≤ i →
    receivedBy i log = [] ∧ begunBy i log = [] ∧ completedBy i log = []

theorem Kept.staffed (h : Kept log l) {i : Nat} {r : Receiver P}
    (hr : l.receivers[i]? = some r) : ∃ s, l.engine.subscriber? r.subscriber = some s := by
  obtain ⟨workers, closed, hs, -⟩ := (h.served i r hr).standing
  obtain ⟨s, hs, -⟩ := Option.map_eq_some_iff.mp hs
  exact ⟨s, hs⟩

theorem Account.numbered {i : Nat} {r : Receiver P} (h : Account log l i r) :
    (begunBy i log).map (·.number) = List.range r.state.started := by
  obtain ⟨begun, hledger, hbegun⟩ := h.ledger
  have hsame : List.Forall₂ (· = ·) ((begunBy i log).map (·.number)) (begun.map (·.1)) :=
    List.forall₂_map_left_iff.mpr (List.forall₂_map_right_iff.mpr
      (hbegun.flip.imp fun _ _ h => h.1))
  rw [List.forall₂_eq_eq_eq] at hsame
  rw [hsame, hledger.numbered]

/-- What a dispatcher has in flight are its tasks. -/
theorem Account.perm_inFlight {i : Nat} {r : Receiver P} (h : Account log l i r) :
    (numbers i l.tasks).Perm r.state.inFlight := by
  obtain ⟨begun, hledger, -⟩ := h.ledger
  exact (List.perm_append_left_iff _).mp ((h.accounted.trans (.of_eq h.numbered)).trans
    hledger.accounted.symm)

theorem Kept.inFlight (h : Kept log l) {j : Nat} {t : ProcessingTask P κ} {r : Receiver P}
    (hr : l.receivers[t.receiver]? = some r) (ht : l.tasks[j]? = some t) :
    t.number ∈ r.state.inFlight := by
  refine (h.served _ r hr).perm_inFlight.mem_iff.mp (List.mem_map.mpr ⟨t, ?_, rfl⟩)
  exact List.mem_filter.mpr ⟨List.mem_of_getElem? ht, beq_self_eq_true _⟩

theorem Account.congr {i : Nat} {r r' : Receiver P} (h : Account log l i r)
    (hsame : r'.subscriber = r.subscriber ∧ r'.state = r.state)
    (hpersists : l.engine.Persists l'.engine)
    (hnumbers : (numbers i l'.tasks).Perm (numbers i l.tasks)) : Account log l' i r' where
  standing := by
    obtain ⟨workers, closed, hs, hworkers⟩ := h.standing
    obtain ⟨closed', hs', -⟩ := hpersists _ _ _ hs
    exact ⟨workers, closed', hsame.1 ▸ hs', hsame.2 ▸ hworkers⟩
  ledger := by rw [hsame.1, hsame.2]; exact h.ledger
  accounted := (hnumbers.append_left _).trans h.accounted

/-- Nothing happens to the dispatchers and their tasks. -/
theorem Kept.congr (h : Kept log l)
    (hreceivers : l'.receivers.map (·.core) = l.receivers.map (·.core))
    (htasks : ∀ i, (numbers i l'.tasks).Perm (numbers i l.tasks))
    (hknown : ∀ t ∈ l'.tasks, ∃ t₀ ∈ l.tasks, t.receiver = t₀.receiver)
    (hpersists : l.engine.Persists l'.engine) : Kept log l' where
  served := by
    intro i r' hr'
    have hsame : (l.receivers.map (·.core))[i]? = some r'.core := by
      rw [← hreceivers, List.getElem?_map, hr', Option.map_some]
    rw [List.getElem?_map] at hsame
    obtain ⟨r, hr, hcore⟩ := Option.map_eq_some_iff.mp hsame
    obtain ⟨hsubscriber, hstate⟩ := Prod.mk.inj hcore
    exact (h.served i r hr).congr ⟨hsubscriber.symm, hstate.symm⟩ hpersists (htasks i)
  known := by
    have hlength := congrArg List.length hreceivers
    rw [List.length_map, List.length_map] at hlength
    intro t ht
    obtain ⟨t₀, ht₀, hsame⟩ := hknown t ht
    rw [hsame, hlength]
    exact h.known t₀ ht₀
  silent := by
    have hlength := congrArg List.length hreceivers
    rw [List.length_map, List.length_map] at hlength
    exact fun i hi => h.silent i (hlength ▸ hi)

/-! ## Events -/

section
variable {i : Nat} {r r' : Receiver P} {event : Dispatcher.Event (Nat × Message P.Route)}
  {tasks : List (ProcessingTask P κ)} {entries : List (Deed P κ)}

theorem Account.hears (h : Account log l i r)
    (hhears : Hears { l with tasks := tasks } l' i r r' event)
    (htasks : (event.task?.toList ++ numbers i tasks).Perm (numbers i l.tasks))
    (hreceived : receivedBy i entries = event.message?.toList)
    (hbegun : begunBy i entries = l'.tasks.drop tasks.length)
    (hcompleted : completedBy i entries = event.task?.toList) :
    Account (log ++ entries) l' i r' := by
  obtain ⟨effects, new, hstep, htasks', hnew⟩ := hhears.step
  have htasks' : l'.tasks = tasks ++ new := htasks'
  rw [htasks', List.drop_left] at hbegun
  have hmine : ∀ t ∈ new, t.receiver = i := receiver_of_begins hnew
  refine ⟨?_, ?_, ?_⟩
  · obtain ⟨workers, closed, hs, hworkers⟩ := h.standing
    obtain ⟨closed', hs', -⟩ := hhears.backdrop.persists _ _ _ hs
    exact ⟨workers, closed', hhears.subscriber ▸ hs',
      (Dispatcher.State.workers_of_step hstep).trans hworkers⟩
  · obtain ⟨begun, hledger, hbegun'⟩ := h.ledger
    refine ⟨begun ++ Dispatcher.starts effects, ?_, ?_⟩
    · rw [Deed.receivedBy_append, Deed.completedBy_append, hreceived, hcompleted]
      exact hledger.step hstep
    · rw [Deed.begunBy_append, hbegun, hhears.subscriber]
      refine List.rel_append hbegun' (hnew.imp fun x t ht => ?_)
      obtain ⟨s, ids, -, hprogram⟩ := ht.program
      exact ⟨ht.number, ht.subscriber, s, _, ids, hprogram⟩
  · rw [Deed.completedBy_append, Deed.begunBy_append, hcompleted, hbegun, htasks',
      ProcessingTask.numbers_append, ProcessingTask.numbers_of_receiver hmine, if_pos rfl,
      List.map_append, ← List.append_assoc, List.append_assoc (completedBy i log)]
    exact ((htasks.append_left _).trans h.accounted).append_right _

theorem Account.elsewhere (h : Account log l i r) (hpersists : l.engine.Persists l'.engine)
    (hnumbers : (numbers i l'.tasks).Perm (numbers i l.tasks))
    (hreceived : receivedBy i entries = []) (hbegun : begunBy i entries = [])
    (hcompleted : completedBy i entries = []) : Account (log ++ entries) l' i r := by
  obtain ⟨hstanding, hledger, haccounted⟩ := h.congr ⟨rfl, rfl⟩ hpersists hnumbers
  refine ⟨hstanding, ?_, ?_⟩
  · rwa [Deed.receivedBy_append, Deed.begunBy_append, Deed.completedBy_append, hreceived, hbegun,
      hcompleted, List.append_nil, List.append_nil, List.append_nil]
  · rwa [Deed.completedBy_append, Deed.begunBy_append, hbegun, hcompleted, List.append_nil,
      List.append_nil]

/-- A dispatcher hears an event, with the tasks that are left if it is one that completes. -/
theorem Kept.hears (h : Kept log l) (hhears : Hears { l with tasks := tasks } l' i r r' event)
    (htasks : ∀ j, ((if i = j then event.task?.toList else []) ++ numbers j tasks).Perm
      (numbers j l.tasks))
    (hleft : ∀ t ∈ tasks, t ∈ l.tasks)
    (hreceived : ∀ j, receivedBy j entries = if i = j then event.message?.toList else [])
    (hbegun : ∀ j, begunBy j entries = if i = j then l'.tasks.drop tasks.length else [])
    (hcompleted : ∀ j, completedBy j entries = if i = j then event.task?.toList else []) :
    Kept (log ++ entries) l' := by
  obtain ⟨effects, new, hstep, htasks', hnew⟩ := hhears.step
  have htasks' : l'.tasks = tasks ++ new := htasks'
  have hlength : l'.receivers.length = l.receivers.length := by
    rw [hhears.receivers, List.length_set]
  have hi : i < l.receivers.length := lt_length_of_getElem? hhears.found
  have hmine : ∀ t ∈ new, t.receiver = i := receiver_of_begins hnew
  refine ⟨fun j rj hj => ?_, fun t ht => ?_, fun j hj => ?_⟩
  · rw [hhears.receivers] at hj
    rcases (getElem?_set_iff hhears.found).mp hj with ⟨rfl, rfl⟩ | ⟨hji, hj⟩
    · have hmatch := htasks j
      have hr := hreceived j
      have hb := hbegun j
      have hc := hcompleted j
      rw [if_pos rfl] at hmatch hr hb hc
      exact (h.served j r hhears.found).hears hhears hmatch hr hb hc
    · have hij : ¬ i = j := fun hij => hji hij.symm
      have hmatch := htasks j
      rw [if_neg hij, List.nil_append] at hmatch
      refine (h.served j rj hj).elsewhere hhears.backdrop.persists ?_
        ((hreceived j).trans (if_neg hij)) ((hbegun j).trans (if_neg hij))
        ((hcompleted j).trans (if_neg hij))
      rw [htasks', ProcessingTask.numbers_append, ProcessingTask.numbers_of_receiver hmine,
        if_neg hij, List.append_nil]
      exact hmatch
  · rw [hlength]
    rcases List.mem_append.mp (htasks' ▸ ht) with ht | ht
    · exact h.known t (hleft t ht)
    · exact hmine t ht ▸ hi
  · rw [hlength] at hj
    have hij : ¬ i = j := fun hij => Nat.lt_irrefl i (Nat.lt_of_lt_of_le hi (hij ▸ hj))
    obtain ⟨hr, hb, hc⟩ := h.silent j hj
    rw [Deed.receivedBy_append, Deed.begunBy_append, Deed.completedBy_append, hreceived, hbegun,
      hcompleted, if_neg hij, if_neg hij, if_neg hij, hr, hb, hc]
    exact ⟨rfl, rfl, rfl⟩

end

/-! ## Steps -/

theorem kept_new (config : GroupConfig P.Route κ) (engine : Engine P κ) :
    Kept [] (Live.new config engine : Live P κ α) :=
  ⟨fun _ _ hr => by simp [Live.new] at hr, fun _ ht => absurd ht List.not_mem_nil,
    fun _ _ => ⟨rfl, rfl, rfl⟩⟩

theorem Kept.beside (h : Kept log l) (hbeside : Beside l l') : Kept log l' :=
  h.congr hbeside.receivers (fun _ => hbeside.tasks ▸ .refl _)
    (fun t ht => ⟨t, hbeside.tasks ▸ ht, rfl⟩) hbeside.persists

theorem Kept.enlists (h : Kept log l) (henlists : Enlists l l') : Kept log l' := by
  obtain ⟨new, hreceivers, hnew⟩ := henlists.receivers
  refine ⟨fun i r hr => ?_, fun t ht => ?_, fun i hi => ?_⟩
  · rw [hreceivers] at hr
    by_cases hi : i < l.receivers.length
    · rw [List.getElem?_append_left hi] at hr
      exact (h.served i r hr).congr ⟨rfl, rfl⟩ henlists.persists (henlists.tasks ▸ .refl _)
    · have hi : l.receivers.length ≤ i := Nat.le_of_not_lt hi
      rw [List.getElem?_append_right hi] at hr
      obtain ⟨workers, closed, hs, hstate⟩ := hnew r (List.mem_of_getElem? hr)
      obtain ⟨hreceived, hbegun, hcompleted⟩ := h.silent i hi
      have hidle : numbers i l'.tasks = [] := by
        rw [henlists.tasks]
        refine List.map_eq_nil_iff.mpr (List.filter_eq_nil_iff.mpr fun t ht heq => ?_)
        exact absurd (h.known t ht) (Nat.not_lt.mpr (eq_of_beq heq ▸ hi))
      refine ⟨⟨workers, closed, hs, by rw [hstate]; rfl⟩, ⟨[], ?_, ?_⟩, ?_⟩
      · rw [hreceived, hcompleted, hstate]
        exact Dispatcher.State.ledger_new _
      · rw [hbegun]
        exact .nil
      · rw [hcompleted, hbegun, hidle]
        exact .refl _
  · rw [hreceivers, List.length_append]
    exact Nat.lt_add_right _ (h.known t (henlists.tasks ▸ ht))
  · rw [hreceivers, List.length_append] at hi
    exact h.silent i (Nat.le_trans (Nat.le_add_right ..) hi)

section
variable {i j : Nat} {r r' : Receiver P} {event : Dispatcher.Event (Nat × Message P.Route)}

theorem Kept.readied (h : Kept log l) (hreadied : Readied l l' i r r') : Kept log l' := by
  refine h.congr ?_ (fun _ => hreadied.tasks ▸ .refl _) (fun t ht => ⟨t, hreadied.tasks ▸ ht, rfl⟩)
    hreadied.backdrop.persists
  rw [hreadied.receivers]
  exact map_set_eq hreadied.found (Prod.ext hreadied.subscriber hreadied.state)

/-- A dispatcher hears an event that completes nothing, which is put down with the tasks that are
begun. -/
theorem Kept.hears_going (h : Kept log l) (hhears : Hears l l' i r r' event)
    (htask : event.task? = none) :
    Kept (log ++ ((event.message?.map (.received i)).toList ++
      (l'.tasks.drop l.tasks.length).map .begun)) l' := by
  obtain ⟨effects, new, -, htasks', hnew⟩ := hhears.step
  have hdrop : l'.tasks.drop l.tasks.length = new := by rw [htasks', List.drop_left]
  have hbegun := Deed.begun_only (receiver_of_begins hnew)
  have hreceived : ∀ j,
      receivedBy j ((event.message?.map (Deed.received (κ := κ) i)).toList) =
        (if i = j then event.message?.toList else []) ∧
      begunBy j ((event.message?.map (Deed.received (κ := κ) i)).toList) = [] ∧
      completedBy j ((event.message?.map (Deed.received (κ := κ) i)).toList) = [] := by
    intro j
    cases event.message? with
    | none => exact ⟨by split <;> rfl, rfl, rfl⟩
    | some message => exact ⟨by by_cases hij : i = j <;> simp [receivedBy, hij], rfl, rfl⟩
  have hall : Hears { l with tasks := l.tasks } l' i r r' event := hhears
  refine h.hears hall (fun j => ?_) (fun _ => id) (fun j => ?_) (fun j => ?_) (fun j => ?_)
  · rw [htask, Option.toList_none, ite_self, List.nil_append]
  · rw [Deed.receivedBy_append, (hreceived j).1, hdrop, (hbegun j).1, List.append_nil]
  · rw [Deed.begunBy_append, (hreceived j).2.1, hdrop, (hbegun j).2.2, List.nil_append]
  · rw [Deed.completedBy_append, (hreceived j).2.2, hdrop, (hbegun j).2.1, htask]
    split <;> rfl

theorem Kept.performs {t t' : ProcessingTask P κ} {op : Processing.Op P.Route κ}
    (h : Kept log l) (hperforms : Performs l l' j t t' op) : Kept log l' := by
  have hreceivers : l'.receivers = l.receivers := by rw [hperforms.rest]
  refine h.congr (by rw [hreceivers]) (fun i => ?_) (fun u hu => ?_) hperforms.persists
  · rw [hperforms.tasks]
    exact ProcessingTask.perm_numbers_set hperforms.found hperforms.same i
  · rw [hperforms.tasks] at hu
    obtain ⟨k, hk⟩ := List.mem_iff_getElem?.mp hu
    rcases (getElem?_set_iff hperforms.found).mp hk with ⟨-, rfl⟩ | ⟨-, hk⟩
    · exact ⟨t, List.mem_of_getElem? hperforms.found, hperforms.same.1⟩
    · exact ⟨u, List.mem_of_getElem? hk, rfl⟩

/-- A task completes, and its dispatcher hears of that. -/
theorem Kept.ends {t : ProcessingTask P κ} (h : Kept log l) (hends : Ends l l' j t) :
    Kept (log ++ [.completed t]) l' := by
  have hmem : t ∈ l.tasks := List.mem_of_getElem? hends.found
  have hperm := perm_of_getElem? hends.found
  have hknown := h.known t hmem
  obtain ⟨r, hr⟩ : ∃ r, l.receivers[t.receiver]? = some r :=
    ⟨_, List.getElem?_eq_getElem hknown⟩
  obtain ⟨s, hs⟩ := h.staffed hr
  have hhears := hends.hears hr hs (h.inFlight hr hends.found)
  have hnone : l'.tasks.drop (l.tasks.eraseIdx j).length = [] := by
    obtain ⟨effects, new, hstep, htasks, hnew⟩ := hhears.step
    rw [Dispatcher.State.starts_of_completed hstep, List.forall₂_nil_left_iff] at hnew
    rw [htasks, hnew, List.append_nil, List.drop_length]
  refine h.hears hhears (fun i => ?_) (fun _ ht => List.eraseIdx_subset ht) (fun i => ?_)
    (fun i => ?_) (fun i => ?_)
  · refine List.Perm.trans ?_ (ProcessingTask.perm_numbers hperm i).symm
    rw [ProcessingTask.numbers_cons]
    exact .refl _
  · split <;> rfl
  · rw [hnone, ite_self]
    rfl
  · by_cases hi : t.receiver = i <;> simp [completedBy, hi, Dispatcher.Event.task?]

end

theorem Kept.step {ev : LiveStep} (h : Kept log l) (hstep : l.step ev = some l') :
    Kept (log ++ l.deeds ev l') l' := by
  cases ev with
  | task j =>
    obtain ⟨t, hends | ⟨t', op, hperforms⟩⟩ := task_cases hstep
    · obtain ⟨outcome, hprogram⟩ := hends.program
      have hdeeds : l.deeds (.task j) l' = [.completed t] := by
        simp [deeds, completing?, hends.found, hprogram]
      rw [hdeeds]
      exact h.ends hends
    · obtain ⟨next, hprogram, -⟩ := hperforms.program
      have hdeeds : l.deeds (.task j) l' = [] := by
        simp [deeds, completing?, hperforms.found, hprogram]
      rw [hdeeds, List.append_nil]
      exact h.performs hperforms
  | client j =>
    rw [deeds, List.append_nil]
    exact h.enlists (enlists_stepClient hstep)
  | heed i =>
    obtain ⟨r, r', hreadied | ⟨event, ⟨hmessage, htask⟩, hhears⟩⟩ :=
      heed_cases (fun _ => h.staffed) hstep
    · have hdeeds : l.deeds (.heed i) l' = [] := by
        simp [deeds, hreadied.tasks]
      rw [hdeeds, List.append_nil]
      exact h.readied hreadied
    · have hgoing := h.hears_going hhears htask
      rw [hmessage] at hgoing
      exact hgoing
  | receive i =>
    obtain ⟨r, r', ⟨hnone, hreadied⟩ | ⟨message, hreceived, hhears⟩⟩ :=
      receive_cases (fun _ => h.staffed) hstep
    · have hdeeds : l.deeds (.receive i) l' = [] := by
        simp [deeds, hnone, hreadied.tasks]
      rw [hdeeds, List.append_nil]
      exact h.readied hreadied
    · have hgoing := h.hears_going hhears rfl
      rw [deeds, hreceived]
      exact hgoing
  | elapse ms =>
    obtain rfl := Option.some.inj hstep
    rw [deeds, List.append_nil]
    refine h.beside ⟨rfl, rfl, .of_standing fun ref => ?_⟩
    cases ref <;> rfl

theorem Kept.goes (h₀ : Kept [] l₀) (h : Goes Beside l₀ log l) : Kept log l := by
  induction h with
  | start => exact h₀
  | step _ hstep ih => exact ih.step hstep
  | others _ hothers ih => exact ih.beside hothers

/-! ## What becomes of the messages -/

/-- The tasks of a dispatcher that are in progress. -/
def inProgress (l : Live P κ α) (i : Nat) : List (ProcessingTask P κ) :=
  l.tasks.filter fun t => t.receiver == i

/-- What is right about a dispatcher whose subscriber has that setting for its workers. -/
structure Diligent (log : List (Deed P κ)) (l : Live P κ α) (i : Nat) (r : Receiver P)
    (maxWorkers : Option Nat) : Prop where
  /-- What it received was taken into processing in that order, except for what it still holds. -/
  once : ∃ taken, receivedBy i log = taken ++ r.state.held ∧
    List.Forall₂ (Processes r.subscriber) taken (begunBy i log)
  numbered : (begunBy i log).map (·.number) = List.range (begunBy i log).length
  /-- Each task is in progress or has completed, and that once. -/
  accounted : (completedBy i log ++ (l.inProgress i).map (·.number)).Perm
    ((begunBy i log).map (·.number))
  /-- A message is not held when there is nothing to wait for. -/
  taken : r.state.held ≠ [] → l.inProgress i = [] → (l.heed i).isSome = true
  finished : l.isFinished i = true →
    List.Forall₂ (Processes r.subscriber) (receivedBy i log) (begunBy i log) ∧
      (completedBy i log).Perm (List.range (receivedBy i log).length) ∧ l.inProgress i = []
  bounded : ∀ n, maxWorkers = some n → (l.inProgress i).length ≤ Nat.max n 1
  inOrder : ∀ n ≤ 1, maxWorkers = some n →
    completedBy i log = List.range (completedBy i log).length

theorem Account.length_inProgress {i : Nat} {r : Receiver P} (h : Account log l i r) :
    (l.inProgress i).length = r.state.inFlight.length := by
  rw [← h.perm_inFlight.length_eq, numbers, List.length_map]
  rfl

theorem Account.once {i : Nat} {r : Receiver P} (h : Account log l i r) :
    ∃ taken, receivedBy i log = taken ++ r.state.held ∧
      List.Forall₂ (Processes r.subscriber) taken (begunBy i log) := by
  obtain ⟨begun, hledger, hbegun⟩ := h.ledger
  exact ⟨begun.map (·.2), hledger.once.symm,
    List.forall₂_map_left_iff.mpr (hbegun.imp fun _ _ h => h.2)⟩

theorem Kept.diligence (h : Kept log l) {i : Nat} {r : Receiver P} {workers : Option Nat}
    (hr : l.receivers[i]? = some r) (hworkers : r.state.workers = .ofMax workers) :
    Diligent log l i r workers := by
  have hserved := h.served i r hr
  obtain ⟨begun, hledger, hbegun⟩ := hserved.ledger
  have hlength := hserved.length_inProgress
  refine ⟨hserved.once, ?_, hserved.accounted, ?_, ?_, ?_, ?_⟩
  · have hnumbered := hserved.numbered
    have hstarted := congrArg List.length hnumbered
    rw [List.length_map, List.length_range] at hstarted
    rw [hnumbered, hstarted]
  · intro hheld hnone
    have hidle : r.state.inFlight = [] := by
      rw [hnone] at hlength
      exact List.length_eq_zero_iff.mp hlength.symm
    cases hphase : r.state.phase with
    | holding m =>
      have hfree := Dispatcher.State.step_workerFree hphase hworkers hidle
      simp only [heed, hr, Option.bind_some, hphase, tell, Option.isSome_map, hfree]
    | _ => simp [Dispatcher.State.held, hphase] at hheld
  · intro hfinished
    have hfinished : r.state.isFinished = true := by
      simpa [isFinished, hr] using hfinished
    obtain ⟨hreceived, hidle, hcompleted⟩ := hledger.finished hfinished
    refine ⟨?_, hcompleted, ?_⟩
    · rw [← hreceived]
      exact List.forall₂_map_left_iff.mpr (hbegun.imp fun _ _ h => h.2)
    · rw [hidle] at hlength
      exact List.length_eq_zero_iff.mp hlength
  · rintro n rfl
    have hadmitted := hledger.admitted
    rw [hworkers] at hadmitted
    exact hlength ▸ Dispatcher.Workers.admits_ofMax hadmitted
  · rintro n hn rfl
    have hone : r.state.workers = .one := by
      rw [hworkers, Dispatcher.Workers.ofMax_some, if_pos hn]
    have hordered := hledger.inOrder hone
    -- what has completed is what comes first of all that was started
    have hfirst : completedBy i log =
        (List.range r.state.started).take (completedBy i log).length := by
      rw [← hordered, List.take_left]
    rw [hfirst, List.take_range, List.length_range]

/-- However a group goes on, and whatever others do, its dispatchers process each message that they
receive once, within the bound on their workers. -/
theorem Goes.diligent {config : GroupConfig P.Route κ} {engine : Engine P κ}
    (h : Goes Beside (Live.new config engine : Live P κ α) log l) {i : Nat} {r : Receiver P}
    (hr : l.receivers[i]? = some r) :
    ∃ s, l.engine.subscriber? r.subscriber = some s ∧ Diligent log l i r s.maxWorkers := by
  have hkept := (kept_new config engine).goes h
  obtain ⟨workers, closed, hs, hworkers⟩ := (hkept.served i r hr).standing
  obtain ⟨s, hsome, hstanding⟩ := Option.map_eq_some_iff.mp hs
  obtain ⟨rfl, -⟩ := Prod.mk.inj hstanding
  exact ⟨s, hsome, hkept.diligence hr hworkers⟩

/-! ## Two workers and three messages -/

/-- Take steps one after another, and put down what is done. -/
def proceed : List LiveStep → Live P κ α → Option (List (Deed P κ) × Live P κ α)
  | [], l => some ([], l)
  | ev :: evs, l =>
    (l.step ev).bind fun l' => (proceed evs l').map fun (more, l'') => (l.deeds ev l' ++ more, l'')

theorem Goes.proceed {others : Live P κ α → Live P κ α → Prop} {evs : List LiveStep}
    {more : List (Deed P κ)} (h : Goes others l₀ log l)
    (hproceed : Live.proceed evs l = some (more, l')) : Goes others l₀ (log ++ more) l' := by
  induction evs generalizing log l more with
  | nil =>
    obtain ⟨rfl, rfl⟩ := Prod.mk.inj (Option.some.inj hproceed)
    rwa [List.append_nil]
  | cons ev evs ih =>
    obtain ⟨l₁, hstep, hproceed⟩ := Option.bind_eq_some_iff.mp hproceed
    obtain ⟨⟨rest, l₂⟩, hrest, hsame⟩ := Option.map_eq_some_iff.mp hproceed
    obtain ⟨rfl, rfl⟩ := Prod.mk.inj hsame
    rw [← List.append_assoc]
    exact ih (h.step hstep) hrest

namespace Orders

def config : GroupConfig Nats.protocol.Route Unit :=
  { settings := .default, replyInbox := none, processing := [], telemetry := [],
    publisherMiddlewares := [] }

/-- A handler with two workers. -/
def handler : Registration Nats.protocol Unit :=
  { binding := ⟨"orders", none⟩, retry := none, parser := none, decoder := Decoder.byContentType,
    filter := Filter.notProcessed, maxWorkers := some 2, name := "orders", description := none,
    payload := none, targets := [], processing := [], telemetry := [],
    handler := fun _ => .done (.ok none) }

def start : Live Nats.protocol Unit Unit :=
  .new config (Engine.registerAll config false [handler] (.new 0 ())).2.2

def order : Message Nats.protocol.Route := Message.new (Nats.Route.mk "orders") default

/-- Somebody who starts the group, publishes three orders, and closes it. -/
def seller : Program (Calling Nats.protocol.Route Unit) Unit :=
  Calling.start.bind fun _ =>
    (Calling.publishAll config.publisher [order, order, order]).bind fun _ => Calling.close

/-- The third order has to wait for a worker, while the group is shut down; of the first two the
later one is done first. -/
def steps : List LiveStep :=
  List.replicate 3 (.client 0) ++ [.heed 0] ++ List.replicate 14 (.client 0) ++
    [.heed 0, .receive 0, .heed 0, .receive 0, .heed 0, .receive 0] ++
      List.replicate 2 (.client 0) ++ List.replicate 6 (.task 1) ++ [.heed 0, .heed 0] ++
        List.replicate 6 (.task 1) ++ List.replicate 6 (.task 0) ++ List.replicate 3 (.client 0)

/-- Has the dispatcher come to its end, with three orders done out of order? -/
def ends : List (Deed Nats.protocol Unit) × Live Nats.protocol Unit Unit → Bool
  | (log, l) => l.receivers.length == 1 && l.isFinished 0 && (receivedBy 0 log).length == 3 &&
    completedBy 0 log == [1, 2, 0]

theorem exists_ends : ∃ log l r, Live.proceed steps (start.addClient seller).2 = some (log, l) ∧
    l.receivers[0]? = some r ∧ l.isFinished 0 = true ∧ (receivedBy 0 log).length = 3 ∧
      completedBy 0 log = [1, 2, 0] := by
  have hrun : (Live.proceed steps (start.addClient seller).2).any ends = true := by decide +kernel
  obtain ⟨⟨log, l⟩, hproceed, hends⟩ := (Option.any_eq_true ..).mp hrun
  simp only [ends, Bool.and_eq_true, beq_iff_eq] at hends
  obtain ⟨⟨⟨hone, hfinished⟩, hreceived⟩, hcompleted⟩ := hends
  obtain ⟨r, hr⟩ := List.length_eq_one_iff.mp hone
  exact ⟨log, l, r, hproceed, by rw [hr]; rfl, hfinished, hreceived, hcompleted⟩

end Orders

/-- All three orders are processed. -/
theorem diligent_orders : ∃ log l r s, Goes Beside Orders.start log l ∧
    l.receivers[0]? = some r ∧ l.isFinished 0 = true ∧ (receivedBy 0 log).length = 3 ∧
      completedBy 0 log = [1, 2, 0] ∧ l.engine.subscriber? r.subscriber = some s ∧
        Diligent log l 0 r s.maxWorkers := by
  obtain ⟨log, l, r, hproceed, hr, hends⟩ := Orders.exists_ends
  have hjoined : Goes Beside Orders.start [] (Orders.start.addClient Orders.seller).2 :=
    .others .start (beside_addClient ..)
  have hgoes : Goes Beside Orders.start log l := hjoined.proceed hproceed
  obtain ⟨s, hs, hdiligent⟩ := Goes.diligent hgoes hr
  exact ⟨log, l, r, s, hgoes, hr, hends.1, hends.2.1, hends.2.2, hs, hdiligent⟩

end Live
end MessageDispatch
