import MessageDispatch.Proofs.Obligations
import MessageDispatch.Proofs.QueuedJobs
import MessageDispatch.Live

/-! A group at work on what follows from one message. What is still to be done is in the queues, in
the hands of dispatchers that have no worker free, and with the tasks, which owe what follows from
the messages that they process. Whatever step comes next, the calls that were run and those that are
still to be run stay the same in all. -/
namespace MessageDispatch

open Processing

/-! ## Tasks -/

/-- A task with what it owes. -/
structure Charge (P : Protocol) (κ : Type) where
  task : ProcessingTask P κ
  subscriber : Subscriber P κ
  letter : Letter P.Route
  debt : Reaction P.Route

namespace Charge

variable {P : Protocol} {κ : Type}

/-- The calls that the task is going to run. -/
def invocations (c : Charge P κ) : List (Invocation P) := c.debt.invocations c.subscriber.binding

/-- What it is going to leave to be done. -/
def jobs (c : Charge P κ) : List (Job P) :=
  c.debt.jobs ++ if c.debt.returned then [.handle c.subscriber.binding c.letter] else []

/-- A task of a member of the staff that has a message in hand, which came from the queue of its
binding. -/
structure Valid (staff : List (Subscriber P κ)) (id : String) (e : Engine P κ) (c : Charge P κ) :
    Prop where
  member : ∃ i, c.task.scope.subscriber = .member i ∧ staff[i]? = some c.subscriber
  message : ∃ acker q m, e.deliveries[c.task.scope.delivery]? = some ⟨acker, .queue q m⟩ ∧
    m.Under id ∧ m.letter = c.letter ∧ e.network.Has q c.subscriber.binding ∧
    acker.backed = true ∧
    Owes id c.subscriber.calls acker.settlement.isSome c.task.program c.debt

variable {staff : List (Subscriber P κ)} {id : String} {e e' : Engine P κ} {c : Charge P κ}

/-- Nothing changes for a task while the others do something. -/
theorem Valid.mono (h : c.Valid staff id e)
    (hdelivery : e'.deliveries[c.task.scope.delivery]? = e.deliveries[c.task.scope.delivery]?)
    (hhas : ∀ q b, e.network.Has q b → e'.network.Has q b) : c.Valid staff id e' := by
  obtain ⟨hmember, acker, q, m, hd, hm, hletter, hq, howes⟩ := h
  exact ⟨hmember, acker, q, m, hdelivery.trans hd, hm, hletter, hhas q _ hq, howes⟩

end Charge

/-! ## Dispatchers -/

section
variable {P : Protocol} {κ : Type}

/-- A message in the hands of a dispatcher that has no worker free. -/
def Receiver.jobs (staff : List (Subscriber P κ)) (r : Receiver P) : List (Job P) :=
  match r.subscriber, r.state.phase with
  | .member i, .holding (_, m) => ((staff[i]?).map fun s => .handle s.binding m.letter).toList
  | _, _ => []

/-- Where a dispatcher is in its loop once it has subscribed. -/
inductive Receiver.AtWork (id : String) (n : Network P) (b : P.Binding) :
    Dispatcher.Phase (Nat × Message P.Route) → Prop where
  | receiving : AtWork id n b .receiving
  | working : AtWork id n b .working
  | holding {q : Nat} {m : Message P.Route} (hq : n.Has q b) (hm : m.Under id) :
      AtWork id n b (.holding (q, m))

theorem Receiver.AtWork.mono {id : String} {n n' : Network P} {b : P.Binding}
    {phase : Dispatcher.Phase (Nat × Message P.Route)} (h : Receiver.AtWork id n b phase)
    (hhas : ∀ q b, n.Has q b → n'.Has q b) : Receiver.AtWork id n' b phase := by
  cases h with
  | receiving => exact .receiving
  | working => exact .working
  | holding hq hm => exact .holding (hhas _ _ hq) hm

/-- A dispatcher of a member of the staff, which is yet to subscribe or at work. -/
structure Receiver.Posted (staff : List (Subscriber P κ)) (id : String) (n : Network P)
    (r : Receiver P) : Prop where
  lasting : r.ended = false
  member : ∃ i s, r.subscriber = .member i ∧ staff[i]? = some s ∧
    (r.attempted = false ∧ r.state.phase = .subscribing ∨
      r.attempted = true ∧ (∃ q, r.queue = some q ∧ n.Has q s.binding) ∧
        Receiver.AtWork id n s.binding r.state.phase)

theorem Receiver.Posted.mono {staff : List (Subscriber P κ)} {id : String} {n n' : Network P}
    {r : Receiver P} (h : r.Posted staff id n)
    (hhas : ∀ q b, n.Has q b → n'.Has q b) : r.Posted staff id n' := by
  obtain ⟨hlasting, i, s, hsubscriber, hs, hwhere⟩ := h
  refine ⟨hlasting, i, s, hsubscriber, hs, hwhere.imp_right ?_⟩
  rintro ⟨hattempted, ⟨q, hqueue, hq⟩, hphase⟩
  exact ⟨hattempted, ⟨q, hqueue, hhas q _ hq⟩, hphase.mono hhas⟩

end

/-! ## The group -/

section
variable {β : Type}

theorem perm_exchange (a b c d : List β) : ((a ++ (b ++ c)) ++ d).Perm ((b ++ d) ++ (a ++ c)) := by
  classical
  refine List.perm_iff_count.mpr fun x => ?_
  simp only [List.count_append]
  omega

end

namespace Live

variable {P : Protocol} {κ α : Type}

/-- Messages that wait to be handled, in queues and in the hands of dispatchers. -/
def jobs (staff : List (Subscriber P κ)) (l : Live P κ α) : List (Job P) :=
  l.engine.network.jobs ++ l.receivers.flatMap (·.jobs staff)

/-- Everything that is to be done is accounted for: by the messages that wait, by these further
jobs, and by the tasks, each of them with a charge. -/
structure Accounted (staff : List (Subscriber P κ)) (id : String) (total : List (Invocation P))
    (extra : List (Job P)) (l : Live P κ α) (charges : List (Charge P κ)) : Prop where
  plain : l.config.publisher.middlewares = []
  stopped : l.stopped = 0
  ready : l.engine.Ready staff
  inHand : l.engine.InHand id
  orderly : l.engine.network.Orderly id (staff.map (·.binding))
  posted : ∀ r ∈ l.receivers, r.Posted staff id l.engine.network
  tasks : charges.map (·.task) = l.tasks
  valid : ∀ c ∈ charges, c.Valid staff id l.engine
  apart : (charges.map (·.task.scope.delivery)).Nodup
  /-- Before all queues are there, no message is. -/
  underway : l.engine.network.Open (staff.map (·.binding)) ∨
    charges = [] ∧ ∀ b letter, .handle b letter ∉ l.jobs staff ++ extra
  balanced : Balanced staff id (l.engine.invocations ++ charges.flatMap (·.invocations))
    ((l.jobs staff ++ extra) ++ charges.flatMap (·.jobs)) total

/-- What the others see of a step: no client took it, and dispatchers stay where they are posted. -/
structure Onward (l l' : Live P κ α) : Prop where
  clients : l'.clients = l.clients
  running : l'.running = l.running
  length : l'.receivers.length = l.receivers.length
  receivers : ∀ (d : Nat) (r : Receiver P), l.receivers[d]? = some r →
    ∃ r' : Receiver P, l'.receivers[d]? = some r' ∧
    r'.subscriber = r.subscriber ∧ (r.attempted = true → r'.attempted = true)

theorem Onward.of_receivers {l l' : Live P κ α} (hclients : l'.clients = l.clients)
    (hrunning : l'.running = l.running) (hreceivers : l'.receivers = l.receivers) : l.Onward l' :=
  ⟨hclients, hrunning, by rw [hreceivers], fun d r hr => ⟨r, hreceivers ▸ hr, rfl, fun h => h⟩⟩

theorem Onward.trans {l l' l'' : Live P κ α} (h : l.Onward l') (h' : l'.Onward l'') :
    l.Onward l'' := by
  refine ⟨h'.clients.trans h.clients, h'.running.trans h.running, h'.length.trans h.length,
    fun d r hr => ?_⟩
  obtain ⟨r', hr', hsubscriber, hattempted⟩ := h.receivers d r hr
  obtain ⟨r'', hr'', hsubscriber', hattempted'⟩ := h'.receivers d r' hr'
  exact ⟨r'', hr'', hsubscriber'.trans hsubscriber, fun ha => hattempted' (hattempted ha)⟩

theorem onward_set {l l' : Live P κ α} {i : Nat} {r r' : Receiver P}
    (hclients : l'.clients = l.clients) (hrunning : l'.running = l.running)
    (hset : l'.receivers = l.receivers.set i r') (hr : l.receivers[i]? = some r)
    (hsubscriber : r'.subscriber = r.subscriber)
    (hattempted : r.attempted = true → r'.attempted = true) : l.Onward l' := by
  refine ⟨hclients, hrunning, by rw [hset, List.length_set], fun d found hfound => ?_⟩
  rw [hset]
  by_cases hd : d = i
  · subst hd
    obtain rfl := Option.some.inj (hr.symm.trans hfound)
    exact ⟨r', (getElem?_set_iff hr).mpr (.inl ⟨rfl, rfl⟩), hsubscriber, hattempted⟩
  · exact ⟨found, (getElem?_set_iff hr).mpr (.inr ⟨hd, hfound⟩), rfl, fun h => h⟩

variable {staff : List (Subscriber P κ)} {id : String} {total : List (Invocation P)}
  {extra extra' : List (Job P)} {l l' : Live P κ α} {charges : List (Charge P κ)} {i q : Nat}
  {r r' : Receiver P} {m : Message P.Route} {s : Subscriber P κ}

/-! ## Changing one thing -/

/-- Jobs may be moved around among those that wait and the further ones. -/
theorem Accounted.moved (h : l.Accounted staff id total extra charges)
    (hready : l'.engine.Ready staff) (hin : l'.engine.InHand id)
    (horderly : l'.engine.network.Orderly id (staff.map (·.binding)))
    (hhas : ∀ q b, l.engine.network.Has q b → l'.engine.network.Has q b)
    (hposted : ∀ r ∈ l'.receivers, r.Posted staff id l'.engine.network)
    (hdeliveries : l'.engine.deliveries = l.engine.deliveries)
    (hinvocations : l'.engine.invocations = l.engine.invocations)
    (hjobs : (l'.jobs staff ++ extra').Perm (l.jobs staff ++ extra)) (htasks : l'.tasks = l.tasks)
    (hconfig : l'.config = l.config) (hstopped : l'.stopped = l.stopped) :
    l'.Accounted staff id total extra' charges where
  plain := hconfig ▸ h.plain
  stopped := hstopped.trans h.stopped
  ready := hready
  inHand := hin
  orderly := horderly
  posted := hposted
  tasks := h.tasks.trans htasks.symm
  valid := fun c hc => (h.valid c hc).mono (by rw [hdeliveries]) hhas
  apart := h.apart
  underway := h.underway.imp (·.mono hhas) fun ⟨hnone, hidle⟩ =>
    ⟨hnone, fun b letter hmem => hidle b letter (hjobs.mem_iff.mp hmem)⟩
  balanced := by
    rw [hinvocations]
    exact h.balanced.perm (.refl _) (hjobs.symm.append_right _)

/-- The account is about the engine, the dispatchers and the tasks. -/
theorem Accounted.congr (h : l.Accounted staff id total extra charges)
    (hengine : l'.engine = l.engine) (hreceivers : l'.receivers = l.receivers)
    (htasks : l'.tasks = l.tasks) (hconfig : l'.config = l.config)
    (hstopped : l'.stopped = l.stopped) : l'.Accounted staff id total extra charges :=
  h.moved (hengine ▸ h.ready) (hengine ▸ h.inHand) (hengine ▸ h.orderly)
    (fun _ _ hq => hengine ▸ hq) (fun r hr => hengine ▸ h.posted r (hreceivers ▸ hr))
    (hengine ▸ rfl) (hengine ▸ rfl) (.of_eq (by rw [jobs, jobs, hengine, hreceivers])) htasks
    hconfig hstopped

/-- Nothing that matters to the account changes. -/
theorem Accounted.idle (h : l.Accounted staff id total extra charges) {e : Engine P κ}
    (hready : e.Ready staff) (hnetwork : e.network = l.engine.network)
    (hdeliveries : e.deliveries = l.engine.deliveries)
    (hinvocations : e.invocations = l.engine.invocations) :
    { l with engine := e }.Accounted staff id total extra charges :=
  h.moved hready (h.inHand.congr hdeliveries) (hnetwork ▸ h.orderly)
    (fun q b hq => hnetwork ▸ hq) (fun r hr => hnetwork ▸ h.posted r hr) hdeliveries hinvocations
    (.of_eq (by rw [jobs, jobs, hnetwork])) rfl rfl rfl

theorem Accounted.setNetwork (h : l.Accounted staff id total extra charges) {n : Network P}
    (hsubscribes : n.subscribeFailures = l.engine.network.subscribeFailures)
    (hreceives : n.receiveFailures = l.engine.network.receiveFailures)
    (horderly : n.Orderly id (staff.map (·.binding)))
    (hhas : ∀ q b, l.engine.network.Has q b → n.Has q b)
    (hjobs : (n.jobs ++ extra').Perm (l.engine.network.jobs ++ extra)) :
    { l with engine := { l.engine with network := n } }.Accounted staff id total extra'
      charges := by
  refine h.moved (h.ready.congr rfl (h.ready.clear.congr rfl hsubscribes hreceives))
    (h.inHand.congr rfl) horderly hhas (fun r hr => (h.posted r hr).mono hhas) rfl rfl ?_ rfl rfl
    rfl
  show ((n.jobs ++ _) ++ extra').Perm ((l.engine.network.jobs ++ _) ++ extra)
  rw [List.append_assoc, List.append_assoc]
  refine (List.perm_append_comm.append_left _).trans ?_
  refine .trans ?_ (List.perm_append_comm.append_left _)
  rw [← List.append_assoc, ← List.append_assoc]
  exact hjobs.append_right _

theorem Accounted.setReceiver (h : l.Accounted staff id total extra charges)
    (hr : l.receivers[i]? = some r) (hposted : r'.Posted staff id l.engine.network)
    (hjobs : (r'.jobs staff ++ extra').Perm (r.jobs staff ++ extra)) :
    { l with receivers := l.receivers.set i r' }.Accounted staff id total extra' charges := by
  refine h.moved h.ready h.inHand h.orderly (fun _ _ hq => hq) (fun r'' hr'' => ?_) rfl rfl ?_ rfl
    rfl rfl
  · rcases List.mem_or_eq_of_mem_set hr'' with hr'' | rfl
    · exact h.posted r'' hr''
    · exact hposted
  · have hbefore := perm_of_getElem? hr
    have hafter := perm_set_of_getElem? hr
    have hbefore' := (hbefore.flatMap_right (Receiver.jobs staff)).append_left l.engine.network.jobs
    have hafter' := ((hafter r').flatMap_right (Receiver.jobs staff)).append_left
      l.engine.network.jobs
    rw [List.flatMap_cons] at hbefore' hafter'
    refine (hafter'.append_right extra').trans ((perm_exchange ..).trans ?_)
    exact (hjobs.append_right _).trans
      ((perm_exchange ..).symm.trans (hbefore'.symm.append_right _))

end Live
end MessageDispatch
