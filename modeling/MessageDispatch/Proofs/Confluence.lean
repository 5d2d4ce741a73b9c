import MessageDispatch.Proofs.Accounts

/-! Whatever the tasks and the dispatchers of a group do next, the account is kept: a task pays what
it owes, and a message that is taken from its queue is charged to a task, at once or after a
dispatcher has held it until a worker is free. -/
namespace MessageDispatch

open Processing
open Publishing (sent)

namespace Live

variable {P : Protocol} {κ α : Type} {staff : List (Subscriber P κ)} {id : String}
  {total : List (Invocation P)} {extra extra' : List (Job P)} {l l' : Live P κ α}
  {charges : List (Charge P κ)} {i j q : Nat} {r r' : Receiver P} {m : Message P.Route}
  {s : Subscriber P κ}

/-! ## A task begins -/

theorem onward_begin (l : Live P κ α) (i : Nat) (r : Receiver P) (number q : Nat)
    (m : Message P.Route) : l.Onward (l.begin i r number q m) := by
  unfold begin
  split <;> exact .of_receivers rfl rfl rfl

/-- A message on its way to a worker is charged to a task. -/
theorem Accounted.begin (hcrew : Crew staff id)
    (h : l.Accounted staff id total (.handle s.binding m.letter :: extra) charges)
    (hsubscriber : r.subscriber = .member j) (hs : staff[j]? = some s)
    (hq : l.engine.network.Has q s.binding) (hm : m.Under id) (i number : Nat) :
    ∃ charges', (l.begin i r number q m).Accounted staff id total extra charges' := by
  obtain ⟨s', hfound, rfl⟩ := h.ready.exists_bare hsubscriber hs
  have hmem := List.mem_of_getElem? hs
  -- what the subscriber makes of the message is settled by now
  have hpaired : Balanced staff id (l.engine.invocations ++ charges.flatMap (·.invocations))
      (.handle s'.bare.binding m.letter :: ((l.jobs staff ++ extra) ++ charges.flatMap (·.jobs)))
      total :=
    h.balanced.perm (.refl _) (List.perm_middle.append_right _)
  obtain ⟨x, hx, hbalanced⟩ := hpaired.handle hmem (fun _ ht hb => hcrew.alone hmem ht hb)
    fun _ _ hx hy => hx.returned_eq hy hm l.engine.context
  let taken := l.engine.addDelivery ⟨.ofBackend true, .queue q m⟩
  let ids := taken.2.drawIds
  let task : ProcessingTask P κ :=
    { receiver := i, number := number, scope := ⟨r.subscriber, taken.1, some none⟩,
      wakeAt := ids.2.now, program := s'.process l.config.publisher (P.build ids.1 m) }
  have hbegun : l.begin i r number q m =
      { l with engine := ids.2, tasks := l.tasks ++ [task] } := by
    simp only [Live.begin, hfound]
    rfl
  rw [hbegun]
  let charge : Charge P κ := ⟨task, s'.bare, m.letter, x⟩
  refine ⟨charges ++ [charge], ?_⟩
  exact
    { plain := h.plain
      stopped := h.stopped
      ready := h.ready.congr rfl (h.ready.clear.congr rfl rfl rfl)
      inHand := (h.inHand.add rfl hm).congr rfl
      orderly := h.orderly
      posted := h.posted
      tasks := by
        rw [List.map_append, h.tasks]
        rfl
      valid := by
        refine List.forall_mem_append.mpr ⟨fun c hc => (h.valid c hc).mono ?_ fun _ _ hq => hq,
          List.forall_mem_singleton.mpr ⟨⟨j, hsubscriber, hs⟩, .ofBackend true, q, m,
            List.getElem?_concat_length, hm, rfl, hq, rfl, ?_⟩⟩
        · obtain ⟨acker, q, m, hd, -⟩ := (h.valid c hc).message
          exact List.getElem?_append_left (lt_length_of_getElem? hd)
        · exact hx.owes (hcrew.steady _ hmem) h.plain hm ids.1
      apart := by
        rw [List.map_append]
        refine nodup_concat h.apart fun hmem => ?_
        obtain ⟨c, hc, hsame⟩ := List.mem_map.mp hmem
        obtain ⟨acker, q, m, hd, -⟩ := (h.valid c hc).message
        have hlt := lt_length_of_getElem? hd
        rw [hsame] at hlt
        exact Nat.lt_irrefl _ hlt
      underway := by
        rcases h.underway with hopen | ⟨-, hidle⟩
        · exact .inl hopen
        · exact absurd (List.mem_append_right _ List.mem_cons_self) (hidle s'.bare.binding m.letter)
      balanced := by
        rw [List.flatMap_append, List.flatMap_append, List.flatMap_singleton,
          List.flatMap_singleton, ← List.append_assoc, ← List.append_assoc]
        refine hbalanced.perm (.refl _) ?_
        rw [← List.append_assoc]
        exact List.perm_append_comm }

end Live

/-! ## A task goes on -/

section
variable {P : Protocol} {κ : Type} {id : String} {bindings : List P.Binding} {e : Engine P κ}
  {scope : Scope} {acker : Acker} {q : Nat} {m : Message P.Route} {b : P.Binding}
  {calls : List (Call P.Route κ)} {x left : Reaction P.Route}

theorem queues_of_told {n : Network P} {told : List Action} (h : ∀ action ∈ told, action ≠ .nack) :
    (told.foldl (fun n action => (Source.queue q m).settle action n) n).queues = n.queues := by
  induction told generalizing n with
  | nil => rfl
  | cons action told ih =>
    obtain ⟨haction, htold⟩ := List.forall_mem_cons.mp h
    exact (ih htold).trans (Network.settle_eq_of_ne_nack haction)

/-- A message that is handed back waits again, unless it was settled before. -/
theorem Engine.gains_settle (hclear : e.Clear)
    (hd : e.deliveries[scope.delivery]? = some ⟨acker, .queue q m⟩) (hbacked : acker.backed = true)
    (hm : m.Under id) (hq : e.network.Has q b) (horderly : e.network.Orderly id bindings)
    (action : Action) :
    Network.Gains id bindings (if !acker.settlement.isSome && decide (action = .nack) then
        [.handle b m.letter] else []) e.network
      (execProcessing (.settle action) (e, scope)).2.1.network := by
  rw [network_settle hclear.settlements hd rfl action]
  cases hsettled : acker.settlement with
  | some settled =>
    have htells : acker.tells action = [] := by simp [Acker.tells, hsettled]
    rw [htells]
    exact Network.gains_nothing horderly rfl
  | none =>
    have htells : acker.tells action = [action] := by simp [Acker.tells, hsettled, hbacked]
    rw [htells]
    have hgains := Network.gains_settle horderly hq hm action
    by_cases hnack : action = .nack <;> simpa [hnack, Source.settle] using hgains

/-- An attempt that does not end with a failure hands nothing back. -/
theorem Engine.gains_exit (hclear : e.Clear)
    (hd : e.deliveries[scope.delivery]? = some ⟨acker, .queue q m⟩)
    (horderly : e.network.Orderly id bindings) (i : String) {outcome : Outcome}
    (houtcome : outcome ∈ [.ack, .reject, .skip]) :
    Network.Gains id bindings [] e.network
      (execProcessing (.exit i outcome) (e, scope)).2.1.network := by
  rw [network_exit hclear.settlements hd rfl i outcome]
  refine Network.gains_nothing horderly (queues_of_told fun action haction => ?_)
  have htold {action' : Action} (h : action ∈ acker.tells action') : action = action' := by
    unfold Acker.tells at h
    split at h
    · exact List.mem_singleton.mp h
    · cases h
  simp only [List.mem_cons, List.not_mem_nil, or_false] at houtcome
  rcases houtcome with rfl | rfl | rfl
  · rw [htold haction]
    simp
  · rw [htold haction]
    simp
  · cases haction

/-- Of all that a task does, sending messages adds to what waits, and handing its own back. -/
theorem Engine.gains_execProcessing (hclear : e.Clear)
    (hd : e.deliveries[scope.delivery]? = some ⟨acker, .queue q m⟩) (hbacked : acker.backed = true)
    (hm : m.Under id) (hq : e.network.Has q b) (horderly : e.network.Orderly id bindings)
    (hopen : e.network.Open bindings) (hdistinct : bindings.Nodup) {op : Processing.Op P.Route κ}
    (hpaid : Paid id calls acker.settlement.isSome ⟨op, (execProcessing op (e, scope)).1⟩ x left) :
    Network.Gains id bindings
      ((sent (publishing.events [⟨op, (execProcessing op (e, scope)).1⟩])).flatMap
          (·.letter.jobs bindings) ++
        if op.handsBack acker.settlement.isSome then [.handle b m.letter] else [])
      e.network (execProcessing op (e, scope)).2.1.network := by
  have hidle (hsettles : op.settles = false) (hsend : ∀ m, op ≠ .publishing (.send m)) :
      Network.Gains id bindings [] e.network (execProcessing op (e, scope)).2.1.network := by
    rw [network_execProcessing hsettles hsend]
    exact Network.gains_nothing horderly rfl
  cases op with
  | publishing op =>
    cases op with
    | send m' =>
      have hm' : m'.Under id := hpaid.under m' (List.mem_singleton_self _)
      show Network.Gains id bindings ((m'.letter.jobs bindings ++ []) ++ []) e.network
        (e.network.publish m')
      rw [List.append_nil, List.append_nil]
      exact Network.gains_publish horderly hopen hdistinct hm'
    | _ => exact hidle rfl (by simp)
  | settle action => exact gains_settle hclear hd hbacked hm hq horderly action
  | exit i outcome => exact gains_exit hclear hd horderly i (hpaid.outcome i outcome rfl)
  | _ => exact hidle rfl (by simp)

/-- What settles a message, the engine takes. -/
theorem Engine.leaves_execProcessing {d : Delivery P} (hclear : e.Clear)
    (hd : e.deliveries[scope.delivery]? = some d) (hm : d.source.carried? = some m)
    {op : Processing.Op P.Route κ}
    (houtcome : ∀ i outcome, op = .exit i outcome → outcome ∈ [.ack, .reject, .skip]) :
    (d.settled (settledWith? ⟨op, (execProcessing op (e, scope)).1⟩)).acker.settlement.isSome =
      op.leaves d.acker.settlement.isSome := by
  have hacker : e.acker scope.delivery = d.acker := by
    rw [acker, hd]
    rfl
  cases op with
  | settle action =>
    have hanswer : (execProcessing (.settle action) (e, scope)).1 = .ok () := by
      show (e.settle scope.delivery action).1 = _
      rw [Engine.settle, hacker, settle_eq hclear.settlements hd hm]
    rw [hanswer]
    show (d.acker.settlement.or (some action)).isSome = true
    cases d.acker.settlement <;> rfl
  | exit i outcome =>
    have hanswer : (execProcessing (.exit i outcome) (e, scope)).1 =
        .ok (Attempt.instruction (e.watcher scope.subscriber) i outcome) :=
      (ending_eq hclear.settlements hd hm rfl i outcome).1
    have hallowed := houtcome i outcome rfl
    rw [hanswer]
    show (d.acker.settlement.or (Attempt.instruction _ i outcome)).isSome =
      (d.acker.settlement.isSome || decide (outcome ≠ .skip))
    simp only [List.mem_cons, List.not_mem_nil, or_false] at hallowed
    rcases hallowed with rfl | rfl | rfl <;> cases d.acker.settlement <;> rfl
  | _ =>
    rw [settledWith?_eq_none rfl, Delivery.settled_none]
    rfl

end

/-! What a task owed is what it has paid and what it still owes. -/

section
variable {P : Protocol} {κ : Type} {id : String} {calls : List (Call P.Route κ)} {settled : Bool}
  {ev : Event (Processing P.Route κ)} (c : Charge P κ) {d : Charge P κ}
  (hsubscriber : d.subscriber = c.subscriber) (hpaid : Paid id calls settled ev c.debt d.debt)
include hsubscriber hpaid

theorem Charge.invocations_of_paid : c.invocations =
    (recordedBodies [ev]).map (fun r => ⟨c.subscriber.binding, r.1, r.2⟩) ++ d.invocations := by
  simp only [Charge.invocations, Reaction.invocations, hpaid.bodies, List.map_append, hsubscriber]

theorem Charge.jobs_of_paid (hletter : d.letter = c.letter) :
    c.jobs.Perm (((sent (publishing.events [ev])).map (·.letter)).map .send ++
      ((if ev.op.handsBack settled then [.handle c.subscriber.binding c.letter] else []) ++
        d.jobs)) := by
  have hback : (if c.debt.returned then [Job.handle c.subscriber.binding c.letter] else []) =
      (if ev.op.handsBack settled then [.handle c.subscriber.binding c.letter] else []) ++
        if d.debt.returned then [.handle c.subscriber.binding c.letter] else [] := by
    rw [hpaid.returned]
    cases hhands : ev.op.handsBack settled with
    | false => simp
    | true => simp [hpaid.once hhands]
  rw [Charge.jobs, Charge.jobs, hback, hsubscriber, hletter, Reaction.jobs, hpaid.letters,
    List.map_append, Reaction.jobs, List.append_assoc]
  exact (List.perm_append_comm_assoc ..).append_left _

end

namespace Live

variable {P : Protocol} {κ α : Type} {staff : List (Subscriber P κ)} {id : String}
  {total : List (Invocation P)} {extra extra' : List (Job P)} {l l' : Live P κ α}
  {charges : List (Charge P κ)} {i j q : Nat} {r r' : Receiver P} {m : Message P.Route}
  {s : Subscriber P κ} {t : ProcessingTask P κ}

theorem Accounted.charge (h : l.Accounted staff id total extra charges)
    (ht : l.tasks[j]? = some t) : ∃ c, charges[j]? = some c ∧ c.task = t := by
  rw [← h.tasks, List.getElem?_map] at ht
  exact Option.map_eq_some_iff.mp ht

/-- A task pays a part of what it owes. -/
theorem Accounted.pay (h : l.Accounted staff id total extra charges) {c d : Charge P κ}
    (hc : charges[j]? = some c) (hsubscriber : d.subscriber = c.subscriber)
    (hletter : d.letter = c.letter)
    (hdelivery : d.task.scope.delivery = c.task.scope.delivery) {settled : Bool}
    {ev : Event (Processing P.Route κ)}
    (hpaid : Paid id c.subscriber.calls settled ev c.debt d.debt) {e : Engine P κ}
    (hready : e.Ready staff) (hin : e.InHand id)
    (hgains : Network.Gains id (staff.map (·.binding))
      ((sent (publishing.events [ev])).flatMap (·.letter.jobs (staff.map (·.binding))) ++
        if ev.op.handsBack settled then [.handle c.subscriber.binding c.letter] else [])
      l.engine.network e.network)
    (hinvocations : e.invocations.Perm (l.engine.invocations ++
      (recordedBodies [ev]).map fun r => ⟨c.subscriber.binding, r.1, r.2⟩))
    (hothers : ∀ k, k ≠ c.task.scope.delivery → e.deliveries[k]? = l.engine.deliveries[k]?)
    (hvalid : d.Valid staff id e)
    (hopen : l.engine.network.Open (staff.map (·.binding))) :
    { l with engine := e, tasks := l.tasks.set j d.task }.Accounted staff id total extra
      (charges.set j d) where
  plain := h.plain
  stopped := h.stopped
  ready := hready
  inHand := hin
  orderly := hgains.orderly
  posted := fun r hr => (h.posted r hr).mono hgains.has
  tasks := by
    rw [List.map_set, h.tasks]
  valid := by
    intro u hu
    obtain ⟨k, hk⟩ := List.mem_iff_getElem?.mp hu
    rcases (getElem?_set_iff hc).mp hk with ⟨-, rfl⟩ | ⟨hkj, hk⟩
    · exact hvalid
    · refine (h.valid u (List.mem_of_getElem? hk)).mono (hothers _ fun hsame => hkj ?_) hgains.has
      exact eq_of_nodup_map h.apart hk hc hsame
  apart := by
    rw [map_set_eq hc hdelivery]
    exact h.apart
  underway := .inl (hopen.mono hgains.has)
  balanced := by
    classical
    have hbefore := perm_of_getElem? hc
    have hafter := perm_set_of_getElem? hc
    have hpast := hbefore.flatMap_right (·.invocations)
    have hpast' := (hafter d).flatMap_right (·.invocations)
    have hjobs := hbefore.flatMap_right (·.jobs)
    have hjobs' := (hafter d).flatMap_right (·.jobs)
    have hrun := c.invocations_of_paid hsubscriber hpaid
    have hleft := c.jobs_of_paid hsubscriber hpaid hletter
    -- the books are compared job by job: what the task has paid is either past or waits now
    let others := ((l.jobs staff ++ extra) ++ d.jobs) ++ (charges.eraseIdx j).flatMap (·.jobs) ++
      if ev.op.handsBack settled then [.handle c.subscriber.binding c.letter] else []
    have hsplit : Balanced staff id (e.invocations ++ (charges.set j d).flatMap (·.invocations))
        (((sent (publishing.events [ev])).map (·.letter)).map .send ++ others) total := by
      refine h.balanced.perm (List.perm_iff_count.mpr fun y => ?_)
        (List.perm_iff_count.mpr fun y => ?_)
      · have h₁ := hpast.count_eq y
        have h₂ := hpast'.count_eq y
        have h₃ := hinvocations.count_eq y
        simp only [List.flatMap_cons, List.count_append, hrun] at h₁ h₂ h₃ ⊢
        omega
      · have h₁ := hjobs.count_eq y
        have h₂ := hleft.count_eq y
        simp only [List.flatMap_cons, List.count_append, others] at h₁ h₂ ⊢
        omega
    refine hsplit.sends.perm (.refl _) (List.perm_iff_count.mpr fun y => ?_)
    have h₁ := hjobs'.count_eq y
    have h₂ := hgains.jobs.count_eq y
    simp only [List.flatMap_cons, List.count_append, others, Live.jobs, List.flatMap_map] at h₁ h₂ ⊢
    omega

/-- Where there is a task, all queues are there. -/
theorem Accounted.opened (h : l.Accounted staff id total extra charges) {c : Charge P κ}
    (hc : charges[j]? = some c) : l.engine.network.Open (staff.map (·.binding)) := by
  rcases h.underway with hopen | ⟨rfl, -⟩
  · exact hopen
  · cases hc

/-- A task takes a step. -/
theorem Accounted.operate (hcrew : Crew staff id) (h : l.Accounted staff id total extra charges)
    (ht : l.tasks[j]? = some t) {op : Processing.Op P.Route κ}
    {next : Processing.Answer op → Program (Processing P.Route κ) ProcessingOutcome}
    (hprogram : t.program = .call op next) :
    ∃ charges', { l with
      engine := (Engine.execProcessing op (l.engine, t.scope)).2.1
      tasks := l.tasks.set j { t with
        scope := (Engine.execProcessing op (l.engine, t.scope)).2.2
        program := next (Engine.execProcessing op (l.engine, t.scope)).1 } }.Accounted staff id
      total extra charges' := by
  obtain ⟨c, hc, rfl⟩ := h.charge ht
  obtain ⟨⟨i, hsubscriber, hs⟩, acker, q, m, hd, hm, hletter, hq, hbacked, howes⟩ :=
    h.valid c (List.mem_of_getElem? hc)
  rw [hprogram] at howes
  obtain ⟨left, howes', hpaid⟩ :=
    howes.call l.engine.context (h.ready.fair hs hsubscriber hd rfl op)
  obtain ⟨hready, hinvocations⟩ := h.ready.perform hs hsubscriber hd rfl op hpaid.stays
    (by rintro call body rfl; exact hpaid.known (call, body) (List.mem_singleton_self _))
  have hdeliveries := Engine.deliveries_execProcessing h.ready.clear.settlements hd rfl op
  obtain ⟨hsubscriber', hdelivery'⟩ := Engine.scope_execProcessing op l.engine c.task.scope
  let answered := Engine.execProcessing op (l.engine, c.task.scope)
  let c' : Charge P κ :=
    { c with
      task := { c.task with scope := answered.2.2, program := next answered.1 }
      debt := left }
  let acker' : Acker :=
    { acker with settlement := acker.settlement.or (settledWith? ⟨op, answered.1⟩) }
  have hgains := Engine.gains_execProcessing h.ready.clear hd hbacked hm hq h.orderly (h.opened hc)
    hcrew.distinct hpaid
  have hvalid : c'.Valid staff id answered.2.1 := by
    refine ⟨⟨i, hsubscriber'.trans hsubscriber, hs⟩, acker', q, m, ?_, hm, hletter,
      hgains.has q _ hq, hbacked, ?_⟩
    · show answered.2.1.deliveries[answered.2.2.delivery]? = _
      rw [hdelivery', hdeliveries]
      exact (getElem?_set_iff hd).mpr (.inl ⟨rfl, rfl⟩)
    · have hleaves := Engine.leaves_execProcessing h.ready.clear hd rfl hpaid.outcome
      rw [← hleaves] at howes'
      exact howes'
  refine ⟨charges.set j c', h.pay (d := c') hc rfl rfl hdelivery' hpaid hready
    (h.inHand.settled hd hdeliveries) (hletter ▸ hgains) hinvocations (fun k hk => ?_) hvalid
    (h.opened hc)⟩
  rw [hdeliveries, List.getElem?_set_ne (Ne.symm hk)]

/-- A task that sleeps leaves the engine alone. -/
theorem Accounted.sleep (h : l.Accounted staff id total extra charges) (ht : l.tasks[j]? = some t)
    {ms : Nat} {next : Unit → Program (Processing P.Route κ) ProcessingOutcome}
    (hprogram : t.program = .call (.publishing (.ambient (.sleep ms))) next) (wakeAt : Nat) :
    ∃ charges', { l with
      tasks := l.tasks.set j { t with wakeAt := wakeAt, program := next () } }.Accounted staff id
        total extra charges' := by
  obtain ⟨c, hc, rfl⟩ := h.charge ht
  obtain ⟨hmember, acker, q, m, hd, hm, hletter, hq, hbacked, howes⟩ :=
    h.valid c (List.mem_of_getElem? hc)
  rw [hprogram] at howes
  have hfair : Fair c.subscriber.calls
      (⟨.publishing (.ambient (.sleep ms)), ()⟩ : Event (Processing P.Route κ)) := trivial
  obtain ⟨left, howes', hpaid⟩ := howes.call l.engine.context hfair
  let c' : Charge P κ :=
    { c with task := { c.task with wakeAt := wakeAt, program := next () }, debt := left }
  have hvalid : c'.Valid staff id l.engine :=
    ⟨hmember, acker, q, m, hd, hm, hletter, hq, hbacked, howes'⟩
  exact ⟨charges.set j c', h.pay (d := c') hc rfl rfl rfl hpaid h.ready h.inHand
    (Network.gains_nothing h.orderly rfl) (.of_eq (List.append_nil _).symm) (fun _ _ => rfl) hvalid
    (h.opened hc)⟩

/-- A task that is done owes nothing. -/
theorem Accounted.erase (h : l.Accounted staff id total extra charges) (ht : l.tasks[j]? = some t)
    {out : ProcessingOutcome} (hprogram : t.program = .done out) :
    { l with tasks := l.tasks.eraseIdx j }.Accounted staff id total extra (charges.eraseIdx j) := by
  obtain ⟨c, hc, rfl⟩ := h.charge ht
  obtain ⟨-, acker, q, m, -, -, -, -, -, howes⟩ := h.valid c (List.mem_of_getElem? hc)
  rw [hprogram] at howes
  have hdebt := howes.done
  have hinvocations : c.invocations = [] := by
    simp [Charge.invocations, Reaction.invocations, hdebt]
  have hjobs : c.jobs = [] := by simp [Charge.jobs, Reaction.jobs, hdebt]
  have hsplit := perm_of_getElem? hc
  have hpast := hsplit.flatMap_right (·.invocations)
  have hleft := hsplit.flatMap_right (·.jobs)
  rw [List.flatMap_cons, hinvocations, List.nil_append] at hpast
  rw [List.flatMap_cons, hjobs, List.nil_append] at hleft
  exact
    { plain := h.plain
      stopped := h.stopped
      ready := h.ready
      inHand := h.inHand
      orderly := h.orderly
      posted := h.posted
      tasks := by rw [← List.eraseIdx_map, h.tasks]
      valid := fun u hu => h.valid u (List.mem_of_mem_eraseIdx hu)
      apart := by
        rw [← List.eraseIdx_map]
        exact h.apart.eraseIdx j
      underway := .inl (h.opened hc)
      balanced := h.balanced.perm (hpast.append_left _) (hleft.append_left _) }

/-! ## A dispatcher whose task is done -/

/-- Where a dispatcher goes from here when one of its tasks is done. -/
theorem phase_complete {μ : Type} (state : Dispatcher.State μ) (k : Nat) :
    (state.complete k).phase = .receiving ∧ state.phase = .working ∨
      (state.complete k).phase = state.phase := by
  obtain ⟨workers, phase, lost, inFlight, started⟩ := state
  cases phase with
  | working => exact .inl ⟨rfl, rfl⟩
  | _ => exact .inr rfl

theorem posted_complete {n : Network P} (h : r.Posted staff id n) (k : Nat) :
    ({ r with waiting := none, state := r.state.complete k } : Receiver P).Posted staff id n ∧
      ({ r with waiting := none, state := r.state.complete k } : Receiver P).jobs staff =
        r.jobs staff := by
  obtain ⟨hlasting, i, s, hsubscriber, hs, hwhere⟩ := h
  rcases phase_complete r.state k with ⟨hafter, hbefore⟩ | hsame
  · rcases hwhere with ⟨-, hphase⟩ | ⟨hattempted, hqueue, -⟩
    · rw [hbefore] at hphase
      cases hphase
    · refine ⟨⟨hlasting, i, s, hsubscriber, hs, .inr ⟨hattempted, hqueue, ?_⟩⟩, ?_⟩
      · show Receiver.AtWork id n s.binding (r.state.complete k).phase
        rw [hafter]
        exact .receiving
      · simp only [Receiver.jobs, hafter, hbefore, hsubscriber]
  · refine ⟨⟨hlasting, i, s, hsubscriber, hs, ?_⟩, ?_⟩
    · show _ ∧ (r.state.complete k).phase = _ ∨ _ ∧ _ ∧ Receiver.AtWork id n s.binding
        (r.state.complete k).phase
      rw [hsame]
      exact hwhere
    · simp only [Receiver.jobs, hsame]

theorem Accounted.complete (h : l.Accounted staff id total extra charges)
    (ht : l.tasks[j]? = some t) {out : ProcessingOutcome} (hprogram : t.program = .done out) :
    (∃ charges', (l.complete j t).Accounted staff id total extra charges') ∧
      l.Onward (l.complete j t) := by
  have herased := h.erase ht hprogram
  have honward : l.Onward { l with tasks := l.tasks.eraseIdx j } := .of_receivers rfl rfl rfl
  unfold Live.complete
  dsimp only
  cases hr : l.receivers[t.receiver]? with
  | none => exact ⟨⟨_, herased⟩, honward⟩
  | some r =>
    have hstep : r.state.step (.completed t.number) =
        if r.state.inFlight.contains t.number then some (r.state.complete t.number, [])
        else none := by
      obtain ⟨workers, phase, lost, inFlight, started⟩ := r.state
      cases phase <;> rfl
    dsimp only
    unfold Live.tell
    rw [hstep]
    split
    · obtain ⟨hposted, hjobs⟩ := posted_complete (h.posted r (List.mem_of_getElem? hr)) t.number
      refine ⟨⟨_, herased.setReceiver hr hposted (.of_eq (congrArg (· ++ extra) hjobs))⟩, ?_⟩
      exact onward_set rfl rfl rfl hr rfl fun hattempted => hattempted
    · exact ⟨⟨_, herased⟩, honward⟩

theorem Accounted.stepTask (hcrew : Crew staff id) (h : l.Accounted staff id total extra charges)
    (hstep : l.stepTask j = some l') :
    (∃ charges', l'.Accounted staff id total extra charges') ∧ l.Onward l' := by
  obtain ⟨t, ht, hstep⟩ := Option.bind_eq_some_iff.mp hstep
  split at hstep
  · cases hstep
  · split at hstep
    · rename_i out hprogram
      obtain rfl := Option.some.inj hstep
      exact h.complete ht hprogram
    · rename_i ms next hprogram
      obtain rfl := Option.some.inj hstep
      exact ⟨h.sleep ht hprogram _, .of_receivers rfl rfl rfl⟩
    · rename_i op next _ hprogram
      obtain rfl := Option.some.inj hstep
      exact ⟨h.operate hcrew ht hprogram, .of_receivers rfl rfl rfl⟩

/-! ## A dispatcher goes on -/

/-- A dispatcher whose loop goes on without a message in its hands. -/
theorem Accounted.posted_loop {n : Network P} (hlasting : r.ended = false)
    (hsubscriber : r.subscriber = .member j) (hs : staff[j]? = some s)
    (hattempted : r.attempted = true) (hqueue : ∃ q, r.queue = some q ∧ n.Has q s.binding)
    (hphase : r.state.phase = .receiving ∨ r.state.phase = .working) :
    r.Posted staff id n ∧ r.jobs staff = [] := by
  refine ⟨⟨hlasting, j, s, hsubscriber, hs, .inr ⟨hattempted, hqueue, ?_⟩⟩, ?_⟩
  · rcases hphase with hphase | hphase <;> rw [hphase]
    · exact .receiving
    · exact .working
  · rcases hphase with hphase | hphase <;> simp only [Receiver.jobs, hsubscriber, hphase]

theorem phase_afterStart {μ : Type} (state : Dispatcher.State μ) :
    state.afterStart = .receiving ∨ state.afterStart = .working := by
  unfold Dispatcher.State.afterStart
  split
  · exact .inr rfl
  · exact .inl rfl

/-- A dispatcher gives a message to a worker. -/
theorem Accounted.start (hcrew : Crew staff id) (h : l.Accounted staff id total extra charges)
    (hr : l.receivers[i]? = some r) (hposted : r'.Posted staff id l.engine.network)
    (hidle : r'.jobs staff = []) (hsame : r'.subscriber = r.subscriber)
    (hattempted : r.attempted = true → r'.attempted = true)
    (hsubscriber : r.subscriber = .member j) (hs : staff[j]? = some s)
    (hq : l.engine.network.Has q s.binding) (hm : m.Under id)
    (hjobs : (r.jobs staff ++ extra).Perm (.handle s.binding m.letter :: extra')) (k : Nat) :
    (∃ charges', (effect i r' { l with receivers := l.receivers.set i r' }
      (.start k (q, m))).Accounted staff id total extra' charges') ∧
    l.Onward (effect i r' { l with receivers := l.receivers.set i r' } (.start k (q, m))) := by
  have hmoved : { l with receivers := l.receivers.set i r' }.Accounted staff id total
      (.handle s.binding m.letter :: extra') charges := by
    refine h.setReceiver hr hposted ?_
    rw [hidle]
    exact hjobs.symm
  have honward : l.Onward { l with receivers := l.receivers.set i r' } :=
    onward_set rfl rfl rfl hr hsame hattempted
  exact ⟨hmoved.begin hcrew (hsame.trans hsubscriber) hs hq hm i k,
    honward.trans (onward_begin ..)⟩

theorem Accounted.subscribe (h : l.Accounted staff id total extra charges)
    (hr : l.receivers[i]? = some r) (hphase : r.state.phase = .subscribing)
    (hstep : l.subscribe i r = some l') :
    (∃ charges', l'.Accounted staff id total extra charges') ∧ l.Onward l' := by
  obtain ⟨hlasting, j, s, hsubscriber, hs, -⟩ := h.posted r (List.mem_of_getElem? hr)
  obtain ⟨s', hfound, rfl⟩ := h.ready.exists_bare hsubscriber hs
  obtain ⟨q, n, hopened, horderly, hq, hhas, hjobs, hsubscribes, hreceives⟩ :=
    Network.of_subscribe h.ready.clear.subscriptions
      (List.mem_map_of_mem (List.mem_of_getElem? hs)) h.orderly
  have hnetwork : { l with engine := { l.engine with network := n } }.Accounted staff id total extra
      charges :=
    h.setNetwork (hsubscribes.trans h.ready.clear.subscriptions.symm) hreceives horderly hhas
      (.of_eq (by rw [hjobs]))
  unfold Live.subscribe at hstep
  have hbinding : s'.bare.binding = s'.binding := rfl
  rw [hbinding] at hopened
  simp only [hfound, Option.bind_some, hopened] at hstep
  have hstepped : r.state.step .subscribed = some (r.state.goto .receiving, []) := by
    simp only [Dispatcher.State.step, hphase]
  simp only [Live.tell, hstepped, Option.map_some, List.foldl_nil, Option.some.injEq] at hstep
  subst hstep
  let r' : Receiver P :=
    { r with attempted := true, queue := some q, waiting := none, ended := false,
             state := r.state.goto .receiving }
  obtain ⟨hposted, hidle⟩ := posted_loop (r := r') (n := n) rfl hsubscriber hs rfl ⟨q, rfl, hq⟩
    (.inl rfl)
  have hnone : r.jobs staff = [] := by simp only [Receiver.jobs, hsubscriber, hphase]
  exact ⟨⟨_, hnetwork.setReceiver hr hposted (.of_eq (by rw [hidle, hnone]))⟩,
    onward_set rfl rfl rfl hr rfl fun _ => rfl⟩

/-- The message that a dispatcher holds goes to a worker. -/
theorem Accounted.workerFree (hcrew : Crew staff id) (h : l.Accounted staff id total extra charges)
    (hr : l.receivers[i]? = some r) {held : Nat × Message P.Route}
    (hphase : r.state.phase = .holding held) (hstep : l.tell i r .workerFree = some l') :
    (∃ charges', l'.Accounted staff id total extra charges') ∧ l.Onward l' := by
  obtain ⟨hlasting, j, s, hsubscriber, hs, hwhere⟩ := h.posted r (List.mem_of_getElem? hr)
  rw [hphase] at hwhere
  rcases hwhere with ⟨-, hwhere⟩ | ⟨hattempted, hqueue, hat⟩
  · cases hwhere
  · cases hat with
    | @holding q m hq hm =>
      have hstepped : r.state.step .workerFree =
          if r.state.hasWorker then some (r.state.start (q, m) r.state.afterStart) else none := by
        simp only [Dispatcher.State.step, hphase]
      simp only [Live.tell, hstepped] at hstep
      split at hstep
      · obtain rfl := Option.some.inj hstep
        let r' : Receiver P := { r with state := (r.state.start (q, m) r.state.afterStart).1 }
        obtain ⟨hposted, hidle⟩ := posted_loop (r := r') (n := l.engine.network) hlasting
          hsubscriber hs hattempted hqueue (phase_afterStart r.state)
        have hheld : r.jobs staff = [.handle s.binding m.letter] := by
          simp [Receiver.jobs, hsubscriber, hphase, hs]
        exact h.start hcrew hr hposted hidle rfl (fun _ => hattempted) hsubscriber hs hq hm
          (.of_eq (congrArg (· ++ extra) hheld)) r.state.started
      · cases hstep

/-- What a dispatcher does other than to receive a message. -/
theorem Accounted.heed (hcrew : Crew staff id) (h : l.Accounted staff id total extra charges)
    (hstep : l.heed i = some l') :
    (∃ charges', l'.Accounted staff id total extra charges') ∧ l.Onward l' := by
  obtain ⟨r, hr, hstep⟩ := Option.bind_eq_some_iff.mp hstep
  have hposted := h.posted r (List.mem_of_getElem? hr)
  obtain ⟨hlasting, j, s, hsubscriber, hs, hwhere⟩ := hposted
  have hrunning : l.isStopped r = false := by simp [isStopped, h.stopped]
  have hopen : l.isClosed r.subscriber = false := by
    obtain ⟨s', hfound, rfl⟩ := h.ready.exists_bare hsubscriber hs
    rw [isClosed, hfound]
    exact hcrew.unclosed s'.bare (List.mem_of_getElem? hs)
  cases hphase : r.state.phase with
  | subscribing =>
    simp only [hphase, hrunning, hopen, Bool.false_eq_true, if_false] at hstep
    exact h.subscribe hr hphase hstep
  | receiving =>
    simp only [hphase, hrunning, hopen, hlasting, Bool.false_eq_true, if_false] at hstep
    unfold poll at hstep
    split at hstep
    · cases hstep
    · simp only [Network.takeFailure, h.ready.clear.receptions, gt_iff_lt, Nat.lt_irrefl, if_false,
        Option.some.injEq] at hstep
      subst hstep
      have hmoved : { l with receivers := l.receivers.set i { r with waiting := some l.places }
          }.Accounted staff id total extra charges :=
        h.setReceiver hr ⟨hlasting, j, s, hsubscriber, hs, hwhere⟩ (.refl _)
      exact ⟨⟨charges, hmoved.moved hmoved.ready hmoved.inHand hmoved.orderly (fun _ _ hq => hq)
        hmoved.posted rfl rfl (.refl _) rfl rfl rfl⟩,
        onward_set rfl rfl rfl hr rfl fun hattempted => hattempted⟩
  | holding held =>
    simp only [hphase] at hstep
    exact h.workerFree hcrew hr hphase hstep
  | pausing =>
    rw [hphase] at hwhere
    rcases hwhere with ⟨-, hwhere⟩ | ⟨-, -, hwhere⟩ <;> cases hwhere
  | working =>
    simp only [hphase] at hstep
    cases hstep
  | left =>
    simp only [hphase] at hstep
    cases hstep

/-- It may be put down that a subscription is restored. -/
theorem Accounted.restored (h : l.Accounted staff id total extra charges) (i : Nat) (lost : Bool) :
    ∃ noted : Live P κ α, noted.Accounted staff id total extra charges ∧ l.Onward noted ∧
      noted.receivers = l.receivers ∧ noted.engine.network = l.engine.network ∧
      ∀ r : Receiver P, (if lost then [.log Dispatcher.restoredLine] else []).foldl (effect i r)
          { l with receivers := l.receivers.set i r } =
        { noted with receivers := noted.receivers.set i r } := by
  cases lost with
  | false => exact ⟨l, h, .of_receivers rfl rfl rfl, rfl, rfl, fun _ => rfl⟩
  | true =>
    have hready : (l.engine.log [Dispatcher.restoredLine]).Ready staff :=
      h.ready.congr rfl (h.ready.clear.congr rfl rfl rfl)
    exact ⟨{ l with engine := l.engine.log [Dispatcher.restoredLine] }, h.idle hready rfl rfl rfl,
      .of_receivers rfl rfl rfl, rfl, rfl, fun _ => rfl⟩

/-- A message that has come to a dispatcher goes to a worker, or is held until there is one. -/
theorem Accounted.assign (hcrew : Crew staff id)
    (h : l.Accounted staff id total (.handle s.binding m.letter :: extra) charges)
    (hr : l.receivers[i]? = some r) (hphase : r.state.phase = .receiving)
    (hlasting : r.ended = false) (hattempted : r.attempted = true) (hqueue : r.queue = some q)
    (hsubscriber : r.subscriber = .member j) (hs : staff[j]? = some s)
    (hq : l.engine.network.Has q s.binding) (hm : m.Under id)
    (found : Dispatcher.State (Nat × Message P.Route))
    (hr' : r' = { r with waiting := none, state := (found.assign (q, m)).1 }) :
    (∃ charges', ((found.assign (q, m)).2.foldl (effect i r')
      { l with receivers := l.receivers.set i r' }).Accounted staff id total extra charges') ∧
    l.Onward ((found.assign (q, m)).2.foldl (effect i r')
      { l with receivers := l.receivers.set i r' }) := by
  subst hr'
  have hnone : r.jobs staff = [] := by simp only [Receiver.jobs, hsubscriber, hphase]
  by_cases hworker : found.hasWorker = true
  · have hassign : found.assign (q, m) =
        ((found.start (q, m) found.afterStart).1, [.start found.started (q, m)]) := by
      simp only [Dispatcher.State.assign, hworker, if_true]
      rfl
    rw [hassign]
    let started : Receiver P :=
      { r with waiting := none, state := (found.start (q, m) found.afterStart).1 }
    obtain ⟨hposted, hidle⟩ := posted_loop (r := started) (n := l.engine.network) hlasting
      hsubscriber hs hattempted ⟨q, hqueue, hq⟩ (phase_afterStart found)
    exact h.start hcrew hr hposted hidle rfl (fun _ => hattempted) hsubscriber hs hq hm
      (.of_eq (by rw [hnone]; rfl)) found.started
  · have hassign : found.assign (q, m) = (found.goto (.holding (q, m)), []) := by
      simp only [Dispatcher.State.assign, hworker]
      rfl
    rw [hassign]
    let holding : Receiver P := { r with waiting := none, state := found.goto (.holding (q, m)) }
    have hheld : holding.jobs staff = [.handle s.binding m.letter] := by
      simp [holding, Receiver.jobs, Dispatcher.State.goto, hsubscriber, hs]
    have hposted : holding.Posted staff id l.engine.network :=
      ⟨hlasting, j, s, hsubscriber, hs, .inr ⟨hattempted, ⟨q, hqueue, hq⟩, .holding hq hm⟩⟩
    exact ⟨⟨_, h.setReceiver hr hposted (.of_eq (by rw [hheld, hnone]; rfl))⟩,
      onward_set rfl rfl rfl hr rfl fun hattempted => hattempted⟩

theorem eq_of_awaited? (h : awaited? r = some q) :
    r.state.phase = .receiving ∧ r.queue = some q := by
  unfold awaited? at h
  split at h
  · rename_i hphase
    split at h
    · exact ⟨hphase, h⟩
    · cases h
  · cases h

/-- A message comes to a dispatcher that waits for one. -/
theorem Accounted.receive (hcrew : Crew staff id) (h : l.Accounted staff id total extra charges)
    (hstep : l.receive i = some l') :
    (∃ charges', l'.Accounted staff id total extra charges') ∧ l.Onward l' := by
  obtain ⟨r, hr, hstep⟩ := Option.bind_eq_some_iff.mp hstep
  obtain ⟨q, hawaited, hstep⟩ := Option.bind_eq_some_iff.mp hstep
  obtain ⟨⟨m, n⟩, hpop, hstep⟩ := Option.bind_eq_some_iff.mp hstep
  obtain ⟨hlasting, j, s, hsubscriber, hs, hwhere⟩ := h.posted r (List.mem_of_getElem? hr)
  obtain ⟨hphase, hqueue⟩ := eq_of_awaited? hawaited
  rw [hphase] at hwhere
  rcases hwhere with ⟨-, hwhere⟩ | ⟨hattempted, ⟨q', hqueue', hq⟩, -⟩
  · cases hwhere
  · obtain rfl := Option.some.inj (hqueue'.symm.trans hqueue)
    obtain ⟨horderly, hm, hhas, hsubscribes, hreceives, htaken⟩ := Network.of_pop hpop h.orderly
    -- the message is on its way from the queue to a worker
    have hpopped : { l with engine := { l.engine with network := n } }.Accounted staff id total
        (.handle s.binding m.letter :: extra) charges :=
      h.setNetwork hsubscribes hreceives horderly hhas
        (List.perm_middle.trans ((htaken s.binding hq).symm.append_right extra))
    have hfresh : Network.isWakeup m = false := hm.isWakeup
    simp only [hfresh, Bool.false_eq_true, if_false] at hstep
    have hstepped : r.state.step (.received (q', m)) = some (r.state.receive (q', m)) := by
      simp only [Dispatcher.State.step, hphase]
    simp only [Live.tell, hstepped, Option.map_some, Option.some.injEq] at hstep
    obtain ⟨noted, hnoted, honward, hreceivers, hnetwork, hsame⟩ := hpopped.restored i r.state.lost
    have hstays : l.Onward { l with engine := { l.engine with network := n } } :=
      .of_receivers rfl rfl rfl
    have hhas' : noted.engine.network.Has q' s.binding := hnetwork ▸ hhas _ _ hq
    rw [← hreceivers] at hr
    obtain ⟨haccounted, hgone⟩ := hnoted.assign hcrew hr hphase hlasting hattempted hqueue
      hsubscriber hs hhas' hm { r.state with lost := false } rfl
    rw [Dispatcher.State.receive, List.foldl_append, hsame] at hstep
    subst hstep
    exact ⟨haccounted, (hstays.trans honward).trans hgone⟩

/-- Whatever happens next, unless a client does it, the account is kept. -/
theorem Accounted.step (hcrew : Crew staff id) (h : l.Accounted staff id total extra charges)
    {next : LiveStep} (hnext : ∀ c, next ≠ .client c) (hstep : l.step next = some l') :
    (∃ charges', l'.Accounted staff id total extra charges') ∧ l.Onward l' := by
  cases next with
  | task j => exact h.stepTask hcrew hstep
  | client c => exact absurd rfl (hnext c)
  | heed i => exact h.heed hcrew hstep
  | receive i => exact h.receive hcrew hstep
  | elapse ms =>
    obtain rfl := Option.some.inj hstep
    have hready : { l.engine with now := l.engine.now + ms }.Ready staff :=
      h.ready.congr rfl (h.ready.clear.congr rfl rfl rfl)
    exact ⟨⟨charges, h.idle hready rfl rfl rfl⟩, .of_receivers rfl rfl rfl⟩

end Live
end MessageDispatch
