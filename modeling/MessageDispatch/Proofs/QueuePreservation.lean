import MessageDispatch.Proofs.FailureFree
import MessageDispatch.Proofs.Queues
import MessageDispatch.Proofs.Workers

/-! What the broker has stays with it. Whatever is done in a group, messages come to the ends of
queues, no settlement is forgotten, and a broker that refuses no settlement goes on like that. The
one way for a message to leave its queue is that a dispatcher receives it which waits there. -/
namespace MessageDispatch

variable {P : Protocol} {κ α : Type}

namespace Network

variable {n n' n'' : Network P}

/-- No message has left its queue, and no settlement is forgotten. -/
structure Keeps (n n' : Network P) : Prop where
  settlements : n.settlements <+: n'.settlements
  queues : ∀ (q : Nat) (queue : Queue P), n.queues[q]? = some queue →
    ∃ queue', n'.queues[q]? = some queue' ∧ queue'.binding = queue.binding ∧
      queue.waiting <+: queue'.waiting

theorem Keeps.of_eq (hsettlements : n'.settlements = n.settlements)
    (hqueues : n'.queues = n.queues) : n.Keeps n' :=
  ⟨hsettlements ▸ List.prefix_refl _,
    fun _ queue hqueue => ⟨queue, hqueues ▸ hqueue, rfl, List.prefix_refl _⟩⟩

theorem Keeps.refl (n : Network P) : n.Keeps n := .of_eq rfl rfl

theorem Keeps.trans (h : n.Keeps n') (h' : n'.Keeps n'') : n.Keeps n'' where
  settlements := h.settlements.trans h'.settlements
  queues := by
    intro q queue hqueue
    obtain ⟨queue', hqueue', hbinding, hwaiting⟩ := h.queues q queue hqueue
    obtain ⟨queue'', hqueue'', hbinding', hwaiting'⟩ := h'.queues q queue' hqueue'
    exact ⟨queue'', hqueue'', hbinding'.trans hbinding, hwaiting.trans hwaiting'⟩

theorem Grows.keeps {added : Nat → P.Binding → List (Message P.Route)} (h : n.Grows added n') :
    n.Keeps n' where
  settlements := h.settlements ▸ List.prefix_refl _
  queues := by
    intro q queue hqueue
    obtain ⟨queue', hqueue', hbinding, fresh, hwaiting, -⟩ := h.queues hqueue
    exact ⟨queue', hqueue', hbinding, hwaiting ▸ List.prefix_append ..⟩

theorem keeps_publish (n : Network P) (m : Message P.Route) : n.Keeps (n.publish m) := by
  have hnoted : n.Keeps { n with published := n.published ++ [m] } := .of_eq rfl rfl
  exact hnoted.trans (grows_publish n m).keeps

theorem keeps_settle (n : Network P) (q : Nat) (m : Message P.Route) (action : Action) :
    n.Keeps (n.settle q m action) := by
  have hnoted : n.Keeps { n with settlements := n.settlements ++ [⟨m.idText, action⟩] } :=
    ⟨List.prefix_append .., fun _ queue hqueue => ⟨queue, hqueue, rfl, List.prefix_refl _⟩⟩
  exact hnoted.trans (grows_settle n q m action).keeps

theorem keeps_subscribe (n : Network P) (b : P.Binding) : n.Keeps (n.subscribe b).2 := by
  obtain ⟨err, h⟩ | ⟨q, queue, -, -, h⟩ | ⟨-, h⟩ := n.subscribe_cases b
  · rw [h]
    exact .of_eq rfl rfl
  · rw [h]
    exact .of_eq rfl rfl
  · rw [h]
    refine ⟨List.prefix_refl _, fun q queue hqueue => ⟨queue, ?_, rfl, List.prefix_refl _⟩⟩
    exact getElem?_concat_iff.mpr (.inl hqueue)

theorem keeps_takeFailure (h : n.takeFailure = some n') : n.Keeps n' := by
  obtain ⟨-, h⟩ := Option.ite_none_right_eq_some.mp h
  obtain rfl := Option.some.inj h
  exact .of_eq rfl rfl

end Network

/-! ## The engine -/

namespace Engine

variable {e e' e'' : Engine P κ}

/-- Time does not go back, and the broker refuses no settlement if it refused none before. -/
structure Lasts (e e' : Engine P κ) : Prop where
  now : e.now ≤ e'.now
  takes : e.weather.settleFailures = 0 → e'.weather.settleFailures = 0

theorem Lasts.of_eq (hnow : e'.now = e.now)
    (hweather : e'.weather.settleFailures = e.weather.settleFailures) : e.Lasts e' :=
  ⟨Nat.le_of_eq hnow.symm, fun h => hweather.trans h⟩

theorem Lasts.refl (e : Engine P κ) : e.Lasts e := .of_eq rfl rfl

theorem Lasts.trans (h : e.Lasts e') (h' : e'.Lasts e'') : e.Lasts e'' :=
  ⟨Nat.le_trans h.now h'.now, h'.takes ∘ h.takes⟩

/-- Besides, the broker keeps what it has. -/
structure Keeps (e e' : Engine P κ) : Prop extends Lasts e e' where
  network : e.network.Keeps e'.network

theorem Keeps.of_eq (hlasts : e.Lasts e') (hnetwork : e'.network = e.network) : e.Keeps e' :=
  ⟨hlasts, hnetwork ▸ .refl _⟩

theorem Keeps.refl (e : Engine P κ) : e.Keeps e := .of_eq (.refl e) rfl

theorem Keeps.trans (h : e.Keeps e') (h' : e'.Keeps e'') : e.Keeps e'' :=
  ⟨h.toLasts.trans h'.toLasts, h.network.trans h'.network⟩

theorem keeps_updateSubscriber (e : Engine P κ) (ref : SubscriberRef)
    (f : Subscriber P κ → Subscriber P κ) : e.Keeps (e.updateSubscriber ref f) := by
  cases ref <;> exact .of_eq (.of_eq rfl rfl) rfl

theorem keeps_instruct (delivery : Nat) (action : Action) (e : Engine P κ) :
    e.Keeps (instruct delivery action e).2 := by
  unfold instruct
  split
  · split
    · exact ⟨⟨Nat.le_refl _, fun h => by simp [h]⟩, .refl _⟩
    · exact ⟨.of_eq rfl rfl, Network.keeps_settle ..⟩
  · exact .of_eq (.of_eq rfl rfl) rfl
  · exact .refl e

theorem keeps_settling (delivery : Nat) (action : Action) (a : Acker) (e : Engine P κ) :
    e.Keeps (a.settle (instruct delivery) action e).2.2 := by
  unfold Acker.settle
  split
  · exact .refl e
  · split
    · exact keeps_instruct ..
    · exact .refl e

theorem keeps_ending (e : Engine P κ) (scope : Scope) (id : String) (outcome : Outcome) :
    e.Keeps (e.ending scope id outcome).broker := by
  unfold ending Attempt.exit
  cases Attempt.instruction (e.watcher scope.subscriber) id outcome with
  | none => exact .refl e
  | some action =>
    have hsettling := keeps_settling scope.delivery action (e.acker scope.delivery) e
    dsimp only
    split <;> exact hsettling

theorem keeps_execPublishing (op : Publishing.Op P.Route κ) (e : Engine P κ)
    (item : Option (Option String)) : e.Keeps (execPublishing op (e, item)).2.1 := by
  cases op with
  | ambient op =>
    cases op with
    | sleep ms => exact ⟨⟨Nat.le_add_right .., id⟩, .refl _⟩
    | setLocal text => cases item <;> exact .of_eq (.of_eq rfl rfl) rfl
    | _ => exact .of_eq (.of_eq rfl rfl) rfl
  | fate =>
    simp only [execPublishing]
    cases e.weather.fates <;> exact .of_eq (.of_eq rfl rfl) rfl
  | send m => exact ⟨.of_eq rfl rfl, Network.keeps_publish ..⟩
  | _ => exact .of_eq (.of_eq rfl rfl) rfl

theorem keeps_execProcessing (op : Processing.Op P.Route κ) (e : Engine P κ) (scope : Scope) :
    e.Keeps (execProcessing op (e, scope)).2.1 := by
  cases op with
  | publishing op => exact keeps_execPublishing op e scope.item
  | settle action =>
    have hsettling := keeps_settling scope.delivery action (e.acker scope.delivery) e
    exact ⟨⟨hsettling.now, hsettling.takes⟩, hsettling.network⟩
  | exit id outcome =>
    have hending := keeps_ending e scope id outcome
    let ended := e.ending scope id outcome
    have hupdated := keeps_updateSubscriber (ended.broker.setAcker scope.delivery ended.acker)
      scope.subscriber ({ · with watcher := ended.watcher })
    exact ⟨⟨Nat.le_trans hending.now hupdated.now, fun h => hupdated.takes (hending.takes h)⟩,
      hending.network.trans hupdated.network⟩
  | enter | recordBody | recordForwarded | close => exact keeps_updateSubscriber ..
  | settlement | log | calls | resolve => exact .of_eq (.of_eq rfl rfl) rfl

/-- Somebody who has no message in hand makes use of the engine. -/
structure Serves (e e' : Engine P κ) : Prop extends Keeps e e' where
  subscriber? : ∀ ref s, e.subscriber? ref = some s → e'.subscriber? ref = some s
  deliveries : e'.deliveries = e.deliveries

theorem Serves.of_eq (hkeeps : e.Keeps e') (hsubscribers : e'.subscribers = e.subscribers)
    (hinbox : e'.inbox = e.inbox) (hdeliveries : e'.deliveries = e.deliveries) : e.Serves e' where
  toKeeps := hkeeps
  subscriber? := by
    intro ref s hs
    cases ref with
    | member i => exact (congrArg (·[i]?) hsubscribers).trans hs
    | inbox => exact (congrArg (·.map (·.2)) hinbox).trans hs
  deliveries := hdeliveries

theorem Serves.refl (e : Engine P κ) : e.Serves e := .of_eq (.refl e) rfl rfl rfl

theorem serves_execPublishing (op : Publishing.Op P.Route κ) (e : Engine P κ)
    (item : Option (Option String)) : e.Serves (execPublishing op (e, item)).2.1 := by
  obtain ⟨hsubscribers, hinbox, hdeliveries⟩ := execPublishing_keeps op e item
  exact .of_eq (keeps_execPublishing op e item) hsubscribers hinbox hdeliveries

end Engine

/-! ## The steps of a group -/

namespace Live

variable {l l' : Live P κ α} {i : Nat}

theorem lasts_effect (l : Live P κ α) (r : Receiver P)
    (effect : Dispatcher.Effect (Nat × Message P.Route)) :
    (Live.effect i r l effect).engine.network = l.engine.network ∧
      l.engine.Lasts (Live.effect i r l effect).engine := by
  cases effect with
  | log line => exact ⟨rfl, .of_eq rfl rfl⟩
  | unsubscribe =>
    simp only [Live.effect, unsubscribe]
    split <;> exact ⟨rfl, .of_eq rfl rfl⟩
  | start number message =>
    simp only [Live.effect, begin]
    split <;> exact ⟨rfl, .of_eq rfl rfl⟩

theorem lasts_foldl_effect (effects : List (Dispatcher.Effect (Nat × Message P.Route)))
    (l : Live P κ α) (r : Receiver P) :
    (effects.foldl (Live.effect i r) l).engine.network = l.engine.network ∧
      l.engine.Lasts (effects.foldl (Live.effect i r) l).engine := by
  induction effects generalizing l with
  | nil => exact ⟨rfl, .refl _⟩
  | cons effect effects ih =>
    obtain ⟨hnetwork, hlasts⟩ := lasts_effect (i := i) l r effect
    obtain ⟨hnetwork', hlasts'⟩ := ih (Live.effect i r l effect)
    exact ⟨hnetwork'.trans hnetwork, hlasts.trans hlasts'⟩

/-- What a dispatcher decides on is nothing for the broker. -/
theorem lasts_tell {r : Receiver P} {event : Dispatcher.Event (Nat × Message P.Route)}
    (h : l.tell i r event = some l') :
    l'.engine.network = l.engine.network ∧ l.engine.Lasts l'.engine := by
  obtain ⟨⟨state, effects⟩, -, rfl⟩ := Option.map_eq_some_iff.mp h
  exact lasts_foldl_effect effects _ _

theorem keeps_tell {r : Receiver P} {event : Dispatcher.Event (Nat × Message P.Route)}
    (h : l.tell i r event = some l') : l.engine.Keeps l'.engine :=
  .of_eq (lasts_tell h).2 (lasts_tell h).1

theorem keeps_heed (h : l.heed i = some l') : l.engine.Keeps l'.engine := by
  obtain ⟨r, -, h⟩ := Option.bind_eq_some_iff.mp h
  have hsubscribe (h : l.subscribe i r = some l') : l.engine.Keeps l'.engine := by
    obtain ⟨s, -, h⟩ := Option.bind_eq_some_iff.mp h
    have hopened : l.engine.Keeps
        { l.engine with network := (l.engine.network.subscribe s.binding).2 } :=
      ⟨.of_eq rfl rfl, Network.keeps_subscribe ..⟩
    dsimp only at h
    split at h <;> exact hopened.trans (keeps_tell h)
  have hpoll (h : l.poll i r = some l') : l.engine.Keeps l'.engine := by
    obtain ⟨-, h⟩ := Option.ite_none_left_eq_some.mp h
    split at h
    · rename_i network hfailure
      have htaken : l.engine.Keeps { l.engine with network := network } :=
        ⟨.of_eq rfl rfl, Network.keeps_takeFailure hfailure⟩
      exact htaken.trans (keeps_tell h)
    · obtain rfl := Option.some.inj h
      exact .refl _
  repeat' split at h
  all_goals first
    | exact keeps_tell h
    | exact hsubscribe h
    | exact hpoll h
    | cases h

theorem serves_openInbox (l : Live P κ α) : l.engine.Serves l.openInbox.2.engine := by
  unfold openInbox
  split
  · exact .refl _
  · rename_i hnone
    refine ⟨.of_eq (.of_eq rfl rfl) rfl, fun ref s hs => ?_, rfl⟩
    cases ref with
    | member i => exact hs
    | inbox => simp [Engine.subscriber?, hnone] at hs

theorem engine_dispatch (l : Live P κ α) (ref : SubscriberRef) :
    (l.dispatch ref).2.engine = l.engine := by
  unfold dispatch
  dsimp only
  split
  · split <;> rfl
  · rfl

theorem engine_dispatchEach (refs : List SubscriberRef) (l : Live P κ α) :
    (dispatchEach refs l).2.engine = l.engine := by
  induction refs generalizing l with
  | nil => rfl
  | cons ref refs ih => exact (ih _).trans (engine_dispatch l ref)

theorem serves_answer {op : Calling.Op P.Route κ} {answer : Calling.Answer op}
    (h : l.answer i op = some (answer, l')) : l.engine.Serves l'.engine := by
  cases op with
  | publishing op =>
    obtain ⟨-, rfl⟩ := Prod.mk.inj (Option.some.inj h)
    exact Engine.serves_execPublishing op l.engine none
  | connect =>
    have hconnect : l.engine.Serves l.connect.2.engine := by
      unfold connect
      dsimp only
      repeat' split
      all_goals exact .of_eq (.of_eq (.of_eq rfl rfl) rfl) rfl rfl rfl
    rw [Option.some.inj h] at hconnect
    exact hconnect
  | dispatchAll =>
    have hengine := engine_dispatchEach l.members l
    rw [Option.some.inj h] at hengine
    exact hengine ▸ .refl _
  | dispatchInbox =>
    obtain ⟨-, rfl⟩ := Prod.mk.inj (Option.some.inj h)
    show l.engine.Serves (l.openInbox.2.dispatch .inbox).2.engine
    rw [engine_dispatch]
    exact serves_openInbox l
  | acquire =>
    obtain ⟨-, h⟩ := Option.ite_none_left_eq_some.mp h
    obtain ⟨-, rfl⟩ := Prod.mk.inj (Option.some.inj h)
    exact .refl _
  | finished | awaitFlag =>
    obtain ⟨-, h⟩ := Option.ite_none_right_eq_some.mp h
    obtain ⟨-, rfl⟩ := Prod.mk.inj (Option.some.inj h)
    exact .refl _
  | attempted d =>
    simp only [Live.answer] at h
    repeat' split at h
    all_goals first
      | cases h; done
      | obtain ⟨-, rfl⟩ := Prod.mk.inj (Option.some.inj h)
        exact .refl _
  | register id =>
    obtain ⟨-, rfl⟩ := Prod.mk.inj (Option.some.inj h)
    split <;> exact .of_eq (.of_eq (.of_eq rfl rfl) rfl) rfl rfl rfl
  | awaitReply handle deadline =>
    simp only [Live.answer] at h
    split at h
    · obtain ⟨-, h⟩ := Option.ite_none_right_eq_some.mp h
      obtain ⟨-, rfl⟩ := Prod.mk.inj (Option.some.inj h)
      exact .refl _
    · obtain ⟨-, rfl⟩ := Prod.mk.inj (Option.some.inj h)
      exact .refl _
  | withdraw id handle =>
    obtain ⟨-, rfl⟩ := Prod.mk.inj (Option.some.inj h)
    exact .of_eq (.of_eq (.of_eq rfl rfl) rfl) rfl rfl rfl
  | release | shutDown | renew | raiseFlag =>
    obtain ⟨-, rfl⟩ := Prod.mk.inj (Option.some.inj h)
    exact .refl _

theorem serves_stepClient (h : l.stepClient i = some l') : l.engine.Serves l'.engine := by
  obtain ⟨c, -, h⟩ := Option.bind_eq_some_iff.mp h
  obtain ⟨-, h⟩ := Option.ite_none_left_eq_some.mp h
  split at h
  · cases h
  · obtain rfl := Option.some.inj h
    exact .refl _
  · obtain ⟨⟨answer, l₁⟩, hanswer, rfl⟩ := Option.map_eq_some_iff.mp h
    have hserves : l.engine.Serves l₁.engine := serves_answer hanswer
    exact hserves

/-- A dispatcher takes a message from the queue that it waits at. -/
structure Draws (l l' : Live P κ α) (i q : Nat) (m : Message P.Route) : Prop where
  awaited : ∃ r, l.receivers[i]? = some r ∧ awaited? r = some q
  popped : l.engine.network.pop q = some (m, l'.engine.network)
  lasts : l.engine.Lasts l'.engine
  /-- It is received, unless it was sent to wake up whoever waits. -/
  received : l.received? i = if Network.isWakeup m then none else some (q, m)

theorem draws_of_receive (h : l.receive i = some l') : ∃ q m, Draws l l' i q m := by
  obtain ⟨r, hr, h⟩ := Option.bind_eq_some_iff.mp h
  obtain ⟨q, hq, h⟩ := Option.bind_eq_some_iff.mp h
  obtain ⟨⟨m, network⟩, hpop, h⟩ := Option.bind_eq_some_iff.mp h
  have hreceived : l.received? i = if Network.isWakeup m then none else some (q, m) := by
    simp only [received?, hr, hq, hpop, Option.bind_some]
  dsimp only at h
  split at h
  · obtain rfl := Option.some.inj h
    exact ⟨q, m, ⟨r, hr, hq⟩, hpop, .of_eq rfl rfl, hreceived⟩
  · obtain ⟨hnetwork, hlasts⟩ := lasts_tell h
    exact ⟨q, m, ⟨r, hr, hq⟩, hnetwork ▸ hpop, ⟨hlasts.now, hlasts.takes⟩, hreceived⟩

theorem Performs.keeps {j : Nat} {t t' : ProcessingTask P κ} {op : Processing.Op P.Route κ}
    (h : Performs l l' j t t' op) : l.engine.Keeps l'.engine := by
  rcases h.engine with hengine | ⟨hengine, -⟩
  · rw [hengine]
    exact Engine.keeps_execProcessing op l.engine t.scope
  · rw [hengine]
    exact .refl _

theorem Ends.keeps {j : Nat} {t : ProcessingTask P κ} (h : Ends l l' j t) :
    l.engine.Keeps l'.engine := by
  rw [h.complete]
  unfold Live.complete
  dsimp only
  split
  · rename_i r hr
    cases htold : Live.tell { l with tasks := l.tasks.eraseIdx j } t.receiver
        { r with waiting := none } (.completed t.number) with
    | none => exact .refl _
    | some l₁ =>
      have hkeeps := keeps_tell htold
      exact hkeeps
  · exact .refl _

/-- A message is drawn by a dispatcher that waits for it, or none leaves its queue. -/
theorem keeps_of_step {ev : LiveStep} (hstep : l.step ev = some l') :
    l.engine.Keeps l'.engine ∨ ∃ i q m, ev = .receive i ∧ Draws l l' i q m := by
  cases ev with
  | task j =>
    obtain ⟨t, hends | ⟨t', op, hperforms⟩⟩ := task_cases hstep
    · exact .inl hends.keeps
    · exact .inl hperforms.keeps
  | client j => exact .inl (serves_stepClient hstep).toKeeps
  | heed i => exact .inl (keeps_heed hstep)
  | receive i =>
    obtain ⟨q, m, hdraws⟩ := draws_of_receive hstep
    exact .inr ⟨i, q, m, rfl, hdraws⟩
  | elapse ms =>
    obtain rfl := Option.some.inj hstep
    exact .inl ⟨⟨Nat.le_add_right .., id⟩, .refl _⟩

/-- Settlements are not forgotten, nor refused from some time on. -/
theorem lasts_of_step {ev : LiveStep} (hstep : l.step ev = some l') :
    l.engine.Lasts l'.engine ∧
      l.engine.network.settlements <+: l'.engine.network.settlements := by
  rcases keeps_of_step hstep with hkeeps | ⟨i, q, m, -, hdraws⟩
  · exact ⟨hkeeps.toLasts, hkeeps.network.settlements⟩
  · obtain ⟨queue, w, rest, -, -, -, hnetwork⟩ := Network.pop_eq_some_iff.mp hdraws.popped
    rw [hnetwork]
    exact ⟨hdraws.lasts, List.prefix_refl _⟩

/-- When a task completes, its dispatcher is there to hear of it. -/
theorem Ends.exists_hears {j : Nat} {t : ProcessingTask P κ} {log : List (Deed P κ)}
    (h : Ends l l' j t) (hkept : Kept log l) : ∃ r, l.receivers[t.receiver]? = some r ∧
      Hears { l with tasks := l.tasks.eraseIdx j } l' t.receiver r
        { r with waiting := none, state := r.state.complete t.number } (.completed t.number) := by
  obtain ⟨r, hr⟩ : ∃ r, l.receivers[t.receiver]? = some r :=
    ⟨_, List.getElem?_eq_getElem (hkept.known t (List.mem_of_getElem? h.found))⟩
  obtain ⟨s, hs⟩ := hkept.staffed hr
  exact ⟨r, hr, h.hears hr hs (hkept.inFlight hr h.found)⟩

/-- A task that is gone is none of what its dispatcher leaves alone. -/
theorem Advances.of_erased {j : Nat} {r r' : Receiver P}
    (h : Advances { l with tasks := l.tasks.eraseIdx j } l' i r r') : Advances l l' i r r' where
  found := h.found
  receivers := h.receivers
  subscriber := h.subscriber
  generation := h.generation
  backdrop := by
    have herased : Backdrop l { l with tasks := l.tasks.eraseIdx j } :=
      ⟨rfl, rfl, rfl, rfl, rfl, rfl, rfl, rfl, List.prefix_refl _⟩
    exact herased.trans h.backdrop

/-- What a step comes to for the dispatchers and the tasks. -/
inductive Moves (l l' : Live P κ α) : LiveStep → Prop where
  | performs {j : Nat} {t t' : ProcessingTask P κ} {op : Processing.Op P.Route κ}
      (h : Performs l l' j t t' op) : Moves l l' (.task j)
  | ends {j : Nat} {t : ProcessingTask P κ} {r : Receiver P} (hends : Ends l l' j t)
      (h : Hears { l with tasks := l.tasks.eraseIdx j } l' t.receiver r
        { r with waiting := none, state := r.state.complete t.number } (.completed t.number)) :
      Moves l l' (.task j)
  | enlists {j : Nat} (h : Enlists l l') (hserves : l.engine.Serves l'.engine) :
      Moves l l' (.client j)
  | readied {ev : LiveStep} {i : Nat} {r r' : Receiver P} (hev : ev = .heed i ∨ ev = .receive i)
      (h : Readied l l' i r r') : Moves l l' ev
  | hears {ev : LiveStep} {i : Nat} {r r' : Receiver P}
      {event : Dispatcher.Event (Nat × Message P.Route)} (hev : ev = .heed i ∨ ev = .receive i)
      (htask : event.task? = none) (h : Hears l l' i r r' event) : Moves l l' ev
  | elapses {ms : Nat}
      (hrest : l' = { l with engine := { l.engine with now := l.engine.now + ms } }) :
      Moves l l' (.elapse ms)

theorem Kept.moves {log : List (Deed P κ)} (h : Kept log l) {ev : LiveStep}
    (hstep : l.step ev = some l') : Moves l l' ev := by
  cases ev with
  | task j =>
    obtain ⟨t, hends | ⟨t', op, hperforms⟩⟩ := task_cases hstep
    · obtain ⟨r, -, hhears⟩ := hends.exists_hears h
      exact .ends hends hhears
    · exact .performs hperforms
  | client j => exact .enlists (enlists_stepClient hstep) (serves_stepClient hstep)
  | heed i =>
    obtain ⟨r, r', hreadied | ⟨event, hbare, hhears⟩⟩ := heed_cases (fun _ => h.staffed) hstep
    · exact .readied (.inl rfl) hreadied
    · exact .hears (.inl rfl) hbare.2 hhears
  | receive i =>
    obtain ⟨r, r', ⟨-, hreadied⟩ | ⟨message, -, hhears⟩⟩ :=
      receive_cases (fun _ => h.staffed) hstep
    · exact .readied (.inr rfl) hreadied
    · exact .hears (.inr rfl) rfl hhears
  | elapse ms => exact .elapses (Option.some.inj hstep).symm

/-- A subscriber is closed by the processing of one of its messages. -/
theorem closes_of_step {log : List (Deed P κ)} (hkept : Kept log l) {ev : LiveStep}
    (hstep : l.step ev = some l') {ref : SubscriberRef} (hopen : l.isClosed ref = false)
    (hclosed : l'.isClosed ref = true) : ∃ k u next, ev = .task k ∧ l.tasks[k]? = some u ∧
      u.scope.subscriber = ref ∧ u.program = .call .close next := by
  have hsame : l'.engine.standing? ref ≠ l.engine.standing? ref := by
    intro hstanding
    have hclosed_eq (l : Live P κ α) :
        l.isClosed ref = ((l.engine.standing? ref).map (·.2)).getD true := by
      rw [isClosed, Engine.standing?, Option.map_map]
      rfl
    rw [hclosed_eq, hstanding, ← hclosed_eq, hopen] at hclosed
    cases hclosed
  have hbackdrop (h : Backdrop l l') : False :=
    hsame (Engine.standing?_congr (h.subscriber? ref))
  cases hkept.moves hstep with
  | @performs j t t' op h =>
    obtain ⟨next, hprogram, -⟩ := h.program
    rcases h.engine with hengine | ⟨hengine, -⟩
    · rw [hengine] at hsame
      by_cases hop : op = .close
      · subst hop
        by_cases hscope : t.scope.subscriber = ref
        · exact ⟨j, t, next, rfl, h.found, hscope, hprogram⟩
        · rw [Engine.standing?_close, if_neg hscope] at hsame
          exact absurd rfl hsame
      · exact absurd (Engine.standing?_execProcessing hop ..) hsame
    · exact absurd (hengine ▸ rfl) hsame
  | ends hends h => exact (hbackdrop h.toAdvances.of_erased.backdrop).elim
  | enlists h hserves =>
    cases hs : l.engine.subscriber? ref with
    | none => simp [isClosed, hs] at hopen
    | some s =>
      refine absurd (Engine.standing?_congr ?_) hsame
      rw [hs, hserves.subscriber? ref s hs]
  | readied hev h => exact (hbackdrop h.backdrop).elim
  | hears hev htask h => exact (hbackdrop h.backdrop).elim
  | elapses hrest =>
    refine absurd (Engine.standing?_congr ?_) hsame
    rw [hrest]
    cases ref <;> rfl

end Live
end MessageDispatch
