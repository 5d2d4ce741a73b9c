import Mathlib.Data.List.Forall2
import MessageDispatch.Proofs.Dispatching
import MessageDispatch.Proofs.Execution
import MessageDispatch.Proofs.Lists
import MessageDispatch.Live

/-! What the steps of a group do to its dispatchers and their tasks. A dispatcher hears one event,
and begins a task for each message that it then gives to a worker; a task performs one operation, or
completes; a client may have dispatchers started. Everything else stays as it is, except that
subscribers keep their books and may be closed. -/
namespace MessageDispatch

variable {P : Protocol} {κ : Type}

/-! ## Subscribers -/

/-- What of a subscriber its dispatchers go by: how many workers it has, and whether it is
closed. -/
def Subscriber.standing (s : Subscriber P κ) : Option Nat × Bool := (s.maxWorkers, s.closed)

namespace Engine

variable {e e' e'' : Engine P κ}

def standing? (e : Engine P κ) (ref : SubscriberRef) : Option (Option Nat × Bool) :=
  (e.subscriber? ref).map (·.standing)

theorem standing?_congr {ref : SubscriberRef} (h : e'.subscriber? ref = e.subscriber? ref) :
    e'.standing? ref = e.standing? ref := by
  rw [standing?, standing?, h]

theorem standing?_updateSubscriber {f : Subscriber P κ → Subscriber P κ}
    (hf : ∀ s, (f s).standing = s.standing) (target ref : SubscriberRef) :
    (e.updateSubscriber target f).standing? ref = e.standing? ref := by
  rw [standing?, standing?, subscriber?_updateSubscriber]
  split
  · cases e.subscriber? ref with
    | none => rfl
    | some s => exact congrArg some (hf s)
  · rfl

/-- Only one operation of a task closes a subscriber. -/
theorem standing?_execProcessing {op : Processing.Op P.Route κ} (hop : op ≠ .close)
    (e : Engine P κ) (scope : Scope) (ref : SubscriberRef) :
    (execProcessing op (e, scope)).2.1.standing? ref = e.standing? ref := by
  cases op with
  | publishing op => exact standing?_congr (subscriber?_execPublishing op e scope.item)
  | settle action =>
    exact standing?_congr ((subscriber?_setAcker ..).trans (subscriber?_settle ..))
  | recordBody | recordForwarded | enter =>
    refine standing?_updateSubscriber ?_ scope.subscriber ref
    exact fun _ => rfl
  | close => exact absurd rfl hop
  | exit id outcome =>
    refine (standing?_updateSubscriber ?_ scope.subscriber ref).trans ?_
    · exact fun _ => rfl
    · exact standing?_congr ((subscriber?_setAcker ..).trans (subscriber?_ending ..))
  | _ => exact standing?_congr (by cases ref <;> rfl)

theorem standing?_close (e : Engine P κ) (scope : Scope) (ref : SubscriberRef) :
    (execProcessing .close (e, scope)).2.1.standing? ref =
      if scope.subscriber = ref then (e.standing? ref).map fun (workers, _) => (workers, true)
      else e.standing? ref := by
  rw [standing?, standing?]
  show Option.map _ ((e.updateSubscriber scope.subscriber .close).subscriber? ref) = _
  rw [subscriber?_updateSubscriber]
  split
  · cases e.subscriber? ref <;> rfl
  · rfl

/-- Subscribers stay with their workers, and closed once they are closed. -/
def Persists (e e' : Engine P κ) : Prop :=
  ∀ ref workers closed, e.standing? ref = some (workers, closed) →
    ∃ closed', e'.standing? ref = some (workers, closed') ∧ (closed = true → closed' = true)

theorem Persists.of_standing (h : ∀ ref, e'.standing? ref = e.standing? ref) : e.Persists e' :=
  fun ref _ closed hs => ⟨closed, (h ref).trans hs, id⟩

theorem Persists.refl (e : Engine P κ) : e.Persists e := .of_standing fun _ => rfl

theorem Persists.trans (h : e.Persists e') (h' : e'.Persists e'') : e.Persists e'' := by
  intro ref workers closed hs
  obtain ⟨closed', hs', hclosed⟩ := h ref workers closed hs
  obtain ⟨closed'', hs'', hclosed'⟩ := h' ref workers closed' hs'
  exact ⟨closed'', hs'', hclosed' ∘ hclosed⟩

theorem persists_execProcessing (op : Processing.Op P.Route κ) (e : Engine P κ) (scope : Scope) :
    e.Persists (execProcessing op (e, scope)).2.1 := by
  by_cases hop : op = .close
  · subst hop
    intro ref workers closed hs
    rw [standing?_close]
    split
    · rw [hs]
      exact ⟨true, rfl, fun _ => rfl⟩
    · exact ⟨closed, hs, id⟩
  · exact .of_standing (standing?_execProcessing hop e scope)

theorem persists_execPublishing (op : Publishing.Op P.Route κ) (e : Engine P κ)
    (item : Option (Option String)) : e.Persists (execPublishing op (e, item)).2.1 :=
  .of_standing fun _ => standing?_congr (subscriber?_execPublishing op e item)

end Engine

namespace Live

variable {α : Type} {l l' l'' : Live P κ α}

/-! ## What dispatchers hear -/

/-- What the dispatchers of a group leave alone. -/
structure Backdrop (l l' : Live P κ α) : Prop where
  config : l'.config = l.config
  generation : l'.generation = l.generation
  stopped : l'.stopped = l.stopped
  running : l'.running = l.running
  holder : l'.holder = l.holder
  clients : l'.clients = l.clients
  subscribers : l'.engine.subscribers = l.engine.subscribers
  inbox : l'.engine.inbox = l.engine.inbox
  deliveries : l.engine.deliveries <+: l'.engine.deliveries

theorem Backdrop.refl (l : Live P κ α) : Backdrop l l :=
  ⟨rfl, rfl, rfl, rfl, rfl, rfl, rfl, rfl, List.prefix_refl _⟩

theorem Backdrop.trans (h : Backdrop l l') (h' : Backdrop l' l'') : Backdrop l l'' where
  config := h'.config.trans h.config
  generation := h'.generation.trans h.generation
  stopped := h'.stopped.trans h.stopped
  running := h'.running.trans h.running
  holder := h'.holder.trans h.holder
  clients := h'.clients.trans h.clients
  subscribers := h'.subscribers.trans h.subscribers
  inbox := h'.inbox.trans h.inbox
  deliveries := h.deliveries.trans h'.deliveries

theorem Backdrop.subscriber? (h : Backdrop l l') (ref : SubscriberRef) :
    l'.engine.subscriber? ref = l.engine.subscriber? ref := by
  cases ref with
  | member i => exact congrArg (·[i]?) h.subscribers
  | inbox => exact congrArg (·.map (·.2)) h.inbox

theorem Backdrop.persists (h : Backdrop l l') : l.engine.Persists l'.engine :=
  .of_standing fun ref => Engine.standing?_congr (h.subscriber? ref)

/-- A task that was begun for a message: nothing of the processing of that message is done yet. -/
structure Begins (l l' : Live P κ α) (i : Nat) (ref : SubscriberRef)
    (begun : Nat × (Nat × Message P.Route)) (t : ProcessingTask P κ) : Prop where
  receiver : t.receiver = i
  number : t.number = begun.1
  subscriber : t.scope.subscriber = ref
  program : ∃ s ids, l.engine.subscriber? ref = some s ∧
    t.program = s.process l.config.publisher (P.build ids begun.2.2)
  fresh : l.engine.deliveries.length ≤ t.scope.delivery
  delivery : l'.engine.deliveries[t.scope.delivery]? =
    some ⟨.ofBackend true, .queue begun.2.1 begun.2.2⟩

theorem Begins.before {i : Nat} {ref : SubscriberRef} {begun : Nat × (Nat × Message P.Route)}
    {t : ProcessingTask P κ} (hb : Backdrop l l') (h : Begins l' l'' i ref begun t) :
    Begins l l'' i ref begun t where
  receiver := h.receiver
  number := h.number
  subscriber := h.subscriber
  program := by
    obtain ⟨s, ids, hs, hprogram⟩ := h.program
    exact ⟨s, ids, (hb.subscriber? ref).symm.trans hs, hb.config ▸ hprogram⟩
  fresh := Nat.le_trans hb.deliveries.length_le h.fresh
  delivery := h.delivery

theorem Begins.after {i : Nat} {ref : SubscriberRef} {begun : Nat × (Nat × Message P.Route)}
    {t : ProcessingTask P κ} (h : Begins l l' i ref begun t) (hb : Backdrop l' l'') :
    Begins l l'' i ref begun t where
  receiver := h.receiver
  number := h.number
  subscriber := h.subscriber
  program := h.program
  fresh := h.fresh
  delivery := by
    obtain ⟨more, hmore⟩ := hb.deliveries
    rw [← hmore, List.getElem?_append_left (lt_length_of_getElem? h.delivery)]
    exact h.delivery

theorem begins_begin {r : Receiver P} {s : Subscriber P κ}
    (hs : l.engine.subscriber? r.subscriber = some s) (i number q : Nat) (m : Message P.Route) :
    Backdrop l (l.begin i r number q m) ∧ (l.begin i r number q m).receivers = l.receivers ∧
      ∃ t, (l.begin i r number q m).tasks = l.tasks ++ [t] ∧
        Begins l (l.begin i r number q m) i r.subscriber (number, (q, m)) t := by
  let d : Delivery P := ⟨.ofBackend true, .queue q m⟩
  have hbegin : l.begin i r number q m =
      { l with
        engine := (l.engine.addDelivery d).2.drawIds.2
        tasks := l.tasks ++
          [{ receiver := i, number := number,
             scope := ⟨r.subscriber, l.engine.deliveries.length, some none⟩,
             wakeAt := l.engine.now,
             program := s.process l.config.publisher
              (P.build (l.engine.addDelivery d).2.drawIds.1 m) }] } := by
    simp only [Live.begin, hs]
    rfl
  rw [hbegin]
  refine ⟨⟨rfl, rfl, rfl, rfl, rfl, rfl, rfl, rfl, List.prefix_append ..⟩, rfl, _, rfl, ?_⟩
  exact ⟨rfl, rfl, rfl, ⟨s, _, hs, rfl⟩, Nat.le_refl _, List.getElem?_concat_length ..⟩

theorem begins_foldl_effect {i : Nat} {r : Receiver P} {s : Subscriber P κ}
    (effects : List (Dispatcher.Effect (Nat × Message P.Route))) (l : Live P κ α)
    (hs : l.engine.subscriber? r.subscriber = some s) :
    Backdrop l (effects.foldl (Live.effect i r) l) ∧
      (effects.foldl (Live.effect i r) l).receivers = l.receivers ∧
        ∃ new, (effects.foldl (Live.effect i r) l).tasks = l.tasks ++ new ∧
          List.Forall₂ (Begins l (effects.foldl (Live.effect i r) l) i r.subscriber)
            (Dispatcher.starts effects) new := by
  induction effects generalizing l with
  | nil => exact ⟨.refl l, rfl, [], (List.append_nil _).symm, .nil⟩
  | cons effect effects ih =>
    -- an effect that starts nothing leaves the subscribers, the dispatchers and the tasks alone
    have hother : ∀ l₁ : Live P κ α, Backdrop l l₁ → l₁.receivers = l.receivers →
        l₁.tasks = l.tasks →
          Backdrop l (effects.foldl (Live.effect i r) l₁) ∧
            (effects.foldl (Live.effect i r) l₁).receivers = l.receivers ∧
              ∃ new, (effects.foldl (Live.effect i r) l₁).tasks = l.tasks ++ new ∧
                List.Forall₂ (Begins l (effects.foldl (Live.effect i r) l₁) i r.subscriber)
                  (Dispatcher.starts effects) new := by
      intro l₁ hb hreceivers htasks
      obtain ⟨hb', hreceivers', new, htasks', hnew⟩ := ih l₁ ((hb.subscriber? _).trans hs)
      exact ⟨hb.trans hb', hreceivers'.trans hreceivers, new, htasks ▸ htasks',
        hnew.imp fun _ _ => Begins.before hb⟩
    cases effect with
    | log line =>
      exact hother { l with engine := l.engine.log [line] }
        ⟨rfl, rfl, rfl, rfl, rfl, rfl, rfl, rfl, List.prefix_refl _⟩ rfl rfl
    | unsubscribe =>
      refine hother l.unsubscribe ?_ ?_ ?_ <;> unfold unsubscribe <;> dsimp only <;> split
      · exact ⟨rfl, rfl, rfl, rfl, rfl, rfl, rfl, rfl, List.prefix_refl _⟩
      · exact ⟨rfl, rfl, rfl, rfl, rfl, rfl, rfl, rfl, List.prefix_refl _⟩
      all_goals rfl
    | start number message =>
      obtain ⟨q, m⟩ := message
      obtain ⟨hb, hreceivers, t, htasks, ht⟩ := begins_begin hs i number q m
      obtain ⟨hb', hreceivers', new, htasks', hnew⟩ := ih _ ((hb.subscriber? _).trans hs)
      refine ⟨hb.trans hb', hreceivers'.trans hreceivers, t :: new, ?_, ?_⟩
      · refine htasks'.trans ?_
        rw [htasks, List.append_assoc]
        rfl
      · exact .cons (ht.after hb') (hnew.imp fun _ _ => Begins.before hb)

theorem receiver_of_begins {i : Nat} {ref : SubscriberRef}
    {begun : List (Nat × (Nat × Message P.Route))} {new : List (ProcessingTask P κ)}
    (h : List.Forall₂ (Begins l l' i ref) begun new) : ∀ t ∈ new, t.receiver = i := by
  induction h with
  | nil => exact List.forall_mem_nil _
  | cons hfirst _ ih => exact List.forall_mem_cons.mpr ⟨hfirst.receiver, ih⟩

/-- A dispatcher goes on, and the group around it stays as it is. -/
structure Advances (l l' : Live P κ α) (i : Nat) (r r' : Receiver P) : Prop where
  found : l.receivers[i]? = some r
  receivers : l'.receivers = l.receivers.set i r'
  subscriber : r'.subscriber = r.subscriber
  generation : r'.generation = r.generation
  backdrop : Backdrop l l'

/-- It hears an event, and begins the tasks that it then starts. -/
structure Hears (l l' : Live P κ α) (i : Nat) (r r' : Receiver P)
    (event : Dispatcher.Event (Nat × Message P.Route)) : Prop extends Advances l l' i r r' where
  step : ∃ effects new, r.state.step event = some (r'.state, effects) ∧
    l'.tasks = l.tasks ++ new ∧
      List.Forall₂ (Begins l l' i r.subscriber) (Dispatcher.starts effects) new

/-- It is only made ready for what comes next. -/
structure Readied (l l' : Live P κ α) (i : Nat) (r r' : Receiver P) : Prop
    extends Advances l l' i r r' where
  state : r'.state = r.state
  tasks : l'.tasks = l.tasks

theorem Hears.before {i : Nat} {r r' : Receiver P}
    {event : Dispatcher.Event (Nat × Message P.Route)} (hb : Backdrop l l')
    (hreceivers : l'.receivers = l.receivers) (htasks : l'.tasks = l.tasks)
    (h : Hears l' l'' i r r' event) : Hears l l'' i r r' event where
  found := hreceivers ▸ h.found
  receivers := hreceivers ▸ h.receivers
  subscriber := h.subscriber
  generation := h.generation
  backdrop := hb.trans h.backdrop
  step := by
    obtain ⟨effects, new, hstep, htasks', hnew⟩ := h.step
    exact ⟨effects, new, hstep, htasks ▸ htasks', hnew.imp fun _ _ => Begins.before hb⟩

/-- A dispatcher is told of an event, its own record having been made ready for that. -/
theorem hears_of_tell {i : Nat} {r r₀ : Receiver P} {s : Subscriber P κ}
    {event : Dispatcher.Event (Nat × Message P.Route)} (h : l.tell i r₀ event = some l')
    (hr : l.receivers[i]? = some r) (hs : l.engine.subscriber? r.subscriber = some s)
    (hsame : r₀.subscriber = r.subscriber ∧ r₀.generation = r.generation ∧ r₀.state = r.state) :
    ∃ r', r' = { r₀ with state := r'.state } ∧ Hears l l' i r r' event := by
  obtain ⟨hsubscriber, hgeneration, hstate⟩ := hsame
  obtain ⟨⟨state, effects⟩, hstep, rfl⟩ := Option.map_eq_some_iff.mp h
  let r' : Receiver P := { r₀ with state := state }
  let l₁ : Live P κ α := { l with receivers := l.receivers.set i r' }
  have hs₁ : l₁.engine.subscriber? r'.subscriber = some s :=
    (congrArg l.engine.subscriber? hsubscriber).trans hs
  have hb₁ : Backdrop l l₁ := ⟨rfl, rfl, rfl, rfl, rfl, rfl, rfl, rfl, List.prefix_refl _⟩
  obtain ⟨hb, hreceivers, new, htasks, hnew⟩ := begins_foldl_effect (i := i) effects l₁ hs₁
  have hsame : r'.subscriber = r.subscriber := hsubscriber
  rw [hsame] at hnew
  refine ⟨r', rfl, ⟨hr, hreceivers, hsubscriber, hgeneration, hb₁.trans hb⟩, effects, new,
    hstate ▸ hstep, htasks, hnew.imp fun _ _ => Begins.before hb₁⟩

/-- The message that a dispatcher is about to receive. -/
def received? (l : Live P κ α) (i : Nat) : Option (Nat × Message P.Route) :=
  (l.receivers[i]?).bind fun r =>
    (awaited? r).bind fun q =>
      (l.engine.network.pop q).bind fun (m, _) => if Network.isWakeup m then none else some (q, m)

theorem receive_cases {i : Nat} (hstaffed : ∀ r, l.receivers[i]? = some r →
      ∃ s, l.engine.subscriber? r.subscriber = some s) (h : l.receive i = some l') :
    ∃ r r', (l.received? i = none ∧ Readied l l' i r r') ∨
      ∃ received, l.received? i = some received ∧ Hears l l' i r r' (.received received) := by
  obtain ⟨r, hr, h⟩ := Option.bind_eq_some_iff.mp h
  obtain ⟨q, hq, h⟩ := Option.bind_eq_some_iff.mp h
  obtain ⟨⟨m, network⟩, hpop, h⟩ := Option.bind_eq_some_iff.mp h
  have hreceived : l.received? i = if Network.isWakeup m then none else some (q, m) := by
    simp only [received?, hr, hq, hpop, Option.bind_some]
  obtain ⟨s, hs⟩ := hstaffed r hr
  dsimp only at h
  split at h
  · rename_i hwakeup
    obtain rfl := Option.some.inj h
    refine ⟨r, { r with waiting := none }, .inl ⟨?_, ?_⟩⟩
    · rw [hreceived, if_pos hwakeup]
    · exact ⟨⟨hr, rfl, rfl, rfl, rfl, rfl, rfl, rfl, rfl, rfl, rfl, rfl, List.prefix_refl _⟩,
        rfl, rfl⟩
  · rename_i hwakeup
    let l₁ : Live P κ α := { l with engine := { l.engine with network := network } }
    have hb₁ : Backdrop l l₁ := ⟨rfl, rfl, rfl, rfl, rfl, rfl, rfl, rfl, List.prefix_refl _⟩
    obtain ⟨r', -, hhears⟩ :=
      hears_of_tell (l := l₁) h hr ((hb₁.subscriber? _).trans hs) ⟨rfl, rfl, rfl⟩
    refine ⟨r, r', .inr ⟨(q, m), ?_, hhears.before hb₁ rfl rfl⟩⟩
    rw [hreceived, if_neg hwakeup]

theorem subscribe_cases {i : Nat} {r : Receiver P} (hr : l.receivers[i]? = some r)
    (h : l.subscribe i r = some l') :
    ∃ r' event, event.Bare ∧ Hears l l' i r r' event := by
  obtain ⟨s, hs, h⟩ := Option.bind_eq_some_iff.mp h
  let opened := l.engine.network.subscribe s.binding
  let l₁ : Live P κ α := { l with engine := { l.engine with network := opened.2 } }
  have hb₁ : Backdrop l l₁ := ⟨rfl, rfl, rfl, rfl, rfl, rfl, rfl, rfl, List.prefix_refl _⟩
  have hs₁ : l₁.engine.subscriber? r.subscriber = some s := (hb₁.subscriber? _).trans hs
  dsimp only at h
  split at h
  · obtain ⟨r', -, hhears⟩ := hears_of_tell (l := l₁) h hr hs₁ ⟨rfl, rfl, rfl⟩
    exact ⟨r', _, ⟨rfl, rfl⟩, hhears.before hb₁ rfl rfl⟩
  · obtain ⟨r', -, hhears⟩ := hears_of_tell (l := l₁) h hr hs₁ ⟨rfl, rfl, rfl⟩
    exact ⟨r', _, ⟨rfl, rfl⟩, hhears.before hb₁ rfl rfl⟩

theorem poll_cases {i : Nat} {r : Receiver P} {s : Subscriber P κ}
    (hr : l.receivers[i]? = some r) (hs : l.engine.subscriber? r.subscriber = some s)
    (h : l.poll i r = some l') :
    ∃ r', Readied l l' i r r' ∨ ∃ event, event.Bare ∧ Hears l l' i r r' event := by
  unfold poll at h
  split at h
  · cases h
  · split at h
    · rename_i network _
      let l₁ : Live P κ α := { l with engine := { l.engine with network := network } }
      have hb₁ : Backdrop l l₁ := ⟨rfl, rfl, rfl, rfl, rfl, rfl, rfl, rfl, List.prefix_refl _⟩
      obtain ⟨r', -, hhears⟩ :=
        hears_of_tell (l := l₁) h hr ((hb₁.subscriber? _).trans hs) ⟨rfl, rfl, rfl⟩
      exact ⟨r', .inr ⟨_, ⟨rfl, rfl⟩, hhears.before hb₁ rfl rfl⟩⟩
    · obtain rfl := Option.some.inj h
      exact ⟨{ r with waiting := some l.places }, .inl ⟨⟨hr, rfl, rfl, rfl, rfl, rfl, rfl, rfl,
        rfl, rfl, rfl, rfl, List.prefix_refl _⟩, rfl, rfl⟩⟩

theorem heed_cases {i : Nat} (hstaffed : ∀ r, l.receivers[i]? = some r →
      ∃ s, l.engine.subscriber? r.subscriber = some s) (h : l.heed i = some l') :
    ∃ r r', Readied l l' i r r' ∨ ∃ event, event.Bare ∧ Hears l l' i r r' event := by
  obtain ⟨r, hr, h⟩ := Option.bind_eq_some_iff.mp h
  obtain ⟨s, hs⟩ := hstaffed r hr
  have htold : ∀ event, event.Bare → l.tell i r event = some l' →
      ∃ r r', Readied l l' i r r' ∨ ∃ event, event.Bare ∧ Hears l l' i r r' event := by
    intro event hbare h
    obtain ⟨r', -, hhears⟩ := hears_of_tell h hr hs ⟨rfl, rfl, rfl⟩
    exact ⟨r, r', .inr ⟨event, hbare, hhears⟩⟩
  split at h
  · split at h
    · exact htold _ ⟨rfl, rfl⟩ h
    · split at h
      · exact htold _ ⟨rfl, rfl⟩ h
      · obtain ⟨r', event, hbare, hhears⟩ := subscribe_cases hr h
        exact ⟨r, r', .inr ⟨event, hbare, hhears⟩⟩
  · split at h
    · exact htold _ ⟨rfl, rfl⟩ h
    · split at h
      · exact htold _ ⟨rfl, rfl⟩ h
      · split at h
        · exact htold _ ⟨rfl, rfl⟩ h
        · obtain ⟨r', hcases⟩ := poll_cases hr hs h
          exact ⟨r, r', hcases⟩
  · split at h
    · exact htold _ ⟨rfl, rfl⟩ h
    · split at h
      · exact htold _ ⟨rfl, rfl⟩ h
      · split at h
        · exact htold _ ⟨rfl, rfl⟩ h
        · cases h
  · exact htold _ ⟨rfl, rfl⟩ h
  · cases h
  · cases h

/-! ## What tasks do -/

/-- A task that performs one operation. Sleeping lets no time pass for anybody else. -/
structure Performs (l l' : Live P κ α) (j : Nat) (t t' : ProcessingTask P κ)
    (op : Processing.Op P.Route κ) : Prop where
  found : l.tasks[j]? = some t
  tasks : l'.tasks = l.tasks.set j t'
  same : t'.receiver = t.receiver ∧ t'.number = t.number
  program : ∃ next, t.program = .call op next ∧
    t'.program = next (Engine.execProcessing op (l.engine, t.scope)).1
  scope : t'.scope = (Engine.execProcessing op (l.engine, t.scope)).2.2
  engine : l'.engine = (Engine.execProcessing op (l.engine, t.scope)).2.1 ∨
    l'.engine = l.engine ∧ ∃ ms, op = .publishing (.ambient (.sleep ms))
  rest : l' = { l with engine := l'.engine, tasks := l'.tasks }

/-- Its dispatcher is told, and waits for the next message anew. -/
structure Ends (l l' : Live P κ α) (j : Nat) (t : ProcessingTask P κ) : Prop where
  found : l.tasks[j]? = some t
  program : ∃ outcome, t.program = .done outcome
  complete : l' = l.complete j t

theorem task_cases {j : Nat} (h : l.stepTask j = some l') :
    ∃ t, Ends l l' j t ∨ ∃ t' op, Performs l l' j t t' op := by
  obtain ⟨t, ht, h⟩ := Option.bind_eq_some_iff.mp h
  split at h
  · cases h
  · split at h
    · rename_i outcome hprogram
      exact ⟨t, .inl ⟨ht, ⟨outcome, hprogram⟩, (Option.some.inj h).symm⟩⟩
    · rename_i ms next hprogram
      obtain rfl := Option.some.inj h
      exact ⟨t, .inr ⟨_, _, ht, rfl, ⟨rfl, rfl⟩, ⟨next, hprogram, rfl⟩, rfl,
        .inr ⟨rfl, ms, rfl⟩, rfl⟩⟩
    · rename_i op next _ hprogram
      obtain rfl := Option.some.inj h
      exact ⟨t, .inr ⟨_, _, ht, rfl, ⟨rfl, rfl⟩, ⟨next, hprogram, rfl⟩, rfl, .inl rfl, rfl⟩⟩

theorem Performs.persists {j : Nat} {t t' : ProcessingTask P κ} {op : Processing.Op P.Route κ}
    (h : Performs l l' j t t' op) : l.engine.Persists l'.engine := by
  rcases h.engine with hengine | ⟨hengine, -⟩
  · rw [hengine]
    exact Engine.persists_execProcessing op l.engine t.scope
  · rw [hengine]
    exact .refl _

theorem Performs.sameScope {j : Nat} {t t' : ProcessingTask P κ} {op : Processing.Op P.Route κ}
    (h : Performs l l' j t t' op) :
    t'.scope.subscriber = t.scope.subscriber ∧ t'.scope.delivery = t.scope.delivery := by
  rw [h.scope]
  exact Engine.scope_execProcessing op l.engine t.scope

/-- A task completes: its dispatcher hears of it. -/
theorem Ends.hears {j : Nat} {t : ProcessingTask P κ} {r : Receiver P} {s : Subscriber P κ}
    (h : Ends l l' j t) (hr : l.receivers[t.receiver]? = some r)
    (hs : l.engine.subscriber? r.subscriber = some s) (hmem : t.number ∈ r.state.inFlight) :
    Hears { l with tasks := l.tasks.eraseIdx j } l' t.receiver r
      { r with waiting := none, state := r.state.complete t.number } (.completed t.number) := by
  let l₁ : Live P κ α := { l with tasks := l.tasks.eraseIdx j }
  have hstep : r.state.step (.completed t.number) = some (r.state.complete t.number, []) := by
    cases hphase : r.state.phase <;> simp [Dispatcher.State.step, hphase, hmem]
  have htold : l₁.tell t.receiver { r with waiting := none } (.completed t.number) = some l' := by
    have hcomplete : l.complete j t = (l₁.tell t.receiver { r with waiting := none }
        (.completed t.number)).getD l₁ := by
      simp only [Live.complete, hr]
      rfl
    rw [h.complete, hcomplete, tell, hstep, Option.map_some, Option.getD_some]
  obtain ⟨r', hr', hhears⟩ := hears_of_tell htold hr hs ⟨rfl, rfl, rfl⟩
  obtain ⟨effects, new, hstep', -⟩ := hhears.step
  obtain ⟨hstate, -⟩ := Prod.mk.inj (Option.some.inj (hstep.symm.trans hstep'))
  rw [hr', ← hstate] at hhears
  exact hhears

/-! ## What clients do -/

/-- What the operations of clients do to dispatchers and tasks: some more dispatchers may have been
started, and the inbox may have been opened. -/
structure Enlists (l l' : Live P κ α) : Prop where
  tasks : l'.tasks = l.tasks
  persists : l.engine.Persists l'.engine
  receivers : ∃ new, l'.receivers = l.receivers ++ new ∧ ∀ r ∈ new,
    ∃ workers closed, l'.engine.standing? r.subscriber = some (workers, closed) ∧
      r.state = .new (.ofMax workers)

theorem Enlists.refl (l : Live P κ α) : Enlists l l :=
  ⟨rfl, .refl _, [], (List.append_nil _).symm, fun _ h => absurd h List.not_mem_nil⟩

theorem Enlists.of_eq (htasks : l'.tasks = l.tasks) (hpersists : l.engine.Persists l'.engine)
    (hreceivers : l'.receivers = l.receivers) : Enlists l l' :=
  ⟨htasks, hpersists, [], hreceivers.trans (List.append_nil _).symm,
    fun _ h => absurd h List.not_mem_nil⟩

theorem Enlists.trans (h : Enlists l l') (h' : Enlists l' l'') : Enlists l l'' where
  tasks := h'.tasks.trans h.tasks
  persists := h.persists.trans h'.persists
  receivers := by
    obtain ⟨new, hreceivers, hnew⟩ := h.receivers
    obtain ⟨more, hreceivers', hmore⟩ := h'.receivers
    refine ⟨new ++ more, by rw [hreceivers', hreceivers, List.append_assoc], fun r hr => ?_⟩
    rcases List.mem_append.mp hr with hr | hr
    · obtain ⟨workers, closed, hs, hstate⟩ := hnew r hr
      obtain ⟨closed', hs', -⟩ := h'.persists _ _ _ hs
      exact ⟨workers, closed', hs', hstate⟩
    · exact hmore r hr

theorem enlists_dispatch (l : Live P κ α) (ref : SubscriberRef) : Enlists l (l.dispatch ref).2 := by
  unfold dispatch
  dsimp only
  split
  · rename_i s hs
    split
    · exact .of_eq rfl (.refl _) rfl
    · refine ⟨rfl, .refl _, _, rfl, fun r hr => ?_⟩
      obtain rfl := List.mem_singleton.mp hr
      refine ⟨s.maxWorkers, s.closed, ?_, rfl⟩
      show (l.engine.subscriber? ref).map _ = _
      rw [show l.engine.subscriber? ref = some s from hs]
      rfl
  · exact .of_eq rfl (.refl _) rfl

theorem enlists_dispatchEach (refs : List SubscriberRef) (l : Live P κ α) :
    Enlists l (dispatchEach refs l).2 := by
  induction refs generalizing l with
  | nil => exact .refl l
  | cons ref refs ih => exact (enlists_dispatch l ref).trans (ih _)

theorem enlists_openInbox (l : Live P κ α) : Enlists l l.openInbox.2 := by
  unfold openInbox
  split
  · exact .refl l
  · rename_i hnone
    refine .of_eq rfl ?_ rfl
    intro ref workers closed hs
    cases ref with
    | member i => exact ⟨closed, hs, id⟩
    | inbox => simp [Engine.standing?, Engine.subscriber?, hnone] at hs

theorem enlists_connect (l : Live P κ α) : Enlists l l.connect.2 := by
  unfold connect
  split
  · exact .refl l
  · dsimp only
    split
    · refine .of_eq rfl (.of_standing fun ref => Engine.standing?_congr ?_) rfl
      cases ref <;> rfl
    · exact .of_eq rfl (.refl _) rfl

theorem enlists_answer {i : Nat} {op : Calling.Op P.Route κ} {answer : Calling.Answer op}
    (h : l.answer i op = some (answer, l')) : Enlists l l' := by
  have hreplies : ∀ replies,
      l.engine.Persists { l.engine with replies := replies } := by
    refine fun replies => .of_standing fun ref => Engine.standing?_congr ?_
    cases ref <;> rfl
  cases op with
  | publishing op =>
    obtain ⟨-, rfl⟩ := Prod.mk.inj (Option.some.inj h)
    exact .of_eq rfl (Engine.persists_execPublishing op l.engine none) rfl
  | connect =>
    have hconnect := enlists_connect l
    rw [Option.some.inj h] at hconnect
    exact hconnect
  | dispatchAll =>
    have hdispatch := enlists_dispatchEach l.members l
    rw [Option.some.inj h] at hdispatch
    exact hdispatch
  | dispatchInbox =>
    obtain ⟨-, rfl⟩ := Prod.mk.inj (Option.some.inj h)
    exact (enlists_openInbox l).trans (enlists_dispatch ..)
  | acquire =>
    obtain ⟨-, h⟩ := Option.ite_none_left_eq_some.mp h
    obtain ⟨-, rfl⟩ := Prod.mk.inj (Option.some.inj h)
    exact .of_eq rfl (.refl _) rfl
  | finished | awaitFlag =>
    obtain ⟨-, h⟩ := Option.ite_none_right_eq_some.mp h
    obtain ⟨-, rfl⟩ := Prod.mk.inj (Option.some.inj h)
    exact .refl l
  | attempted d =>
    simp only [Live.answer] at h
    split at h
    · obtain ⟨-, rfl⟩ := Prod.mk.inj (Option.some.inj h)
      exact .refl l
    · split at h <;> first | cases h; done | skip
      all_goals
        obtain ⟨-, rfl⟩ := Prod.mk.inj (Option.some.inj h)
        exact .refl l
  | register id =>
    obtain ⟨-, rfl⟩ := Prod.mk.inj (Option.some.inj h)
    split <;> exact .of_eq rfl (hreplies _) rfl
  | awaitReply handle deadline =>
    simp only [Live.answer] at h
    split at h
    · obtain ⟨-, h⟩ := Option.ite_none_right_eq_some.mp h
      obtain ⟨-, rfl⟩ := Prod.mk.inj (Option.some.inj h)
      exact .refl l
    · obtain ⟨-, rfl⟩ := Prod.mk.inj (Option.some.inj h)
      exact .refl l
  | withdraw id handle =>
    obtain ⟨-, rfl⟩ := Prod.mk.inj (Option.some.inj h)
    exact .of_eq rfl (hreplies _) rfl
  | release | shutDown | renew | raiseFlag =>
    obtain ⟨-, rfl⟩ := Prod.mk.inj (Option.some.inj h)
    exact .of_eq rfl (.refl _) rfl

theorem enlists_stepClient {i : Nat} (h : l.stepClient i = some l') : Enlists l l' := by
  obtain ⟨c, -, h⟩ := Option.bind_eq_some_iff.mp h
  split at h
  · cases h
  · split at h
    · cases h
    · obtain rfl := Option.some.inj h
      exact .of_eq rfl (.refl _) rfl
    · obtain ⟨⟨answer, l₁⟩, hanswer, rfl⟩ := Option.map_eq_some_iff.mp h
      have hanswered := enlists_answer hanswer
      exact ⟨hanswered.tasks, hanswered.persists, hanswered.receivers⟩

end Live
end MessageDispatch
