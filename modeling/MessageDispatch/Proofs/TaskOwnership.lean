import MessageDispatch.Proofs.CloseDuringProcessing
import MessageDispatch.Proofs.QueuePreservation

/-! The messages in hand. Every task has one that no other task has; nobody else settles it, and it
goes by the rules on closing its subscriber. A dispatcher with one worker has no more than one task,
and while it has that one it does nothing but wait for it. -/
namespace MessageDispatch

namespace Dispatcher

variable {μ : Type}

/-- An event starts one task at most. -/
theorem starts_of_step {s s' : State μ} {event : Event μ} {effects : List (Effect μ)}
    (h : s.step event = some (s', effects)) :
    starts effects = [] ∨ ∃ begun, starts effects = [begun] := by
  cases State.steps_of_step h with
  | moved hmessage htask hstarts => exact .inl hstarts
  | started htask hfree hmessage hstarts => exact .inr ⟨_, hstarts⟩
  | held hbefore hstarts => exact .inl hstarts
  | completed => exact .inl rfl

namespace State

/-- What a dispatcher with one worker is like. -/
structure Sole (s : State μ) : Prop where
  few : s.inFlight.length ≤ 1
  unheld : s.held = []
  busy : s.inFlight ≠ [] → s.phase = .working

theorem sole_new (workers : Workers) : (State.new workers : State μ).Sole :=
  ⟨Nat.zero_le 1, rfl, fun h => absurd rfl h⟩

theorem Sole.step {s s' : State μ} {event : Event μ} {effects : List (Effect μ)} (h : s.Sole)
    (hone : s.workers = .one) (hstep : s.step event = some (s', effects)) : s'.Sole := by
  by_cases hidle : s.inFlight = []
  · cases steps_of_step hstep with
    | moved hmessage htask hstarts hbefore hafter =>
      exact ⟨h.few, hafter, fun hbusy => absurd hidle hbusy⟩
    | @started _ m lost _ htask hfree hmessage hstarts =>
      refine ⟨?_, held_afterStart s m lost, fun _ => ?_⟩
      · show (s.inFlight ++ [s.started]).length ≤ 1
        rw [hidle]
        exact Nat.le_refl 1
      · show s.afterStart = .working
        rw [afterStart, hone]
    | held hbefore hstarts hbusy => simp [hasWorker, hone, hidle] at hbusy
    | completed hmem =>
      rw [hidle] at hmem
      cases hmem
  · -- a task is in flight, and nothing can happen but that it completes
    have hworking := h.busy hidle
    cases event with
    | completed task =>
      simp only [State.step, hworking] at hstep
      obtain ⟨hmem, hstep⟩ := Option.ite_none_right_eq_some.mp hstep
      obtain ⟨rfl, -⟩ := Prod.mk.inj (Option.some.inj hstep)
      have hnone : (s.complete task).inFlight = [] := by
        obtain ⟨other, hother⟩ : ∃ other, s.inFlight = [other] :=
          List.length_eq_one_iff.mp (Nat.le_antisymm h.few (List.length_pos_iff.mpr hidle))
        rw [(complete_keeps s task).2.2, hother]
        rw [hother] at hmem
        obtain rfl : task = other := by simpa using hmem
        exact List.erase_cons_head ..
      refine ⟨?_, (held_complete s task).trans h.unheld, fun hbusy => absurd hnone hbusy⟩
      rw [hnone]
      exact Nat.zero_le 1
    | _ => simp [State.step, hworking] at hstep

end State
end Dispatcher

variable {P : Protocol} {κ α : Type}

namespace Live

variable {l l' : Live P κ α} {ev : LiveStep}

/-! ## What becomes of the tasks -/

/-- What a step comes to for the tasks alone. -/
inductive Tasked (l l' : Live P κ α) : LiveStep → Prop where
  | same {ev : LiveStep} (htasks : l'.tasks = l.tasks) : Tasked l l' ev
  | performs {j : Nat} {t t' : ProcessingTask P κ} {op : Processing.Op P.Route κ}
      (h : Performs l l' j t t' op) : Tasked l l' (.task j)
  | ends {j : Nat} {t : ProcessingTask P κ} (h : Ends l l' j t)
      (htasks : l'.tasks = l.tasks.eraseIdx j) : Tasked l l' (.task j)
  | begins {ev : LiveStep} {i : Nat} {r : Receiver P} {begun : Nat × (Nat × Message P.Route)}
      {t : ProcessingTask P κ} (hev : ev = .heed i ∨ ev = .receive i)
      (hr : l.receivers[i]? = some r) (htasks : l'.tasks = l.tasks ++ [t])
      (h : Begins l l' i r.subscriber begun t) : Tasked l l' ev

theorem Moves.tasked (h : Moves l l' ev) : Tasked l l' ev := by
  cases h with
  | performs h => exact .performs h
  | ends hends h =>
    obtain ⟨effects, new, hstep, htasks, hnew⟩ := h.step
    rw [Dispatcher.State.starts_of_completed hstep, List.forall₂_nil_left_iff] at hnew
    rw [hnew, List.append_nil] at htasks
    exact .ends hends htasks
  | enlists h hserves => exact .same h.tasks
  | readied hev h => exact .same h.tasks
  | hears hev htask h =>
    obtain ⟨effects, new, hstep, htasks, hnew⟩ := h.step
    rcases Dispatcher.starts_of_step hstep with hnone | ⟨begun, hone⟩
    · rw [hnone, List.forall₂_nil_left_iff] at hnew
      rw [hnew, List.append_nil] at htasks
      exact .same htasks
    · rw [hone] at hnew
      obtain ⟨t, rest, hbegins, hrest, rfl⟩ := List.forall₂_cons_left_iff.mp hnew
      rw [List.forall₂_nil_left_iff] at hrest
      subst hrest
      exact .begins hev h.found htasks hbegins
  | elapses hrest => exact .same (by rw [hrest])

/-! ## What becomes of the dispatchers -/

/-- A dispatcher was just started, or it was there before and has heard of one event at most. -/
theorem Moves.receiver {d : Nat} {r' : Receiver P} (h : Moves l l' ev)
    (hr' : l'.receivers[d]? = some r') :
    (∃ workers, r'.state = .new workers) ∨ ∃ r, l.receivers[d]? = some r ∧
      (r'.state = r.state ∨ ∃ event effects, r.state.step event = some (r'.state, effects)) := by
  -- a dispatcher that goes on, among others that do not
  have hadvances {l : Live P κ α} {i : Nat} {r s : Receiver P} (h : Advances l l' i r s)
      (hstate : s.state = r.state ∨ ∃ event effects,
        r.state.step event = some (s.state, effects)) :
      ∃ r, l.receivers[d]? = some r ∧
        (r'.state = r.state ∨ ∃ event effects, r.state.step event = some (r'.state, effects)) := by
    rw [h.receivers] at hr'
    rcases (getElem?_set_iff h.found).mp hr' with ⟨rfl, rfl⟩ | ⟨-, hr'⟩
    · exact ⟨r, h.found, hstate⟩
    · exact ⟨r', hr', .inl rfl⟩
  cases h with
  | performs h =>
    rw [h.rest] at hr'
    exact .inr ⟨r', hr', .inl rfl⟩
  | ends hends h =>
    obtain ⟨effects, new, hstep, -⟩ := h.step
    exact .inr (hadvances h.toAdvances.of_erased (.inr ⟨_, _, hstep⟩))
  | enlists h hserves =>
    obtain ⟨new, hreceivers, hnew⟩ := h.receivers
    rw [hreceivers] at hr'
    by_cases hd : d < l.receivers.length
    · rw [List.getElem?_append_left hd] at hr'
      exact .inr ⟨r', hr', .inl rfl⟩
    · rw [List.getElem?_append_right (Nat.le_of_not_lt hd)] at hr'
      obtain ⟨workers, closed, -, hstate⟩ := hnew r' (List.mem_of_getElem? hr')
      exact .inl ⟨_, hstate⟩
  | readied hev h => exact .inr (hadvances h.toAdvances (.inl h.state))
  | hears hev htask h =>
    obtain ⟨effects, new, hstep, -⟩ := h.step
    exact .inr (hadvances h.toAdvances (.inr ⟨_, _, hstep⟩))
  | elapses hrest =>
    rw [hrest] at hr'
    exact .inr ⟨r', hr', .inl rfl⟩

/-- A dispatcher stays with its subscriber. -/
theorem Moves.keeps {d : Nat} {r : Receiver P} (h : Moves l l' ev)
    (hr : l.receivers[d]? = some r) :
    ∃ r', l'.receivers[d]? = some r' ∧ r'.subscriber = r.subscriber := by
  have hadvances {l : Live P κ α} {i : Nat} {s s' : Receiver P} (h : Advances l l' i s s')
      (hr : l.receivers[d]? = some r) :
      ∃ r', l'.receivers[d]? = some r' ∧ r'.subscriber = r.subscriber := by
    rw [h.receivers]
    by_cases hd : d = i
    · subst hd
      obtain rfl : s = r := Option.some.inj (h.found.symm.trans hr)
      exact ⟨s', (getElem?_set_iff h.found).mpr (.inl ⟨rfl, rfl⟩), h.subscriber⟩
    · exact ⟨r, (getElem?_set_iff h.found).mpr (.inr ⟨hd, hr⟩), rfl⟩
  cases h with
  | performs h =>
    rw [h.rest]
    exact ⟨r, hr, rfl⟩
  | ends hends h => exact hadvances h.toAdvances.of_erased hr
  | enlists h hserves =>
    obtain ⟨new, hreceivers, -⟩ := h.receivers
    rw [hreceivers]
    exact ⟨r, List.getElem?_append_left (lt_length_of_getElem? hr) ▸ hr, rfl⟩
  | readied hev h => exact hadvances h.toAdvances hr
  | hears hev htask h => exact hadvances h.toAdvances hr
  | elapses hrest =>
    rw [hrest]
    exact ⟨r, hr, rfl⟩

/-! ## Messages in hand -/

/-- A task on the way through the processing of a message. -/
def Handles (t : ProcessingTask P κ) (m : Message P.Route) : Prop :=
  ∃ (s : Subscriber P κ) (publisher : Publisher P.Route κ) (ids : FreshIds)
    (before : List (Event (Processing P.Route κ))),
    Remains (s.process publisher (P.build ids m)) before t.program

/-- A task that has a message in hand, for the subscriber of its dispatcher. -/
structure Holds (l : Live P κ α) (t : ProcessingTask P κ) : Prop where
  owned : ∃ r, l.receivers[t.receiver]? = some r ∧ r.subscriber = t.scope.subscriber
  inHand : ∃ a q m, l.engine.deliveries[t.scope.delivery]? = some ⟨a, .queue q m⟩ ∧
    a.backed = true ∧ Handles t m

theorem Holds.conduct {t : ProcessingTask P κ} (h : l.Holds t) :
    Processing.Conduct t.program := by
  obtain ⟨a, q, m, -, -, s, publisher, ids, before, hremains⟩ := h.inHand
  exact (Processing.Conduct.before (s.heeds_process publisher _)).remains hremains

/-- What is known of the tasks of a group with a broker that refuses no settlement. -/
structure Orderly (l : Live P κ α) : Prop where
  takes : l.engine.weather.settleFailures = 0
  sole : ∀ (d : Nat) (r : Receiver P), l.receivers[d]? = some r → r.state.workers = .one →
    r.state.Sole
  holds : ∀ t ∈ l.tasks, l.Holds t
  distinct : (l.tasks.map (·.scope.delivery)).Nodup

theorem orderly_new (config : GroupConfig P.Route κ) {engine : Engine P κ}
    (htakes : engine.weather.settleFailures = 0) :
    Orderly (Live.new config engine : Live P κ α) :=
  ⟨htakes, fun _ _ hr => by simp [Live.new] at hr, fun _ ht => absurd ht List.not_mem_nil, .nil⟩

/-- There is one task that has a message in hand. -/
theorem Orderly.eq_of_delivery (h : Orderly l) {t u : ProcessingTask P κ} (ht : t ∈ l.tasks)
    (hu : u ∈ l.tasks) (hsame : u.scope.delivery = t.scope.delivery) : u = t := by
  obtain ⟨j, hj⟩ := List.mem_iff_getElem?.mp ht
  obtain ⟨k, hk⟩ := List.mem_iff_getElem?.mp hu
  obtain rfl := eq_of_nodup_map h.distinct hk hj hsame
  exact Option.some.inj (hk.symm.trans hj)

/-- An operation of a task settles the message that the task has in hand, if any. -/
theorem Orderly.performs {j : Nat} {t t' : ProcessingTask P κ} {op : Processing.Op P.Route κ}
    (h : Orderly l) (hperforms : Performs l l' j t t' op) :
    ∃ d, l.engine.deliveries[t.scope.delivery]? = some d ∧
      l'.engine.deliveries = l.engine.deliveries.set t.scope.delivery (d.settled
        (Processing.settledWith? ⟨op, (Engine.execProcessing op (l.engine, t.scope)).1⟩)) := by
  obtain ⟨a, q, m, hd, -⟩ := (h.holds t (List.mem_of_getElem? hperforms.found)).inHand
  refine ⟨_, hd, ?_⟩
  rcases hperforms.engine with hengine | ⟨hengine, ms, rfl⟩
  · rw [hengine]
    exact Engine.deliveries_execProcessing h.takes hd rfl op
  · rw [hengine, Processing.settledWith?_eq_none rfl, Delivery.settled_none, set_self hd]

/-- A message in hand is settled by its own task or stays as it is. -/
theorem Orderly.delivery (h : Orderly l) (hmoves : Moves l l' ev) {k : Nat} {d : Delivery P}
    (hd : l.engine.deliveries[k]? = some d) :
    l'.engine.deliveries[k]? = some d ∨ ∃ told, l'.engine.deliveries[k]? = some (d.settled told) ∧
      ∃ j t t' op, ev = .task j ∧ Performs l l' j t t' op ∧ t.scope.delivery = k := by
  have hgrown (hmore : l.engine.deliveries <+: l'.engine.deliveries) :
      l'.engine.deliveries[k]? = some d := by
    obtain ⟨more, hmore⟩ := hmore
    rw [← hmore]
    exact List.getElem?_append_left (lt_length_of_getElem? hd) ▸ hd
  cases hmoves with
  | @performs j t t' op hperforms =>
    obtain ⟨d', hmine, hdeliveries⟩ := h.performs hperforms
    rw [hdeliveries]
    by_cases hk : k = t.scope.delivery
    · subst hk
      obtain rfl := Option.some.inj (hmine.symm.trans hd)
      exact .inr ⟨_, (getElem?_set_iff hmine).mpr (.inl ⟨rfl, rfl⟩), j, t, t', op, rfl, hperforms,
        rfl⟩
    · exact .inl ((getElem?_set_iff hmine).mpr (.inr ⟨hk, hd⟩))
  | ends hends hhears => exact .inl (hgrown hhears.backdrop.deliveries)
  | enlists henlists hserves => exact .inl (hserves.deliveries ▸ hd)
  | readied hev hreadied => exact .inl (hgrown hreadied.backdrop.deliveries)
  | hears hev htask hhears => exact .inl (hgrown hhears.backdrop.deliveries)
  | elapses hrest => exact .inl (by rw [hrest]; exact hd)

/-- It stays the message that it is. -/
theorem Orderly.exists_delivery (h : Orderly l) (hmoves : Moves l l' ev) {k : Nat}
    {d : Delivery P} (hd : l.engine.deliveries[k]? = some d) :
    ∃ told, l'.engine.deliveries[k]? = some (d.settled told) := by
  rcases h.delivery hmoves hd with hsame | ⟨told, hsettled, -⟩
  · exact ⟨none, by rw [hsame, Delivery.settled_none]⟩
  · exact ⟨told, hsettled⟩

theorem Orderly.length_deliveries (h : Orderly l) (hmoves : Moves l l' ev) {k : Nat}
    (hk : k < l.engine.deliveries.length) : k < l'.engine.deliveries.length := by
  obtain ⟨told, hd⟩ := h.exists_delivery hmoves (List.getElem?_eq_getElem hk)
  exact lt_length_of_getElem? hd

theorem Holds.step {t t' : ProcessingTask P κ} (h : l.Holds t) (horderly : Orderly l)
    (hmoves : Moves l l' ev) (hhandles : ∀ m, Handles t m → Handles t' m)
    (hreceiver : t'.receiver = t.receiver)
    (hscope : t'.scope.subscriber = t.scope.subscriber ∧ t'.scope.delivery = t.scope.delivery) :
    l'.Holds t' where
  owned := by
    obtain ⟨r, hr, hsubscriber⟩ := h.owned
    obtain ⟨r', hr', hsame⟩ := hmoves.keeps hr
    exact ⟨r', hreceiver ▸ hr', (hsame.trans hsubscriber).trans hscope.1.symm⟩
  inHand := by
    obtain ⟨a, q, m, hd, hbacked, ht⟩ := h.inHand
    obtain ⟨told, hd'⟩ := horderly.exists_delivery hmoves hd
    rw [← hscope.2] at hd'
    exact ⟨{ a with settlement := a.settlement.or told }, q, m, hd', hbacked, hhandles m ht⟩

theorem Begins.holds {i : Nat} {r : Receiver P} {begun : Nat × (Nat × Message P.Route)}
    {t : ProcessingTask P κ} (h : Begins l l' i r.subscriber begun t) (hmoves : Moves l l' ev)
    (hr : l.receivers[i]? = some r) : l'.Holds t where
  owned := by
    obtain ⟨r', hr', hsame⟩ := hmoves.keeps hr
    exact ⟨r', h.receiver ▸ hr', hsame.trans h.subscriber.symm⟩
  inHand := by
    obtain ⟨s, ids, -, hprogram⟩ := h.program
    refine ⟨_, _, _, h.delivery, rfl, s, l.config.publisher, ids, [], ?_⟩
    rw [hprogram]
    exact .start

theorem Orderly.step {log : List (Deed P κ)} (h : Orderly l) (hkept : Kept log l)
    (hstep : l.step ev = some l') : Orderly l' := by
  have hmoves := hkept.moves hstep
  have hrest (t : ProcessingTask P κ) (ht : t ∈ l.tasks) : l'.Holds t :=
    (h.holds t ht).step h hmoves (fun _ => id) rfl ⟨rfl, rfl⟩
  refine ⟨(lasts_of_step hstep).1.takes h.takes, fun d r' hr' hone => ?_, ?_, ?_⟩
  · rcases hmoves.receiver hr' with ⟨workers, hnew⟩ | ⟨r, hr, hsame | ⟨event, effects, hheard⟩⟩
    · rw [hnew]
      exact Dispatcher.State.sole_new workers
    · rw [hsame] at hone ⊢
      exact h.sole d r hr hone
    · rw [Dispatcher.State.workers_of_step hheard] at hone
      exact (h.sole d r hr hone).step hone hheard
  · cases hmoves.tasked with
    | same htasks => exact htasks ▸ hrest
    | @performs j t t' op hperforms =>
      have ht := h.holds t (List.mem_of_getElem? hperforms.found)
      obtain ⟨next, hprogram, hprogram'⟩ := hperforms.program
      have hhandles (m : Message P.Route) (h : Handles t m) : Handles t' m := by
        obtain ⟨s, publisher, ids, before, hremains⟩ := h
        exact ⟨s, publisher, ids, _, hprogram' ▸ (hprogram ▸ hremains).step _⟩
      rw [hperforms.tasks]
      intro u hu
      rcases List.mem_or_eq_of_mem_set hu with hu | rfl
      · exact hrest u hu
      · exact ht.step h hmoves hhandles hperforms.same.1 hperforms.sameScope
    | ends hends htasks =>
      rw [htasks]
      exact fun u hu => hrest u (List.eraseIdx_subset hu)
    | begins hev hr htasks hbegins =>
      rw [htasks]
      refine List.forall_mem_append.mpr ⟨hrest, List.forall_mem_singleton.mpr ?_⟩
      exact hbegins.holds hmoves hr
  · cases hmoves.tasked with
    | same htasks => exact htasks ▸ h.distinct
    | performs hperforms =>
      have hsame := map_set_eq (f := (·.scope.delivery)) hperforms.found hperforms.sameScope.2
      rw [hperforms.tasks, hsame]
      exact h.distinct
    | ends hends htasks =>
      rw [htasks]
      exact h.distinct.sublist ((List.eraseIdx_sublist ..).map _)
    | @begins _ i r begun t hev hr htasks hbegins =>
      rw [htasks, List.map_append]
      refine nodup_concat h.distinct fun hmem => ?_
      -- the delivery is a new one
      obtain ⟨u, hu, hsame⟩ := List.mem_map.mp hmem
      obtain ⟨a, q, m, hd, -⟩ := (h.holds u hu).inHand
      have hlt := lt_length_of_getElem? hd
      rw [show u.scope.delivery = t.scope.delivery from hsame] at hlt
      exact Nat.not_lt.mpr hbegins.fresh hlt

/-- What is true of the program of a task, whatever it performs, stays true. -/
theorem Moves.programs {Q : Program (Processing P.Route κ) ProcessingOutcome → Prop}
    (hnext : ∀ op next, Q (.call op next) → ∀ answer, Q (next answer)) (h : Moves l l' ev)
    {k : Nat} (hk : k < l.engine.deliveries.length)
    (hQ : ∀ t ∈ l.tasks, t.scope.delivery = k → Q t.program) :
    ∀ t ∈ l'.tasks, t.scope.delivery = k → Q t.program := by
  cases h.tasked with
  | same htasks => exact htasks ▸ hQ
  | @performs j t t' op hperforms =>
    obtain ⟨next, hprogram, hprogram'⟩ := hperforms.program
    rw [hperforms.tasks]
    intro u hu hdelivery
    rcases List.mem_or_eq_of_mem_set hu with hu | rfl
    · exact hQ u hu hdelivery
    · have ht := hQ t (List.mem_of_getElem? hperforms.found)
        (hperforms.sameScope.2.symm.trans hdelivery)
      rw [hprogram] at ht
      rw [hprogram']
      exact hnext op next ht _
  | ends hends htasks =>
    rw [htasks]
    exact fun u hu => hQ u (List.eraseIdx_subset hu)
  | @begins _ i r begun t hev hr htasks hbegins =>
    rw [htasks]
    refine List.forall_mem_append.mpr ⟨hQ, List.forall_mem_singleton.mpr fun hdelivery => ?_⟩
    exact absurd hk (Nat.not_lt.mpr (hdelivery ▸ hbegins.fresh))

end Live
end MessageDispatch
