import MessageDispatch.Proofs.Oversight
import MessageDispatch.Proofs.TaskOwnership

/-! A handler asks to stop consuming, at a subscriber with one worker. The subscriber is closed and
stays so, its dispatchers take no message any more, and none is started for it; the message at
which that happened is acked and gets no reply. The other subscribers of the group go on with all of
their messages. -/
namespace MessageDispatch

variable {P : Protocol} {κ α : Type}

theorem Dispatcher.State.leaves_of_step {μ : Type} {s s' : Dispatcher.State μ}
    {event : Dispatcher.Event μ} {effects : List (Dispatcher.Effect μ)}
    (hevent : event = .shutdown ∨ event = .closed) (h : s.step event = some (s', effects)) :
    s'.phase = .left ∧ Dispatcher.starts effects = [] := by
  rcases hevent with rfl | rfl <;> cases hphase : s.phase <;>
    simp only [Dispatcher.State.step, hphase, Option.some.injEq, Prod.mk.injEq, reduceCtorEq] at h
  all_goals
    obtain ⟨rfl, rfl⟩ := h
    exact ⟨rfl, rfl⟩

/-- A dispatcher that has no message to take up, and receives none before it begins to wait for
one. -/
structure Receiver.Rests (r : Receiver P) : Prop where
  unheld : r.state.held = []
  unready : r.state.phase = .receiving → r.waiting = none

theorem Receiver.Rests.of_left {r : Receiver P} (h : r.state.phase = .left) : r.Rests :=
  ⟨by simp only [Dispatcher.State.held, h], fun hphase => by rw [h] at hphase; cases hphase⟩

namespace Live

variable {l l' l₀ m : Live P κ α} {log more : List (Deed P κ)} {ev : LiveStep}

open Deed (receivedBy begunBy)
open Calling (Abides)
open Processing (Op.isIdle Parts)

/-- Somebody comes to start the group, to close it, or to publish. -/
inductive Called : Live P κ α → Live P κ α → Prop where
  | joins (l : Live P κ α) {p : Program (Calling P.Route κ) α} (hp : Abides .free p) :
      Called l (l.addClient p).2

theorem Called.used (h : Called l l') : Used l l' := by
  cases h with
  | joins hp => exact .called l hp

theorem Goes.mono {others others' : Live P κ α → Live P κ α → Prop}
    (hothers : ∀ l l', others l l' → others' l l') (h : Goes others l₀ log l) :
    Goes others' l₀ log l := by
  induction h with
  | start => exact .start
  | step _ hstep ih => exact ih.step hstep
  | others _ h ih => exact ih.others (hothers _ _ h)

theorem Goes.used (h : Goes Called l₀ log l) : Goes Used l₀ log l := h.mono fun _ _ => Called.used

theorem Orderly.called (h : Orderly l) (hcalled : Called l l') : Orderly l' := by
  cases hcalled with
  | joins =>
    exact ⟨h.takes, h.sole, fun t ht => ⟨(h.holds t ht).owned, (h.holds t ht).inHand⟩, h.distinct⟩

theorem Orderly.goes (h : Orderly l₀) (hoverseen : Overseen log l₀)
    (hgoes : Goes Called l₀ more l) : Orderly l := by
  induction hgoes with
  | start => exact h
  | step hbefore hstep ih => exact ih.step (hoverseen.goes hbefore.used).kept hstep
  | others _ hothers ih => exact ih.called hothers

/-! ## Dispatchers of a closed subscriber -/

section
variable {i : Nat} {r : Receiver P}

theorem receive_of_rests (hr : l.receivers[i]? = some r) (hrests : r.Rests) :
    l.receive i = none := by
  have hnone : awaited? r = none := by
    unfold awaited?
    split
    · rename_i hphase
      rw [hrests.unready hphase]
      rfl
    · rfl
  simp only [receive, hr, Option.bind_some, hnone, Option.bind_none]

/-- The dispatcher can do nothing but leave its loop. -/
theorem leaves_of_heed (hkept : Kept log l) (hr : l.receivers[i]? = some r)
    (hclosed : l.isClosed r.subscriber = true) (hrests : r.Rests) (h : l.heed i = some l') :
    ∃ r', Advances l l' i r r' ∧ r'.state.phase = .left ∧ l'.tasks = l.tasks := by
  obtain ⟨s, hs⟩ := hkept.staffed hr
  have htold : ∀ event, event = .shutdown ∨ event = .closed → l.tell i r event = some l' →
      ∃ r', Advances l l' i r r' ∧ r'.state.phase = .left ∧ l'.tasks = l.tasks := by
    intro event hevent h
    obtain ⟨r', -, hhears⟩ := hears_of_tell h hr hs ⟨rfl, rfl, rfl⟩
    obtain ⟨effects, new, hstep, htasks, hnew⟩ := hhears.step
    obtain ⟨hleft, hnone⟩ := Dispatcher.State.leaves_of_step hevent hstep
    rw [hnone, List.forall₂_nil_left_iff] at hnew
    rw [hnew, List.append_nil] at htasks
    exact ⟨r', hhears.toAdvances, hleft, htasks⟩
  simp only [heed, hr, Option.bind_some, hclosed, if_true] at h
  split at h
  · split at h
    · exact htold _ (.inl rfl) h
    · exact htold _ (.inr rfl) h
  · split at h
    · exact htold _ (.inl rfl) h
    · exact htold _ (.inr rfl) h
  · split at h
    · exact htold _ (.inl rfl) h
    · exact htold _ (.inr rfl) h
  · rename_i m hphase
    have hheld := hrests.unheld
    simp [Dispatcher.State.held, hphase] at hheld
  · cases h
  · cases h

end

/-- What is put down of a step is of no dispatcher that has no part in it. -/
theorem deeds_elsewhere {d : Nat} (htasked : Tasked l l' ev)
    (hd : ∀ i, ev = .heed i ∨ ev = .receive i → i ≠ d) :
    receivedBy d (l.deeds ev l') = [] ∧ begunBy d (l.deeds ev l') = [] := by
  have hbegun {i : Nat} (hi : ev = .heed i ∨ ev = .receive i) :
      receivedBy d ((l'.tasks.drop l.tasks.length).map .begun) = [] ∧
        begunBy d ((l'.tasks.drop l.tasks.length).map .begun) = [] := by
    have hnew : ∀ t ∈ l'.tasks.drop l.tasks.length, t.receiver = i := by
      cases htasked with
      | same htasks => simp [htasks]
      | performs h | ends h htasks => rcases hi with hi | hi <;> cases hi
      | @begins _ j r begun t hev hr htasks h =>
        obtain rfl : j = i := by rcases hi with rfl | rfl <;> simpa [eq_comm] using hev
        simp [htasks, h.receiver]
    obtain ⟨hreceived, -, hbegun⟩ := Deed.begun_only hnew d
    exact ⟨hreceived, hbegun.trans (if_neg (hd i hi))⟩
  cases ev with
  | task j =>
    simp only [deeds]
    cases l.completing? j <;> exact ⟨rfl, rfl⟩
  | client j => exact ⟨rfl, rfl⟩
  | heed i => exact hbegun (.inl rfl)
  | receive i =>
    obtain ⟨hreceived, hbegun⟩ := hbegun (.inr rfl)
    unfold deeds
    rw [Deed.receivedBy_append, Deed.begunBy_append, hreceived, hbegun]
    cases l.received? i with
    | none => exact ⟨rfl, rfl⟩
    | some message => simp [receivedBy, begunBy, hd i (.inr rfl)]
  | elapse ms => exact ⟨rfl, rfl⟩

/-- Where a subscriber is left, with one message in hand: it is closed, and none of the dispatchers
that it had then takes another message. -/
structure Halted (ref : SubscriberRef) (k count : Nat) (more : List (Deed P κ))
    (l : Live P κ α) : Prop where
  closed : ∃ workers, l.engine.standing? ref = some (workers, true)
  resting : ∀ (d : Nat) (r : Receiver P), l.receivers[d]? = some r → r.subscriber = ref →
    r.Rests ∧ d < count ∧ receivedBy d more = [] ∧ begunBy d more = []
  last : ∀ t ∈ l.tasks, t.scope.subscriber = ref → t.scope.delivery = k

section
variable {ref : SubscriberRef} {k count : Nat}

theorem isClosed_of_standing {workers : Option Nat}
    (h : l.engine.standing? ref = some (workers, true)) : l.isClosed ref = true := by
  obtain ⟨s, hs, hstanding⟩ := Option.map_eq_some_iff.mp h
  rw [Live.isClosed, hs]
  exact (Prod.mk.inj hstanding).2

theorem Halted.isClosed (h : Halted ref k count more l) : l.isClosed ref = true := by
  obtain ⟨workers, hstanding⟩ := h.closed
  exact isClosed_of_standing hstanding

theorem Halted.persists (h : Halted ref k count more l)
    (hpersists : l.engine.Persists l'.engine) :
    ∃ workers, l'.engine.standing? ref = some (workers, true) := by
  obtain ⟨workers, hstanding⟩ := h.closed
  obtain ⟨closed, hstanding', hclosed⟩ := hpersists _ _ _ hstanding
  obtain rfl := hclosed rfl
  exact ⟨workers, hstanding'⟩

/-- A dispatcher of the subscriber leaves its loop. -/
theorem Halted.leaves {i : Nat} {r r' : Receiver P} (h : Halted ref k count more l)
    (hadvances : Advances l l' i r r') (hsubscriber : r.subscriber = ref)
    (hleft : r'.state.phase = .left) (htasks : l'.tasks = l.tasks) :
    Halted ref k count more l' where
  closed := h.persists hadvances.backdrop.persists
  resting := by
    intro d s hs hsame
    rw [hadvances.receivers] at hs
    rcases (getElem?_set_iff hadvances.found).mp hs with ⟨rfl, rfl⟩ | ⟨-, hs⟩
    · exact ⟨.of_left hleft, (h.resting d r hadvances.found hsubscriber).2⟩
    · exact h.resting d s hs hsame
  last := htasks ▸ h.last

/-- The dispatchers of a halted subscriber stay at rest, and no more of them are started. -/
theorem Halted.resting_elsewhere (h : Halted ref k count more l) (hoverseen : Overseen log l)
    (hstep : l.step ev = some l')
    (hothers : ∀ (i : Nat) (r : Receiver P), ev = .heed i ∨ ev = .receive i →
      l.receivers[i]? = some r → r.subscriber ≠ ref) {d : Nat} {r' : Receiver P}
    (hr' : l'.receivers[d]? = some r') (hsame : r'.subscriber = ref) :
    r'.Rests ∧ d < count ∧ receivedBy d more = [] ∧ begunBy d more = [] := by
  cases hoverseen.kept.moves hstep with
  | performs hperforms =>
    rw [hperforms.rest] at hr'
    exact h.resting d r' hr' hsame
  | @ends j t r hends hhears =>
    rw [hhears.receivers] at hr'
    rcases (getElem?_set_iff hhears.found).mp hr' with ⟨rfl, rfl⟩ | ⟨-, hr'⟩
    · obtain ⟨hrests, hrest⟩ := h.resting _ r hhears.found hsame
      have hunheld : (r.state.complete t.number).held = [] :=
        (Dispatcher.State.held_complete ..).trans hrests.unheld
      exact ⟨⟨hunheld, fun _ => rfl⟩, hrest⟩
    · exact h.resting d r' hr' hsame
  | enlists henlists hserves =>
    obtain ⟨new, hreceivers, -⟩ := henlists.receivers
    by_cases hd : d < l.receivers.length
    · rw [hreceivers, List.getElem?_append_left hd] at hr'
      exact h.resting d r' hr' hsame
    · -- a dispatcher is not started for a subscriber that is closed
      obtain ⟨hopen, -⟩ := hoverseen.spawned hstep (Nat.le_of_not_lt hd) hr'
      obtain ⟨workers, hstanding⟩ := h.persists (persists_of_step hoverseen hstep)
      rw [hsame, isClosed_of_standing hstanding] at hopen
      cases hopen
  | @readied ev i r s hev hreadied =>
    rw [hreadied.receivers] at hr'
    rcases (getElem?_set_iff hreadied.found).mp hr' with ⟨rfl, rfl⟩ | ⟨-, hr'⟩
    · exact absurd (hreadied.subscriber.symm.trans hsame) (hothers _ r hev hreadied.found)
    · exact h.resting d r' hr' hsame
  | @hears ev i r s event hev htask hhears =>
    rw [hhears.receivers] at hr'
    rcases (getElem?_set_iff hhears.found).mp hr' with ⟨rfl, rfl⟩ | ⟨-, hr'⟩
    · exact absurd (hhears.subscriber.symm.trans hsame) (hothers _ r hev hhears.found)
    · exact h.resting d r' hr' hsame
  | elapses hrest =>
    rw [hrest] at hr'
    exact h.resting d r' hr' hsame

/-- Whatever happens, but for its own dispatchers' doing. -/
theorem Halted.elsewhere (h : Halted ref k count more l) (hoverseen : Overseen log l)
    (hstep : l.step ev = some l')
    (hothers : ∀ (i : Nat) (r : Receiver P), ev = .heed i ∨ ev = .receive i →
      l.receivers[i]? = some r → r.subscriber ≠ ref) : Halted ref k count more l' := by
  refine ⟨h.persists (persists_of_step hoverseen hstep), fun d r' hr' hsame =>
    h.resting_elsewhere hoverseen hstep hothers hr' hsame, ?_⟩
  -- a task of the subscriber was there before
  cases (hoverseen.kept.moves hstep).tasked with
  | same htasks => exact htasks ▸ h.last
  | @performs j t t' op hperforms =>
    rw [hperforms.tasks]
    intro u hu hsubscriber
    rcases List.mem_or_eq_of_mem_set hu with hu | rfl
    · exact h.last u hu hsubscriber
    · rw [hperforms.sameScope.2]
      exact h.last t (List.mem_of_getElem? hperforms.found)
        (hperforms.sameScope.1.symm.trans hsubscriber)
  | ends hends htasks =>
    rw [htasks]
    exact fun u hu => h.last u (List.eraseIdx_subset hu)
  | @begins ev i r begun t hev hr htasks hbegins =>
    rw [htasks]
    refine List.forall_mem_append.mpr ⟨h.last, List.forall_mem_singleton.mpr fun hsame => ?_⟩
    exact absurd (hbegins.subscriber.symm.trans hsame) (hothers i r hev hr)

theorem Halted.note (h : Halted ref k count more l) {entries : List (Deed P κ)}
    (hentries : ∀ (d : Nat) (r : Receiver P), l.receivers[d]? = some r → r.subscriber = ref →
      receivedBy d entries = [] ∧ begunBy d entries = []) :
    Halted ref k count (more ++ entries) l := by
  refine ⟨h.closed, fun d r hr hsame => ?_, h.last⟩
  obtain ⟨hrests, hd, hreceived, hbegun⟩ := h.resting d r hr hsame
  obtain ⟨hreceived', hbegun'⟩ := hentries d r hr hsame
  refine ⟨hrests, hd, ?_, ?_⟩
  · rw [Deed.receivedBy_append, hreceived, hreceived', List.append_nil]
  · rw [Deed.begunBy_append, hbegun, hbegun', List.append_nil]

theorem Halted.step (h : Halted ref k count more l) (hoverseen : Overseen log l)
    (hstep : l.step ev = some l') : Halted ref k count (more ++ l.deeds ev l') l' := by
  have htasked := (hoverseen.kept.moves hstep).tasked
  by_cases hown : ∃ (i : Nat) (r : Receiver P), (ev = .heed i ∨ ev = .receive i) ∧
      l.receivers[i]? = some r ∧ r.subscriber = ref
  · obtain ⟨i, r, hev, hr, hsubscriber⟩ := hown
    obtain ⟨hrests, -⟩ := h.resting i r hr hsubscriber
    have hclosed : l.isClosed r.subscriber = true := hsubscriber ▸ h.isClosed
    rcases hev with rfl | rfl
    · obtain ⟨r', hadvances, hleft, htasks⟩ :=
        leaves_of_heed hoverseen.kept hr hclosed hrests hstep
      have hdeeds : l.deeds (.heed i) l' = [] := by simp [deeds, htasks]
      rw [hdeeds, List.append_nil]
      exact h.leaves hadvances hsubscriber hleft htasks
    · have hnone : l.step (.receive i) = none := receive_of_rests hr hrests
      rw [hnone] at hstep
      cases hstep
  · have hothers : ∀ (i : Nat) (r : Receiver P), ev = .heed i ∨ ev = .receive i →
        l.receivers[i]? = some r → r.subscriber ≠ ref :=
      fun i r hev hr hsubscriber => hown ⟨i, r, hev, hr, hsubscriber⟩
    refine (h.note fun d r hr hsame => ?_).elsewhere hoverseen hstep hothers
    exact deeds_elsewhere htasked fun i hev hid => hothers i r hev (hid ▸ hr) hsame

theorem Halted.called (h : Halted ref k count more l) (hcalled : Called l l') :
    Halted ref k count more l' := by
  cases hcalled with
  | joins => exact ⟨h.closed, h.resting, h.last⟩

theorem Halted.goes (h : Halted ref k count [] l') (hoverseen : Overseen log l')
    (hgoes : Goes Called l' more m) : Halted ref k count more m := by
  induction hgoes with
  | start => exact h
  | step hbefore hstep ih => exact ih.step (hoverseen.goes hbefore.used) hstep
  | others _ hothers ih => exact ih.called hothers

end

/-! ## The last message -/

/-- The message that was taken in hand like that is acked, unless it was settled before. -/
structure Acked (k : Nat) (a : Acker) (q : Nat) (message : Message P.Route)
    (l : Live P κ α) : Prop where
  settled : l.engine.deliveries[k]? =
    some ⟨{ a with settlement := a.settlement.or (some .ack) }, .queue q message⟩
  told : a.settlement = none → ⟨message.idText, .ack⟩ ∈ l.engine.network.settlements

/-- How far the processing of the last message has got. -/
inductive Departing (k : Nat) (a : Acker) (q : Nat) (message : Message P.Route)
    (l : Live P κ α) : Prop where
  | parting {t : ProcessingTask P κ} (ht : t ∈ l.tasks) (hk : t.scope.delivery = k)
      (hparts : Parts t.program) (hawake : t.wakeAt ≤ l.now)
      (hd : l.engine.deliveries[k]? = some ⟨a, .queue q message⟩)
  | parted (hacked : Acked k a q message l) (hidle : ∀ t ∈ l.tasks, t.scope.delivery = k →
      t.program.Within fun op => Op.isIdle op = true)

section
variable {k q : Nat} {a : Acker} {message : Message P.Route} {t : ProcessingTask P κ} {j : Nat}

/-- What the task does next acks the message. -/
theorem Orderly.acked {t' : ProcessingTask P κ} {op : Processing.Op P.Route κ} (h : Orderly l)
    (hbacked : a.backed = true)
    (hd : l.engine.deliveries[t.scope.delivery]? = some ⟨a, .queue q message⟩)
    (hparts : Parts t.program) (hperforms : Performs l l' j t t' op) :
    Acked t.scope.delivery a q message l' ∧
      t'.program.Within fun op => Op.isIdle op = true := by
  obtain ⟨next, hprogram, hprogram'⟩ := hperforms.program
  rw [hprogram] at hparts
  obtain ⟨⟨id, rfl⟩, hidle⟩ := hparts
  obtain ⟨d, hd', hdeliveries⟩ := h.performs hperforms
  obtain rfl := Option.some.inj (hd.symm.trans hd')
  have hengine : l'.engine = (Engine.execProcessing (.exit id .ack) (l.engine, t.scope)).2.1 := by
    rcases hperforms.engine with hengine | ⟨-, ms, hsleep⟩
    · exact hengine
    · cases hsleep
  have hanswer : (Engine.execProcessing (.exit id .ack) (l.engine, t.scope)).1 =
      .ok (some .ack) := (Engine.ending_eq h.takes hd rfl rfl id .ack).1
  have hnetwork := Engine.network_exit h.takes hd rfl id .ack
  refine ⟨⟨?_, fun hunsettled => ?_⟩, hprogram' ▸ hidle _⟩
  · rw [hdeliveries, hanswer]
    exact (getElem?_set_iff hd).mpr (.inl ⟨rfl, rfl⟩)
  · have htells : a.tells .ack = [.ack] := if_pos ⟨hunsettled, hbacked⟩
    rw [hengine, hnetwork]
    show _ ∈ ((a.tells .ack).foldl _ l.engine.network).settlements
    rw [htells]
    exact List.mem_append_right _ (List.mem_singleton_self _)

/-- The task goes on, and its message stays as it is, as long as it has not performed anything. -/
theorem Orderly.remains (h : Orderly l) (hmoves : Moves l l' ev) (ht : t ∈ l.tasks)
    (hgoing : ∀ outcome, t.program ≠ .done outcome)
    (hd : l.engine.deliveries[t.scope.delivery]? = some ⟨a, .queue q message⟩)
    (hnot : ¬ ∃ j t' op, Performs l l' j t t' op) :
    t ∈ l'.tasks ∧ l'.engine.deliveries[t.scope.delivery]? = some ⟨a, .queue q message⟩ := by
  constructor
  · cases hmoves.tasked with
    | same htasks => exact htasks ▸ ht
    | @performs j u u' op hperforms =>
      have hbefore := perm_of_getElem? hperforms.found
      have hafter := perm_set_of_getElem? hperforms.found
      have hne : t ≠ u := by
        rintro rfl
        exact hnot ⟨j, u', op, hperforms⟩
      rw [hperforms.tasks, (hafter u').mem_iff]
      exact List.mem_cons_of_mem _ ((List.mem_cons.mp (hbefore.mem_iff.mp ht)).resolve_left hne)
    | @ends j u hends htasks =>
      obtain ⟨outcome, hdone⟩ := hends.program
      have hne : t ≠ u := by
        rintro rfl
        exact hgoing outcome hdone
      rw [htasks]
      exact (List.mem_cons.mp ((perm_of_getElem? hends.found).mem_iff.mp ht)).resolve_left hne
    | begins hev hr htasks hbegins =>
      rw [htasks]
      exact List.mem_append_left _ ht
  · rcases h.delivery hmoves hd with hsame | ⟨told, -, j, u, u', op, -, hperforms, hdelivery⟩
    · exact hsame
    · obtain rfl := h.eq_of_delivery ht (List.mem_of_getElem? hperforms.found) hdelivery
      exact absurd ⟨j, u', op, hperforms⟩ hnot

theorem Departing.step (h : Departing k a q message l) (horderly : Orderly l)
    (hbacked : a.backed = true) (hkept : Kept log l) (hstep : l.step ev = some l') :
    Departing k a q message l' := by
  have hmoves := hkept.moves hstep
  obtain ⟨hlasts, hsettlements⟩ := lasts_of_step hstep
  cases h with
  | @parting t ht hk hparts hawake hd =>
    subst hk
    by_cases hmine : ∃ j t' op, Performs l l' j t t' op
    · obtain ⟨j, t', op, hperforms⟩ := hmine
      obtain ⟨hacked, hidle⟩ := horderly.acked hbacked hd hparts hperforms
      have ht' : t' ∈ l'.tasks := by
        rw [hperforms.tasks]
        exact List.mem_of_getElem? ((getElem?_set_iff hperforms.found).mpr (.inl ⟨rfl, rfl⟩))
      refine .parted hacked fun u hu hdelivery => ?_
      rw [(horderly.step hkept hstep).eq_of_delivery ht' hu
        (hdelivery.trans hperforms.sameScope.2.symm)]
      exact hidle
    · have hgoing : ∀ outcome, t.program ≠ .done outcome := by
        intro outcome hdone
        rw [hdone] at hparts
        cases hparts
      obtain ⟨ht', hd'⟩ := horderly.remains hmoves ht hgoing hd hmine
      exact .parting ht' rfl hparts (Nat.le_trans hawake hlasts.now) hd'
  | parted hacked hidle =>
    obtain ⟨told, hd⟩ := horderly.exists_delivery hmoves hacked.settled
    refine .parted ⟨?_, fun hunsettled => hsettlements.subset (hacked.told hunsettled)⟩ ?_
    · rw [hd]
      cases a.settlement <;> rfl
    · exact hmoves.programs (fun _ _ hop answer => hop.2 answer)
        (lt_length_of_getElem? hacked.settled) hidle

theorem Departing.goes (h : Departing k a q message l') (horderly : Orderly l')
    (hbacked : a.backed = true) (hoverseen : Overseen log l') (hgoes : Goes Called l' more m) :
    Departing k a q message m := by
  induction hgoes with
  | start => exact h
  | step hbefore hstep ih =>
    exact ih.step (horderly.goes hoverseen hbefore) hbacked (hoverseen.goes hbefore.used).kept hstep
  | others _ hothers ih =>
    cases hothers with
    | joins =>
      cases ih with
      | parting ht hk hparts hawake hd => exact .parting ht hk hparts hawake hd
      | parted hacked hidle => exact .parted ⟨hacked.settled, hacked.told⟩ hidle

/-- A task that is awake can perform its next operation. -/
theorem exists_performs {op : Processing.Op P.Route κ}
    {next : Processing.Answer op → Program (Processing P.Route κ) ProcessingOutcome}
    (ht : l.tasks[j]? = some t) (hawake : t.wakeAt ≤ l.now) (hprogram : t.program = .call op next) :
    ∃ l' t', l.step (.task j) = some l' ∧ Performs l l' j t t' op := by
  have hsome : ∃ l', l.stepTask j = some l' := by
    simp only [stepTask, ht, Option.bind_some, Nat.not_lt.mpr hawake, if_false, hprogram]
    split <;> first | contradiction | exact ⟨_, rfl⟩
  obtain ⟨l', hstep⟩ := hsome
  refine ⟨l', ?_⟩
  obtain ⟨u, hends | ⟨u', op', hperforms⟩⟩ := task_cases hstep
  · obtain rfl := Option.some.inj (ht.symm.trans hends.found)
    obtain ⟨outcome, hdone⟩ := hends.program
    rw [hprogram] at hdone
    cases hdone
  · obtain rfl := Option.some.inj (ht.symm.trans hperforms.found)
    obtain ⟨next', hprogram', -⟩ := hperforms.program
    obtain ⟨rfl, -⟩ := Program.call.inj (hprogram.symm.trans hprogram')
    exact ⟨u', hstep, hperforms⟩

/-- The message is acked, or will be with the next step of its task. -/
theorem Departing.acked (h : Departing k a q message l) (horderly : Orderly l)
    (hbacked : a.backed = true) :
    Acked k a q message l ∨ (∃ t ∈ l.tasks, t.scope.delivery = k) ∧
      ∃ j l', l.step (.task j) = some l' ∧ Acked k a q message l' := by
  cases h with
  | @parting t ht hk hparts hawake hd =>
    subst hk
    obtain ⟨j, hj⟩ := List.mem_iff_getElem?.mp ht
    cases hprogram : t.program with
    | done outcome =>
      rw [hprogram] at hparts
      cases hparts
    | call op next =>
      obtain ⟨l', t', hstep, hperforms⟩ := exists_performs hj hawake hprogram
      exact .inr ⟨⟨t, ht, rfl⟩, j, l', hstep, (horderly.acked hbacked hd hparts hperforms).1⟩
  | parted hacked hidle => exact .inl hacked

/-- Nothing is sent for the message from then on. -/
theorem Departing.silent (h : Departing k a q message l) (horderly : Orderly l)
    (ht : t ∈ l.tasks) (hk : t.scope.delivery = k) {op : Processing.Op P.Route κ}
    {next : Processing.Answer op → Program (Processing P.Route κ) ProcessingOutcome}
    (hprogram : t.program = .call op next) : op.sends = false := by
  cases h with
  | @parting u hu hk' hparts hawake hd =>
    obtain rfl := horderly.eq_of_delivery hu ht (hk.trans hk'.symm)
    rw [hprogram] at hparts
    obtain ⟨⟨id, rfl⟩, -⟩ := hparts
    rfl
  | parted hacked hidle =>
    have hmine := hidle t ht hk
    rw [hprogram] at hmine
    exact (Processing.Op.Plain.of_isIdle op hmine.1).sendsNothing

end

/-! ## The stop -/

/-- A task closes its subscriber, and goes on. Nothing else is done at that. -/
structure Closes (l l' : Live P κ α) (j : Nat) (t t' : ProcessingTask P κ) : Prop where
  found : l.tasks[j]? = some t
  tasks : l'.tasks = l.tasks.set j t'
  scope : t'.scope = t.scope
  awake : t'.wakeAt ≤ l.now
  parts : Processing.Conduct t.program → Parts t'.program
  engine : l'.engine = l.engine.updateSubscriber t.scope.subscriber .close
  receivers : l'.receivers = l.receivers

section
variable {j : Nat} {t t' : ProcessingTask P κ}

theorem exists_closes {next : Unit → Program (Processing P.Route κ) ProcessingOutcome}
    (ht : l.tasks[j]? = some t) (hprogram : t.program = .call .close next)
    (hstep : l.step (.task j) = some l') : ∃ t', Closes l l' j t t' := by
  simp only [Live.step, stepTask, ht, Option.bind_some, hprogram] at hstep
  obtain ⟨hawake, hstep⟩ := Option.ite_none_left_eq_some.mp hstep
  obtain rfl := Option.some.inj hstep
  refine ⟨_, ht, rfl, rfl, Nat.le_of_not_lt hawake, fun hconduct => ?_, rfl, rfl⟩
  rw [hprogram] at hconduct
  exact hconduct.parts

theorem Closes.subscriber? (h : Closes l l' j t t') {ref : SubscriberRef}
    (href : ref ≠ t.scope.subscriber) :
    l'.engine.subscriber? ref = l.engine.subscriber? ref := by
  rw [h.engine, Engine.subscriber?_updateSubscriber, if_neg href.symm]

theorem Closes.broker (h : Closes l l' j t t') :
    l'.engine.network = l.engine.network ∧ l'.engine.deliveries = l.engine.deliveries := by
  rw [h.engine]
  exact Engine.updateSubscriber_keeps ..

theorem Closes.closed (h : Closes l l' j t t') {s : Subscriber P κ}
    (hs : l.engine.subscriber? t.scope.subscriber = some s) :
    l'.engine.standing? t.scope.subscriber = some (s.maxWorkers, true) := by
  rw [Engine.standing?, h.engine, Engine.subscriber?_updateSubscriber, if_pos rfl, hs]
  rfl

theorem Closes.departing (h : Closes l l' j t t') (horderly : Orderly l) {a : Acker} {q : Nat}
    {message : Message P.Route}
    (hd : l.engine.deliveries[t.scope.delivery]? = some ⟨a, .queue q message⟩) :
    Departing t.scope.delivery a q message l' := by
  have ht' : t' ∈ l'.tasks := by
    rw [h.tasks]
    exact List.mem_of_getElem? ((getElem?_set_iff h.found).mpr (.inl ⟨rfl, rfl⟩))
  have hnow : l'.now = l.now := by
    rw [now, h.engine, now]
    cases t.scope.subscriber <;> rfl
  have hparts := h.parts (horderly.holds t (List.mem_of_getElem? h.found)).conduct
  exact .parting ht' (congrArg _ h.scope) hparts (hnow ▸ h.awake) (h.broker.2 ▸ hd)

end

section
variable {t : ProcessingTask P κ} {s : Subscriber P κ} {n : Nat}

/-- The dispatcher of a task is at work, and does nothing else if it has one worker. -/
theorem Overseen.busy (h : Overseen log l) (horderly : Orderly l) (ht : t ∈ l.tasks)
    (hs : l.engine.subscriber? t.scope.subscriber = some s) (hworkers : s.maxWorkers = some n)
    (hn : n ≤ 1) : ∃ r, l.receivers[t.receiver]? = some r ∧ r.subscriber = t.scope.subscriber ∧
      r.state.isFinished = false ∧ r.state.phase = .working ∧
        (l.inProgress t.receiver).length ≤ 1 := by
  obtain ⟨r, hr, hsubscriber⟩ := (horderly.holds t ht).owned
  obtain ⟨j, hj⟩ := List.mem_iff_getElem?.mp ht
  have hserved := h.kept.served _ r hr
  have hmem := h.kept.inFlight hr hj
  obtain ⟨workers, closed, hstanding, hstate⟩ := hserved.standing
  have hone : r.state.workers = .one := by
    rw [hsubscriber, Engine.standing?, hs, Option.map_some] at hstanding
    obtain ⟨rfl, -⟩ := Prod.mk.inj (Option.some.inj hstanding)
    rw [hstate, hworkers, Dispatcher.Workers.ofMax_some, if_pos hn]
  have hsole := horderly.sole _ r hr hone
  refine ⟨r, hr, hsubscriber, Dispatcher.State.isFinished_of_mem hmem,
    hsole.busy (List.ne_nil_of_mem hmem), ?_⟩
  rw [hserved.length_inProgress]
  exact hsole.few

theorem Overseen.alone (h : Overseen log l) (horderly : Orderly l) (ht : t ∈ l.tasks)
    (hs : l.engine.subscriber? t.scope.subscriber = some s) (hworkers : s.maxWorkers = some n)
    (hn : n ≤ 1) {u : ProcessingTask P κ} (hu : u ∈ l.tasks)
    (hsame : u.scope.subscriber = t.scope.subscriber) : u = t := by
  obtain ⟨r, hr, hsubscriber, hwork, -, hfew⟩ := h.busy horderly ht hs hworkers hn
  obtain ⟨r', hr', hsubscriber', hwork', -⟩ :=
    h.busy horderly hu (hsame ▸ hs) hworkers hn
  have hreceiver : u.receiver = t.receiver := h.managed.single _ _ r' r hr' hr hwork' hwork
    ((hsubscriber'.trans hsame).trans hsubscriber.symm)
  have hmine {v : ProcessingTask P κ} (hv : v ∈ l.tasks) (hreceiver : v.receiver = t.receiver) :
      v ∈ l.inProgress t.receiver :=
    List.mem_filter.mpr ⟨hv, beq_iff_eq.mpr hreceiver⟩
  obtain ⟨only, honly⟩ := List.length_eq_one_iff.mp
    (Nat.le_antisymm hfew (List.length_pos_of_mem (hmine ht rfl)))
  have ht' := hmine ht rfl
  have hu' := hmine hu hreceiver
  rw [honly] at ht' hu'
  rw [List.mem_singleton.mp ht', List.mem_singleton.mp hu']

theorem Overseen.rests (h : Overseen log l) (horderly : Orderly l) (ht : t ∈ l.tasks)
    (hs : l.engine.subscriber? t.scope.subscriber = some s) (hworkers : s.maxWorkers = some n)
    (hn : n ≤ 1) {d : Nat} {r : Receiver P} (hr : l.receivers[d]? = some r)
    (hsubscriber : r.subscriber = t.scope.subscriber) : r.Rests := by
  obtain ⟨r', hr', hsubscriber', hwork', hworking, -⟩ := h.busy horderly ht hs hworkers hn
  cases hwork : r.state.isFinished with
  | true =>
    unfold Dispatcher.State.isFinished at hwork
    split at hwork
    · rename_i hleft
      exact .of_left hleft
    · cases hwork
  | false =>
    obtain rfl := h.managed.single _ _ r r' hr hr' hwork hwork'
      (hsubscriber.trans hsubscriber'.symm)
    obtain rfl := Option.some.inj (hr.symm.trans hr')
    refine ⟨?_, fun hphase => ?_⟩
    · simp only [Dispatcher.State.held, hworking]
    · rw [hworking] at hphase
      cases hphase

end

/-- A handler has asked to stop consuming in the processing of a message that has come this far.
That is why the subscriber is closed, and whenever a handler asks for it, that is what happens. -/
def Asked (t : ProcessingTask P κ) (m : Message P.Route) : Prop :=
  ∃ (s : Subscriber P κ) (publisher : Publisher P.Route κ) (ids : FreshIds)
    (past : List (Event (Processing P.Route κ))),
    Remains (s.process publisher (P.build ids m)) past t.program ∧
      (∀ rest out, Runs t.program rest out →
        s.AskedToStop publisher (P.build ids m) (past ++ rest)) ∧
      ∀ trace out, Runs (s.process publisher (P.build ids m)) trace out →
        s.AskedToStop publisher (P.build ids m) trace → ∃ ev ∈ trace, ev.op = .close

/-- What follows when a task closes its subscriber, in a group that has come from one state to
another by then. -/
structure Halts (log : List (Deed P κ)) (l₀ l l' : Live P κ α) (j : Nat)
    (t : ProcessingTask P κ) : Prop where
  /-- The other subscribers stay as they are, and so do all messages, all dispatchers, and the other
  tasks. -/
  alone : (∀ ref, ref ≠ t.scope.subscriber →
      l'.engine.subscriber? ref = l.engine.subscriber? ref) ∧
    l'.engine.network = l.engine.network ∧ l'.engine.deliveries = l.engine.deliveries ∧
      l'.receivers = l.receivers ∧ ∀ k, k ≠ j → l'.tasks[k]? = l.tasks[k]?
  closed : ∀ more m, Goes Called l' more m → m.isClosed t.scope.subscriber = true
  /-- Its dispatchers take no message any more, and no other one is started for it. -/
  retired : ∀ more m, Goes Called l' more m → ∀ (d : Nat) (r : Receiver P),
    m.receivers[d]? = some r → r.subscriber = t.scope.subscriber →
      d < l.receivers.length ∧ receivedBy d more = [] ∧ begunBy d more = []
  /-- It has no message in hand but the one at which it was closed. -/
  last : ∀ more m, Goes Called l' more m → ∀ u ∈ m.tasks,
    u.scope.subscriber = t.scope.subscriber → u.scope.delivery = t.scope.delivery
  /-- A handler asked for it, and that message is acked, unless it was settled by hand: by the next
  step of its task, if that has not happened, and in any case before the task completes. -/
  acked : ∃ a q message,
    l.engine.deliveries[t.scope.delivery]? = some ⟨a, .queue q message⟩ ∧ Asked t message ∧
      ∀ more m, Goes Called l' more m →
        Acked t.scope.delivery a q message m ∨
          (∃ u ∈ m.tasks, u.scope.delivery = t.scope.delivery) ∧
            ∃ k m', m.step (.task k) = some m' ∧ Acked t.scope.delivery a q message m'
  /-- Its task sends nothing, neither before nor after. -/
  silent : ∀ before after m, Goes Called l₀ before m ∧ Goes Called m after l ∨
    Goes Called l' after m → ∀ u ∈ m.tasks, u.scope.delivery = t.scope.delivery →
      ∀ op next, u.program = .call op next → op.sends = false
  /-- Another subscriber is closed only by a task of its own, a message is settled only by its
  own task, and none leaves its queue but to a dispatcher that waits for it. -/
  spared : ∀ more m, Goes Called l' more m → ∀ ev m', m.step ev = some m' →
    (∀ ref, m.isClosed ref = false → m'.isClosed ref = true → ∃ k u next, ev = .task k ∧
      m.tasks[k]? = some u ∧ u.scope.subscriber = ref ∧ u.program = .call .close next) ∧
    (∀ (k : Nat) (d : Delivery P), m.engine.deliveries[k]? = some d →
      m'.engine.deliveries[k]? = some d ∨
        ∃ i u, ev = .task i ∧ m.tasks[i]? = some u ∧ u.scope.delivery = k) ∧
    (m.engine.network.Keeps m'.engine.network ∨
      ∃ i q message, ev = .receive i ∧ Draws m m' i q message)
  /-- All that is received at any time is processed once. -/
  diligent : ∀ more m, Goes Called l' more m → ∀ (d : Nat) (r : Receiver P),
    m.receivers[d]? = some r → ∃ s, m.engine.subscriber? r.subscriber = some s ∧
      Diligent (log ++ more) m d r s.maxWorkers

section
variable {t : ProcessingTask P κ} {j : Nat} {s : Subscriber P κ} {n : Nat}

theorem Closes.halted {t' : ProcessingTask P κ} (h : Closes l l' j t t')
    (hoverseen : Overseen log l) (horderly : Orderly l)
    (hs : l.engine.subscriber? t.scope.subscriber = some s) (hworkers : s.maxWorkers = some n)
    (hn : n ≤ 1) : Halted t.scope.subscriber t.scope.delivery l.receivers.length [] l' := by
  have ht := List.mem_of_getElem? h.found
  refine ⟨⟨s.maxWorkers, h.closed hs⟩, fun d r hr hsubscriber => ?_, fun u hu hsubscriber => ?_⟩
  · rw [h.receivers] at hr
    exact ⟨hoverseen.rests horderly ht hs hworkers hn hr hsubscriber, lt_length_of_getElem? hr,
      rfl, rfl⟩
  · rw [h.tasks] at hu
    rcases List.mem_or_eq_of_mem_set hu with hu | rfl
    · rw [hoverseen.alone horderly ht hs hworkers hn hu hsubscriber]
    · rw [h.scope]

/-- A task that comes to close its subscriber has sent nothing so far. -/
theorem Orderly.unsent (h : Orderly m) (hoverseen : Overseen log m)
    (hgoes : Goes Called m more l) {u : ProcessingTask P κ} (hu : u ∈ m.tasks) (ht : t ∈ l.tasks)
    (hsame : u.scope.delivery = t.scope.delivery)
    {next : Unit → Program (Processing P.Route κ) ProcessingOutcome}
    (hprogram : t.program = .call .close next) {op : Processing.Op P.Route κ}
    {next' : Processing.Answer op → Program (Processing P.Route κ) ProcessingOutcome}
    (hprogram' : u.program = .call op next') : op.sends = false := by
  by_contra hsends
  have hpast := (h.holds u hu).conduct.of_sends hprogram' (Bool.not_eq_false _ ▸ hsends)
  obtain ⟨a, q, message, hd, -⟩ := (h.holds u hu).inHand
  -- whoever has got as far as sending does not close any more, however the group goes on
  have hlast : t.scope.delivery < l.engine.deliveries.length ∧
      ∀ v ∈ l.tasks, v.scope.delivery = t.scope.delivery →
        v.program.Within fun op => op ≠ Processing.Op.close := by
    clear ht hprogram
    induction hgoes with
    | start =>
      refine ⟨hsame ▸ lt_length_of_getElem? hd, fun v hv hdelivery => ?_⟩
      rw [h.eq_of_delivery hu hv (hdelivery.trans hsame.symm)]
      exact hpast
    | step hbefore hstep ih =>
      obtain ⟨hlength, hall⟩ := ih
      have hmoves := (hoverseen.goes hbefore.used).kept.moves hstep
      exact ⟨(h.goes hoverseen hbefore).length_deliveries hmoves hlength,
        hmoves.programs (fun _ _ hop answer => hop.2 answer) hlength hall⟩
    | others _ hothers ih =>
      cases hothers with
      | joins => exact ih
  have hclose := hlast.2 t ht rfl
  rw [hprogram] at hclose
  exact hclose.1 rfl

/-- When a handler asks to stop consuming, at a subscriber with one worker, that subscriber is
stopped for good, and nothing else is. -/
theorem Goes.halts {config : GroupConfig P.Route κ} {engine : Engine P κ}
    (htakes : engine.weather.settleFailures = 0)
    (h : Goes Called (Live.new config engine : Live P κ α) log l)
    {next : Unit → Program (Processing P.Route κ) ProcessingOutcome}
    (ht : l.tasks[j]? = some t) (hprogram : t.program = .call .close next)
    (hs : l.engine.subscriber? t.scope.subscriber = some s) (hworkers : s.maxWorkers = some n)
    (hn : n ≤ 1) (hstep : l.step (.task j) = some l') :
    Halts log (Live.new config engine) l l' j t := by
  have hnew : Overseen [] (Live.new config engine : Live P κ α) := overseen_new config engine
  have hfirst : Orderly (Live.new config engine : Live P κ α) := orderly_new config htakes
  have hoverseen : Overseen log l := hnew.goes h.used
  have horderly : Orderly l := hfirst.goes hnew h
  have hdeeds : l.deeds (.task j) l' = [] := by simp [deeds, completing?, ht, hprogram]
  have hoverseen' : Overseen log l' := by
    have hoverseen' := hoverseen.step hstep
    rwa [hdeeds, List.append_nil] at hoverseen'
  have horderly' : Orderly l' := horderly.step hoverseen.kept hstep
  have htmem : t ∈ l.tasks := List.mem_of_getElem? ht
  obtain ⟨t', hcloses⟩ := exists_closes ht hprogram hstep
  obtain ⟨a, q, message, hd, hbacked, s', publisher, ids, past, hremains⟩ :=
    (horderly.holds t htmem).inHand
  have hasked : Asked t message := ⟨s', publisher, ids, past, hremains,
    fun _ _ hrest => s'.askedToStop hremains hprogram hrest,
    fun _ _ hruns => (s'.closes_iff hruns).mpr⟩
  -- where the group is left, and what holds ever after
  have hhalted := hcloses.halted hoverseen horderly hs hworkers hn
  have hdeparting := hcloses.departing horderly hd
  refine ⟨⟨fun _ => hcloses.subscriber?, hcloses.broker.1, hcloses.broker.2, hcloses.receivers,
    fun k hk => ?_⟩, fun more m hm => ?_, fun more m hm d r hr hsubscriber => ?_,
    fun more m hm => ?_, ⟨a, q, message, hd, hasked, fun more m hm => ?_⟩, ?_, ?_, ?_⟩
  · rw [hcloses.tasks]
    exact List.getElem?_set_ne hk.symm
  · exact (hhalted.goes hoverseen' hm).isClosed
  · exact ((hhalted.goes hoverseen' hm).resting d r hr hsubscriber).2
  · exact (hhalted.goes hoverseen' hm).last
  · exact (hdeparting.goes horderly' hbacked hoverseen' hm).acked
      (horderly'.goes hoverseen' hm) hbacked
  · rintro before after m (⟨hbefore, hafter⟩ | hafter) u hu hsame op next' hprogram'
    · exact (hfirst.goes hnew hbefore).unsent (hnew.goes hbefore.used) hafter hu htmem hsame
        hprogram hprogram'
    · exact (hdeparting.goes horderly' hbacked hoverseen' hafter).silent
        (horderly'.goes hoverseen' hafter) hu hsame hprogram'
  · intro more m hm ev m' hstep'
    have hkept := (hoverseen'.goes hm.used).kept
    refine ⟨fun ref => closes_of_step hkept hstep', fun k d hd => ?_, ?_⟩
    · rcases (horderly'.goes hoverseen' hm).delivery (hkept.moves hstep') hd with hsame | hsettled
      · exact .inl hsame
      · obtain ⟨-, -, i, u, u', op, hev, hperforms, hdelivery⟩ := hsettled
        exact .inr ⟨i, u, hev, hperforms.found, hdelivery⟩
    · exact (keeps_of_step hstep').imp_left (·.network)
  · intro more m hm d r hr
    have hkept := (hoverseen'.goes hm.used).kept
    obtain ⟨workers, closed, hstanding, hstate⟩ := (hkept.served d r hr).standing
    obtain ⟨s', hs', hsame⟩ := Option.map_eq_some_iff.mp hstanding
    obtain ⟨rfl, -⟩ := Prod.mk.inj hsame
    exact ⟨s', hs', hkept.diligence hr hstate⟩

end

/-! ## A clerk who stops at the first return -/

namespace Orders

/-- A handler that is run for one message at a time, and asks to stop consuming. -/
def clerk : Registration Nats.protocol Unit :=
  { handler with
    binding := ⟨"returns", none⟩, maxWorkers := some 1, name := "returns"
    handler := fun _ => .done (.error (.interrupt .stopConsuming)) }

def shop : Engine Nats.protocol Unit :=
  (Engine.registerAll config false [clerk, handler] (.new 0 ())).2.2

def goods : Message Nats.protocol.Route := Message.new (Nats.Route.mk "returns") default

/-- Somebody who starts the group, sends two things back, and orders another. -/
def customer : Program (Calling Nats.protocol.Route Unit) Unit :=
  Calling.start.bind fun _ =>
    (Calling.publishAll config.publisher [goods, goods, order]).bind fun _ => .done ()

theorem abides_customer : Abides .free customer :=
  Calling.abides_start fun _ => (Calling.abides_publishAll ..).bind fun _ => rfl

/-- The clerk is about to be stopped when there is another thing to take back. -/
def stopping : List LiveStep :=
  List.replicate 3 (.client 0) ++ [.heed 0, .heed 1] ++ List.replicate 15 (.client 0) ++
    [.heed 0, .receive 0] ++ List.replicate 5 (.task 0)

/-- Is the task of a subscriber with one worker about to close it? -/
def isStopping (l : Live Nats.protocol Unit Unit) (t : ProcessingTask Nats.protocol Unit) : Bool :=
  (match t.program with
  | .call .close _ => true
  | _ => false) &&
    (l.engine.subscriber? t.scope.subscriber).any (·.maxWorkers == some 1)

theorem exists_stopping : ∃ log l t next s l',
    proceed stopping ((Live.new config shop).addClient customer).2 = some (log, l) ∧
      l.tasks[0]? = some t ∧ t.program = .call .close next ∧
        l.engine.subscriber? t.scope.subscriber = some s ∧ s.maxWorkers = some 1 ∧
          l.step (.task 0) = some l' ∧
            (l.engine.network.queues[0]?).map (·.waiting.length) = some 1 := by
  have hrun : (proceed stopping ((Live.new config shop).addClient customer).2).any
      (fun run => (run.2.tasks[0]?).any (isStopping run.2) && (run.2.step (.task 0)).isSome &&
        (run.2.engine.network.queues[0]?).map (·.waiting.length) == some 1) = true := by
    decide +kernel
  obtain ⟨⟨log, l⟩, hproceed, hends⟩ := (Option.any_eq_true ..).mp hrun
  simp only [Bool.and_eq_true, beq_iff_eq] at hends
  obtain ⟨⟨hstopping, hsome⟩, hwaiting⟩ := hends
  obtain ⟨t, ht, hstopping⟩ := (Option.any_eq_true ..).mp hstopping
  obtain ⟨l', hstep⟩ := Option.isSome_iff_exists.mp hsome
  obtain ⟨hclose, hone⟩ := (Bool.and_eq_true ..).mp hstopping
  obtain ⟨s, hs, hworkers⟩ := (Option.any_eq_true ..).mp hone
  split at hclose
  · rename_i next hprogram
    exact ⟨log, l, t, next, s, l', hproceed, ht, hprogram, hs, eq_of_beq hworkers, hstep, hwaiting⟩
  · cases hclose

end Orders

/-- The other thing is not taken back. -/
theorem halts_orders : ∃ (log : List (Deed Nats.protocol Unit))
    (l l' : Live Nats.protocol Unit Unit) (t : ProcessingTask Nats.protocol Unit),
    Goes Called (Live.new Orders.config Orders.shop) log l ∧
    (l.engine.network.queues[0]?).map (·.waiting.length) = some 1 ∧
      Halts log (Live.new Orders.config Orders.shop) l l' 0 t := by
  obtain ⟨log, l, t, next, s, l', hproceed, ht, hprogram, hs, hworkers, hstep, hwaiting⟩ :=
    Orders.exists_stopping
  have hjoined : Goes Called (Live.new Orders.config Orders.shop) []
      ((Live.new Orders.config Orders.shop).addClient Orders.customer).2 :=
    .others .start (.joins _ Orders.abides_customer)
  have hgoes : Goes Called (Live.new Orders.config Orders.shop) log l := hjoined.proceed hproceed
  exact ⟨log, l, l', t, hgoes, hwaiting,
    Goes.halts rfl hgoes ht hprogram hs hworkers (Nat.le_refl 1) hstep⟩

end Live
end MessageDispatch
