import MessageDispatch.Proofs.Attempts
import MessageDispatch.Proofs.Identity

/-! A message that fails at every delivery, from the native message to its settlement. A watcher
that counts up to a limit hands it back so many times and then rejects it, if the message carries an
id to be counted under. A message without one is new at every delivery. -/
namespace MessageDispatch

/-! ## What a watcher that counts has on record -/

namespace Watcher

def limit? : Watcher → Option UInt32
  | .counting limit _ => some limit
  | _ => none

def record? (id : String) : Watcher → Option UInt32
  | .counting _ attempts => Assoc.get? id attempts
  | _ => none

variable {w : Watcher} {n : UInt32} (h : w.limit? = some n) (id : String)

theorem limit?_add (w : Watcher) : (w.add id).limit? = w.limit? := by
  cases w <;> rfl

theorem limit?_remove (w : Watcher) : (w.remove id).limit? = w.limit? := by
  cases w <;> rfl

include h

theorem record?_add : (w.add id).record? id = some ((w.record? id).getD 0 + 1) := by
  cases w with
  | counting limit attempts => simp [add, record?, Assoc.get?_put]
  | _ => cases h

theorem record?_remove : (w.remove id).record? id = none := by
  cases w with
  | counting limit attempts => simp [remove, record?, Assoc.get?_erase]
  | _ => cases h

theorem isExhausted_eq : w.isExhausted id = decide (n < (w.record? id).getD 0) := by
  cases w with
  | counting limit attempts =>
    obtain rfl := Option.some.inj h
    rfl
  | _ => cases h

end Watcher

/-! ## One attempt, with others at work -/

namespace Engine

variable {P : Protocol} {κ : Type} {ref : SubscriberRef} {d : Nat} {id : String} {n : UInt32}
  {record : Option UInt32} {e e' : Engine P κ} {scope : Scope} {st : Engine P κ × Scope}
  {t : List (Event (Processing P.Route κ))}

/-- Others keep to the limit of a subscriber and to what is on record there of one message. -/
structure KeepsRecord (ref : SubscriberRef) (id : String) (e e' : Engine P κ) : Prop where
  limit : (e'.watcher ref).limit? = (e.watcher ref).limit?
  record : (e'.watcher ref).record? id = (e.watcher ref).record? id

/-- They do not settle the message either. -/
structure Apart (ref : SubscriberRef) (d : Nat) (id : String) (e e' : Engine P κ) : Prop extends
    KeepsRecord ref id e e' where
  acker : e'.acker d = e.acker d

/-- A message, delivered again after a nack, with its record at a subscriber that counts. -/
structure Counted (ref : SubscriberRef) (d : Nat) (id : String) (n : UInt32)
    (record : Option UInt32) (e : Engine P κ) : Prop where
  limit : (e.watcher ref).limit? = some n
  record : (e.watcher ref).record? id = record
  redelivers : (e.acker d).redelivers = true

theorem Counted.subscriber (h : Counted ref d id n record e) : (e.subscriber? ref).isSome := by
  have hlimit := h.limit
  unfold watcher at hlimit
  cases hs : e.subscriber? ref with
  | none => simp [hs, Watcher.limit?] at hlimit
  | some s => rfl

theorem Counted.apart (h : Counted ref d id n record e) (hothers : Apart ref d id e e') :
    Counted ref d id n record e' :=
  ⟨hothers.limit.trans h.limit, hothers.record.trans h.record, hothers.acker ▸ h.redelivers⟩

theorem Counted.unbooked (h : Counted ref d id n record e) (ht : Unbooked t)
    (hperformed : Performed (Apart ref d id) (e, scope) t st) :
    Counted ref d id n record st.1 := by
  generalize hst : (e, scope) = st₀ at hperformed
  induction hperformed generalizing e scope with
  | nil =>
    subst hst
    exact h
  | @cons e₀ e₁ scope₀ op t st hothers rest ih =>
    cases hst
    obtain ⟨hop, ht⟩ := List.forall_mem_cons.mp ht
    -- first the others, then the operation itself
    have h₁ := h.apart hothers
    have hwatcher : (execProcessing op (e₁, scope₀)).2.1.watcher ref = e₁.watcher ref :=
      watcher_execProcessing hop e₁ scope₀
    refine ih ⟨hwatcher ▸ h₁.limit, hwatcher ▸ h₁.record, ?_⟩ ht rfl
    rw [redelivers_execProcessing]
    exact h₁.redelivers

theorem Counted.enter (h : Counted ref d id n record e) (hs : scope.subscriber = ref) :
    Counted ref d id n (some (record.getD 0 + 1)) (execProcessing (.enter id) (e, scope)).2.1 := by
  have hwatcher : (execProcessing (.enter id) (e, scope)).2.1.watcher ref =
      (e.watcher ref).add id := by
    subst hs
    obtain ⟨s, hs⟩ := Option.isSome_iff_exists.mp h.subscriber
    show (e.updateSubscriber scope.subscriber _).watcher scope.subscriber = _
    simp only [watcher, subscriber?_updateSubscriber, hs]
    rfl
  refine ⟨?_, ?_, ?_⟩
  · rw [hwatcher, Watcher.limit?_add, h.limit]
  · rw [hwatcher, Watcher.record?_add h.limit, h.record]
  · rw [redelivers_execProcessing]
    exact h.redelivers

/-- A failure is rejected, and the record dropped, once the attempts on record pass the limit. -/
theorem Counted.fail {type : ErrorType} {action : Action} (h : Counted ref d id n record e)
    (hs : scope.subscriber = ref) (hd : scope.delivery = d)
    (hexit : (e.exit scope id (.failure type)).1 = .ok (some action)) :
    action = (if n < record.getD 0 then .reject else .nack) ∧
      Counted ref d id n (if n < record.getD 0 then none else record)
        (e.exit scope id (.failure type)).2 := by
  subst hs hd
  have hredelivers : ((e.exit scope id (.failure type)).2.acker scope.delivery).redelivers =
      (e.acker scope.delivery).redelivers :=
    redelivers_execProcessing (.exit id (.failure type)) e scope
  rw [result_exit] at hexit
  obtain ⟨hinstruction, hwatcher⟩ := Attempt.watcher_exit hexit
  replace hwatcher := (watcher_exit e scope id _ h.subscriber).trans hwatcher
  have hexhausted := Watcher.isExhausted_eq h.limit id
  rw [h.record] at hexhausted
  by_cases hcount : n < record.getD 0
  · have haction : action = .reject := by
      simpa [Attempt.instruction, hexhausted, hcount] using hinstruction
    subst haction
    rw [if_pos hcount, if_pos hcount]
    refine ⟨rfl, ?_, ?_, hredelivers.trans h.redelivers⟩
    · rw [hwatcher]
      exact (Watcher.limit?_remove ..).trans h.limit
    · rw [hwatcher]
      exact Watcher.record?_remove h.limit id
  · have haction : action = .nack := by
      simpa [Attempt.instruction, hexhausted, hcount] using hinstruction
    subst haction
    rw [if_neg hcount, if_neg hcount]
    have hkept : (e.exit scope id (.failure type)).2.watcher scope.subscriber =
        e.watcher scope.subscriber := by
      rw [hwatcher]
      simp [Attempt.forgets, h.redelivers]
    exact ⟨rfl, hkept ▸ h.limit, hkept ▸ h.record, hredelivers.trans h.redelivers⟩

/-- What an attempt that fails comes to: the instruction that ends it, and the record that it
leaves. -/
theorem Counted.attempt {t₁ t₂ t₃ : List (Event (Processing P.Route κ))} {type : ErrorType}
    {action : Action} (h : Counted ref d id n record e)
    (hs : scope.subscriber = ref) (hd : scope.delivery = d)
    (hperformed : Performed (Apart ref d id) (e, scope)
      (t₁ ++ ⟨.enter id, ()⟩ :: (t₂ ++ ⟨.exit id (.failure type), .ok (some action)⟩ :: t₃)) st)
    (h₁ : Unbooked t₁) (h₂ : Unbooked t₂) (h₃ : Unbooked t₃) :
    let count := record.getD 0 + 1
    action = (if n < count then .reject else .nack) ∧
      Counted ref d id n (if n < count then none else some count) st.1 := by
  obtain ⟨⟨e₁, scope₁⟩, hp₁, hperformed⟩ := hperformed.split
  obtain ⟨hs₁, hd₁⟩ := hp₁.same_scope
  have hc₁ := h.unbooked h₁ hp₁
  obtain ⟨e₂, hothers₂, -, hperformed⟩ := hperformed.uncons
  have hc₂ := (hc₁.apart hothers₂).enter (hs₁.trans hs)
  obtain ⟨⟨e₃, scope₃⟩, hp₃, hperformed⟩ := hperformed.split
  obtain ⟨hs₃, hd₃⟩ := hp₃.same_scope
  have hc₃ := hc₂.unbooked h₂ hp₃
  obtain ⟨e₄, hothers₄, hexit, hperformed⟩ := hperformed.uncons
  obtain ⟨haction, hc₄⟩ := (hc₃.apart hothers₄).fail (hs₃.trans (hs₁.trans hs))
    (hd₃.trans (hd₁.trans hd)) hexit
  exact ⟨haction, hc₄.unbooked h₃ hperformed⟩

/-! ## What the broker is told -/

theorem Performed.keepsAcker (h : Performed (Apart ref d id) (e, scope) t st)
    (ht : ∀ ev ∈ t, ev.op.settles = false) : st.1.acker d = e.acker d := by
  generalize hst : (e, scope) = st₀ at h
  induction h generalizing e scope with
  | nil =>
    subst hst
    rfl
  | @cons e₀ e₁ scope₀ op t st hothers rest ih =>
    cases hst
    obtain ⟨hop, ht⟩ := List.forall_mem_cons.mp ht
    rw [ih ht rfl, acker_execProcessing hop, hothers.acker]

/-- The instruction that ends an attempt is the one that the broker was given, if nobody settled
the message before. -/
theorem Performed.settlement {u v : List (Event (Processing P.Route κ))} {outcome : Outcome}
    {action : Action}
    (h : Performed (Apart ref d id) (e, scope)
      (u ++ ⟨.exit id outcome, .ok (some action)⟩ :: v) st) (hd : scope.delivery = d)
    (hu : ∀ ev ∈ u, ev.op.settles = false) (hv : ∀ ev ∈ v, ev.op.settles = false)
    (hredelivers : (e.acker d).redelivers = true) (hunsettled : (e.acker d).settlement = none) :
    (st.1.acker d).settlement = some action := by
  obtain ⟨⟨e₁, scope₁⟩, hp₁, h⟩ := h.split
  obtain ⟨e₂, hothers, hexit, h⟩ := h.uncons
  have hacker : e₂.acker d = e.acker d := hothers.acker.trans (hp₁.keepsAcker hu)
  have hd₁ : scope₁.delivery = d := hp₁.same_scope.2.trans hd
  subst hd₁
  rw [h.keepsAcker hv]
  show ((e₂.exit scope₁ id outcome).2.acker scope₁.delivery).settlement = some action
  rw [acker_exit e₂ scope₁ id outcome (hacker ▸ hredelivers)]
  exact Attempt.settlement_exit (hacker ▸ hunsettled) hexit

end Engine

/-! ## One delivery -/

/-- What a delivery that failed comes to. -/
structure Failed where
  /-- The id that the message was known by. -/
  id : String
  /-- The instruction that the attempt ended with. -/
  action : Action
  /-- What the broker was told in fact. -/
  settlement : Option Action
  /-- Did user code settle the message itself? -/
  byHand : Bool

def settledByHand {ρ κ : Type} (t : List (Event (Processing ρ κ))) : Bool :=
  t.any fun ev => ev.op.settles && !ev.op.keepsBooks

section
variable {κ : Type} (b : Broker) (ref : SubscriberRef) (raw : b.protocol.Raw)

/-- One delivery of a native message to a subscriber, from its arrival to the end of processing. The
broker delivers the message again after a nack and accepts every instruction, and processing ends in
a failure that is not fatal. An id that is generated for the message is new to the watcher. -/
inductive Delivered (e : Engine b.protocol κ) : Failed → Engine b.protocol κ → Prop where
  | failed {s : Subscriber b.protocol κ} {publisher : Publisher b.protocol.Route κ}
      {source : Source b.protocol} {t : List (Event (Processing b.protocol.Route κ))}
      {outcome : ProcessingOutcome} {id : String} {type : ErrorType} {action : Action}
      {e' : Engine b.protocol κ} {scope : Scope}
      (hsubscriber : e.subscriber? ref = some s) (hparse : s.parse = b.protocol.parse)
      (hrun : Runs (s.process publisher raw) t outcome)
      (hperformed : Engine.Performed (Engine.Apart ref e.deliveries.length id)
        ((e.addDelivery ⟨.ofBackend true, source⟩).2, ⟨ref, e.deliveries.length, some none⟩) t
        (e', scope))
      (hfails : ⟨.exit id (.failure type), .ok (some action)⟩ ∈ t)
      (hfresh : b.carriedId? raw = none → (e.watcher ref).record? id = none) :
      Delivered e
        ⟨id, action, (e'.acker e.deliveries.length).settlement, settledByHand t⟩ e'

/-- The same message delivered again and again, with others at work in between. -/
inductive Redelivered : Engine b.protocol κ → List Failed → Engine b.protocol κ → Prop where
  | once {e e' : Engine b.protocol κ} {failed : Failed} (h : Delivered b ref raw e failed e') :
      Redelivered e [failed] e'
  | again {e e₁ e₂ e' : Engine b.protocol κ} {failed : Failed} {log : List Failed}
      (h : Delivered b ref raw e failed e₁) (hothers : Engine.KeepsRecord ref failed.id e₁ e₂)
      (rest : Redelivered e₂ log e') : Redelivered e (failed :: log) e'

end

variable {κ : Type} {b : Broker} {ref : SubscriberRef} {raw : b.protocol.Raw}
  {e e' : Engine b.protocol κ} {n : UInt32}

theorem Engine.counted_addDelivery {P : Protocol} {e : Engine P κ} {id : String}
    {source : Source P} (hlimit : (e.watcher ref).limit? = some n) :
    Counted ref e.deliveries.length id n ((e.watcher ref).record? id)
      (e.addDelivery ⟨.ofBackend true, source⟩).2 := by
  have hwatcher : (e.addDelivery ⟨.ofBackend true, source⟩).2.watcher ref = e.watcher ref :=
    watcher_congr (by cases ref <;> rfl)
  refine ⟨hwatcher ▸ hlimit, by rw [hwatcher], ?_⟩
  simp [addDelivery, acker, Acker.ofBackend, Acker.redelivers]

/-- Among the events of an attempt the only one that leaves an attempt is its own end. -/
theorem Unbooked.exit_unique {ρ κ : Type} {t₁ t₂ t₃ : List (Event (Processing ρ κ))}
    {id id' : String} {outcome outcome' : Outcome}
    {answer answer' : Except AckError (Option Action)}
    (h₁ : Unbooked t₁) (h₂ : Unbooked t₂) (h₃ : Unbooked t₃)
    (h : (⟨.exit id outcome, answer⟩ : Event (Processing ρ κ)) ∈
      t₁ ++ ⟨.enter id', ()⟩ :: (t₂ ++ ⟨.exit id' outcome', answer'⟩ :: t₃)) :
    id = id' ∧ outcome = outcome' ∧ answer = answer' := by
  rcases List.mem_append.mp h with h | h
  · cases h₁ _ h
  rcases List.mem_cons.mp h with h | h
  · cases h
  rcases List.mem_append.mp h with h | h
  · cases h₂ _ h
  rcases List.mem_cons.mp h with h | h
  · cases h
    exact ⟨rfl, rfl, rfl⟩
  · cases h₃ _ h

/-- Without a settlement by hand, only the end of the attempt settles the message. -/
theorem settles_eq_false {ρ κ : Type} {t u : List (Event (Processing ρ κ))}
    (hhand : settledByHand u = false) (htu : t ⊆ u) (ht : Unbooked t) :
    ∀ ev ∈ t, ev.op.settles = false := by
  intro ev hev
  have hnone := List.any_eq_false.mp hhand ev (htu hev)
  rw [ht ev hev] at hnone
  simpa using hnone

theorem Delivered.attempt {failed : Failed} (h : Delivered b ref raw e failed e')
    (hlimit : (e.watcher ref).limit? = some n) :
    let count := ((e.watcher ref).record? failed.id).getD 0 + 1
    (∀ id, b.carriedId? raw = some id → failed.id = id) ∧
      (b.carriedId? raw = none → (e.watcher ref).record? failed.id = none) ∧
      failed.action = (if n < count then .reject else .nack) ∧
      (e'.watcher ref).limit? = some n ∧
      (e'.watcher ref).record? failed.id = (if n < count then none else some count) ∧
      (failed.byHand = false → failed.settlement = some failed.action) := by
  cases h with
  | @failed s publisher source t outcome id type action _ scope hsubscriber hparse hrun hperformed
      hfails hfresh =>
    intro count
    rcases Subscriber.attempt_of_process hrun with hunbooked |
      ⟨fresh, t₁, t₂, t₃, ended, answer, h₁, h₂, h₃, rfl⟩
    · cases hunbooked _ hfails
    · -- the attempt of the run is the one that failed
      have h₀ : Unbooked (⟨.publishing .freshId, fresh⟩ :: t₁) :=
        List.forall_mem_cons.mpr ⟨rfl, h₁⟩
      obtain ⟨hid, rfl, rfl⟩ := Unbooked.exit_unique h₀ h₂ h₃ hfails
      rw [← hid] at hperformed ⊢
      have hstart : Engine.Counted ref e.deliveries.length id n ((e.watcher ref).record? id)
          (e.addDelivery ⟨.ofBackend true, source⟩).2 := Engine.counted_addDelivery hlimit
      obtain ⟨haction, hend⟩ := hstart.attempt rfl rfl hperformed h₀ h₂ h₃
      refine ⟨?_, hfresh, haction, hend.limit, hend.record, ?_⟩
      · intro carried hcarried
        have hparsed := Broker.messageId_parse b fresh raw
        rw [hcarried] at hparsed
        rw [hparse] at hid
        exact hid.trans hparsed
      · intro hhand
        rw [← List.cons_append, ← List.append_assoc] at hperformed
        refine hperformed.settlement rfl ?_ ?_ hstart.redelivers ?_
        · have hbefore := settles_eq_false hhand (List.subset_append_left ..) h₀
          refine List.forall_mem_append.mpr ⟨hbefore, List.forall_mem_cons.mpr ⟨rfl, ?_⟩⟩
          exact settles_eq_false hhand (by intro ev hev; simp [hev]) h₂
        · exact settles_eq_false hhand (by intro ev hev; simp [hev]) h₃
        · simp [Engine.addDelivery, Engine.acker, Acker.ofBackend]

/-! ## Many deliveries -/

theorem toNat_succ {k : UInt32} (h : k.toNat + 1 < UInt32.size) :
    (k + 1).toNat = k.toNat + 1 := by
  have hmod : (k + 1).toNat = (k.toNat + 1) % 2 ^ 32 := UInt32.toNat_add k 1
  rw [hmod]
  exact Nat.mod_eq_of_lt h

theorem Redelivered.length_pos {log : List Failed} (h : Redelivered b ref raw e log e') :
    0 < log.length := by
  cases h <;> simp

/-- A message that carries an id is handed back until the attempts on record pass the limit. -/
theorem Redelivered.of_carried {log : List Failed} (h : Redelivered b ref raw e log e')
    {id : String} (hid : b.carriedId? raw = some id) (hlimit : (e.watcher ref).limit? = some n)
    (hn : n.toNat + 1 < UInt32.size)
    (hcount : (((e.watcher ref).record? id).getD 0).toNat + log.length = n.toNat + 1) :
    log.map Failed.action = List.replicate (log.length - 1) .nack ++ [.reject] ∧
      (∀ failed ∈ log, failed.id = id) ∧ (e'.watcher ref).record? id = none := by
  induction h with
  | @once e e' failed h =>
    obtain ⟨hcarried, -, haction, -, hrecord, -⟩ := h.attempt hlimit
    obtain rfl := hcarried id hid
    simp only [List.length_singleton] at hcount
    have hlt : n < ((e.watcher ref).record? failed.id).getD 0 + 1 := by
      rw [UInt32.lt_iff_toNat_lt, toNat_succ (by omega)]
      omega
    rw [if_pos hlt] at haction hrecord
    exact ⟨by simp [haction], by simp, hrecord⟩
  | @again e e₁ e₂ e' failed log h hothers rest ih =>
    obtain ⟨hcarried, -, haction, hlimit₁, hrecord, -⟩ := h.attempt hlimit
    obtain rfl := hcarried id hid
    have hpos := rest.length_pos
    simp only [List.length_cons] at hcount
    have hsucc := toNat_succ (k := ((e.watcher ref).record? failed.id).getD 0) (by omega)
    have hge : ¬ n < ((e.watcher ref).record? failed.id).getD 0 + 1 := by
      rw [UInt32.lt_iff_toNat_lt, hsucc]
      omega
    rw [if_neg hge] at haction hrecord
    -- one more on record and one less to come
    have hrecord₂ := hothers.record.trans hrecord
    obtain ⟨hactions, hids, hend⟩ := ih (hothers.limit.trans hlimit₁) (by
      rw [hrecord₂, Option.getD_some, hsucc]
      omega)
    have hreplicate : List.replicate log.length Action.nack =
        .nack :: List.replicate (log.length - 1) .nack := by
      rw [← List.replicate_succ, Nat.sub_add_cancel hpos]
    refine ⟨?_, List.forall_mem_cons.mpr ⟨rfl, hids⟩, hend⟩
    rw [List.map_cons, haction, hactions, List.length_cons, Nat.add_sub_cancel, hreplicate]
    rfl

/-- A message without an id is handed back every time. -/
theorem Redelivered.of_fresh {log : List Failed} (h : Redelivered b ref raw e log e')
    (hid : b.carriedId? raw = none) (hlimit : (e.watcher ref).limit? = some n) (hn : n ≠ 0) :
    ∀ failed ∈ log, failed.action = .nack := by
  have hone : ¬ n < (none : Option UInt32).getD 0 + 1 := by
    rw [UInt32.lt_iff_toNat_lt]
    have hzero : n.toNat ≠ 0 := fun h => hn (UInt32.toNat_inj.mp h)
    show ¬ n.toNat < 1
    omega
  induction h with
  | once h =>
    obtain ⟨-, hfresh, haction, -⟩ := h.attempt hlimit
    rw [hfresh hid, if_neg hone] at haction
    exact List.forall_mem_singleton.mpr haction
  | again h hothers rest ih =>
    obtain ⟨-, hfresh, haction, hlimit₁, -⟩ := h.attempt hlimit
    rw [hfresh hid, if_neg hone] at haction
    exact List.forall_mem_cons.mpr ⟨haction, ih (hothers.limit.trans hlimit₁)⟩

theorem Redelivered.told {log : List Failed} (h : Redelivered b ref raw e log e')
    (hlimit : (e.watcher ref).limit? = some n) :
    ∀ failed ∈ log, failed.byHand = false → failed.settlement = some failed.action := by
  induction h with
  | once h =>
    obtain ⟨-, -, -, -, -, htold⟩ := h.attempt hlimit
    exact List.forall_mem_singleton.mpr htold
  | again h hothers rest ih =>
    obtain ⟨-, -, -, hlimit₁, -, htold⟩ := h.attempt hlimit
    exact List.forall_mem_cons.mpr ⟨htold, ih (hothers.limit.trans hlimit₁)⟩

/-- Exactly if it carries an id, or if the limit is zero, a message that fails at every delivery is
handed back as often as the limit says and then rejected, and nothing stays on record of it. -/
theorem Redelivered.bounded_iff {log : List Failed} (h : Redelivered b ref raw e log e')
    (hlimit : (e.watcher ref).limit? = some n) (hn : n.toNat + 1 < UInt32.size)
    (hnew : ∀ id, b.carriedId? raw = some id → (e.watcher ref).record? id = none)
    (hlength : log.length = n.toNat + 1) :
    (log.map Failed.action = List.replicate n.toNat .nack ++ [.reject] ∧
      (∀ failed ∈ log, failed.byHand = false → failed.settlement = some failed.action) ∧
      ∀ failed ∈ log, (e'.watcher ref).record? failed.id = none) ↔
      (b.carriedId? raw).isSome ∨ n = 0 := by
  cases hid : b.carriedId? raw with
  | some id =>
    refine iff_of_true ?_ (.inl rfl)
    have hzero : (((e.watcher ref).record? id).getD 0).toNat = 0 := by
      rw [hnew id hid]
      rfl
    obtain ⟨hactions, hids, hend⟩ := h.of_carried hid hlimit hn (by omega)
    rw [hlength, Nat.add_sub_cancel] at hactions
    refine ⟨hactions, h.told hlimit, ?_⟩
    intro failed hfailed
    rw [hids failed hfailed]
    exact hend
  | none =>
    by_cases hn₀ : n = 0
    · subst hn₀
      refine iff_of_true ?_ (.inr rfl)
      cases h with
      | once h =>
        obtain ⟨-, hfresh, haction, -, hrecord, htold⟩ := h.attempt hlimit
        have hlt : (0 : UInt32) < (none : Option UInt32).getD 0 + 1 := by decide
        rw [hfresh hid, if_pos hlt] at haction hrecord
        exact ⟨by simp [haction], List.forall_mem_singleton.mpr htold,
          List.forall_mem_singleton.mpr hrecord⟩
      | again h hothers rest =>
        -- one delivery is all there is
        have hpos := rest.length_pos
        have hlength : _ + 1 = 0 + 1 := hlength
        omega
    · refine iff_of_false ?_ (by simp [hn₀])
      rintro ⟨hactions, -, -⟩
      have hnack := h.of_fresh hid hlimit hn₀
      have hreject : Action.reject ∈ log.map Failed.action := by
        rw [hactions]
        simp
      obtain ⟨failed, hfailed, hreject⟩ := List.mem_map.mp hreject
      rw [hnack failed hfailed] at hreject
      cases hreject

/-! ## A handler that always fails -/

/-- A subscriber whose only handler is always down. -/
def failing (w : Watcher) : Subscriber Broker.nats.protocol Unit where
  binding := (⟨"jobs", none⟩ : Nats.Binding)
  description := none
  parse := Broker.nats.protocol.parse
  retry := .never
  telemetry := []
  shortCircuit := false
  maxWorkers := none
  watcher := w
  calls := [{
    body := .handler [] fun _ => .done (.error (.ofText "down"))
    filter := .notProcessed
    decoder := .byContentType
    targets := []
    info := ⟨"failing", none, none⟩ }]
  records := [.fresh false 0]
  closed := false

def failingGroup (n : UInt32) : Engine Broker.nats.protocol Unit :=
  { Engine.new 0 () with subscribers := [failing (.ofPolicy (.times n))] }

def job (headers : Headers) : Nats.Delivery where
  subject := "jobs"
  reply := none
  headers := headers
  body := "work".toUTF8

section
variable (w : Watcher) (raw : Nats.Delivery) (e : Engine Broker.nats.protocol Unit)

/-- What processing a message asks for, with nobody else at work. -/
def failingTrace : List (Event (Processing Broker.nats.protocol.Route Unit)) :=
  ((failing w).process ⟨[], 0⟩ raw).trace Engine.execProcessing
    ((e.addDelivery ⟨.ofBackend true, .nowhere⟩).2, ⟨.member 0, e.deliveries.length, some none⟩)

/-- The group after that. -/
def afterFailing : Engine Broker.nats.protocol Unit :=
  (Engine.runProcessing ((failing w).process ⟨[], 0⟩ raw)
    (e.addDelivery ⟨.ofBackend true, .nowhere⟩).2
    ⟨.member 0, e.deliveries.length, some none⟩).2.1

end

theorem delivered_failing {w : Watcher} {raw : Nats.Delivery}
    {e : Engine Broker.nats.protocol Unit} {id : String} {action : Action}
    (hsubscriber : e.subscriber? (.member 0) = some (failing w))
    (hfails : ⟨.exit id (.failure .transient), .ok (some action)⟩ ∈ failingTrace w raw e)
    (hfresh : Broker.nats.carriedId? raw = none → (e.watcher (.member 0)).record? id = none)
    (hsettlement : ((afterFailing w raw e).acker e.deliveries.length).settlement = some action)
    (hhand : settledByHand (failingTrace w raw e) = false) :
    Delivered .nats (.member 0) raw e ⟨id, action, some action, false⟩ (afterFailing w raw e) := by
  rw [← hsettlement, ← hhand]
  exact .failed hsubscriber rfl (.of_run ..) (.of_run (fun _ => ⟨⟨rfl, rfl⟩, rfl⟩) _ _) hfails
    hfresh

/-- A message with an id, at a subscriber that tries everything twice. -/
def identified : Nats.Delivery := job (.ofList [(HeaderName.messageId, "m-1")])

theorem redelivered_identified :
    Redelivered .nats (.member 0) identified (failingGroup 1)
      [⟨"m-1", .nack, some .nack, false⟩, ⟨"m-1", .reject, some .reject, false⟩]
      (afterFailing (.counting 1 [("m-1", 1)]) identified
        (afterFailing (.counting 1 []) identified (failingGroup 1))) := by
  have hfirst : Delivered .nats (.member 0) identified (failingGroup 1)
      ⟨"m-1", .nack, some .nack, false⟩
      (afterFailing (.counting 1 []) identified (failingGroup 1)) :=
    delivered_failing rfl (.tail _ (.tail _ (.tail _ (.tail _ (.head _)))))
      (fun h => absurd h (by decide)) rfl rfl
  have hsecond : Delivered .nats (.member 0) identified
      (afterFailing (.counting 1 []) identified (failingGroup 1))
      ⟨"m-1", .reject, some .reject, false⟩
      (afterFailing (.counting 1 [("m-1", 1)]) identified
        (afterFailing (.counting 1 []) identified (failingGroup 1))) :=
    delivered_failing rfl (.tail _ (.tail _ (.tail _ (.tail _ (.head _)))))
      (fun h => absurd h (by decide)) rfl rfl
  exact .again hfirst ⟨rfl, rfl⟩ (.once hsecond)

theorem bounded_identified :
    ([Action.nack, .reject] = List.replicate 1 .nack ++ [.reject] ∧
      (∀ failed ∈ ([⟨"m-1", .nack, some .nack, false⟩, ⟨"m-1", .reject, some .reject, false⟩] :
        List Failed), failed.byHand = false → failed.settlement = some failed.action) ∧
      ∀ failed ∈ ([⟨"m-1", .nack, some .nack, false⟩, ⟨"m-1", .reject, some .reject, false⟩] :
        List Failed), ((afterFailing (.counting 1 [("m-1", 1)]) identified
          (afterFailing (.counting 1 []) identified (failingGroup 1))).watcher
            (.member 0)).record? failed.id = none) ↔
      (Broker.nats.carriedId? identified).isSome ∨ (1 : UInt32) = 0 :=
  redelivered_identified.bounded_iff rfl (by decide) (fun _ _ => rfl) rfl

/-- A message without an id is handed back where it should have been rejected. -/
theorem redelivered_anonymous :
    Redelivered .nats (.member 0) (job .empty) (failingGroup 1)
      [⟨freshIdText 0, .nack, some .nack, false⟩, ⟨freshIdText 1, .nack, some .nack, false⟩]
      (afterFailing (.counting 1 [(freshIdText 0, 1)]) (job .empty)
        (afterFailing (.counting 1 []) (job .empty) (failingGroup 1))) := by
  have hfirst : Delivered .nats (.member 0) (job .empty) (failingGroup 1)
      ⟨freshIdText 0, .nack, some .nack, false⟩
      (afterFailing (.counting 1 []) (job .empty) (failingGroup 1)) :=
    delivered_failing rfl (.tail _ (.tail _ (.tail _ (.tail _ (.head _)))))
      (fun _ => rfl) rfl rfl
  have hsecond : Delivered .nats (.member 0) (job .empty)
      (afterFailing (.counting 1 []) (job .empty) (failingGroup 1))
      ⟨freshIdText 1, .nack, some .nack, false⟩
      (afterFailing (.counting 1 [(freshIdText 0, 1)]) (job .empty)
        (afterFailing (.counting 1 []) (job .empty) (failingGroup 1))) :=
    delivered_failing rfl (.tail _ (.tail _ (.tail _ (.tail _ (.head _)))))
      (fun _ => by decide) rfl rfl
  exact .again hfirst ⟨rfl, rfl⟩ (.once hsecond)

theorem not_forall_bounded :
    ¬ ∀ (b : Broker) (ref : SubscriberRef) (raw : b.protocol.Raw) (e e' : Engine b.protocol Unit)
      (n : UInt32) (log : List Failed), Redelivered b ref raw e log e' →
      (e.watcher ref).limit? = some n → n.toNat + 1 < UInt32.size →
      (∀ id, b.carriedId? raw = some id → (e.watcher ref).record? id = none) →
      log.length = n.toNat + 1 →
      log.map Failed.action = List.replicate n.toNat .nack ++ [.reject] ∧
        ∀ failed ∈ log, (e'.watcher ref).record? failed.id = none := by
  intro h
  obtain ⟨hactions, -⟩ := h .nats (.member 0) (job .empty) _ _ 1 _ redelivered_anonymous rfl
    (by decide) (fun _ _ => rfl) rfl
  exact absurd hactions (by decide)

end MessageDispatch
