import MessageDispatch.Engine
import MessageDispatch.Proofs.Runs

/-! The engine carrying out the operations of a run, with others at work in between. Only entering
and leaving an attempt changes the watcher of a subscriber, and nothing changes whether the broker
of a message delivers it again. -/
namespace MessageDispatch

/-- Does the operation enter or leave an attempt? -/
def Processing.Op.keepsBooks {ρ κ : Type} : Processing.Op ρ κ → Bool
  | .enter _ => true
  | .exit .. => true
  | _ => false

/-- Does it settle the message, by hand or at the end of an attempt? -/
def Processing.Op.settles {ρ κ : Type} : Processing.Op ρ κ → Bool
  | .settle _ => true
  | .exit .. => true
  | _ => false

theorem Acker.redelivers_settle {σ : Type} (call : Action → σ → Except String Unit × σ)
    (action : Action) (a : Acker) (s : σ) :
    (a.settle call action s).2.1.redelivers = a.redelivers := by
  unfold settle claim? complete
  cases a.settlement with
  | some _ => rfl
  | none =>
    dsimp only
    split
    · split <;> rfl
    · rfl

/-- The broker's instruction stays with a message that was not settled before. -/
theorem Acker.settlement_settle {σ : Type} {call : Action → σ → Except String Unit × σ}
    {action : Action} {a : Acker} {s : σ} (ha : a.settlement = none)
    (h : (a.settle call action s).1 = .ok ()) :
    (a.settle call action s).2.1.settlement = some action := by
  unfold settle claim? complete at h ⊢
  rw [ha] at h ⊢
  dsimp only at h ⊢
  split at h
  · rename_i hbacked
    rw [if_pos hbacked]
    cases hcall : (call action s).1 with
    | ok _ => rfl
    | error reason => simp [hcall] at h
  · rename_i hbacked
    rw [if_neg hbacked]

/-- Settling changes nothing of the broker's side that the instructions leave alone. -/
theorem Acker.broker_settle {σ β : Type} {call : Action → σ → Except String Unit × σ}
    (view : σ → β) (hcall : ∀ action s, view (call action s).2 = view s) (a : Acker)
    (action : Action) (s : σ) : view (a.settle call action s).2.2 = view s := by
  unfold settle
  cases a.claim? action with
  | none => rfl
  | some claimed =>
    dsimp only
    split
    · exact hcall action s
    · rfl

namespace Attempt

variable {σ : Type} {call : Action → σ → Except String Unit × σ} {w : Watcher} {id : String}
  {outcome : Outcome} {a : Acker} {s : σ}

theorem forgets_congr {a' : Acker} (h : a'.redelivers = a.redelivers) (action : Option Action) :
    forgets a' action = forgets a action := by
  unfold forgets
  rw [h]

/-- The watcher after an attempt whose settlement the broker accepted. -/
theorem watcher_exit {action : Option Action}
    (h : (exit call w id outcome a s).result = .ok action) :
    action = instruction w id outcome ∧
      (exit call w id outcome a s).watcher = if forgets a action then w.remove id else w := by
  unfold exit at h ⊢
  cases hi : instruction w id outcome with
  | none =>
    rw [hi] at h
    obtain rfl := Except.ok.inj h
    exact ⟨rfl, rfl⟩
  | some asked =>
    simp only [hi] at h ⊢
    have hforgets := forgets_congr (Acker.redelivers_settle call asked a s)
    cases hs : (a.settle call asked s).1 with
    | error err => simp [hs] at h
    | ok _ =>
      simp only [hs] at h ⊢
      obtain rfl := Except.ok.inj h
      exact ⟨rfl, by rw [hforgets]⟩

theorem settlement_exit {action : Action} (ha : a.settlement = none)
    (h : (exit call w id outcome a s).result = .ok (some action)) :
    (exit call w id outcome a s).acker.settlement = some action := by
  obtain ⟨hi, -⟩ := watcher_exit h
  unfold exit at h ⊢
  rw [← hi] at h ⊢
  dsimp only at h ⊢
  cases hs : (a.settle call action s).1 with
  | error err => simp [hs] at h
  | ok _ => exact Acker.settlement_settle ha hs

theorem redelivers_exit : (exit call w id outcome a s).acker.redelivers = a.redelivers := by
  unfold exit
  cases instruction w id outcome with
  | none => rfl
  | some asked =>
    have hsettle := Acker.redelivers_settle call asked a s
    dsimp only
    split <;> exact hsettle

theorem broker_exit {β : Type} (view : σ → β)
    (hcall : ∀ action s, view (call action s).2 = view s) :
    view (exit call w id outcome a s).broker = view s := by
  unfold exit
  cases instruction w id outcome with
  | none => rfl
  | some asked =>
    dsimp only
    split <;> exact Acker.broker_settle view hcall a asked s

end Attempt

namespace Engine

variable {P : Protocol} {κ : Type}

/-- Carry out operations one after the other. Before each of them others may change the engine. -/
inductive Performed (others : Engine P κ → Engine P κ → Prop) :
    Engine P κ × Scope → List (Event (Processing P.Route κ)) → Engine P κ × Scope → Prop where
  | nil {st : Engine P κ × Scope} : Performed others st [] st
  | cons {e e₁ : Engine P κ} {scope : Scope} {op : Processing.Op P.Route κ}
      {t : List (Event (Processing P.Route κ))} {st : Engine P κ × Scope} (h : others e e₁)
      (rest : Performed others (execProcessing op (e₁, scope)).2 t st) :
      Performed others (e, scope) (⟨op, (execProcessing op (e₁, scope)).1⟩ :: t) st

/-- The watcher of a subscriber, as an attempt finds it. -/
def watcher (e : Engine P κ) (ref : SubscriberRef) : Watcher :=
  ((e.subscriber? ref).map (·.watcher)).getD .never

variable {e : Engine P κ} {scope : Scope} {ref : SubscriberRef} {d : Nat}

/-! ## What settling leaves alone -/

theorem subscriber?_instruct (delivery : Nat) (action : Action) (e : Engine P κ)
    (ref : SubscriberRef) : (instruct delivery action e).2.subscriber? ref = e.subscriber? ref := by
  unfold instruct
  split
  · split <;> cases ref <;> rfl
  · cases ref <;> rfl
  · rfl

theorem acker_instruct (delivery : Nat) (action : Action) (e : Engine P κ) (d : Nat) :
    (instruct delivery action e).2.acker d = e.acker d := by
  unfold instruct
  split
  · split <;> rfl
  · simp only [acker, List.getElem?_modify]
    split <;> cases e.deliveries[d]? <;> rfl
  · rfl

theorem redelivers_setAcker (e : Engine P κ) (delivery : Nat) (a : Acker) (d : Nat)
    (h : a.redelivers = (e.acker delivery).redelivers) :
    ((e.setAcker delivery a).acker d).redelivers = (e.acker d).redelivers := by
  simp only [setAcker, acker, List.getElem?_modify]
  split
  · rename_i heq
    subst heq
    cases hd : e.deliveries[delivery]? with
    | none => rfl
    | some found => simpa [acker, hd] using h
  · cases e.deliveries[d]? <;> rfl

theorem subscriber?_setAcker (delivery : Nat) (a : Acker) :
    (e.setAcker delivery a).subscriber? ref = e.subscriber? ref := by
  cases ref <;> rfl

theorem subscriber?_updateSubscriber (ref' : SubscriberRef) (f : Subscriber P κ → Subscriber P κ) :
    (e.updateSubscriber ref' f).subscriber? ref =
      if ref' = ref then (e.subscriber? ref).map f else e.subscriber? ref := by
  cases ref' with
  | member i =>
    cases ref with
    | member j =>
      simp only [updateSubscriber, subscriber?, List.getElem?_modify, SubscriberRef.member.injEq]
      split <;> cases e.subscribers[j]? <;> rfl
    | inbox => rfl
  | inbox =>
    cases ref with
    | member j => rfl
    | inbox =>
      simp only [updateSubscriber, subscriber?, if_true]
      cases e.inbox <;> rfl

theorem watcher_congr {e' : Engine P κ} (h : e'.subscriber? ref = e.subscriber? ref) :
    e'.watcher ref = e.watcher ref := by
  simp only [watcher, h]

theorem watcher_updateSubscriber {ref' : SubscriberRef} {f : Subscriber P κ → Subscriber P κ}
    (hf : ∀ s, (f s).watcher = s.watcher) :
    (e.updateSubscriber ref' f).watcher ref = e.watcher ref := by
  simp only [watcher, subscriber?_updateSubscriber]
  split
  · cases e.subscriber? ref with
    | none => rfl
    | some s => exact hf s
  · rfl

/-- Settling by hand and at the end of an attempt change the broker's side in the same way. -/
theorem subscriber?_settle (a : Acker) (delivery : Nat) (action : Action) (e : Engine P κ) :
    (a.settle (instruct delivery) action e).2.2.subscriber? ref = e.subscriber? ref :=
  Acker.broker_settle (fun e : Engine P κ => e.subscriber? ref)
    (fun _ _ => subscriber?_instruct ..) a action e

theorem acker_settle (a : Acker) (delivery : Nat) (action : Action) (e : Engine P κ) :
    (a.settle (instruct delivery) action e).2.2.acker d = e.acker d :=
  Acker.broker_settle (fun e : Engine P κ => e.acker d) (fun _ _ => acker_instruct ..) a action e

/-- The end of an attempt, before the engine takes it over. -/
def ending (e : Engine P κ) (scope : Scope) (id : String) (outcome : Outcome) :
    Attempt.Ended (Engine P κ) :=
  Attempt.exit (instruct scope.delivery) (e.watcher scope.subscriber) id outcome
    (e.acker scope.delivery) e

theorem subscriber?_ending (e : Engine P κ) (scope : Scope) (id : String) (outcome : Outcome) :
    (e.ending scope id outcome).broker.subscriber? ref = e.subscriber? ref :=
  Attempt.broker_exit (fun e : Engine P κ => e.subscriber? ref)
    fun _ _ => subscriber?_instruct ..

theorem acker_ending (e : Engine P κ) (scope : Scope) (id : String) (outcome : Outcome) :
    (e.ending scope id outcome).broker.acker d = e.acker d :=
  Attempt.broker_exit (fun e : Engine P κ => e.acker d) fun _ _ => acker_instruct ..

/-! ## What operations leave alone -/

theorem execAmbient_keeps (op : Ambient.Op κ) (e : Engine P κ) (item : Option (Option String)) :
    (execAmbient op (e, item)).2.1.subscribers = e.subscribers ∧
      (execAmbient op (e, item)).2.1.inbox = e.inbox ∧
        (execAmbient op (e, item)).2.1.deliveries = e.deliveries := by
  cases op with
  | setLocal s => cases item <;> exact ⟨rfl, rfl, rfl⟩
  | _ => exact ⟨rfl, rfl, rfl⟩

theorem execPublishing_keeps (op : Publishing.Op P.Route κ) (e : Engine P κ)
    (item : Option (Option String)) :
    (execPublishing op (e, item)).2.1.subscribers = e.subscribers ∧
      (execPublishing op (e, item)).2.1.inbox = e.inbox ∧
        (execPublishing op (e, item)).2.1.deliveries = e.deliveries := by
  cases op with
  | ambient op => exact execAmbient_keeps op e item
  | fate =>
    simp only [execPublishing]
    cases e.weather.fates <;> exact ⟨rfl, rfl, rfl⟩
  | _ => exact ⟨rfl, rfl, rfl⟩

theorem subscriber?_execPublishing (op : Publishing.Op P.Route κ) (e : Engine P κ)
    (item : Option (Option String)) :
    (execPublishing op (e, item)).2.1.subscriber? ref = e.subscriber? ref := by
  obtain ⟨hsubscribers, hinbox, -⟩ := execPublishing_keeps op e item
  cases ref with
  | member i => exact congrArg (·[i]?) hsubscribers
  | inbox => exact congrArg (·.map (·.2)) hinbox

theorem acker_execPublishing (op : Publishing.Op P.Route κ) (e : Engine P κ)
    (item : Option (Option String)) :
    (execPublishing op (e, item)).2.1.acker d = e.acker d := by
  simp only [acker, (execPublishing_keeps op e item).2.2]

/-- An operation stays with its subscriber and its message. -/
theorem scope_execProcessing (op : Processing.Op P.Route κ) (e : Engine P κ) (scope : Scope) :
    (execProcessing op (e, scope)).2.2.subscriber = scope.subscriber ∧
      (execProcessing op (e, scope)).2.2.delivery = scope.delivery := by
  cases op <;> exact ⟨rfl, rfl⟩

theorem watcher_execProcessing {op : Processing.Op P.Route κ} (hop : op.keepsBooks = false)
    (e : Engine P κ) (scope : Scope) :
    (execProcessing op (e, scope)).2.1.watcher ref = e.watcher ref := by
  cases op with
  | publishing op => exact watcher_congr (subscriber?_execPublishing op e scope.item)
  | settle action => exact watcher_congr ((subscriber?_setAcker ..).trans (subscriber?_settle ..))
  | recordBody | recordForwarded | close => exact watcher_updateSubscriber fun _ => rfl
  | enter id => cases hop
  | exit id outcome => cases hop
  | _ => exact watcher_congr (by cases ref <;> rfl)

theorem acker_updateSubscriber (ref : SubscriberRef) (f : Subscriber P κ → Subscriber P κ) :
    (e.updateSubscriber ref f).acker d = e.acker d := by
  cases ref <;> rfl

/-- Nothing changes whether a message is delivered again after a nack. -/
theorem redelivers_execProcessing (op : Processing.Op P.Route κ) (e : Engine P κ) (scope : Scope) :
    ((execProcessing op (e, scope)).2.1.acker d).redelivers = (e.acker d).redelivers := by
  cases op with
  | publishing op => exact congrArg _ (acker_execPublishing op e scope.item)
  | settle action =>
    let settled := (e.acker scope.delivery).settle (instruct scope.delivery) action e
    show ((settled.2.2.setAcker scope.delivery settled.2.1).acker d).redelivers = _
    rw [redelivers_setAcker, acker_settle]
    rw [acker_settle]
    exact Acker.redelivers_settle ..
  | exit id outcome =>
    let ended := e.ending scope id outcome
    show (((ended.broker.setAcker scope.delivery ended.acker).updateSubscriber scope.subscriber
      ({ · with watcher := ended.watcher })).acker d).redelivers = _
    -- the acker that is written back was read before the broker was told
    rw [acker_updateSubscriber, redelivers_setAcker, acker_ending]
    rw [acker_ending]
    exact Attempt.redelivers_exit
  | enter | recordBody | recordForwarded | close => exact congrArg _ (acker_updateSubscriber ..)
  | _ => rfl

theorem acker_execProcessing {op : Processing.Op P.Route κ} (hop : op.settles = false)
    (e : Engine P κ) (scope : Scope) :
    (execProcessing op (e, scope)).2.1.acker d = e.acker d := by
  cases op with
  | publishing op => exact acker_execPublishing op e scope.item
  | settle action => cases hop
  | exit id outcome => cases hop
  | enter | recordBody | recordForwarded | close => exact acker_updateSubscriber ..
  | _ => rfl

theorem result_exit (e : Engine P κ) (scope : Scope) (id : String) (outcome : Outcome) :
    (e.exit scope id outcome).1 = (e.ending scope id outcome).result :=
  rfl

/-- The watcher after an attempt. -/
theorem watcher_exit (e : Engine P κ) (scope : Scope) (id : String) (outcome : Outcome)
    (hs : (e.subscriber? scope.subscriber).isSome) :
    (e.exit scope id outcome).2.watcher scope.subscriber =
      (e.ending scope id outcome).watcher := by
  let ended := e.ending scope id outcome
  obtain ⟨s, hs⟩ := Option.isSome_iff_exists.mp hs
  show ((ended.broker.setAcker scope.delivery ended.acker).updateSubscriber scope.subscriber
      ({ · with watcher := ended.watcher })).watcher scope.subscriber = ended.watcher
  rw [watcher, subscriber?_updateSubscriber, if_pos rfl, subscriber?_setAcker, subscriber?_ending,
    hs]
  rfl

theorem acker_setAcker (e : Engine P κ) (a : Acker) (h : (e.acker d).redelivers = true) :
    (e.setAcker d a).acker d = a := by
  cases hd : e.deliveries[d]? with
  | none => simp [acker, hd, Acker.unbacked, Acker.redelivers] at h
  | some found => simp [setAcker, acker, hd]

/-- The acker of a message after an attempt at it. -/
theorem acker_exit (e : Engine P κ) (scope : Scope) (id : String) (outcome : Outcome)
    (h : (e.acker scope.delivery).redelivers = true) :
    (e.exit scope id outcome).2.acker scope.delivery = (e.ending scope id outcome).acker := by
  let ended := e.ending scope id outcome
  show ((ended.broker.setAcker scope.delivery ended.acker).updateSubscriber scope.subscriber
    ({ · with watcher := ended.watcher })).acker scope.delivery = ended.acker
  rw [acker_updateSubscriber]
  refine acker_setAcker _ _ ?_
  rw [acker_ending]
  exact h

/-! ## Runs in the engine -/

variable {others : Engine P κ → Engine P κ → Prop} {st st' : Engine P κ × Scope}
  {t u : List (Event (Processing P.Route κ))}

/-- A program carried out with nobody else at work. -/
theorem Performed.of_run {α : Type} (hothers : ∀ e, others e e)
    (p : Program (Processing P.Route κ) α) (st : Engine P κ × Scope) :
    Performed others st (p.trace execProcessing st) (p.run execProcessing st).2 := by
  induction p generalizing st with
  | done a => exact .nil
  | call op next ih => exact .cons (hothers st.1) (ih _ _)

theorem Performed.split (h : Performed others st (t ++ u) st') :
    ∃ mid, Performed others st t mid ∧ Performed others mid u st' := by
  induction t generalizing st with
  | nil => exact ⟨st, .nil, h⟩
  | cons ev t ih =>
    cases h with
    | cons hothers rest =>
      obtain ⟨mid, h₁, h₂⟩ := ih rest
      exact ⟨mid, .cons hothers h₁, h₂⟩

theorem Performed.uncons {op : Processing.Op P.Route κ} {answer : Processing.Answer op}
    (h : Performed others (e, scope) (⟨op, answer⟩ :: t) st) :
    ∃ e₁, others e e₁ ∧ (execProcessing op (e₁, scope)).1 = answer ∧
      Performed others (execProcessing op (e₁, scope)).2 t st := by
  generalize hl : (⟨op, answer⟩ :: t : List (Event (Processing P.Route κ))) = l at h
  cases h with
  | nil => cases hl
  | cons hothers rest =>
    cases hl
    exact ⟨_, hothers, rfl, rest⟩

theorem Performed.same_scope (h : Performed others st t st') :
    st'.2.subscriber = st.2.subscriber ∧ st'.2.delivery = st.2.delivery := by
  induction h with
  | nil => exact ⟨rfl, rfl⟩
  | cons hothers rest ih =>
    obtain ⟨hsubscriber, hdelivery⟩ := scope_execProcessing _ _ _
    exact ⟨ih.1.trans hsubscriber, ih.2.trans hdelivery⟩

end Engine
end MessageDispatch
