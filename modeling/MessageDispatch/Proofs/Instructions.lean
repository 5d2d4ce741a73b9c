import MessageDispatch.Proofs.Course

/-! What the broker is told about a message, by hand or at the end of the attempt at it. -/
namespace MessageDispatch

open Processing

/-! ## Noting instructions -/

/-- A way to instruct the broker, with a note of each instruction. -/
def noting {σ : Type} (call : Action → σ → Except String Unit × σ) (action : Action)
    (s : σ × List Action) : Except String Unit × (σ × List Action) :=
  ((call action s.1).1, (call action s.1).2, s.2 ++ [action])

/-- What is told about a message when it is to be settled. -/
def Acker.tells (a : Acker) (action : Action) : List Action :=
  if a.settlement = none ∧ a.backed = true then [action] else []

/-- The notes change nothing else, and an instruction is for a message that is not settled yet. -/
theorem Acker.settle_noting {σ : Type} (call : Action → σ → Except String Unit × σ)
    (action : Action) (a : Acker) (s : σ) (told : List Action) :
    a.settle (noting call) action (s, told) =
      ((a.settle call action s).1, (a.settle call action s).2.1,
        (a.settle call action s).2.2, told ++ a.tells action) := by
  unfold settle claim? tells noting
  cases ha : a.settlement with
  | some settled => simp
  | none =>
    dsimp only
    cases hb : a.backed with
    | false => simp
    | true => rfl

/-- A message that was not settled is settled as asked, unless the broker refuses. -/
theorem Acker.acker_settle {σ : Type} (call : Action → σ → Except String Unit × σ)
    (action : Action) (a : Acker) (s : σ) :
    (a.settle call action s).2.1 =
      { a with
        settlement := a.settlement.or
          (match (a.settle call action s).1 with
          | .ok _ => some action
          | .error _ => none) } := by
  obtain ⟨settlement, backed, redelivering⟩ := a
  cases settlement with
  | some settled => rfl
  | none =>
    cases backed with
    | false => rfl
    | true =>
      rcases hcall : call action s with ⟨reason | ⟨⟩, s'⟩ <;>
        simp [settle, claim?, complete, hcall]

namespace Attempt

variable {σ : Type} (call : Action → σ → Except String Unit × σ) (w : Watcher) (id : String)
  (outcome : Outcome) (a : Acker) (s : σ)

/-- What is told about a message at the end of an attempt. -/
theorem told_exit (told : List Action) :
    (exit (noting call) w id outcome a (s, told)).broker.2 =
      told ++ ((instruction w id outcome).map a.tells).getD [] := by
  unfold exit
  cases instruction w id outcome with
  | none => simp
  | some action =>
    have hnoting := Acker.settle_noting call action a s told
    simp only [hnoting]
    split <;> simp

/-- A message that was not settled is settled as the outcome asks, unless the broker refuses. -/
theorem acker_exit :
    (exit call w id outcome a s).acker =
      { a with
        settlement := a.settlement.or
          (match (exit call w id outcome a s).result with
          | .ok action => action
          | .error _ => none) } := by
  unfold exit
  cases instruction w id outcome with
  | none => simp
  | some action =>
    have hacker := Acker.acker_settle call action a s
    dsimp only
    cases hresult : (a.settle call action s).1 with
    | error err => simpa [hresult] using hacker
    | ok _ => simpa [hresult] using hacker

end Attempt

/-! ## One operation -/

namespace Processing

variable {ρ κ : Type} {action : Action} {id : String} {outcome : Outcome}

/-- Did the broker refuse an instruction? -/
def refused : Event (Processing ρ κ) → Bool
  | ⟨.settle _, .error _⟩ => true
  | ⟨.exit .., .error _⟩ => true
  | _ => false

theorem ok_of_settle_accepted {answer : Except AckError Unit}
    (h : refused (⟨.settle action, answer⟩ : Event (Processing ρ κ)) = false) :
    answer = .ok () := by
  cases answer with
  | ok _ => rfl
  | error _ => cases h

theorem ok_of_exit_accepted {answer : Except AckError (Option Action)}
    (h : refused (⟨.exit id outcome, answer⟩ : Event (Processing ρ κ)) = false) :
    ∃ told, answer = .ok told := by
  cases answer with
  | ok told => exact ⟨told, rfl⟩
  | error _ => cases h

end Processing

namespace Engine

variable {P : Protocol} {κ : Type}

/-- The acker of a message that was taken in hand. -/
def acker? (e : Engine P κ) (delivery : Nat) : Option Acker :=
  (e.deliveries[delivery]?).map (·.acker)

/-- What the broker is told by an operation. -/
def instructions : Processing.Op P.Route κ → Engine P κ × Scope → List Action
  | .settle action, (e, scope) =>
    ((e.acker scope.delivery).settle (noting (instruct scope.delivery)) action (e, [])).2.2.2
  | .exit id outcome, (e, scope) =>
    (Attempt.exit (noting (instruct scope.delivery)) (e.watcher scope.subscriber) id outcome
      (e.acker scope.delivery) (e, [])).broker.2
  | _, _ => []

variable {e e' : Engine P κ} {scope : Scope} {d : Nat} {a : Acker}

theorem acker_eq_of_acker? (h : e.acker? d = some a) : e.acker d = a := by
  obtain ⟨found, hfound, rfl⟩ := Option.map_eq_some_iff.mp h
  simp [acker, hfound]

theorem acker?_congr (h : e'.deliveries = e.deliveries) : e'.acker? d = e.acker? d := by
  rw [acker?, h, acker?]

theorem acker?_instruct (delivery : Nat) (action : Action) (e : Engine P κ) :
    (instruct delivery action e).2.acker? d = e.acker? d := by
  unfold instruct
  split
  · split <;> rfl
  · simp only [acker?, List.getElem?_modify]
    split <;> cases e.deliveries[d]? <;> rfl
  · rfl

theorem acker?_setAcker (h : (e.acker? d).isSome) (a : Acker) :
    (e.setAcker d a).acker? d = some a := by
  obtain ⟨b, hb⟩ := Option.isSome_iff_exists.mp h
  obtain ⟨found, hfound, -⟩ := Option.map_eq_some_iff.mp hb
  simp [setAcker, acker?, hfound]

theorem acker?_updateSubscriber (ref : SubscriberRef) (f : Subscriber P κ → Subscriber P κ) :
    (e.updateSubscriber ref f).acker? d = e.acker? d := by
  cases ref <;> rfl

/-- An operation settles its own message or leaves it as it is. -/
theorem acker?_execProcessing (op : Processing.Op P.Route κ)
    (h : e.acker? scope.delivery = some a) :
    (execProcessing op (e, scope)).2.1.acker? scope.delivery =
      some { a with
        settlement := a.settlement.or (settledWith? ⟨op, (execProcessing op (e, scope)).1⟩) } := by
  obtain rfl := acker_eq_of_acker? h
  cases op with
  | settle action =>
    let settled := (e.acker scope.delivery).settle (instruct scope.delivery) action e
    have hbroker : settled.2.2.acker? scope.delivery = e.acker? scope.delivery :=
      Acker.broker_settle (fun e : Engine P κ => e.acker? scope.delivery)
        (fun _ _ => acker?_instruct ..) _ action e
    show (settled.2.2.setAcker scope.delivery settled.2.1).acker? scope.delivery = _
    rw [acker?_setAcker (by rw [hbroker, h]; rfl), Acker.acker_settle]
    exact congrArg (fun told => some { e.acker scope.delivery with
        settlement := (e.acker scope.delivery).settlement.or told })
      (settledWith?_settle action _).symm
  | exit id outcome =>
    let ended := e.ending scope id outcome
    have hbroker : ended.broker.acker? scope.delivery = e.acker? scope.delivery :=
      Attempt.broker_exit (fun e : Engine P κ => e.acker? scope.delivery)
        fun _ _ => acker?_instruct ..
    show ((ended.broker.setAcker scope.delivery ended.acker).updateSubscriber scope.subscriber
      ({ · with watcher := ended.watcher })).acker? scope.delivery = _
    rw [acker?_updateSubscriber, acker?_setAcker (by rw [hbroker, h]; rfl)]
    show some (Attempt.exit _ _ _ _ _ _).acker = _
    rw [Attempt.acker_exit]
    exact congrArg (fun told => some { e.acker scope.delivery with
      settlement := (e.acker scope.delivery).settlement.or told })
      (settledWith?_exit id outcome _).symm
  | publishing op =>
    have hsame := acker?_congr (d := scope.delivery) (execPublishing_keeps op e scope.item).2.2
    rw [settledWith?_eq_none rfl, Option.or_none]
    exact hsame.trans h
  | enter | recordBody | recordForwarded | close =>
    rw [settledWith?_eq_none rfl, Option.or_none]
    exact (acker?_updateSubscriber ..).trans h
  | _ =>
    rw [settledWith?_eq_none rfl, Option.or_none]
    exact h

/-- What the broker is told, and accepts, settles a message that was not settled before. -/
theorem instructions_eq (op : Processing.Op P.Route κ) (h : e.acker? scope.delivery = some a)
    (hbacked : a.backed = true)
    (haccepted : refused ⟨op, (execProcessing op (e, scope)).1⟩ = false) :
    instructions op (e, scope) =
      if a.settlement = none then
        (settledWith? ⟨op, (execProcessing op (e, scope)).1⟩).toList
      else [] := by
  obtain rfl := acker_eq_of_acker? h
  cases op with
  | settle action =>
    let settled := (e.acker scope.delivery).settle (instruct scope.delivery) action e
    have htold : instructions (.settle action) (e, scope) =
        (e.acker scope.delivery).tells action := by
      simp [instructions, Acker.settle_noting]
    have hanswer : settledWith? (⟨.settle action, settled.1⟩ : Event (Processing P.Route κ)) =
        some action := by
      rw [settledWith?_settle, @ok_of_settle_accepted _ _ _ settled.1 haccepted]
    show _ = if _ then (settledWith? ⟨.settle action, settled.1⟩).toList else []
    rw [htold, hanswer, Acker.tells, hbacked]
    simp
  | exit id outcome =>
    let ended := e.ending scope id outcome
    have htold : instructions (.exit id outcome) (e, scope) =
        ((Attempt.instruction (e.watcher scope.subscriber) id outcome).map
          (e.acker scope.delivery).tells).getD [] := by
      simp [instructions, Attempt.told_exit]
    have hanswer : settledWith? (⟨.exit id outcome, ended.result⟩ : Event (Processing P.Route κ)) =
        Attempt.instruction (e.watcher scope.subscriber) id outcome := by
      obtain ⟨told, hok⟩ := @ok_of_exit_accepted _ _ _ _ ended.result haccepted
      rw [settledWith?_exit, hok]
      exact (Attempt.watcher_exit hok).1
    show _ = if _ then (settledWith? ⟨.exit id outcome, ended.result⟩).toList else []
    rw [htold, hanswer]
    cases Attempt.instruction (e.watcher scope.subscriber) id outcome with
    | none => simp
    | some action => simp [Acker.tells, hbacked]
  | _ => simp [instructions, settledWith?]

/-! ## Runs -/

/-- Others leave a message alone. -/
def Leaves (d : Nat) (e e' : Engine P κ) : Prop := e'.acker? d = e.acker? d

/-- Carry operations out one after the other, noting what the broker is told. -/
inductive Told (others : Engine P κ → Engine P κ → Prop) :
    Engine P κ × Scope → List (Event (Processing P.Route κ)) → List Action →
      Engine P κ × Scope → Prop where
  | nil {st : Engine P κ × Scope} : Told others st [] [] st
  | cons {e e₁ : Engine P κ} {scope : Scope} {op : Processing.Op P.Route κ}
      {t : List (Event (Processing P.Route κ))} {told : List Action} {st : Engine P κ × Scope}
      (h : others e e₁) (rest : Told others (execProcessing op (e₁, scope)).2 t told st) :
      Told others (e, scope) (⟨op, (execProcessing op (e₁, scope)).1⟩ :: t)
        (instructions op (e₁, scope) ++ told) st

variable {others : Engine P κ → Engine P κ → Prop} {t : List (Event (Processing P.Route κ))}
  {told : List Action} {st : Engine P κ × Scope}

/-- What the broker is told by a program that nobody else interferes with. -/
def toldBy {α : Type} : Program (Processing P.Route κ) α → Engine P κ × Scope → List Action
  | .done _, _ => []
  | .call op next, st =>
    instructions op st ++ toldBy (next (execProcessing op st).1) (execProcessing op st).2

theorem Told.of_run {α : Type} (hothers : ∀ e, others e e)
    (p : Program (Processing P.Route κ) α) (st : Engine P κ × Scope) :
    Told others st (p.trace execProcessing st) (toldBy p st) (p.run execProcessing st).2 := by
  induction p generalizing st with
  | done a => exact .nil
  | call op next ih => exact .cons (hothers st.1) (ih _ _)

theorem Told.performed (h : Told others (e, scope) t told st) :
    Performed others (e, scope) t st := by
  generalize hst : (e, scope) = st₀ at h
  induction h generalizing e scope with
  | nil => exact hst ▸ .nil
  | cons hothers rest ih =>
    cases hst
    exact .cons hothers (ih rfl)

/-- A run settles its message with the first settlement that is not refused. -/
theorem Performed.acker? (hleaves : ∀ e e', others e e' → Leaves d e e')
    (h : Performed others (e, scope) t st) (hd : scope.delivery = d) (ha : e.acker? d = some a) :
    st.1.acker? d = some { a with settlement := a.settlement.or (t.findSome? settledWith?) } := by
  generalize hst : (e, scope) = st₀ at h
  induction h generalizing e scope a with
  | nil =>
    subst hst
    simpa using ha
  | @cons e₀ e₁ scope₀ op t st hothers rest ih =>
    cases hst
    subst hd
    have ha₁ := (hleaves _ _ hothers).trans ha
    have hnext := ih (scope_execProcessing op e₁ scope₀).2 (acker?_execProcessing op ha₁) rfl
    rw [hnext, List.findSome?_cons]
    cases settledWith? (⟨op, (execProcessing op (e₁, scope₀)).1⟩ : Event (Processing P.Route κ))
      <;> cases a.settlement <;> rfl

/-- The broker is told of that settlement, and of nothing else. -/
theorem Told.eq_settledWith? (hleaves : ∀ e e', others e e' → Leaves d e e')
    (h : Told others (e, scope) t told st) (hd : scope.delivery = d) (ha : e.acker? d = some a)
    (hbacked : a.backed = true) (haccepts : ∀ ev ∈ t, refused ev = false) :
    told = if a.settlement = none then (t.findSome? settledWith?).toList else [] := by
  generalize hst : (e, scope) = st₀ at h
  induction h generalizing e scope a with
  | nil => simp
  | @cons e₀ e₁ scope₀ op t told st hothers rest ih =>
    cases hst
    subst hd
    obtain ⟨haccepted, haccepts⟩ := List.forall_mem_cons.mp haccepts
    have ha₁ := (hleaves _ _ hothers).trans ha
    have hnext := ih (scope_execProcessing op e₁ scope₀).2 (acker?_execProcessing op ha₁) hbacked
      haccepts rfl
    rw [hnext, instructions_eq op ha₁ hbacked haccepted, List.findSome?_cons]
    cases hs : a.settlement with
    | some settled => simp
    | none =>
      cases settledWith? (⟨op, (execProcessing op (e₁, scope₀)).1⟩ : Event (Processing P.Route κ))
        <;> simp

end Engine

end MessageDispatch
