import MessageDispatch.Proofs.Instructions
import MessageDispatch.Proofs.Redelivery

/-! What a delivery is settled with. Once the broker has accepted an instruction the message is out
of everybody's hands, so that a delivery gets one instruction: that of the first settlement by hand,
or else the one that what the calls came to asks for. -/
namespace MessageDispatch

/-! ## Attempts used up -/

/-- Are the attempts that a policy grants used up when one is under way and `count` were started? -/
def RetryPolicy.exhausts : RetryPolicy → UInt32 → Bool
  | .never, _ => true
  | .always, _ => false
  | .times n, count => decide (n < count)

namespace Watcher

/-- The policy that a watcher was set up for. -/
def policy : Watcher → RetryPolicy
  | .never => .never
  | .always => .always
  | .counting limit _ => .times limit

variable (w : Watcher) (id : String)

theorem isExhausted_eq_exhausts : w.isExhausted id = w.policy.exhausts (w.attempts id) := by
  cases w <;> rfl

theorem exhausts_add :
    (w.add id).policy.exhausts ((w.add id).attempts id) =
      w.policy.exhausts (w.attempts id + 1) := by
  cases w with
  | counting limit attempts => simp [add, policy, Watcher.attempts, Assoc.get?_put]
  | _ => rfl

end Watcher

namespace Engine

variable {P : Protocol} {κ : Type} {ref : SubscriberRef} {id : String} {e e' : Engine P κ}
  {scope : Scope} {st : Engine P κ × Scope} {t : List (Event (Processing P.Route κ))}
  {others : Engine P κ → Engine P κ → Prop}

/-- Others make no attempt under an id at a subscriber. -/
structure Spares (ref : SubscriberRef) (id : String) (e e' : Engine P κ) : Prop where
  policy : (e'.watcher ref).policy = (e.watcher ref).policy
  attempts : (e'.watcher ref).attempts id = (e.watcher ref).attempts id

theorem Spares.rfl : Spares ref id e e := ⟨by rfl, by rfl⟩

theorem Spares.trans {e'' : Engine P κ} (h : Spares ref id e e') (h' : Spares ref id e' e'') :
    Spares ref id e e'' :=
  ⟨h'.policy.trans h.policy, h'.attempts.trans h.attempts⟩

theorem Spares.of_watcher (h : e'.watcher ref = e.watcher ref) : Spares ref id e e' :=
  ⟨congrArg _ h, congrArg _ h⟩

theorem Spares.exhausts_eq (h : Spares ref id e e') :
    (e'.watcher ref).isExhausted id =
      (e.watcher ref).policy.exhausts ((e.watcher ref).attempts id) := by
  rw [Watcher.isExhausted_eq_exhausts, h.policy, h.attempts]

theorem watcher_enter (e : Engine P κ) (scope : Scope) (id : String) :
    (execProcessing (.enter id) (e, scope)).2.1.watcher scope.subscriber =
      (e.watcher scope.subscriber).add id := by
  show (e.updateSubscriber scope.subscriber _).watcher scope.subscriber = _
  rw [watcher, subscriber?_updateSubscriber, if_pos (by rfl), watcher]
  cases e.subscriber? scope.subscriber <;> rfl

theorem Performed.spares (hspares : ∀ e e', others e e' → Spares ref id e e') (ht : Unbooked t)
    (h : Performed others (e, scope) t st) : Spares ref id e st.1 := by
  generalize hst : (e, scope) = st₀ at h
  induction h generalizing e scope with
  | nil =>
    subst hst
    exact .rfl
  | @cons e₀ e₁ scope₀ op t st hothers rest ih =>
    cases hst
    obtain ⟨hop, ht⟩ := List.forall_mem_cons.mp ht
    have hwatcher : (execProcessing op (e₁, scope₀)).2.1.watcher ref = e₁.watcher ref :=
      watcher_execProcessing hop e₁ scope₀
    exact (hspares _ _ hothers).trans ((Spares.of_watcher hwatcher).trans (ih ht rfl))

/-- At the end of an attempt, what exhausts the policy is what was on record before it and one
attempt more. -/
theorem Performed.isExhausted_attempt {u v : List (Event (Processing P.Route κ))}
    (hspares : ∀ e e', others e e' → Spares ref id e e') (hs : scope.subscriber = ref)
    (h : Performed others (e, scope) (u ++ ⟨.enter id, ()⟩ :: v) st) (hothers : others st.1 e')
    (hu : Unbooked u) (hv : Unbooked v) :
    (e'.watcher ref).isExhausted id =
      (e.watcher ref).policy.exhausts ((e.watcher ref).attempts id + 1) := by
  obtain ⟨⟨e₁, scope₁⟩, hp₁, h⟩ := h.split
  obtain ⟨e₂, hothers₂, -, hp₂⟩ := h.uncons
  have hbefore : Spares ref id e e₂ := (hp₁.spares hspares hu).trans (hspares _ _ hothers₂)
  have hafter : Spares ref id (execProcessing (.enter id) (e₂, scope₁)).2.1 e' :=
    (hp₂.spares hspares hv).trans (hspares _ _ hothers)
  have hentered : (execProcessing (.enter id) (e₂, scope₁)).2.1.watcher ref =
      (e₂.watcher ref).add id := by
    have hs₁ : scope₁.subscriber = ref := hp₁.same_scope.1.trans hs
    exact hs₁ ▸ watcher_enter e₂ scope₁ id
  rw [hafter.exhausts_eq, hentered, Watcher.exhausts_add, hbefore.policy, hbefore.attempts]

end Engine

/-! ## How an attempt ends -/

open Processing

section
variable {P : Protocol} {κ : Type} {s : Subscriber P κ} {publisher : Publisher P.Route κ}
  {raw : P.Raw} {t : List (Event (Processing P.Route κ))} {out : ProcessingOutcome}
  {e : Engine P κ} {scope : Scope} {st : Engine P κ × Scope} {ref : SubscriberRef}
  {others : Engine P κ → Engine P κ → Prop}

/-- With a broker that refuses nothing an attempt ends with the instruction of its outcome. -/
theorem Course.answer_eq (c : Course s publisher raw t out)
    (h : Engine.Performed others (e, scope) t st) (hs : scope.subscriber = ref)
    (haccepts : ∀ ev ∈ t, refused ev = false) :
    ∃ w : Watcher, c.answer = .ok (Attempt.instruction w c.id (.ofResult c.consumed.2)) ∧
      ((∀ e e', others e e' → Engine.Spares ref c.id e e') →
        w.isExhausted c.id =
          (e.watcher ref).policy.exhausts ((e.watcher ref).attempts c.id + 1)) := by
  have haccepted : refused c.exit = false := haccepts _ c.exit_mem
  obtain ⟨told, hok⟩ := @ok_of_exit_accepted _ _ _ _ c.answer haccepted
  rw [c.trace_split] at h
  obtain ⟨⟨e₁, scope₁⟩, hp₁, h⟩ := h.split
  obtain ⟨e₂, hothers, hexit, -⟩ := h.uncons
  have hs₁ : scope₁.subscriber = ref := hp₁.same_scope.1.trans hs
  refine ⟨e₂.watcher ref, ?_, ?_⟩
  · have hresult : (e₂.ending scope₁ c.id (.ofResult c.consumed.2)).result = .ok told :=
      hexit.trans hok
    rw [hok, (Attempt.watcher_exit hresult).1, hs₁]
  · intro hspares
    have hentering : Unbooked (⟨.publishing .freshId, c.fresh⟩ :: c.entering) :=
      List.forall_mem_cons.mpr ⟨rfl, fun ev hev =>
        keepsBooks_of_isAmbient _ (c.ambient_entering ev hev)⟩
    have hconsuming : Unbooked (⟨.calls, c.calls⟩ :: c.consuming) :=
      List.forall_mem_cons.mpr ⟨rfl, c.refines.allowed bookless_carry⟩
    exact hp₁.isExhausted_attempt hspares hs hothers hentering hconsuming

/-! ## What the calls ask for -/

/-- The instruction that a handler asks for when it interrupts processing. -/
def Interrupt.asks : Interrupt → List Action
  | .ack | .stopConsuming => [.ack]
  | .nack => [.nack]
  | .reject => [.reject]
  | .skip => []

/-- What the broker is told of a message that nobody settled by hand, by what the calls came to.
`exhausted` says whether the attempts of the message are used up. -/
structure Asked {ρ κ : Type} (shortCircuit : Bool) (steps : List (Event (Offering ρ κ)))
    (exhausted : Bool) (told : List Action) : Prop where
  succeeded : hasSucceeded steps = true → (acceptances steps).length = 1 →
    (∀ d ∈ decodings steps, d.2.isOk = true) → told = [.ack]
  unmatched : acceptances steps = [] → (∀ d ∈ decodings steps, d.2.isOk = true) → told = [.ack]
  interrupted : ∀ c incoming signal,
    (c, incoming, .error (.interrupt signal)) ∈ invocations steps → told = signal.asks
  fatal : ∀ c incoming cause,
    (c, incoming, .error (.failure .fatal cause)) ∈ invocations steps → told = [.reject]
  ambiguous : shortCircuit = false → hasSucceeded steps = true → 2 ≤ (acceptances steps).length →
    told = [.reject]
  failed : ∀ c incoming type cause, type ≠ .fatal →
    (c, incoming, .error (.failure type cause)) ∈ invocations steps →
    told = [if exhausted then .reject else .nack]
  undecodable : ∀ c d, (c, .error d) ∈ decodings steps →
    told = [if exhausted then .reject else .nack]

theorem Processing.Offered.asked_instruction {ρ κ : Type} {subscription : String}
    {shortCircuit : Bool} {cs : List (Numbered ρ κ)} {env : Envelope}
    {steps : List (Event (Offering ρ κ))}
    {consumed : ConsumeResult ρ} (h : Offered subscription shortCircuit cs env none steps consumed)
    (w : Watcher) (id : String) :
    Asked shortCircuit steps (w.isExhausted id)
      (Attempt.instruction w id (.ofResult consumed.2)).toList := by
  -- no call is run but the first that accepts the message
  have hinvoked : (invocations steps).length = min 1 (acceptances steps).length := by
    simpa using congrArg List.length h.first_runs
  refine {
    succeeded := ?_, unmatched := ?_, interrupted := ?_, fatal := ?_, ambiguous := ?_,
    failed := ?_, undecodable := ?_ }
  · intro hsucceeded hone hread
    obtain ⟨v, hv, hvok⟩ := List.any_eq_true.mp hsucceeded
    have hran : ∀ v ∈ invocations steps, v.2.2.isOk = true := by
      rw [hone] at hinvoked
      obtain ⟨v', hv'⟩ := List.length_eq_one_iff.mp hinvoked
      rw [hv'] at hv ⊢
      obtain rfl := List.mem_singleton.mp hv
      exact List.forall_mem_singleton.mpr hvok
    obtain ⟨result, hresult⟩ := h.completed hread hran (Nat.le_of_eq hone)
    rw [hresult]
    rfl
  · intro hnone hread
    rw [hnone] at hinvoked
    have hran : invocations steps = [] := List.length_eq_zero_iff.mp hinvoked
    obtain ⟨result, hresult⟩ := h.completed hread (by simp [hran]) (by simp [hnone])
    rw [hresult]
    rfl
  · intro c incoming signal hv
    rw [h.failure hv]
    cases signal <;> rfl
  · intro c incoming cause hv
    rw [h.failure hv]
    rfl
  · intro hshort hsucceeded htwice
    rw [((h.ambiguous_iff hshort).mpr ⟨hsucceeded, htwice⟩).1]
    rfl
  · intro c incoming type cause htype hv
    rw [h.failure hv]
    cases type with
    | fatal => exact absurd rfl htype
    | _ => rfl
  · intro c d hd
    rw [(h.decoder_fails hd).2]
    rfl

/-! ## One instruction for a delivery -/

/-- What the broker is told about a delivery, from the first settlement by hand or from what the
calls came to. -/
structure ToldOnce (c : Course s publisher raw t out) (exhausted : Bool) (told : List Action) :
    Prop where
  /-- There is one instruction, unless a handler asked to skip the message. -/
  once : told.length = 1 ∨ told = [] ∧ byHand? t = none ∧
    ∃ call incoming, (call, incoming, .error (.interrupt .skip)) ∈ invocations c.steps
  settled : ∀ action, byHand? t = some action → told = [action]
  asked : byHand? t = none → Asked s.shortCircuit c.steps exhausted told

/-- The only outcome without an instruction is that of a handler that asked to skip the message. -/
theorem Course.skipped (c : Course s publisher raw t out) {w : Watcher} {id : String}
    (h : Attempt.instruction w id (.ofResult c.consumed.2) = none) :
    ∃ call incoming, (call, incoming, .error (.interrupt .skip)) ∈ invocations c.steps := by
  have hskip : c.consumed.2 = .error (.interrupt .skip) := by
    rcases hresult : c.consumed.2 with (signal | ⟨type, cause⟩) | consumed
    · rw [hresult] at h
      cases signal with
      | skip => rfl
      | _ => cases h
    · rw [hresult] at h
      cases type <;> cases h
    · rw [hresult] at h
      cases h
  exact c.offered.interrupted hskip

/-- However its calls, its middlewares and its handlers settle a message themselves, and however
often, and whatever else happens meanwhile, a delivery to a broker that refuses nothing gets one
instruction, or none if it is skipped. -/
theorem Subscriber.told_once {d : Nat} {redelivering : Bool} {told : List Action}
    (hfaithful : ∀ m ∈ s.telemetry, Faithful m) (hruns : Runs (s.process publisher raw) t out)
    (hleaves : ∀ e e', others e e' → Engine.Leaves d e e')
    (htold : Engine.Told others (e, ⟨ref, d, some none⟩) t told st)
    (hacker : e.acker? d = some (.ofBackend redelivering))
    (haccepts : ∀ ev ∈ t, refused ev = false) :
    ∃ (c : Course s publisher raw t out) (exhausted : Bool), ToldOnce c exhausted told ∧
      ((∀ e e', others e e' → Engine.Spares ref c.id e e') →
        exhausted = (e.watcher ref).policy.exhausts ((e.watcher ref).attempts c.id + 1)) := by
  obtain ⟨c⟩ := Subscriber.nonempty_course hfaithful hruns
  obtain ⟨w, hanswer, hexhausted⟩ := c.answer_eq htold.performed rfl haccepts
  have hexit : settledWith? c.exit = Attempt.instruction w c.id (.ofResult c.consumed.2) := by
    rw [Course.exit, settledWith?_exit, hanswer]
  -- a settlement by hand comes before the end of the attempt, and leaves nothing to be told then
  have htold_eq : told =
      ((byHand? t).or (Attempt.instruction w c.id (.ofResult c.consumed.2))).toList := by
    rw [htold.eq_settledWith? hleaves rfl hacker rfl haccepts, c.findSome?_settledWith?, hexit]
    rfl
  refine ⟨c, w.isExhausted c.id, ?_, hexhausted⟩
  cases hhand : byHand? t with
  | some action =>
    rw [hhand] at htold_eq
    refine ⟨.inl (by simp [htold_eq]), ?_, by simp [hhand]⟩
    intro action' haction
    rw [htold_eq, ← hhand, haction]
    rfl
  | none =>
    rw [hhand, Option.none_or] at htold_eq
    refine ⟨?_, by simp [hhand], fun _ => htold_eq ▸ c.offered.asked_instruction w c.id⟩
    cases hinstruction : Attempt.instruction w c.id (.ofResult c.consumed.2) with
    | none => exact .inr ⟨by rw [htold_eq, hinstruction]; rfl, hhand, c.skipped hinstruction⟩
    | some action => exact .inl (by rw [htold_eq, hinstruction]; rfl)

end

/-- The first attempt at a message that is granted none after it. -/
theorem told_once_failing :
    ∃ (c : Course (failing (.counting 0 [])) ⟨[], 0⟩ identified
        (failingTrace (.counting 0 []) identified (failingGroup 0))
        ⟨.error (.handler (.ofText "down")), some .reject⟩) (exhausted : Bool),
      ToldOnce c exhausted [.reject] ∧
        ((∀ e e' : Engine Broker.nats.protocol Unit, e = e' →
          Engine.Spares (.member 0) c.id e e') →
          exhausted = (RetryPolicy.times 0).exhausts (0 + 1)) := by
  have haccepts : ∀ ev ∈ failingTrace (.counting 0 []) identified (failingGroup 0),
      refused ev = false := by decide
  exact Subscriber.told_once (d := 0)
    (e := ((failingGroup 0).addDelivery ⟨.ofBackend true, .nowhere⟩).2) (by simp [failing])
    (.of_run ..) (fun _ _ h => h ▸ rfl)
    (.of_run (fun _ => rfl) ((failing (.counting 0 [])).process ⟨[], 0⟩ identified) _) rfl haccepts

end MessageDispatch
