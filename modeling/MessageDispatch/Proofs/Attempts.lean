import MessageDispatch.Proofs.Consumption
import MessageDispatch.Proofs.Execution

/-! The attempt that processing a message makes. Whatever middlewares, calls and publishers do, a
run enters and leaves one attempt, under the id of the parsed message, or none at all. -/
namespace MessageDispatch

/-- Events that neither enter nor leave an attempt. -/
def Unbooked {ρ κ : Type} (t : List (Event (Processing ρ κ))) : Prop :=
  ∀ ev ∈ t, ev.op.keepsBooks = false

theorem Unbooked.append {ρ κ : Type} {t u : List (Event (Processing ρ κ))} (ht : Unbooked t)
    (hu : Unbooked u) : Unbooked (t ++ u) :=
  List.forall_mem_append.mpr ⟨ht, hu⟩

namespace Processing

variable {ρ κ α : Type}

/-- A program that neither enters nor leaves an attempt. -/
def Bookless (p : Program (Processing ρ κ) α) : Prop :=
  p.Within fun op : Processing.Op ρ κ => op.keepsBooks = false

theorem Bookless.unbooked {p : Program (Processing ρ κ) α} {t : List (Event (Processing ρ κ))}
    {a : α} (h : Bookless p) (hrun : Runs p t a) : Unbooked t :=
  hrun.allowed h

/-! ## What makes no attempt -/

theorem keepsBooks_of_isOfCalls (op : Processing.Op ρ κ) (h : op.isOfCalls = true) :
    op.keepsBooks = false := by
  cases op <;> first | rfl | cases h

theorem within_perform {allowed : Processing.Op ρ κ → Prop} {op : Processing.Op ρ κ}
    (h : allowed op) : (perform op).Within allowed :=
  ⟨h, fun _ => trivial⟩

/-- User code that has no envelope stays within what allows all of its operations. -/
theorem within_ofAmbient (allowed : Processing.Op ρ κ → Prop)
    (hallowed : ∀ op, allowed (.publishing (.ambient op))) (p : Program (Ambient κ) α) :
    (p.expand (ofAmbient (ρ := ρ))).Within allowed := by
  refine Program.within_expand ?_ p
  intro op
  exact ⟨hallowed op, fun _ => trivial⟩

theorem bookless_carry (op : Offering.Op ρ κ) : Bookless (carry op) := by
  cases op with
  | decode c e => exact (within_ofHandling _).mono keepsBooks_of_isOfCalls
  | filter c e => exact (within_ofHandling _).mono keepsBooks_of_isOfCalls
  | record c body => exact within_perform rfl
  | handle c incoming => exact (within_runCall _ _).mono keepsBooks_of_isOfCalls
  | stop => exact Program.within_bind (within_perform rfl) fun _ => within_perform rfl

theorem of_runs_consume {subscription : String} {shortCircuit : Bool} {e : Envelope}
    {t : List (Event (Processing ρ κ))} {out : ConsumeResult ρ}
    (h : Runs (consume subscription shortCircuit e) t out) :
    Unbooked t ∧ out.1.messageId = e.messageId := by
  obtain ⟨calls, t', rfl, hoffer⟩ := runs_call_iff.mp h
  obtain ⟨s, hs, hoffered⟩ := offered_of_runs hoffer
  exact ⟨List.forall_mem_cons.mpr ⟨rfl, hs.allowed bookless_carry⟩, hoffered.messageId⟩

/-- The operations that it takes to send a reply on. -/
def Op.isOfReplies : Processing.Op ρ κ → Bool
  | .publishing _ | .log _ | .recordForwarded .. => true
  | _ => false

theorem keepsBooks_of_isOfReplies (op : Processing.Op ρ κ) (h : op.isOfReplies = true) :
    op.keepsBooks = false := by
  cases op <;> first | rfl | cases h

theorem within_ofPublishing (p : Program (Publishing ρ κ) α) :
    (p.expand ofPublishing).Within fun op => Op.isOfReplies op = true := by
  refine Program.within_expand ?_ p
  intro op
  exact ⟨rfl, fun _ => trivial⟩

theorem within_forward (publisher : Publisher ρ κ) (correlationId : String) (payload : Payload)
    (call : Nat) (targets : List ρ) (i : Nat) :
    (forward publisher correlationId payload call targets i).Within
      fun op => Op.isOfReplies op = true := by
  induction targets generalizing i with
  | nil => trivial
  | cons target targets ih =>
    refine Program.within_bind (within_perform rfl) fun _ => ?_
    refine Program.within_bind (within_ofPublishing _) ?_
    intro published
    cases published with
    | ok _ => exact ih _
    | error _ => exact Program.within_bind (within_perform rfl) fun _ => ih _

theorem within_propagate (publisher : Publisher ρ κ) (routeTo : String → ρ) (e : Envelope)
    (consumed : Consumed ρ) :
    (propagate publisher routeTo e consumed).Within fun op => Op.isOfReplies op = true := by
  unfold propagate
  cases consumed.reply with
  | none => trivial
  | some payload =>
    dsimp only
    split
    · refine Program.within_bind (within_ofPublishing _) ?_
      intro published
      cases published with
      | ok _ => exact within_forward ..
      | error _ => exact Program.within_bind (within_perform rfl) fun _ => within_forward ..
    · exact within_forward ..

/-- What follows the settlement of a message. -/
def conclude (publisher : Publisher ρ κ) (routeTo : String → ρ) (e : Envelope)
    (result : Except HandlerError (Option (Consumed ρ)))
    (answer : Except AckError (Option Action)) : Program (Processing ρ κ) ProcessingOutcome := do
  match answer with
  | .error err =>
    log .error "Failed to settle the message with the broker"
    return ⟨.error (.ack err), some err.action⟩
  | .ok action =>
    match result with
    | .ok consumed =>
      match action, consumed with
      | some .ack, some consumed => propagate publisher routeTo e consumed
      | _, _ => pure ()
      return ⟨.ok (), action⟩
    | .error (.interrupt _) => return ⟨.ok (), action⟩
    | .error err =>
      log .error "Failed to process the message"
      return ⟨.error (.handler err), action⟩

theorem execute_eq (publisher : Publisher ρ κ) (routeTo : String → ρ) (subscription : String)
    (shortCircuit : Bool) (e : Envelope) :
    execute publisher routeTo subscription shortCircuit e =
      (perform (.enter e.messageId)).bind fun _ =>
        (consume subscription shortCircuit e).bind fun consumed =>
          (perform (.exit consumed.1.messageId (.ofResult consumed.2))).bind fun answer =>
            conclude publisher routeTo consumed.1 consumed.2 answer := by
  unfold execute conclude
  simp only [Program.bind_eq]
  congr 1
  funext entered
  congr 1
  funext consumed
  obtain ⟨e', result⟩ := consumed
  congr 1
  funext answer
  cases answer with
  | error err => rfl
  | ok action =>
    rcases result with (signal | ⟨type, cause⟩) | consumed <;> rfl

theorem within_conclude (publisher : Publisher ρ κ) (routeTo : String → ρ) (e : Envelope)
    (result : Except HandlerError (Option (Consumed ρ)))
    (answer : Except AckError (Option Action)) :
    (conclude publisher routeTo e result answer).Within fun op => Op.isOfReplies op = true := by
  cases answer with
  | error err => exact Program.within_bind (within_perform rfl) fun _ => trivial
  | ok action =>
    rcases result with (signal | ⟨type, cause⟩) | consumed
    · trivial
    · exact Program.within_bind (within_perform rfl) fun _ => trivial
    · unfold conclude
      dsimp only
      split
      · exact Program.within_bind (within_propagate ..) fun _ => trivial
      · trivial

/-! ## The attempt of a run -/

theorem runs_perform_bind {β : Type} {op : Processing.Op ρ κ}
    {f : Processing.Answer op → Program (Processing ρ κ) β} {t : List (Event (Processing ρ κ))}
    {b : β} (h : Runs ((perform op).bind f) t b) :
    ∃ answer u, t = ⟨op, answer⟩ :: u ∧ Runs (f answer) u b :=
  runs_call_iff.mp h

/-- A run that consumes a message and settles it is one attempt under the id of the message. -/
theorem attempt_of_execute {publisher : Publisher ρ κ} {routeTo : String → ρ}
    {subscription : String} {shortCircuit : Bool} {e : Envelope}
    {t : List (Event (Processing ρ κ))} {out : ProcessingOutcome}
    (h : Runs (execute publisher routeTo subscription shortCircuit e) t out) :
    ∃ t₁ t₂ outcome answer, Unbooked t₁ ∧ Unbooked t₂ ∧
      t = ⟨.enter e.messageId, ()⟩ :: t₁ ++ ⟨.exit e.messageId outcome, answer⟩ :: t₂ := by
  rw [execute_eq] at h
  obtain ⟨entered, t', rfl, hentered⟩ := runs_perform_bind h
  obtain ⟨t₁, t'', ⟨e', result⟩, rfl, hconsume, hconsumed⟩ := runs_bind_iff.mp hentered
  obtain ⟨answer, t₂, rfl, hexited⟩ := runs_perform_bind hconsumed
  obtain ⟨hunbooked, hid : e'.messageId = e.messageId⟩ := of_runs_consume hconsume
  rw [← hid]
  refine ⟨t₁, t₂, .ofResult result, answer, hunbooked, ?_, rfl⟩
  exact Bookless.unbooked ((within_conclude ..).mono keepsBooks_of_isOfReplies) hexited

/-- Telemetry around a program runs it once, or answers by itself. -/
theorem runs_observed (allowed : Processing.Op ρ κ → Prop)
    (hallowed : ∀ op, allowed (.publishing (.ambient op)))
    {telemetry : List (TelemetryMiddleware κ)} {metadata : Metadata}
    {core : Program (Processing ρ κ) ProcessingOutcome} {t : List (Event (Processing ρ κ))}
    {out : ProcessingOutcome}
    (h : Runs (Middleware.chain ofAmbient telemetry (fun _ => core) metadata) t out) :
    (∀ ev ∈ t, allowed ev.op) ∨ ∃ t₁ t₂ t₃ result, t = t₁ ++ (t₂ ++ t₃) ∧
      (∀ ev ∈ t₁, allowed ev.op) ∧ (∀ ev ∈ t₃, allowed ev.op) ∧ Runs core t₂ result := by
  induction telemetry generalizing metadata t out with
  | nil => exact .inr ⟨[], t, [], out, by simp, by simp, by simp, h⟩
  | cons m telemetry ih =>
    obtain ⟨u, v, passage, rfl, hin, hpassed⟩ := runs_bind_iff.mp h
    have hu := hin.allowed (within_ofAmbient allowed hallowed _)
    cases passage with
    | answer result =>
      -- what is further in never comes to its turn
      obtain ⟨rfl, -⟩ := runs_done_iff.mp hpassed
      rw [List.append_nil]
      exact .inl hu
    | forward input wayOut =>
      obtain ⟨v, w, result, rfl, hrest, hout⟩ := runs_bind_iff.mp hpassed
      have hw := hout.allowed (within_ofAmbient allowed hallowed _)
      rcases ih hrest with hv | ⟨t₁, t₂, t₃, result, rfl, h₁, h₃, hcore⟩
      · exact .inl (List.forall_mem_append.mpr ⟨hu, List.forall_mem_append.mpr ⟨hv, hw⟩⟩)
      · exact .inr ⟨u ++ t₁, t₂, t₃ ++ w, result, by simp, List.forall_mem_append.mpr ⟨hu, h₁⟩,
          List.forall_mem_append.mpr ⟨h₃, hw⟩, hcore⟩

end Processing

/-- A run that processes a message makes one attempt under the id that was parsed, or none. -/
theorem Subscriber.attempt_of_process {P : Protocol} {κ : Type} {s : Subscriber P κ}
    {publisher : Publisher P.Route κ} {raw : P.Raw}
    {t : List (Event (Processing P.Route κ))} {out : ProcessingOutcome}
    (h : Runs (s.process publisher raw) t out) :
    Unbooked t ∨ ∃ fresh t₁ t₂ t₃ outcome answer,
      Unbooked t₁ ∧ Unbooked t₂ ∧ Unbooked t₃ ∧
      t = (⟨.publishing .freshId, fresh⟩ :: t₁) ++
        (⟨.enter (s.parse fresh raw).messageId, ()⟩ ::
          (t₂ ++ ⟨.exit (s.parse fresh raw).messageId outcome, answer⟩ :: t₃)) := by
  obtain ⟨fresh, u, rfl, hobserved⟩ := runs_call_iff.mp h
  rcases Processing.runs_observed (·.keepsBooks = false) (fun _ => rfl) hobserved with
    hu | ⟨t₁, t₂, t₃, result, rfl, h₁, h₃, hcore⟩
  · exact .inl (List.forall_mem_cons.mpr ⟨rfl, hu⟩)
  · obtain ⟨u₁, u₂, outcome, answer, hu₁, hu₂, rfl⟩ := Processing.attempt_of_execute hcore
    exact .inr ⟨fresh, t₁, u₁, u₂ ++ t₃, outcome, answer, h₁, hu₁,
      hu₂.append h₃, by simp⟩

end MessageDispatch
