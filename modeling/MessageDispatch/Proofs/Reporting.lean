import MessageDispatch.Proofs.Instructions
import MessageDispatch.Proofs.Redelivery

/-! What is reported about a message that was settled, and whether its reply is sent on. Both go by
the instruction that the attempt ended with, which the broker only gets if nobody settled the
message by hand before. -/
namespace MessageDispatch

/-! ## What follows the settlement -/

namespace Processing

variable {ρ κ : Type} {publisher : Publisher ρ κ} {routeTo : String → ρ} {env : Envelope}
  {result : Except HandlerError (Option (Consumed ρ))} {answer : Except AckError (Option Action)}
  {t : List (Event (Processing ρ κ))} {out : ProcessingOutcome}

/-- A settlement that the broker refused is the outcome. -/
theorem result_of_refused {err : AckError}
    (h : Runs (conclude publisher routeTo env result (.error err)) t out) :
    out.result = .error (.ack err) := by
  obtain ⟨⟨⟩, u, rfl, hdone⟩ := runs_perform_bind h
  obtain ⟨-, rfl⟩ := runs_done_iff.mp hdone
  rfl

/-- What is reported is the instruction that the attempt ended with. -/
theorem action_of_accepted {action : Option Action}
    (h : Runs (conclude publisher routeTo env result (.ok action)) t out) :
    out.action = action := by
  rcases result with (signal | ⟨type, cause⟩) | consumed
  · obtain ⟨-, rfl⟩ := runs_done_iff.mp h
    rfl
  · obtain ⟨⟨⟩, u, rfl, hdone⟩ := runs_perform_bind h
    obtain ⟨-, rfl⟩ := runs_done_iff.mp hdone
    rfl
  · unfold conclude at h
    dsimp only at h
    split at h
    · obtain ⟨u, v, ⟨⟩, rfl, -, hdone⟩ := runs_bind_iff.mp h
      obtain ⟨-, rfl⟩ := runs_done_iff.mp hdone
      rfl
    · obtain ⟨-, rfl⟩ := runs_done_iff.mp h
      rfl

/-- Nothing is sent on but after an acknowledgement. -/
theorem within_conclude_silent (h : answer ≠ .ok (some .ack)) :
    (conclude publisher routeTo env result answer).Within fun op => Op.sends op = false := by
  cases answer with
  | error err => exact Program.within_bind (within_perform rfl) fun _ => trivial
  | ok action =>
    rcases result with (signal | ⟨type, cause⟩) | consumed
    · trivial
    · exact Program.within_bind (within_perform rfl) fun _ => trivial
    · unfold conclude
      dsimp only
      split
      · exact absurd rfl h
      · trivial

theorem sends_of_isAmbient (op : Processing.Op ρ κ) (h : op.isAmbient = true) :
    op.sends = false := by
  cases op with
  | publishing op =>
    cases op with
    | ambient op => rfl
    | _ => cases h
  | _ => cases h

theorem sends_of_isOfConsuming (op : Processing.Op ρ κ) (h : op.isOfConsuming = true) :
    op.sends = false := by
  cases op with
  | publishing op =>
    cases op with
    | ambient op => rfl
    | _ => cases h
  | recordForwarded => cases h
  | _ => rfl

end Processing

open Processing

section
variable {P : Protocol} {κ : Type} {s : Subscriber P κ} {publisher : Publisher P.Route κ}
  {raw : P.Raw} {t : List (Event (Processing P.Route κ))} {out : ProcessingOutcome}
  {e : Engine P κ} {st : Engine P κ × Scope} {ref : SubscriberRef}
  {others : Engine P κ → Engine P κ → Prop}

namespace Course

variable (c : Course s publisher raw t out)

/-- Whatever is sent on is sent while the outcome is concluded. -/
theorem mem_concluding {ev : Event (Processing P.Route κ)} (hev : ev ∈ t)
    (hsends : ev.op.sends = true) : ev ∈ c.concluding := by
  have hentering : ev ∉ c.entering := fun h => by
    simp [sends_of_isAmbient _ (c.ambient_entering ev h)] at hsends
  have hconsuming : ev ∉ c.consuming := fun h => by
    simp [sends_of_isOfConsuming _ (c.refines.allowed within_carry ev h)] at hsends
  have hleaving : ev ∉ c.leaving := fun h => by
    simp [sends_of_isAmbient _ (c.ambient_leaving ev h)] at hsends
  have hmem : ev ∈ c.before ++ c.exit :: (c.concluding ++ c.leaving) :=
    Eq.subst (motive := (ev ∈ ·)) c.trace_split hev
  simp only [before, List.mem_append, List.mem_cons, hentering, hconsuming, hleaving, or_false,
    false_or] at hmem
  -- the operations in between send nothing themselves
  rcases hmem with (rfl | rfl | rfl) | rfl | hmem
  · cases hsends
  · cases hsends
  · cases hsends
  · cases hsends
  · exact hmem

/-- If settling the message did not fail, then the attempt ended with the action reported. -/
theorem answer_eq_action (hsettled : ∀ err, out.result ≠ .error (.ack err)) :
    c.answer = .ok out.action := by
  have hconcludes := c.concludes
  cases hanswer : c.answer with
  | error err =>
    rw [hanswer] at hconcludes
    exact absurd (result_of_refused hconcludes) (hsettled err)
  | ok action =>
    rw [hanswer] at hconcludes
    rw [action_of_accepted hconcludes]

end Course

/-! ## What was settled and what is reported -/

/-- What a message was settled with, if it was. -/
def Engine.settlement? (e : Engine P κ) (delivery : Nat) : Option Action :=
  (e.acker? delivery).bind (·.settlement)

/-- What is reported and replied agrees with what the message was settled with. -/
structure Truthful (t : List (Event (Processing P.Route κ))) (out : ProcessingOutcome)
    (settlement : Option Action) : Prop where
  action : ∀ action, out.action = some action → settlement = some action
  requeued : out.wasRequeued = true → settlement = some .nack
  replied : ∀ ev ∈ t, ev.op.sends = true → settlement = some .ack

/-- What a run does to a message that nobody settled before, and when its report is right. -/
structure Reported (t : List (Event (Processing P.Route κ))) (out : ProcessingOutcome)
    (settlement : Option Action) : Prop where
  /-- The first settlement by hand counts, or else the action that is reported. -/
  settled : settlement = (byHand? t).or out.action
  /-- Replies go by the action that is reported. -/
  replied : ∀ ev ∈ t, ev.op.sends = true → out.action = some .ack
  /-- A message that was settled by hand has to have been settled as the calls then asked for. -/
  truthful_iff : Truthful t out settlement ↔
    ∀ byHand, byHand? t = some byHand → ∀ action, out.action = some action → byHand = action

theorem truthful_iff {settlement : Option Action}
    (hsettled : settlement = (byHand? t).or out.action)
    (hreplied : ∀ ev ∈ t, ev.op.sends = true → out.action = some .ack) :
    Truthful t out settlement ↔
      ∀ byHand, byHand? t = some byHand → ∀ action, out.action = some action → byHand = action := by
  constructor
  · intro htruthful byHand hhand action haction
    have hsame := htruthful.action action haction
    rw [hsettled, hhand] at hsame
    exact Option.some.inj hsame
  · intro hagree
    have haction : ∀ action, out.action = some action → settlement = some action := by
      intro action haction
      cases hhand : byHand? t with
      | none => rw [hsettled, hhand, Option.none_or, haction]
      | some byHand =>
        obtain rfl := hagree byHand hhand action haction
        rw [hsettled, hhand, Option.some_or]
    refine ⟨haction, ?_, fun ev hev hsends => haction _ (hreplied ev hev hsends)⟩
    intro hrequeued
    exact haction _ (beq_iff_eq.mp hrequeued)

/-- If settling a message does not fail, then what is reported of it and whether its reply is sent
on agree with its settlement, exactly if no settlement by hand contradicts what is reported. -/
theorem Subscriber.reported {d : Nat} {a : Acker}
    (hfaithful : ∀ m ∈ s.telemetry, Faithful m) (hruns : Runs (s.process publisher raw) t out)
    (hleaves : ∀ e e', others e e' → Engine.Leaves d e e')
    (hperformed : Engine.Performed others (e, ⟨ref, d, some none⟩) t st)
    (hacker : e.acker? d = some a) (hunsettled : a.settlement = none)
    (hsettled : ∀ err, out.result ≠ .error (.ack err)) :
    Reported t out (st.1.settlement? d) := by
  obtain ⟨c⟩ := Subscriber.nonempty_course hfaithful hruns
  have hanswer := c.answer_eq_action hsettled
  have hexit : settledWith? c.exit = out.action := by
    rw [Course.exit, settledWith?_exit, hanswer]
  have hsettlement : st.1.settlement? d = (byHand? t).or out.action := by
    rw [Engine.settlement?, hperformed.acker? hleaves rfl hacker, Option.bind_some, hunsettled,
      Option.none_or, c.findSome?_settledWith?, hexit]
  have hreplied : ∀ ev ∈ t, ev.op.sends = true → out.action = some .ack := by
    intro ev hev hsends
    by_cases hacked : out.action = some .ack
    · exact hacked
    · have hother : c.answer ≠ .ok (some .ack) := by rw [hanswer]; simpa using hacked
      have hsilent := c.concludes.allowed (within_conclude_silent hother)
      simp [hsilent ev (c.mem_concluding hev hsends)] at hsends
  exact ⟨hsettlement, hreplied, truthful_iff hsettlement hreplied⟩

end

/-! ## A handler that settles a message one way and ends another way -/

/-- A subscriber whose handler settles the message by hand, and then replies to it. -/
def settling (action : Action) : Subscriber Broker.nats.protocol Unit :=
  { failing .never with
    calls := [{
      body := .handler [] fun _ => .call (.settle action) fun _ => .done (.ok (some (.text "done")))
      filter := .notProcessed
      decoder := .byContentType
      targets := []
      info := ⟨"settling", none, none⟩ }] }

/-- A message whose sender waits for a reply. -/
def question : Nats.Delivery := { identified with reply := some "answers" }

section
variable (action : Action)

def settlingStart : Engine Broker.nats.protocol Unit × Scope :=
  (({ Engine.new 0 () with subscribers := [settling action] }.addDelivery
    ⟨.ofBackend true, .nowhere⟩).2, ⟨.member 0, 0, some none⟩)

/-- What processing the message asks for. -/
def settlingTrace : List (Event (Processing Broker.nats.protocol.Route Unit)) :=
  ((settling action).process ⟨[], 0⟩ question).trace Engine.execProcessing (settlingStart action)

/-- The group after that. -/
def settlingEnd : Engine Broker.nats.protocol Unit × Scope :=
  (((settling action).process ⟨[], 0⟩ question).run Engine.execProcessing (settlingStart action)).2

end

theorem reported_settling :
    Reported (settlingTrace .reject) ⟨.ok (), some .ack⟩
      ((settlingEnd .reject).1.settlement? 0) := by
  have hperformed : Engine.Performed Eq (settlingStart .reject) (settlingTrace .reject)
      (settlingEnd .reject) := .of_run (fun _ => rfl) _ _
  exact Subscriber.reported (s := settling .reject) (by simp [settling, failing]) (.of_run ..)
    (by rintro _ _ rfl; rfl) hperformed rfl rfl (by simp)

theorem not_forall_truthful :
    ¬ ∀ (P : Protocol) (s : Subscriber P Unit) (publisher : Publisher P.Route Unit) (raw : P.Raw)
      (t : List (Event (Processing P.Route Unit))) (out : ProcessingOutcome) (e : Engine P Unit)
      (st : Engine P Unit × Scope) (ref : SubscriberRef) (d : Nat) (redelivering : Bool),
      (∀ m ∈ s.telemetry, Faithful m) → Runs (s.process publisher raw) t out →
      Engine.Performed Eq (e, ⟨ref, d, some none⟩) t st →
      e.acker? d = some (.ofBackend redelivering) → (∀ err, out.result ≠ .error (.ack err)) →
      Truthful t out (st.1.settlement? d) := by
  intro h
  have htruthful := h Broker.nats.protocol (settling .reject) ⟨[], 0⟩ question
    (settlingTrace .reject) ⟨.ok (), some .ack⟩ (settlingStart .reject).1 (settlingEnd .reject)
    (.member 0) 0 true (by simp [settling, failing]) (.of_run ..)
    (.of_run (fun _ => rfl) _ _) rfl (by simp)
  -- the message was rejected by hand
  have hsettlement : (settlingEnd .reject).1.settlement? 0 = some .reject := rfl
  have hreported := htruthful.action .ack rfl
  rw [hsettlement] at hreported
  cases hreported

end MessageDispatch
