import MessageDispatch.Proofs.Attempts

/-! The course that a message takes from parsing to the end of its processing: telemetry comes in,
an attempt is entered, the calls are offered the message, the attempt is left with what that came
to, the outcome is concluded from the answer to that, and telemetry goes out. Of all this only the
end of the attempt and user code that has the envelope settle the message, and only what follows a
message that was reported as acknowledged sends replies. -/
namespace MessageDispatch

/-- Telemetry that passes each message on, and hands out the outcome that it gets back. Telemetry
has no way to come by an outcome other than that. -/
def Faithful {κ : Type} (m : TelemetryMiddleware κ) : Prop :=
  ∀ metadata t passage, Runs (m metadata) t passage →
    ∃ input wayOut, passage = .forward input wayOut ∧
      ∀ outcome u out, Runs (wayOut outcome) u out → out = outcome

namespace Processing

variable {ρ κ : Type}

/-- The operations of user code that has no envelope. -/
def Op.isAmbient : Processing.Op ρ κ → Bool
  | .publishing (.ambient _) => true
  | _ => false

/-- The operations that it takes to offer a message to the calls. -/
def Op.isOfConsuming : Processing.Op ρ κ → Bool
  | .publishing (.ambient _) | .settle _ | .settlement | .resolve .. => true
  | .recordBody .. | .log _ | .close => true
  | _ => false

/-- Does the operation send a reply on, or note that one is sent? -/
def Op.sends : Processing.Op ρ κ → Bool
  | .publishing .fate | .publishing (.send _) | .recordForwarded .. => true
  | _ => false

/-- What an event settles the message with, if the message was not settled before. -/
def settledWith? : Event (Processing ρ κ) → Option Action
  | ⟨.settle action, .ok _⟩ => some action
  | ⟨.exit .., .ok action⟩ => action
  | _ => none

/-- What an event settles the message with by hand. -/
def settledByHand? : Event (Processing ρ κ) → Option Action
  | ⟨.settle action, .ok _⟩ => some action
  | _ => none

/-- What user code settles an unsettled message with: its first settlement that is not refused. -/
def byHand? (t : List (Event (Processing ρ κ))) : Option Action :=
  t.findSome? settledByHand?

end Processing

open Processing

/-- The course of a message at a subscriber. -/
structure Course {P : Protocol} {κ : Type} (s : Subscriber P κ) (publisher : Publisher P.Route κ)
    (raw : P.Raw) (t : List (Event (Processing P.Route κ))) (out : ProcessingOutcome) where
  /-- The id for the message if it brings none. -/
  fresh : String
  entering : List (Event (Processing P.Route κ))
  calls : List (Call P.Route κ)
  consuming : List (Event (Processing P.Route κ))
  /-- What is asked of the calls. -/
  steps : List (Event (Offering P.Route κ))
  consumed : ConsumeResult P.Route
  answer : Except AckError (Option Action)
  concluding : List (Event (Processing P.Route κ))
  leaving : List (Event (Processing P.Route κ))
  trace_eq : t = ⟨.publishing .freshId, fresh⟩ :: (entering ++
    ⟨.enter (s.parse fresh raw).messageId, ()⟩ :: ⟨.calls, calls⟩ :: (consuming ++
      ⟨.exit (s.parse fresh raw).messageId (.ofResult consumed.2), answer⟩ ::
        (concluding ++ leaving)))
  ambient_entering : ∀ ev ∈ entering, ev.op.isAmbient = true
  refines : Refines carry steps consuming
  offered : Offered s.name s.shortCircuit calls.zipIdx (s.parse fresh raw) none steps consumed
  concludes : Runs (conclude publisher P.routeTo consumed.1 consumed.2 answer) concluding out
  ambient_leaving : ∀ ev ∈ leaving, ev.op.isAmbient = true

/-! ## Every run has a course -/

namespace Processing

variable {ρ κ : Type}

theorem isOfConsuming_of_isOfCalls (op : Processing.Op ρ κ) (h : op.isOfCalls = true) :
    op.isOfConsuming = true := by
  cases op with
  | publishing op =>
    cases op with
    | ambient op => rfl
    | _ => cases h
  | settle | settlement | resolve => rfl
  | _ => cases h

theorem within_carry (op : Offering.Op ρ κ) :
    (carry op).Within fun op => Op.isOfConsuming op = true := by
  cases op with
  | decode c e => exact (within_ofHandling _).mono isOfConsuming_of_isOfCalls
  | filter c e => exact (within_ofHandling _).mono isOfConsuming_of_isOfCalls
  | record c body => exact within_perform rfl
  | handle c incoming => exact (within_runCall _ _).mono isOfConsuming_of_isOfCalls
  | stop => exact Program.within_bind (within_perform rfl) fun _ => within_perform rfl

/-- Faithful telemetry around a program runs it once, and gives its outcome. -/
theorem runs_faithful {telemetry : List (TelemetryMiddleware κ)}
    (hfaithful : ∀ m ∈ telemetry, Faithful m) {metadata : Metadata}
    {core : Program (Processing ρ κ) ProcessingOutcome} {t : List (Event (Processing ρ κ))}
    {out : ProcessingOutcome}
    (h : Runs (Middleware.chain ofAmbient telemetry (fun _ => core) metadata) t out) :
    ∃ t₁ t₂ t₃, t = t₁ ++ (t₂ ++ t₃) ∧ (∀ ev ∈ t₁, ev.op.isAmbient = true) ∧
      Runs core t₂ out ∧ ∀ ev ∈ t₃, ev.op.isAmbient = true := by
  induction telemetry generalizing metadata t out with
  | nil => exact ⟨[], t, [], by simp, by simp, h, by simp⟩
  | cons m telemetry ih =>
    obtain ⟨hm, htelemetry⟩ := List.forall_mem_cons.mp hfaithful
    obtain ⟨u, v, passage, rfl, hin, hpassed⟩ := runs_bind_iff.mp h
    have hu := hin.allowed (within_ofAmbient (·.isAmbient = true) (fun _ => rfl) _)
    obtain ⟨_, -, hentered⟩ := exists_refines_of_runs hin
    obtain ⟨input, wayOut, rfl, hback⟩ := hm _ _ _ hentered
    obtain ⟨v, w, result, rfl, hrest, hout⟩ := runs_bind_iff.mp hpassed
    have hw := hout.allowed (within_ofAmbient (·.isAmbient = true) (fun _ => rfl) _)
    obtain ⟨_, -, hleft⟩ := exists_refines_of_runs hout
    obtain rfl := hback _ _ _ hleft
    obtain ⟨t₁, t₂, t₃, rfl, h₁, hcore, h₃⟩ := ih htelemetry hrest
    exact ⟨u ++ t₁, t₂, t₃ ++ w, by simp, List.forall_mem_append.mpr ⟨hu, h₁⟩, hcore,
      List.forall_mem_append.mpr ⟨h₃, hw⟩⟩

end Processing

variable {P : Protocol} {κ : Type} {s : Subscriber P κ} {publisher : Publisher P.Route κ}
  {raw : P.Raw} {t : List (Event (Processing P.Route κ))} {out : ProcessingOutcome}

/-- Going through all that is done with a message between telemetry and telemetry makes a course, on
which the calls are offered the message that was parsed. -/
theorem Subscriber.course_of_execute {fresh : String}
    {entering core leaving : List (Event (Processing P.Route κ))}
    (hentering : ∀ ev ∈ entering, ev.op.isAmbient = true)
    (hcore : Runs (execute publisher P.routeTo s.name s.shortCircuit (s.parse fresh raw)) core out)
    (hleaving : ∀ ev ∈ leaving, ev.op.isAmbient = true) :
    ∃ c : Course s publisher raw
        (⟨.publishing .freshId, fresh⟩ :: (entering ++ (core ++ leaving))) out,
      c.entering = entering ∧ c.leaving = leaving ∧
        Runs (offer s.name s.shortCircuit c.calls 0 (s.parse c.fresh raw) none) c.consuming
          c.consumed := by
  rw [execute_eq] at hcore
  obtain ⟨⟨⟩, t', rfl, hentered⟩ := runs_perform_bind hcore
  obtain ⟨t', t'', consumed, rfl, hconsume, hconsumed⟩ := runs_bind_iff.mp hentered
  obtain ⟨calls, consuming, rfl, hoffer⟩ := runs_call_iff.mp hconsume
  obtain ⟨steps, hrefines, hoffered⟩ := offered_of_runs hoffer
  obtain ⟨answer, concluding, rfl, hconclude⟩ := runs_perform_bind hconsumed
  have hid : consumed.1.messageId = (s.parse fresh raw).messageId := hoffered.messageId
  rw [hid]
  exact ⟨{
    fresh, entering, calls, consuming, steps, consumed, answer, concluding, leaving
    trace_eq := by simp
    ambient_entering := hentering
    refines := hrefines
    offered := hoffered
    concludes := hconclude
    ambient_leaving := hleaving }, rfl, rfl, hoffer⟩

/-- Every run has a course. -/
theorem Subscriber.exists_course (hfaithful : ∀ m ∈ s.telemetry, Faithful m)
    (h : Runs (s.process publisher raw) t out) :
    ∃ c : Course s publisher raw t out,
      Runs (offer s.name s.shortCircuit c.calls 0 (s.parse c.fresh raw) none) c.consuming
        c.consumed := by
  obtain ⟨fresh, u, rfl, hobserved⟩ := runs_call_iff.mp h
  obtain ⟨entering, core, leaving, rfl, hentering, hcore, hleaving⟩ :=
    runs_faithful hfaithful hobserved
  obtain ⟨c, -, -, hoffer⟩ := s.course_of_execute hentering hcore hleaving
  exact ⟨c, hoffer⟩

theorem Subscriber.nonempty_course (hfaithful : ∀ m ∈ s.telemetry, Faithful m)
    (h : Runs (s.process publisher raw) t out) : Nonempty (Course s publisher raw t out) := by
  obtain ⟨c, -⟩ := s.exists_course hfaithful h
  exact ⟨c⟩

/-! ## What settles the message along the way -/

namespace Processing

variable {ρ κ : Type}

/-- Does the operation leave the attempt? -/
def Op.isExit : Processing.Op ρ κ → Bool
  | .exit .. => true
  | _ => false

theorem settledWith?_settle (action : Action) (answer : Except AckError Unit) :
    settledWith? (⟨.settle action, answer⟩ : Event (Processing ρ κ)) =
      match answer with
      | .ok _ => some action
      | .error _ => none := by
  cases answer <;> rfl

theorem settledWith?_exit (id : String) (outcome : Outcome)
    (answer : Except AckError (Option Action)) :
    settledWith? (⟨.exit id outcome, answer⟩ : Event (Processing ρ κ)) =
      match answer with
      | .ok action => action
      | .error _ => none := by
  cases answer <;> rfl

theorem settledWith?_eq_none {ev : Event (Processing ρ κ)} (h : ev.op.settles = false) :
    settledWith? ev = none := by
  obtain ⟨op, answer⟩ := ev
  cases op with
  | settle | exit => cases h
  | _ => rfl

/-- Apart from the end of an attempt, all settling is by hand. -/
theorem settledWith?_eq_settledByHand? {ev : Event (Processing ρ κ)}
    (h : ev.op.isExit = false) : settledWith? ev = settledByHand? ev := by
  obtain ⟨op, answer⟩ := ev
  cases op with
  | settle action => cases answer <;> rfl
  | exit => cases h
  | _ => rfl

theorem isExit_of_settles (op : Processing.Op ρ κ) (h : op.settles = false) :
    op.isExit = false := by
  cases op <;> first | rfl | cases h

theorem keepsBooks_of_isAmbient (op : Processing.Op ρ κ) (h : op.isAmbient = true) :
    op.keepsBooks = false := by
  cases op <;> first | rfl | cases h

theorem settles_of_isAmbient (op : Processing.Op ρ κ) (h : op.isAmbient = true) :
    op.settles = false := by
  cases op <;> first | rfl | cases h

theorem settles_of_isOfReplies (op : Processing.Op ρ κ) (h : op.isOfReplies = true) :
    op.settles = false := by
  cases op <;> first | rfl | cases h

theorem isExit_of_isOfConsuming (op : Processing.Op ρ κ) (h : op.isOfConsuming = true) :
    op.isExit = false := by
  cases op <;> first | rfl | cases h

variable {t u : List (Event (Processing ρ κ))}

theorem findSome?_settledWith?_eq_none (h : ∀ ev ∈ t, ev.op.settles = false) :
    t.findSome? settledWith? = none :=
  List.findSome?_eq_none_iff.mpr fun ev hev => settledWith?_eq_none (h ev hev)

theorem findSome?_settledWith?_eq_byHand? (h : ∀ ev ∈ t, ev.op.isExit = false) :
    t.findSome? settledWith? = byHand? t := by
  induction t with
  | nil => rfl
  | cons ev t ih =>
    obtain ⟨hev, ht⟩ := List.forall_mem_cons.mp h
    rw [byHand?, List.findSome?_cons, List.findSome?_cons, settledWith?_eq_settledByHand? hev,
      ih ht, byHand?]

theorem byHand?_append : byHand? (t ++ u) = (byHand? t).or (byHand? u) :=
  List.findSome?_append

/-- The message is settled by hand, or else by the event that ends the attempt. -/
theorem findSome?_settledWith?_attempt {w : List (Event (Processing ρ κ))}
    {ev : Event (Processing ρ κ)} (hw : w = t ++ ev :: u) (ht : ∀ ev ∈ t, ev.op.isExit = false)
    (hev : settledByHand? ev = none) (hu : ∀ ev ∈ u, ev.op.settles = false) :
    w.findSome? settledWith? = (byHand? w).or (settledWith? ev) := by
  subst hw
  have hafter := findSome?_settledWith?_eq_none hu
  have hnone : byHand? u = none := by
    rw [← findSome?_settledWith?_eq_byHand? fun ev hev => isExit_of_settles _ (hu ev hev)]
    exact hafter
  have hexit : byHand? (ev :: u) = none := by
    rw [byHand?, List.findSome?_cons, hev]
    exact hnone
  rw [List.findSome?_append, findSome?_settledWith?_eq_byHand? ht, byHand?_append, hexit,
    Option.or_none, List.findSome?_cons, hafter]
  cases settledWith? ev <;> rfl

end Processing

namespace Course

variable (c : Course s publisher raw t out)

def id : String := (s.parse c.fresh raw).messageId

/-- All that comes before the end of the attempt. -/
def before : List (Event (Processing P.Route κ)) :=
  ⟨.publishing .freshId, c.fresh⟩ :: (c.entering ++
    ⟨.enter c.id, ()⟩ :: ⟨.calls, c.calls⟩ :: c.consuming)

def exit : Event (Processing P.Route κ) :=
  ⟨.exit c.id (.ofResult c.consumed.2), c.answer⟩

theorem trace_split : t = c.before ++ c.exit :: (c.concluding ++ c.leaving) :=
  c.trace_eq.trans (by simp [before, exit, id])

theorem calls_mem : ⟨.calls, c.calls⟩ ∈ t := by
  have hmem : ⟨.calls, c.calls⟩ ∈ c.before ++ c.exit :: (c.concluding ++ c.leaving) := by
    simp [before]
  exact Eq.subst (motive := (⟨.calls, c.calls⟩ ∈ ·)) c.trace_split.symm hmem

theorem exit_mem : c.exit ∈ t := by
  have hmem : c.exit ∈ c.before ++ c.exit :: (c.concluding ++ c.leaving) := by simp
  exact Eq.subst (motive := (c.exit ∈ ·)) c.trace_split.symm hmem

theorem isExit_before : ∀ ev ∈ c.before, ev.op.isExit = false := by
  have hentering : ∀ ev ∈ c.entering, ev.op.isExit = false := fun ev hev =>
    isExit_of_settles _ (settles_of_isAmbient _ (c.ambient_entering ev hev))
  have hconsuming : ∀ ev ∈ c.consuming, ev.op.isExit = false := fun ev hev =>
    isExit_of_isOfConsuming _ (c.refines.allowed within_carry ev hev)
  refine List.forall_mem_cons.mpr ⟨rfl, List.forall_mem_append.mpr ⟨hentering, ?_⟩⟩
  exact List.forall_mem_cons.mpr ⟨rfl, List.forall_mem_cons.mpr ⟨rfl, hconsuming⟩⟩

theorem settles_after : ∀ ev ∈ c.concluding ++ c.leaving, ev.op.settles = false := by
  refine List.forall_mem_append.mpr ⟨fun ev hev => ?_, fun ev hev => ?_⟩
  · exact settles_of_isOfReplies _ (c.concludes.allowed (within_conclude ..) ev hev)
  · exact settles_of_isAmbient _ (c.ambient_leaving ev hev)

/-- What settles the message is done by hand, or else at the end of the attempt. -/
theorem findSome?_settledWith? :
    t.findSome? settledWith? = (byHand? t).or (settledWith? c.exit) :=
  findSome?_settledWith?_attempt c.trace_split c.isExit_before rfl c.settles_after

end Course

end MessageDispatch
