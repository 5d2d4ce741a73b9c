import MessageDispatch.Proofs.Course
import MessageDispatch.Proofs.SteadySubscriber

/-! What closing a subscriber does to the processing of the message at which that happens. Until
then no reply has been sent, and afterwards the message is acked, and no reply is sent either. -/
namespace MessageDispatch

section
variable {S : Signature} {α : Type}

/-- What is left of a program once these events are over. -/
inductive Remains (p : Program S α) : List (Event S) → Program S α → Prop where
  | start : Remains p [] p
  | step {t : List (Event S)} {op : S.Op} {next : S.Answer op → Program S α}
      (h : Remains p t (.call op next)) (answer : S.Answer op) :
      Remains p (t ++ [⟨op, answer⟩]) (next answer)

theorem Remains.runs {p q : Program S α} {t u : List (Event S)} {a : α} (h : Remains p t q)
    (hq : Runs q u a) : Runs p (t ++ u) a := by
  induction h generalizing u with
  | start => exact hq
  | step h answer ih =>
    rw [List.append_assoc]
    exact ih (.call hq)

end

namespace Processing

variable {ρ κ α β : Type}

/-- An operation of user code without the envelope, or a remark. -/
def Op.isIdle : Processing.Op ρ κ → Bool
  | .publishing (.ambient _) | .log _ => true
  | _ => false

/-- An operation that neither sends, nor ends the attempt, nor closes the subscriber. -/
structure Op.Plain (op : Processing.Op ρ κ) : Prop where
  stays : op ≠ .close
  goesOn : op.isExit = false
  sendsNothing : op.sends = false

theorem Op.Plain.of_isIdle (op : Processing.Op ρ κ) (h : op.isIdle = true) : op.Plain := by
  cases op with
  | publishing op =>
    cases op with
    | ambient op => exact ⟨nofun, rfl, rfl⟩
    | _ => cases h
  | log => exact ⟨nofun, rfl, rfl⟩
  | _ => cases h

theorem Op.Plain.of_isOfCalls (op : Processing.Op ρ κ) (h : op.isOfCalls = true) : op.Plain := by
  cases op with
  | publishing op =>
    cases op with
    | ambient op => exact ⟨nofun, rfl, rfl⟩
    | _ => cases h
  | settle | settlement | resolve => exact ⟨nofun, rfl, rfl⟩
  | _ => cases h

theorem Op.Plain.recordBody (call : Nat) (body : Decoded) :
    (Op.recordBody call body : Processing.Op ρ κ).Plain :=
  ⟨nofun, rfl, rfl⟩

/-- A program that ends the attempt with an ack, and then only makes remarks. -/
def Parts : Program (Processing ρ κ) α → Prop
  | .done _ => False
  | .call op next =>
    (∃ id, op = .exit id .ack) ∧ ∀ answer, (next answer).Within fun op => Op.isIdle op = true

/-- A program that sends nothing before the end of the attempt, and does nothing but to part once
the subscriber is closed. -/
def Heeds : Program (Processing ρ κ) α → Prop
  | .done _ => True
  | .call op next =>
    (op = .close ∧ ∀ answer, Parts (next answer)) ∨
      (op.isExit = true ∧ ∀ answer, (next answer).Within fun op => op ≠ Op.close) ∨
        (op.Plain ∧ ∀ answer, Heeds (next answer))

variable {p : Program (Processing ρ κ) α} {f : α → Program (Processing ρ κ) β}

/-! ## Sequences -/

theorem Heeds.of_idle (h : p.Within fun op => Op.isIdle op = true) : Heeds p := by
  induction p with
  | done a => trivial
  | call op next ih =>
    exact .inr (.inr ⟨.of_isIdle op h.1, fun answer => ih answer (h.2 answer)⟩)

theorem Heeds.plain_bind (hp : p.Within Op.Plain) (hf : ∀ a, Heeds (f a)) : Heeds (p.bind f) := by
  induction p with
  | done a => exact hf a
  | call op next ih => exact .inr (.inr ⟨hp.1, fun answer => ih answer (hp.2 answer)⟩)

/-- The same where what follows is taken in two parts. -/
theorem Heeds.plain_bind_bind {γ : Type} {g : β → Program (Processing ρ κ) γ}
    (hp : p.Within Op.Plain) (hf : ∀ a, Heeds ((f a).bind g)) : Heeds ((p.bind f).bind g) := by
  rw [Program.bind_assoc]
  exact .plain_bind hp hf

theorem Parts.bind_idle (hp : Parts p) (hf : ∀ a, (f a).Within fun op => Op.isIdle op = true) :
    Parts (p.bind f) := by
  cases p with
  | done a => cases hp
  | call op next => exact ⟨hp.1, fun answer => Program.within_bind (hp.2 answer) hf⟩

theorem Heeds.bind_idle (hp : Heeds p) (hf : ∀ a, (f a).Within fun op => Op.isIdle op = true) :
    Heeds (p.bind f) := by
  induction p with
  | done a => exact .of_idle (hf a)
  | call op next ih =>
    rcases hp with ⟨hclose, hparts⟩ | ⟨hexit, hafter⟩ | ⟨hplain, hheeds⟩
    · exact .inl ⟨hclose, fun answer => (hparts answer).bind_idle hf⟩
    · refine .inr (.inl ⟨hexit, fun answer => Program.within_bind (hafter answer) fun a => ?_⟩)
      exact (hf a).mono fun op hop => (Op.Plain.of_isIdle op hop).stays
    · exact .inr (.inr ⟨hplain, fun answer => ih answer (hheeds answer)⟩)

/-! ## Processing a message -/

/-- When a handler asks to stop consuming, what follows is what follows without a reply. -/
theorem heeds_offer {f : ConsumeResult ρ → Program (Processing ρ κ) β}
    (hf : ∀ out, Heeds (f out)) (hparts : ∀ e, Parts (f (e, .ok none))) (subscription : String)
    (shortCircuit : Bool) (calls : List (Call ρ κ)) (i : Nat) (e : Envelope)
    (consumed : Option (Consumed ρ)) :
    Heeds ((offer subscription shortCircuit calls i e consumed).bind f) := by
  induction calls generalizing i e consumed with
  | nil => exact hf _
  | cons call calls ih =>
    unfold offer
    refine .plain_bind_bind ((within_ofHandling _).mono Op.Plain.of_isOfCalls) fun decoded => ?_
    cases decoded with
    | error d => exact hf _
    | ok body =>
      refine .plain_bind_bind ((within_ofHandling _).mono Op.Plain.of_isOfCalls) fun accepts => ?_
      cases accepts with
      | false => exact ih ..
      | true =>
        cases consumed with
        | some earlier => exact hf _
        | none =>
          refine .plain_bind_bind (within_perform (.recordBody ..)) fun _ => ?_
          refine .plain_bind_bind ((within_runCall ..).mono Op.Plain.of_isOfCalls) fun handled => ?_
          cases handled with
          | ok reply =>
            cases shortCircuit with
            | true => exact hf _
            | false => exact ih ..
          | error err =>
            rcases err with signal | ⟨type, cause⟩
            · cases signal with
              | stopConsuming =>
                refine .plain_bind_bind (within_perform (.of_isIdle _ rfl)) fun _ => ?_
                exact .inl ⟨rfl, fun _ => hparts _⟩
              | _ => exact hf _
            · exact hf _

/-- What follows an ack without a reply is remarks. -/
theorem idle_conclude (publisher : Publisher ρ κ) (routeTo : String → ρ) (e : Envelope)
    (answer : Except AckError (Option Action)) :
    (conclude publisher routeTo e (.ok none) answer).Within fun op => Op.isIdle op = true := by
  cases answer with
  | error err => exact Program.within_bind (within_perform rfl) fun _ => trivial
  | ok action =>
    unfold conclude
    dsimp only
    split <;> trivial

theorem heeds_execute (publisher : Publisher ρ κ) (routeTo : String → ρ) (subscription : String)
    (shortCircuit : Bool) (e : Envelope) :
    Heeds (execute publisher routeTo subscription shortCircuit e) := by
  rw [execute_eq]
  refine .plain_bind (within_perform ⟨nofun, rfl, rfl⟩) fun _ => ?_
  refine .inr (.inr ⟨⟨nofun, rfl, rfl⟩, fun calls => ?_⟩)
  have hends (out : ConsumeResult ρ) : Heeds ((perform (.exit out.1.messageId
      (.ofResult out.2))).bind fun answer => conclude publisher routeTo out.1 out.2 answer) := by
    refine .inr (.inl ⟨rfl, fun answer => (within_conclude ..).mono ?_⟩)
    rintro op hop rfl
    cases hop
  exact heeds_offer hends (fun e => ⟨⟨_, rfl⟩, fun answer => idle_conclude ..⟩) ..

theorem heeds_observed {core : Program (Processing ρ κ) ProcessingOutcome} (hcore : Heeds core)
    (telemetry : List (TelemetryMiddleware κ)) (metadata : Metadata) :
    Heeds (Middleware.chain ofAmbient telemetry (fun _ => core) metadata) := by
  induction telemetry generalizing metadata with
  | nil => exact hcore
  | cons m telemetry ih =>
    refine .plain_bind (within_ofAmbient _ (fun _ => .of_isIdle _ rfl) _) fun passage => ?_
    cases passage with
    | answer result => trivial
    | forward input wayOut =>
      exact (ih input).bind_idle fun _ => within_ofAmbient _ (fun _ => rfl) _

/-! ## On the way -/

/-- Where the processing of a message can be: before the subscriber may be closed, at the end of an
attempt that has closed it, or past that point. -/
inductive Conduct (p : Program (Processing ρ κ) α) : Prop where
  | before (h : Heeds p)
  | parting (h : Parts p)
  | after (h : p.Within fun op => op ≠ Op.close)

section
variable {op : Processing.Op ρ κ} {rest : Processing.Answer op → Program (Processing ρ κ) α}

theorem Conduct.next (h : Conduct (.call op rest)) (answer : Processing.Answer op) :
    Conduct (rest answer) := by
  cases h with
  | before h =>
    rcases h with ⟨-, hparts⟩ | ⟨-, hafter⟩ | ⟨-, hheeds⟩
    · exact .parting (hparts answer)
    · exact .after (hafter answer)
    · exact .before (hheeds answer)
  | parting h =>
    exact .after ((h.2 answer).mono fun op hop => (Op.Plain.of_isIdle op hop).stays)
  | after h => exact .after (h.2 answer)

/-- A subscriber is closed on the way to an ack. -/
theorem Conduct.parts {rest : Unit → Program (Processing ρ κ) α}
    (h : Conduct (.call Op.close rest)) : Parts (rest ()) := by
  cases h with
  | before h =>
    rcases h with ⟨-, hparts⟩ | ⟨hexit, -⟩ | ⟨hplain, -⟩
    · exact hparts ()
    · cases hexit
    · exact absurd rfl hplain.stays
  | parting h =>
    obtain ⟨id, hexit⟩ := h.1
    cases hexit
  | after h => exact absurd rfl h.1

theorem Conduct.remains {p q : Program (Processing ρ κ) α} {t : List (Event (Processing ρ κ))}
    (hp : Conduct p) (h : Remains p t q) : Conduct q := by
  induction h with
  | start => exact hp
  | step h answer ih => exact ih.next answer

/-- Whoever sends something is past the point where the subscriber may be closed. -/
theorem Conduct.of_sends {p : Program (Processing ρ κ) α} (h : Conduct p) (hp : p = .call op rest)
    (hsends : op.sends = true) : p.Within fun op => op ≠ Op.close := by
  subst hp
  cases h with
  | before h =>
    rcases h with ⟨rfl, -⟩ | ⟨hexit, -⟩ | ⟨hplain, -⟩
    · cases hsends
    · cases op <;> first | cases hexit; done | cases hsends
    · rw [hplain.sendsNothing] at hsends
      cases hsends
  | parting h =>
    obtain ⟨id, rfl⟩ := h.1
    cases hsends
  | after h => exact h

end

/-! ## Why a subscriber is closed -/

theorem runs_carry_closes_iff {op : Offering.Op ρ κ} {answer : Offering.Answer op}
    {t : List (Event (Processing ρ κ))} (h : Runs (carry op) t answer) :
    (∃ ev ∈ t, ev.op = .close) ↔ op = .stop := by
  have hother (hcalls : (carry op).Within fun op => Op.isOfCalls op = true) :
      ¬ ∃ ev ∈ t, ev.op = .close := by
    rintro ⟨ev, hev, hclose⟩
    have hallowed := h.allowed hcalls ev hev
    rw [hclose] at hallowed
    cases hallowed
  cases op with
  | decode c e => exact iff_of_false (hother (within_ofHandling _)) nofun
  | filter c e => exact iff_of_false (hother (within_ofHandling _)) nofun
  | handle c incoming => exact iff_of_false (hother (within_runCall ..)) nofun
  | record c body =>
    obtain ⟨answer', u, rfl, hdone⟩ := runs_call_iff.mp h
    obtain ⟨rfl, -⟩ := runs_done_iff.mp hdone
    simp
  | stop =>
    obtain ⟨answer', u, rfl, hlogged⟩ := runs_call_iff.mp h
    obtain ⟨answer'', v, rfl, -⟩ := runs_call_iff.mp hlogged
    exact iff_of_true ⟨_, List.mem_cons_of_mem _ List.mem_cons_self, rfl⟩ rfl

theorem Refines.closes_iff {s : List (Event (Offering ρ κ))} {t : List (Event (Processing ρ κ))}
    (h : Refines carry s t) : (∃ ev ∈ t, ev.op = .close) ↔ ∃ ev ∈ s, ev.op = .stop := by
  induction h with
  | nil => simp
  | @cons op answer s t u hop rest ih =>
    simp only [List.mem_append, List.mem_cons, or_and_right, exists_or, exists_eq_left, ih,
      runs_carry_closes_iff hop]

end Processing

variable {P : Protocol} {κ : Type} {s : Subscriber P κ} {publisher : Publisher P.Route κ}
  {raw : P.Raw} {t : List (Event (Processing P.Route κ))} {out : ProcessingOutcome}

/-- Processing a message closes the subscriber if a handler has come to that, and for no other
reason. -/
theorem Course.closes_iff (c : Course s publisher raw t out) :
    (∃ ev ∈ t, ev.op = .close) ↔ ∃ call incoming,
      (call, incoming, .error (.interrupt .stopConsuming)) ∈ Processing.invocations c.steps := by
  have hambient : ∀ ev : Event (Processing P.Route κ), ev.op.isAmbient = true → ev.op ≠ .close := by
    intro ev hev hclose
    rw [hclose] at hev
    cases hev
  have hconcluding : ∀ ev ∈ c.concluding, ev.op ≠ .close := by
    intro ev hev hclose
    have hreplies := c.concludes.allowed (Processing.within_conclude ..) ev hev
    rw [hclose] at hreplies
    cases hreplies
  rw [← c.offered.stopped_iff, ← Processing.Refines.closes_iff c.refines]
  constructor
  · rintro ⟨ev, hev, hclose⟩
    refine ⟨ev, ?_, hclose⟩
    rw [c.trace_eq] at hev
    simp only [List.mem_cons, List.mem_append] at hev
    rcases hev with rfl | hev | rfl | rfl | hev | rfl | hev | hev
    · cases hclose
    · exact absurd hclose (hambient ev (c.ambient_entering ev hev))
    · cases hclose
    · cases hclose
    · exact hev
    · cases hclose
    · exact absurd hclose (hconcluding ev hev)
    · exact absurd hclose (hambient ev (c.ambient_leaving ev hev))
  · rintro ⟨ev, hev, hclose⟩
    refine ⟨ev, ?_, hclose⟩
    rw [c.trace_eq]
    simp [hev]

/-- Did a handler ask to stop consuming, in the course of this? -/
def Subscriber.AskedToStop (s : Subscriber P κ) (publisher : Publisher P.Route κ) (raw : P.Raw)
    (t : List (Event (Processing P.Route κ))) : Prop :=
  ∃ (out : ProcessingOutcome) (c : Course s publisher raw t out)
    (call : Processing.Numbered P.Route κ) (incoming : Incoming),
    (call, incoming, .error (.interrupt .stopConsuming)) ∈ Processing.invocations c.steps

theorem Subscriber.closes_iff (h : Runs (s.process publisher raw) t out) :
    (∃ ev ∈ t, ev.op = .close) ↔ s.AskedToStop publisher raw t := by
  constructor
  · intro hclose
    obtain ⟨fresh, u, rfl, hobserved⟩ := runs_call_iff.mp h
    rcases Processing.runs_observed (·.isAmbient = true) (fun _ => rfl) hobserved with
      hambient | ⟨entering, core, leaving, outcome, rfl, hentering, hleaving, hcore⟩
    · obtain ⟨ev, hev, hclose⟩ := hclose
      rcases List.mem_cons.mp hev with rfl | hev
      · cases hclose
      · have hop := hambient ev hev
        rw [hclose] at hop
        cases hop
    · obtain ⟨c, -⟩ := s.course_of_execute hentering hcore hleaving
      obtain ⟨call, incoming, hasked⟩ := c.closes_iff.mp hclose
      exact ⟨outcome, c, call, incoming, hasked⟩
  · rintro ⟨outcome, c, call, incoming, hasked⟩
    exact c.closes_iff.mpr ⟨call, incoming, hasked⟩

/-- In a processing that comes to close the subscriber, a handler has asked for it. -/
theorem Subscriber.askedToStop {p : Program (Processing P.Route κ) ProcessingOutcome}
    (h : Remains (s.process publisher raw) t p)
    {next : Unit → Program (Processing P.Route κ) ProcessingOutcome} (hp : p = .call .close next)
    {rest : List (Event (Processing P.Route κ))} (hrest : Runs p rest out) :
    s.AskedToStop publisher raw (t ++ rest) := by
  refine (s.closes_iff (h.runs hrest)).mp ?_
  rw [hp] at hrest
  obtain ⟨answer, u, rfl, -⟩ := runs_call_iff.mp hrest
  exact ⟨⟨.close, answer⟩, List.mem_append_right _ List.mem_cons_self, rfl⟩

theorem Subscriber.heeds_process (s : Subscriber P κ) (publisher : Publisher P.Route κ)
    (raw : P.Raw) : Processing.Heeds (s.process publisher raw) := by
  refine .inr (.inr ⟨⟨nofun, rfl, rfl⟩, fun fresh => ?_⟩)
  exact Processing.heeds_observed (Processing.heeds_execute ..) ..

end MessageDispatch
