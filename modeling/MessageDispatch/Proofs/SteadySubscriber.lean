import MessageDispatch.Proofs.Steady

/-! What a subscriber with steady calls makes of a message: the bodies that its calls are run with,
the letters that follow, and whether the message is handed back by hand. All of that is settled by
what the message says and by its correlation id, so one run tells what every other run will show. -/
namespace MessageDispatch

/-! ## Reading a message -/

/-- What a parser makes of a message depends on what the message says and on its correlation id,
and on no id that was drawn. -/
structure Protocol.Reads (P : Protocol) (parse : String → P.Raw → Envelope) (id : String) :
    Prop where
  correlationId : ∀ {m fresh ids}, m.Under id → (parse fresh (P.build ids m)).correlationId = id
  bare : ∀ {m m' fresh fresh' ids ids'}, m.Under id → m'.Under id → m.letter = m'.letter →
    (parse fresh (P.build ids m)).bare = (parse fresh' (P.build ids' m')).bare

theorem Amqp.bare_arrived {m m' : Message Route} {id : String} (hm : m.Under id)
    (hm' : m'.Under id) (hletter : m.letter = m'.letter) :
    (arrived m).bare = (arrived m').bare := by
  have hpayload : m.payload = m'.payload := congrArg Letter.payload hletter
  have hto : m.replyTo = m'.replyTo := congrArg Letter.replyTo hletter
  simp [Envelope.bare, arrived, hpayload, hto, hm.correlationText, hm'.correlationText]

theorem Message.bare_headed {Route : Type} {m m' : Message Route} {id : String} (hm : m.Under id)
    (hm' : m'.Under id) (hletter : m.letter = m'.letter) {body body' : ByteArray}
    (hbody : body = body') {nativeReplyTo nativeReplyTo' : Option String}
    (hnative : nativeReplyTo = nativeReplyTo') :
    (m.headed body nativeReplyTo).bare = (m'.headed body' nativeReplyTo').bare := by
  have hpayload : m.payload = m'.payload := congrArg Letter.payload hletter
  have hto : m.replyTo = m'.replyTo := congrArg Letter.replyTo hletter
  subst hbody hnative
  have htype : m.outgoingHeaders.nonEmpty? HeaderName.contentType =
      m'.outgoingHeaders.nonEmpty? HeaderName.contentType := by
    simp only [Headers.nonEmpty?, Message.get?_outgoingHeaders, Message.metadata?_contentType,
      hpayload]
  have hreply : m.outgoingHeaders.get? HeaderName.replyTo =
      m'.outgoingHeaders.get? HeaderName.replyTo := by
    simp only [Message.get?_outgoingHeaders, Message.metadata?_replyTo, hpayload, hto]
  simp [Envelope.bare, Message.headed, htype, hreply, hm.correlationText, hm'.correlationText]

/-- The parsers of the brokers take what they read from the message. -/
theorem Broker.reads (b : Broker) (id : String) : b.protocol.Reads b.protocol.parse id where
  correlationId := by
    intro m fresh ids hm
    rw [b.parse_build hm.identified, b.correlationId_arrived, hm.correlationText]
  bare := by
    intro m m' fresh fresh' ids ids' hm hm' hletter
    rw [b.parse_build hm.identified, b.parse_build hm'.identified]
    have hpayload : m.payload = m'.payload := congrArg Letter.payload hletter
    cases b with
    | amqp => exact Amqp.bare_arrived hm hm' hletter
    | kafka | sqs => exact Message.bare_headed hm hm' hletter (congrArg _ hpayload) rfl
    | nats =>
      exact Message.bare_headed hm hm' hletter (congrArg _ hpayload)
        (congrArg Letter.replyTo hletter)
    | redis =>
      exact Message.bare_headed hm hm' hletter
        (congrArg (fun p : Payload => (Text.lossy p.body).toUTF8) hpayload) rfl

/-! ## What a run shows -/

/-- What a subscriber makes of a message. -/
structure Reaction (ρ : Type) where
  /-- The bodies that its calls are run with, by number. -/
  bodies : List (Nat × Decoded)
  /-- What follows. -/
  letters : List (Letter ρ)
  /-- Is the message handed back by hand? -/
  returned : Bool

namespace Processing

variable {ρ κ : Type} {subscription : String} {shortCircuit : Bool}

/-- A run that offers a message with this correlation id to so many calls comes to this. -/
structure Shows (routeTo : String → ρ) (id : String) (calls : Nat) (x : Reaction ρ)
    (t : List (Event (Processing ρ κ))) (out : ConsumeResult ρ) : Prop where
  bodies : recordedBodies t = x.bodies
  known : ∀ r ∈ x.bodies, r.1 < calls
  letters : followUps routeTo out = x.letters
  returned : x.returned = decide (t.findSome? asked? = some .nack)
  outcome : Outcome.ofResult out.2 ∈ [.ack, .reject, .skip]
  correlationId : out.1.correlationId = id
  stays : ∀ ev ∈ t, ev.op ≠ .close

theorem followUps_of_matches {routeTo : String → ρ} {x y : ConsumeResult ρ} (h : Matches x y) :
    followUps routeTo x = followUps routeTo y := by
  obtain ⟨e, result⟩ := x
  obtain ⟨e', result'⟩ := y
  obtain ⟨hbare, hresult⟩ : e.bare = e'.bare ∧
      result.mapError HandlerError.signal = result'.mapError HandlerError.signal := h
  have hto : e.bare.replyTo = e'.bare.replyTo := congrArg Envelope.replyTo hbare
  cases result with
  | error err =>
    cases result' with
    | error err' => rfl
    | ok produced => cases hresult
  | ok produced =>
    cases result' with
    | error err' => cases hresult
    | ok produced' =>
      obtain rfl := Except.ok.inj hresult
      cases produced with
      | none => rfl
      | some produced =>
        have hsame : e.replyTo = e'.replyTo := hto
        simp only [followUps, replies, hsame]

variable {cs : List (Numbered ρ κ)} {e : Envelope} {consumed : Option (Consumed ρ)}
  {s : List (Event (Offering ρ κ))} {out : ConsumeResult ρ} {t : List (Event (Processing ρ κ))}

theorem Offered.called (h : Offered subscription shortCircuit cs e consumed s out) :
    ∀ v ∈ invocations s, v.1 ∈ cs := by
  induction h with
  | refused rest ih =>
    intro v hv
    exact List.mem_cons_of_mem _ (ih v (by simpa [invocations, asking] using hv))
  | @succeeded c cs e body reply s out hshort rest ih =>
    intro v hv
    have hv : v = (c, ⟨e.withDecoded body, subscription⟩, .ok reply) ∨ v ∈ invocations s := by
      simpa [invocations, asking, taking] using hv
    rcases hv with rfl | hv
    · exact List.mem_cons_self
    · exact List.mem_cons_of_mem _ (ih v hv)
  | _ => simp [invocations, asking, taking]

/-- The subscriber is closed because a handler asked for it. -/
theorem Offered.stopped_iff (h : Offered subscription shortCircuit cs e consumed s out) :
    (∃ ev ∈ s, ev.op = .stop) ↔
      ∃ c incoming, (c, incoming, .error (.interrupt .stopConsuming)) ∈ invocations s := by
  induction h with
  | refused rest ih => simpa [invocations, asking] using ih
  | succeeded hshort rest ih => simpa [invocations, asking, taking] using ih
  | failed hother => simp [invocations, asking, taking, Ne.symm hother]
  | _ => simp [invocations, asking, taking]

theorem Refines.exists_runs {S T : Signature} {f : (op : S.Op) → Program T (S.Answer op)}
    {s : List (Event S)} {t : List (Event T)} (h : Refines f s t) {ev : Event S} (hev : ev ∈ s) :
    ∃ u, Runs (f ev.op) u ev.answer := by
  induction h with
  | nil => cases hev
  | cons hop rest ih =>
    rcases List.mem_cons.mp hev with rfl | hev
    · exact ⟨_, hop⟩
    · exact ih hev

theorem Refines.of_mem {S T : Signature} {f : (op : S.Op) → Program T (S.Answer op)}
    {permitted : T.Op → Prop} {s : List (Event S)} {t : List (Event T)} (h : Refines f s t)
    (hf : ∀ ev ∈ s, (f ev.op).Within permitted) : ∀ ev ∈ t, permitted ev.op := by
  induction h with
  | nil => simp
  | cons hop rest ih =>
    obtain ⟨hfirst, hothers⟩ := List.forall_mem_cons.mp hf
    exact List.forall_mem_append.mpr ⟨hop.allowed hfirst, ih hothers⟩

section
variable (hcalls : ∀ c ∈ cs, c.1.Steady)
  (hoffered : Offered subscription shortCircuit cs e consumed s out) (hrefines : Refines carry s t)
include hcalls hoffered hrefines

/-- Calls interrupt processing only in the ways that steady calls may. -/
theorem Offered.interrupts {c : Numbered ρ κ} {incoming : Incoming} {signal : Interrupt}
    (h : (c, incoming, .error (.interrupt signal)) ∈ invocations s) :
    signal ∈ [.ack, .reject, .skip] := by
  obtain ⟨ev, hev, hcalled⟩ := List.mem_filterMap.mp h
  obtain ⟨op, answer⟩ := ev
  cases op with
  | handle c' incoming' =>
    obtain ⟨rfl, rfl, rfl⟩ : c' = c ∧ incoming' = incoming ∧
        answer = .error (.interrupt signal) := by
      simpa using hcalled
    obtain ⟨u, hu⟩ := Refines.exists_runs hrefines hev
    obtain ⟨middlewares, handler, hbody, -, hinterrupts⟩ :=
      (hcalls c' (hoffered.called _ h)).handler
    have hcall : Runs (runCall c'.1.body incoming') u (.error (.interrupt signal)) := hu
    rw [hbody] at hcall
    obtain ⟨v, -, hruns⟩ := exists_refines_of_runs (p := handler.within middlewares incoming') hcall
    exact hinterrupts _ _ _ hruns
  | _ => cases hcalled

theorem Offered.outcome (hok : ∀ type cause, out.2 ≠ .error (.failure type cause)) :
    Outcome.ofResult out.2 ∈ [.ack, .reject, .skip] := by
  cases hout : out.2 with
  | ok produced => exact List.mem_cons_self
  | error err =>
    cases err with
    | failure type cause => exact absurd hout (hok type cause)
    | interrupt signal =>
      obtain ⟨c, incoming, h⟩ := hoffered.interrupted hout
      have hsignal := hoffered.interrupts hcalls hrefines h
      cases signal <;> simp [Outcome.ofResult, Outcome.ofInterrupt] at hsignal ⊢

/-- No subscriber is closed by what steady calls do. -/
theorem Offered.stays : ∀ ev ∈ t, ev.op ≠ .close := by
  have hnone : ¬ ∃ ev ∈ s, ev.op = .stop := by
    intro hstop
    obtain ⟨c, incoming, h⟩ := hoffered.stopped_iff.mp hstop
    simpa using hoffered.interrupts hcalls hrefines h
  have hother (op : Processing.Op ρ κ) (hop : op.isOfCalls = true) : op ≠ .close := by
    rintro rfl
    cases hop
  have hwithin : ∀ ev ∈ s, (carry ev.op).Within fun op : Processing.Op ρ κ => op ≠ .close := by
    intro ev hev
    obtain ⟨op, answer⟩ := ev
    cases op with
    | decode c e => exact (within_ofHandling _).mono hother
    | filter c e => exact (within_ofHandling _).mono hother
    | record c body => exact within_perform (by simp)
    | handle c incoming => exact (within_runCall _ _).mono hother
    | stop => exact absurd ⟨_, hev, rfl⟩ hnone
  exact Refines.of_mem hrefines hwithin

end

/-- A run that comes to no failure shows what every run of such calls on a message like that will
show. -/
theorem Alike.shows {routeTo : String → ρ} {id : String} {calls : List (Call ρ κ)}
    (hcalls : ∀ call ∈ calls, call.Steady) {e e' : Envelope} (he : e.bare = e'.bare)
    (hid : e'.correlationId = id) {out' : ConsumeResult ρ} {u : List (Event (Processing ρ κ))}
    (h : Runs (offer subscription shortCircuit calls 0 e none) t out)
    (hok : ∀ type cause, out.2 ≠ .error (.failure type cause))
    (h' : Runs (offer subscription shortCircuit calls 0 e' none) u out') :
    Shows routeTo id calls.length
      ⟨recordedBodies t, followUps routeTo out, decide (t.findSome? asked? = some .nack)⟩ u
      out' := by
  obtain ⟨hmatches, hbodies, hasked⟩ := alike_offer hcalls he _ _ _ _ h h'
  obtain ⟨s, hrefines, hoffered⟩ := offered_of_runs h'
  have hsteady : ∀ c ∈ calls.zipIdx, c.1.Steady := fun c hc =>
    hcalls _ (List.fst_mem_of_mem_zipIdx hc)
  refine ⟨hbodies.symm, ?_, (followUps_of_matches hmatches).symm, by rw [hasked], ?_, ?_, ?_⟩
  · rw [hbodies, recordedBodies_of_refines hrefines, hoffered.recorded, List.map_map]
    refine List.forall_mem_map.mpr fun v hv => ?_
    obtain ⟨-, hlt, -⟩ := List.mem_zipIdx (hoffered.called v hv)
    simpa using hlt
  · refine hoffered.outcome hsteady hrefines fun type cause hfailed => ?_
    have hsignal := hmatches.2
    rw [hfailed] at hsignal
    cases hout : out.2 with
    | ok produced =>
      rw [hout] at hsignal
      cases hsignal
    | error err =>
      cases err with
      | failure type' cause' => exact hok _ _ hout
      | interrupt signal =>
        rw [hout] at hsignal
        cases hsignal
  · exact (hoffered.keeps (f := Envelope.correlationId) (fun _ _ => rfl) fun _ => rfl).1.trans hid
  · exact hoffered.stays hsteady hrefines

end Processing

/-! ## What a subscriber makes of a letter -/

section
variable {P : Protocol} {κ : Type}

/-- A subscriber whose calls make the same of a message each time, and whose telemetry only looks
on. -/
structure Subscriber.Steady (s : Subscriber P κ) (id : String) : Prop where
  calls : ∀ call ∈ s.calls, call.Steady
  reads : P.Reads s.parse id
  telemetry : ∀ m ∈ s.telemetry, Faithful m

/-- What a subscriber makes of a message with this correlation id that says what this letter
says. -/
def Subscriber.Reacts (s : Subscriber P κ) (id : String) (letter : Letter P.Route)
    (x : Reaction P.Route) : Prop :=
  ∀ m fresh ids t out, m.Under id → m.letter = letter →
    Runs (Processing.offer s.name s.shortCircuit s.calls 0 (s.parse fresh (P.build ids m)) none)
      t out →
    Processing.Shows P.routeTo id s.calls.length x t out

theorem Subscriber.Steady.reacts {s : Subscriber P κ} {id : String} (hs : s.Steady id)
    {m : Message P.Route} (hm : m.Under id) {fresh : String} {ids : FreshIds}
    {t : List (Event (Processing P.Route κ))} {out : Processing.ConsumeResult P.Route}
    (h : Runs (Processing.offer s.name s.shortCircuit s.calls 0
      (s.parse fresh (P.build ids m)) none) t out)
    (hok : ∀ type cause, out.2 ≠ .error (.failure type cause)) :
    s.Reacts id m.letter ⟨Processing.recordedBodies t, Processing.followUps P.routeTo out,
      decide (t.findSome? Processing.asked? = some .nack)⟩ := by
  intro m' fresh' ids' u out' hm' hletter h'
  exact Processing.Alike.shows hs.calls (hs.reads.bare hm hm' hletter.symm)
    (hs.reads.correlationId hm') h hok h'

end
end MessageDispatch
