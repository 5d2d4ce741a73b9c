import MessageDispatch.Proofs.RoundTrip

/-! The envelope that a message with ids arrives as. No fresh id gets into it, whichever are drawn
while the message is built and parsed, and the headers of the payload cannot stand in for the ids
and the reply address that the message has itself. -/
namespace MessageDispatch

namespace Message

variable {Route : Type}

/-- The message has both ids. -/
structure Identified (m : Message Route) : Prop where
  messageId : ∃ id, m.messageId = some id ∧ id ≠ ""
  correlationId : ∃ id, m.correlationId = some id ∧ id ≠ ""

/-- The envelope of a message whose metadata travels in headers. -/
def headed (m : Message Route) (body : ByteArray) (nativeReplyTo : Option String) : Envelope :=
  { body := body
    decoded := none
    contentType := m.outgoingHeaders.nonEmpty? HeaderName.contentType
    replyTo :=
      (Envelope.orElse (m.outgoingHeaders.get? HeaderName.replyTo) nativeReplyTo).getD ""
    headers := m.outgoingHeaders
    messageId := m.idText
    correlationId := m.correlationText
    processed := false }

variable {m : Message Route} (hm : m.Identified)
include hm

theorem Identified.ofHeaders_eq (fresh : String) (body : ByteArray)
    (nativeId nativeReplyTo : Option String) :
    Envelope.ofHeaders fresh body m.outgoingHeaders nativeId nativeReplyTo =
      m.headed body nativeReplyTo := by
  obtain ⟨id, hid, hid_ne⟩ := hm.messageId
  obtain ⟨correlation, hcorrelation, hcorrelation_ne⟩ := hm.correlationId
  have hget_id : m.outgoingHeaders.get? HeaderName.messageId = some id := by
    rw [m.get?_outgoingHeaders, m.metadata?_messageId, hid, Option.some_or]
  have hget_correlation : m.outgoingHeaders.get? HeaderName.correlationId = some correlation := by
    rw [m.get?_outgoingHeaders, m.metadata?_correlationId, hcorrelation, Option.some_or]
  have hown_id : Envelope.orElse (some id) nativeId = some id :=
    orElse_eq_or _ (by simpa using hid_ne)
  have hown_correlation : m.outgoingHeaders.nonEmpty? HeaderName.correlationId =
      some correlation := by
    rw [Headers.nonEmpty?, hget_correlation, Option.filter_some,
      if_pos (by simpa using hcorrelation_ne)]
  rw [Envelope.ofHeaders, Envelope.ofMetadata_eq, hget_id, hown_id, hown_correlation]
  simp [headed, correlationText, idText, hid, hcorrelation]

omit hm in
theorem replyTo_headed {destination : String} (hto : m.replyTo = some destination)
    (hne : destination ≠ "") (body : ByteArray) (nativeReplyTo : Option String) :
    (m.headed body nativeReplyTo).replyTo = destination := by
  have hget : m.outgoingHeaders.get? HeaderName.replyTo = some destination := by
    rw [m.get?_outgoingHeaders, m.metadata?_replyTo, hto, Option.some_or]
  rw [headed, hget, orElse_eq_or _ (by simpa using hne), Option.some_or, Option.getD_some]

end Message

/-! ## One broker after the other -/

section
variable (fresh : String) (ids : FreshIds)

/-- The envelope of a message whose metadata travels as properties. -/
def Amqp.arrived (m : Message Route) : Envelope :=
  { body := m.payload.body
    decoded := none
    contentType :=
      Envelope.orElse m.payload.contentType (m.payload.headers.get? HeaderName.contentType)
    replyTo := (Envelope.orElse m.replyTo (m.payload.headers.get? HeaderName.replyTo)).getD ""
    headers := m.payload.headers
    messageId := m.idText
    correlationId := m.correlationText
    processed := false }

theorem Amqp.parse_build {m : Message Route} (hm : m.Identified) :
    parse fresh (build ids m) = arrived m := by
  obtain ⟨id, hid, hid_ne⟩ := hm.messageId
  obtain ⟨correlation, hcorrelation, hcorrelation_ne⟩ := hm.correlationId
  have hheaders : ((build ids m).properties.headers.map FieldTable.headers).getD .empty =
      m.payload.headers :=
    FieldTable.headers_ofHeaders m.payload.headers
  have hown {text : String} (htext : text ≠ "") (other : Option String) :
      Envelope.orElse (some text) other = some text :=
    orElse_eq_or _ (by simpa using htext)
  rw [parse, hheaders, Envelope.ofMetadata_eq]
  simp only [build, properties, hid, hcorrelation, hown hid_ne, hown hcorrelation_ne]
  simp [arrived, Message.correlationText, Message.idText, hid, hcorrelation]

theorem Sqs.parse_build {m : Message Route} (hm : m.Identified) :
    parse fresh (build ids m) = m.headed m.payload.body none := by
  obtain ⟨id, hid, hid_ne⟩ := hm.messageId
  have hqueue : (build ids m).messageId = (m.headed m.payload.body none).messageId := by
    simp [build, Message.headed, Message.idText, hid, Option.filter, hid_ne]
  have hne : (build ids m).messageId ≠ "" := by
    simpa [hqueue, Message.headed, Message.idText, hid] using hid_ne
  -- the id of the queue is the one that was sent
  rw [parse, if_neg hne, hqueue, build, hm.ofHeaders_eq]
  exact Envelope.withMessageId_self _

end

/-! ## Any broker -/

namespace Broker

/-- The envelope that a message arrives as. -/
def arrived : (b : Broker) → Message b.protocol.Route → Envelope
  | .amqp, m => Amqp.arrived m
  | .kafka, m => Message.headed m m.payload.body none
  | .nats, m => Message.headed m m.payload.body m.replyTo
  | .redis, m => Message.headed m (Text.lossy m.payload.body).toUTF8 none
  | .sqs, m => Message.headed m m.payload.body none

variable (b : Broker) {m : Message b.protocol.Route} (hm : m.Identified)

include hm in
theorem parse_build (fresh : String) (ids : FreshIds) :
    b.protocol.parse fresh (b.protocol.build ids m) = b.arrived m := by
  cases b with
  | amqp => exact Amqp.parse_build fresh ids hm
  | kafka => exact (Kafka.parse_build fresh ids m).trans (hm.ofHeaders_eq ..)
  | nats => exact hm.ofHeaders_eq ..
  | redis =>
    -- stated of any raw message, so that no text is parsed to see it
    have hparse : ∀ raw, Broker.redis.protocol.parse fresh raw = Redis.parse fresh raw :=
      fun _ => rfl
    rw [hparse]
    exact (Redis.parse_build fresh ids m).trans (hm.ofHeaders_eq ..)
  | sqs => exact Sqs.parse_build fresh ids hm

theorem processed_arrived : (b.arrived m).processed = false := by
  cases b <;> rfl

/-- A message is known at the other end by the correlation id that it has. -/
theorem correlationId_arrived : (b.arrived m).correlationId = m.correlationText := by
  cases b <;> rfl

/-- A message that names a reply address has it at the other end, whatever headers it has. -/
theorem replyTo_arrived {destination : String} (hto : m.replyTo = some destination)
    (hne : destination ≠ "") : (b.arrived m).replyTo = destination := by
  cases b with
  | amqp =>
    show (Envelope.orElse m.replyTo _).getD "" = _
    rw [hto, orElse_eq_or _ (by simpa using hne), Option.some_or, Option.getD_some]
  | kafka | nats | redis | sqs => exact Message.replyTo_headed hto hne ..

end Broker
end MessageDispatch
