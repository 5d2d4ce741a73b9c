import MessageDispatch.Payload

/-! Outgoing messages. Ids that the sender leaves out are assigned when the message is
published: a fresh message id, and a correlation id equal to it. -/
namespace MessageDispatch

structure Message (Route : Type) where
  payload : Payload
  route : Route
  replyTo : Option String
  correlationId : Option String
  messageId : Option String
  /-- Seconds since the Unix epoch. -/
  timestamp : Option UInt64
deriving Inhabited

namespace Message

variable {Route : Type}

def new (route : Route) (payload : Payload) : Message Route :=
  ⟨payload, route, none, none, none, none⟩

def withCorrelationId (m : Message Route) (id : String) : Message Route :=
  { m with correlationId := some id }

def withReplyTo (m : Message Route) (destination : String) : Message Route :=
  { m with replyTo := some destination }

/-- The message id, empty if none was assigned yet. -/
def idText (m : Message Route) : String :=
  m.messageId.getD ""

/-- The correlation id, or the message id if there is none. -/
def correlationText (m : Message Route) : String :=
  m.correlationId.getD m.idText

/-- Fill in what the sender left out. An empty id counts as left out. -/
def complete (fresh : String) (now : UInt64) (m : Message Route) : Message Route :=
  let id := (m.messageId.filter (· ≠ "")).getD fresh
  { m with
    timestamp := some (m.timestamp.getD now)
    messageId := some id
    correlationId := some ((m.correlationId.filter (· ≠ "")).getD id) }

/-- The headers of a message that carries its metadata in headers: those of the payload, and
the message's own metadata over them. -/
def outgoingHeaders (m : Message Route) : Headers :=
  m.payload.headers
    |>.insert? HeaderName.contentType m.payload.contentType
    |>.insert? HeaderName.replyTo m.replyTo
    |>.insert? HeaderName.messageId m.messageId
    |>.insert? HeaderName.correlationId m.correlationId

end Message
end MessageDispatch
