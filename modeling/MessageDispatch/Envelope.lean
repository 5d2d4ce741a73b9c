import MessageDispatch.Payload

/-! Envelopes: received messages in the form that all brokers share. Filters, decoders and
handlers see nothing else of a message. -/
namespace MessageDispatch

structure Envelope where
  body : ByteArray
  /-- The body as read by the call that the message was last offered to. -/
  decoded : Option Decoded
  contentType : Option String
  replyTo : String
  headers : Headers
  messageId : String
  correlationId : String
  /-- Has a call processed the message already? -/
  processed : Bool
deriving Inhabited

namespace Envelope

/-- An envelope with a fresh message id, which is also its correlation id. -/
def new (fresh : String) (body : ByteArray) : Envelope :=
  { body := body, decoded := none, contentType := none, replyTo := "", headers := .empty,
    messageId := fresh, correlationId := fresh, processed := false }

/-- The correlation id follows the message id as long as the two are equal. -/
def withMessageId (e : Envelope) (id : String) : Envelope :=
  { e with
    messageId := id
    correlationId := if e.correlationId = e.messageId then id else e.correlationId }

theorem withMessageId_self (e : Envelope) : e.withMessageId e.messageId = e := by
  have hsame : (if e.correlationId = e.messageId then e.messageId else e.correlationId) =
      e.correlationId := by
    split
    · rename_i heq
      exact heq.symm
    · rfl
  rw [withMessageId, hsame]

def withCorrelationId (e : Envelope) (id : String) : Envelope :=
  { e with correlationId := id }

def withReplyTo (e : Envelope) (destination : String) : Envelope :=
  { e with replyTo := destination }

def withContentType (e : Envelope) (contentType : Option String) : Envelope :=
  { e with contentType := contentType }

def withHeaders (e : Envelope) (headers : Headers) : Envelope :=
  { e with headers := headers }

def withDecoded (e : Envelope) (decoded : Decoded) : Envelope :=
  { e with decoded := some decoded }

def markProcessed (e : Envelope) : Envelope :=
  { e with processed := true }

/-- The decoded body, empty if no decoder ran. -/
def decodedBody (e : Envelope) : Decoded :=
  e.decoded.getD .empty

section
variable (e : Envelope) (decoded : Decoded)

@[simp] theorem withDecoded_decodedBody : (e.withDecoded decoded).decodedBody = decoded := rfl

@[simp] theorem withDecoded_processed : (e.withDecoded decoded).processed = e.processed := rfl

@[simp] theorem withDecoded_messageId : (e.withDecoded decoded).messageId = e.messageId := rfl

@[simp] theorem withMessageId_processed (id : String) :
    (e.withMessageId id).processed = e.processed := rfl

@[simp] theorem markProcessed_processed : e.markProcessed.processed = true := rfl

@[simp] theorem markProcessed_messageId : e.markProcessed.messageId = e.messageId := rfl

end

def orElse (first second : Option String) : Option String :=
  match first.filter (· ≠ "") with
  | some s => some s
  | none => second.filter (· ≠ "")

theorem orElse_none (first : Option String) : orElse first none = first.filter (· ≠ "") := by
  unfold orElse
  cases first.filter (· ≠ "") <;> rfl

/-- The metadata a broker delivered natively, beside the headers. -/
structure Native where
  contentType : Option String
  messageId : Option String
  correlationId : Option String
  replyTo : Option String
deriving Inhabited

def apply {α : Type} (f : Envelope → α → Envelope) (e : Envelope) : Option α → Envelope
  | some a => f e a
  | none => e

/-- An envelope with metadata chosen among candidates; the message id goes in before the
correlation id, so that it cannot touch it. -/
def ofMetadata (fresh : String) (body : ByteArray) (headers : Headers) (chosen : Native) :
    Envelope :=
  let e := (new fresh body).withContentType chosen.contentType
  let e := apply withMessageId e chosen.messageId
  let e := apply withCorrelationId e chosen.correlationId
  (apply withReplyTo e chosen.replyTo).withHeaders headers

section
variable (fresh : String) (body : ByteArray) (headers : Headers) (chosen : Native)

theorem ofMetadata_eq :
    ofMetadata fresh body headers chosen =
      { body := body
        decoded := none
        contentType := chosen.contentType
        replyTo := chosen.replyTo.getD ""
        headers := headers
        messageId := chosen.messageId.getD fresh
        correlationId := chosen.correlationId.getD (chosen.messageId.getD fresh)
        processed := false } := by
  cases hm : chosen.messageId <;> cases hc : chosen.correlationId <;>
    cases hr : chosen.replyTo <;> simp [ofMetadata, apply, new, withContentType, withMessageId,
      withCorrelationId, withReplyTo, withHeaders, hm, hc, hr]

@[simp] theorem ofMetadata_messageId :
    (ofMetadata fresh body headers chosen).messageId = chosen.messageId.getD fresh := by
  rw [ofMetadata_eq]

@[simp] theorem ofMetadata_correlationId :
    (ofMetadata fresh body headers chosen).correlationId =
      chosen.correlationId.getD (chosen.messageId.getD fresh) := by
  rw [ofMetadata_eq]

/-- A message arrives unprocessed. -/
@[simp] theorem ofMetadata_processed :
    (ofMetadata fresh body headers chosen).processed = false := by
  rw [ofMetadata_eq]

end

end Envelope
end MessageDispatch
