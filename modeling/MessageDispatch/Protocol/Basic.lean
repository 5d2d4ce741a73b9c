import MessageDispatch.Envelope
import MessageDispatch.Message

/-! What a broker protocol is to the dispatch engine: its bindings, routes and native messages,
how a native message becomes an envelope and an outgoing message a native one, and which
bindings a message on a route reaches. -/
namespace MessageDispatch

/-- A binding as documentation. -/
structure BindingInfo where
  protocol : String
  destination : String
  kind : Option String
  attributes : List (String × String)
deriving DecidableEq

/-- Ids that nothing else uses, for whatever a native message needs one for. -/
structure FreshIds where
  message : String
  receipt : String

/-- Why a program stops without an answer. -/
inductive Panic where
  /-- A number does not fit into its type. -/
  | overflow
deriving DecidableEq

structure Protocol where
  name : String
  /-- How many messages of a subscription are processed at once if nobody says otherwise. -/
  defaultWorkers : Option Nat
  Binding : Type
  Route : Type
  Raw : Type
  bindingEq : DecidableEq Binding
  /-- The envelope of a native message; `fresh` is its id if it brings none. -/
  parse : (fresh : String) → Raw → Envelope
  accepts : Binding → Route → Headers → Bool
  /-- The native message that a broker delivers for an outgoing one. Of a number that does not fit
  into its type it has what arithmetic that wraps leaves. -/
  build : FreshIds → Message Route → Raw
  /-- Is there a number in the native message that does not fit into its type? -/
  overflows : Message Route → Bool := fun _ => false
  routeTo : String → Route
  /-- The binding of an inbox that replies sent to this destination reach. -/
  replyBinding : String → Binding
  subscriptionName : Binding → String
  describe : Binding → BindingInfo

instance (P : Protocol) : DecidableEq P.Binding := P.bindingEq

/-- Build a native message where overflow is checked. -/
def Protocol.buildChecked (P : Protocol) (ids : FreshIds) (m : Message P.Route) :
    Except Panic P.Raw :=
  if P.overflows m then .error .overflow else .ok (P.build ids m)

theorem Protocol.buildChecked_eq_ok_iff {P : Protocol} {ids : FreshIds} {m : Message P.Route}
    {raw : P.Raw} :
    P.buildChecked ids m = .ok raw ↔ P.overflows m = false ∧ P.build ids m = raw := by
  unfold Protocol.buildChecked
  cases P.overflows m <;> simp

theorem Protocol.buildChecked_eq_error_iff {P : Protocol} {ids : FreshIds}
    {m : Message P.Route} : P.buildChecked ids m = .error .overflow ↔ P.overflows m = true := by
  unfold Protocol.buildChecked
  cases P.overflows m <;> simp

/-- The envelope of a message whose metadata travels in headers. A native id or reply address
counts where the headers have none. -/
def Envelope.ofHeaders (fresh : String) (body : ByteArray) (headers : Headers)
    (nativeId nativeReplyTo : Option String) : Envelope :=
  .ofMetadata fresh body headers
    { contentType := headers.nonEmpty? HeaderName.contentType
      messageId := orElse (headers.get? HeaderName.messageId) nativeId
      correlationId := headers.nonEmpty? HeaderName.correlationId
      replyTo := orElse (headers.get? HeaderName.replyTo) nativeReplyTo }

end MessageDispatch
