import MessageDispatch.Protocol.Basic

/-! NATS. Subjects match exactly: wildcards are a matter between client and server. -/
namespace MessageDispatch.Nats

structure Binding where
  subject : String
  queueGroup : Option String
deriving DecidableEq

structure Route where
  subject : String
deriving DecidableEq

structure Delivery where
  subject : String
  reply : Option String
  headers : Headers
  body : ByteArray

/-- The header a publisher sets to have the server drop duplicates. -/
def idHeader : String := "Nats-Msg-Id"

def parse (fresh : String) (d : Delivery) : Envelope :=
  .ofHeaders fresh d.body d.headers (d.headers.nonEmpty? idHeader) d.reply

def accepts (b : Binding) (r : Route) (_ : Headers) : Bool :=
  b.subject == r.subject

def build (_ : FreshIds) (m : Message Route) : Delivery :=
  ⟨m.route.subject, m.replyTo, m.outgoingHeaders, m.payload.body⟩

def subscriptionName (b : Binding) : String :=
  match b.queueGroup with
  | some group => b.subject ++ ":" ++ group
  | none => b.subject

def describe (b : Binding) : BindingInfo :=
  ⟨"nats", b.subject, none, b.queueGroup.toList.map (("queue_group", ·))⟩

def protocol : Protocol where
  name := "nats"
  defaultWorkers := none
  Binding := Binding
  Route := Route
  Raw := Delivery
  bindingEq := inferInstance
  parse := parse
  accepts := accepts
  build := build
  routeTo := Route.mk
  replyBinding := fun inbox => ⟨inbox, none⟩
  subscriptionName := subscriptionName
  describe := describe

end MessageDispatch.Nats
