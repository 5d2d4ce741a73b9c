import MessageDispatch.Protocol.Basic

/-! Amazon SQS. Metadata travels as message attributes; the id that the queue assigned wins over
one among the attributes. -/
namespace MessageDispatch.Sqs

structure Binding where
  queue : String
deriving DecidableEq

structure Route where
  queue : String
  group : Option String
deriving DecidableEq

structure Delivery where
  messageId : String
  receiptHandle : String
  queue : String
  body : ByteArray
  attributes : Headers

def parse (fresh : String) (d : Delivery) : Envelope :=
  let e := Envelope.ofHeaders fresh d.body d.attributes none none
  if d.messageId = "" then e else e.withMessageId d.messageId

def accepts (b : Binding) (r : Route) (_ : Headers) : Bool :=
  b.queue == r.queue

def build (fresh : FreshIds) (m : Message Route) : Delivery :=
  { messageId := (m.messageId.filter (· ≠ "")).getD fresh.message
    receiptHandle := fresh.receipt
    queue := m.route.queue
    body := m.payload.body
    attributes := m.outgoingHeaders }

def describe (b : Binding) : BindingInfo :=
  ⟨"sqs", b.queue, none, []⟩

def protocol : Protocol where
  name := "sqs"
  defaultWorkers := some 1
  Binding := Binding
  Route := Route
  Raw := Delivery
  bindingEq := inferInstance
  parse := parse
  accepts := accepts
  build := build
  routeTo := fun queue => ⟨queue, none⟩
  replyBinding := Binding.mk
  subscriptionName := Binding.queue
  describe := describe

end MessageDispatch.Sqs
