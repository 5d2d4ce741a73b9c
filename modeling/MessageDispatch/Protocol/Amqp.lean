import MessageDispatch.Protocol.Amqp.FieldTable
import MessageDispatch.Protocol.Basic
import MessageDispatch.Routing.HeaderMatch
import MessageDispatch.Routing.Topic

/-! AMQP 0-9-1. A message goes to the default exchange, which delivers it to the queue named by
its routing key, or to a named exchange, whose kind says how bindings are chosen. -/
namespace MessageDispatch.Amqp

inductive ExchangeKind where
  | direct
  | topic
  | fanout
  | headers
deriving DecidableEq

def ExchangeKind.name : ExchangeKind → String
  | .direct => "direct"
  | .topic => "topic"
  | .fanout => "fanout"
  | .headers => "headers"

structure Exchange where
  name : String
  kind : ExchangeKind
  durable : Bool
deriving DecidableEq

structure Binding where
  queue : String
  exchange : Option Exchange
  routingKey : Option String
  arguments : Headers
  durable : Bool
  autoDelete : Bool
  deadLetter : Bool
deriving DecidableEq

structure Route where
  exchange : String
  routingKey : String
deriving DecidableEq

structure Properties where
  contentType : Option String
  messageId : Option String
  correlationId : Option String
  replyTo : Option String
  timestamp : Option UInt64
  headers : Option FieldTable
  deliveryMode : Option Nat

structure Delivery where
  deliveryTag : Nat
  exchange : String
  routingKey : String
  redelivered : Bool
  properties : Properties
  body : ByteArray

def Binding.ofQueue (queue : String) : Binding :=
  ⟨queue, none, none, .empty, true, false, false⟩

/-- A queue that lives as long as someone consumes from it. -/
def Binding.transient (b : Binding) : Binding :=
  { b with durable := false, autoDelete := true }

/-- The key a queue is bound with, its own name unless there is another. -/
def Binding.key (b : Binding) : String :=
  b.routingKey.getD b.queue

def Route.toQueue (queue : String) : Route := ⟨"", queue⟩

namespace Properties

def empty : Properties := ⟨none, none, none, none, none, none, none⟩

def header? (p : Properties) (name : String) : Option FieldValue :=
  p.headers.bind (·.get? name)

def setHeader (p : Properties) (name : String) (value : FieldValue) : Properties :=
  { p with headers := some ((p.headers.getD .empty).insert name value) }

end Properties

/-- The delivery mode of a message that outlives a restart of the broker. -/
def persistent : Nat := 2

/-- Metadata comes from the properties, and from the headers where those have none. -/
def parse (fresh : String) (d : Delivery) : Envelope :=
  let p := d.properties
  let headers := (p.headers.map FieldTable.headers).getD .empty
  .ofMetadata fresh d.body headers
    { contentType := Envelope.orElse p.contentType (headers.get? HeaderName.contentType)
      messageId := Envelope.orElse p.messageId (headers.get? HeaderName.messageId)
      correlationId := Envelope.orElse p.correlationId (headers.get? HeaderName.correlationId)
      replyTo := Envelope.orElse p.replyTo (headers.get? HeaderName.replyTo) }

def acceptsFrom (exchange : Exchange) (b : Binding) (r : Route) (headers : Headers) : Bool :=
  exchange.name == r.exchange &&
    match exchange.kind with
    | .direct => b.key == r.routingKey
    | .topic => Topic.accepts b.key r.routingKey
    | .fanout => true
    | .headers => HeaderMatch.accepts b.arguments headers

def accepts (b : Binding) (r : Route) (headers : Headers) : Bool :=
  match b.exchange.filter (·.name ≠ "") with
  | some exchange => acceptsFrom exchange b r headers
  | none => r.exchange == "" && b.queue == r.routingKey

def properties (m : Message Route) : Properties :=
  { contentType := m.payload.contentType
    messageId := m.messageId
    correlationId := m.correlationId
    replyTo := m.replyTo
    timestamp := m.timestamp
    headers := some (.ofHeaders m.payload.headers)
    deliveryMode := some persistent }

def build (_ : FreshIds) (m : Message Route) : Delivery :=
  { deliveryTag := 0
    exchange := m.route.exchange
    routingKey := m.route.routingKey
    redelivered := false
    properties := properties m
    body := m.payload.body }

def attributes (b : Binding) (exchange : Exchange) : List (String × String) :=
  ("exchange", exchange.name) ::
    match exchange.kind with
    | .direct | .topic => [("routing_key", b.key)]
    | .headers => b.arguments.entries
    | .fanout => []

def describe (b : Binding) : BindingInfo :=
  { protocol := "amqp"
    destination := b.queue
    kind := b.exchange.map (·.kind.name)
    attributes := (b.exchange.map (attributes b)).getD [] }

def protocol : Protocol where
  name := "amqp"
  defaultWorkers := none
  Binding := Binding
  Route := Route
  Raw := Delivery
  bindingEq := inferInstance
  parse := parse
  accepts := accepts
  build := build
  routeTo := Route.toQueue
  replyBinding := fun inbox => (Binding.ofQueue inbox).transient
  subscriptionName := Binding.queue
  describe := describe

end MessageDispatch.Amqp
