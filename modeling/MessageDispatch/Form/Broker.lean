import MessageDispatch.Form.Message
import MessageDispatch.Protocol

/-! JSON forms of bindings, routes and native messages, protocol by protocol. A binding or a
route that says no more than a name may be written as just that name. -/
namespace MessageDispatch

structure Protocol.Form (P : Protocol) where
  binding : P.Binding → Json
  binding? : Json → Option P.Binding
  route : P.Route → Json
  route? : Json → Option P.Route
  /-- A native message, as seen at a time. -/
  raw : UInt64 → P.Raw → Json
  raw? : Json → Option P.Raw

/-- A name by itself, or under `key`. -/
def Form.named? (key : String) : Json → Option String
  | .string s => some s
  | v => v.textAt? key

def Form.int32? (v : Json) : Option Int32 :=
  (v.integer?.filter fun n => decide (-0x80000000 ≤ n ∧ n < 0x80000000)).map Int32.ofInt

def Form.int64? (v : Json) : Option Int64 :=
  (v.integer?.filter fun n => decide (-0x8000000000000000 ≤ n ∧ n < 0x8000000000000000)).map
    Int64.ofInt

/-- A pair is an array of two. -/
def Form.pair? : Json → Option (Json × Json)
  | .array [a, b] => some (a, b)
  | _ => none

def Form.pair (name : String) (v : Json) : Json := .array [.string name, v]

namespace Amqp

def ExchangeKind.named? (name : String) : Option ExchangeKind :=
  [ExchangeKind.direct, .topic, .fanout, .headers].find? (·.name == name)

def Exchange.toJson (e : Exchange) : Json :=
  .ofMembers [("name", .string e.name), ("kind", .string e.kind.name), ("durable", .bool e.durable)]

def Exchange.ofJson? (v : Json) : Option Exchange :=
  (ExchangeKind.named? (v.textAt "kind")).map fun kind =>
    ⟨v.textAt "name", kind, !v.flagAt "transient"⟩

def Binding.toJson (b : Binding) : Json :=
  .ofMembers [("queue", .string b.queue), ("exchange", .ofOption Exchange.toJson b.exchange),
    ("routing_key", .text b.routingKey), ("bind_arguments", Form.headers b.arguments),
    ("durable", .bool b.durable), ("auto_delete", .bool b.autoDelete),
    ("dead_letter", .bool b.deadLetter)]

def Binding.ofJson? : Json → Option Binding
  | .string queue => some (ofQueue queue)
  | v => do
    let exchange ← match v.member? "exchange" with
      | none => some none
      | some e => (Exchange.ofJson? e).map some
    let b : Binding :=
      { ofQueue (v.textAt "queue") with
        exchange := exchange
        routingKey := v.textAt? "routing_key"
        arguments := Form.headersAt "bind_arguments" v
        deadLetter := v.flagAt "dead_letter" }
    return if v.flagAt "transient" then b.transient else b

def Route.toJson (r : Route) : Json :=
  .ofMembers [("exchange", .string r.exchange), ("routing_key", .string r.routingKey)]

def Route.ofJson? (v : Json) : Option Route :=
  match Form.named? "queue" v with
  | some queue => some (.toQueue queue)
  | none => some ⟨v.textAt "exchange", v.textAt "routing_key"⟩

def IntegerType.names : List (String × IntegerType) :=
  [("i8", .i8), ("u8", .u8), ("i16", .i16), ("u16", .u16), ("i32", .i32), ("u32", .u32),
    ("i64", .i64)]

def OpaqueType.names : List (String × OpaqueType) :=
  [("f32", .f32), ("f64", .f64), ("decimal", .decimal), ("bytes", .bytes), ("array", .array),
    ("table", .table), ("void", .void)]

/-- The name that a table gives to a value. -/
def nameIn {α : Type} [DecidableEq α] (a : α) (names : List (String × α)) : String :=
  ((names.find? (·.2 = a)).map (·.1)).getD ""

def FieldValue.toJson : FieldValue → Json
  | .bool b => .ofMembers [("t", .string "bool"), ("v", .bool b)]
  | .integer type n =>
    .ofMembers [("t", .string (nameIn type IntegerType.names)), ("v", .integer n)]
  | .timestamp t => .ofMembers [("t", .string "timestamp"), ("v", .natural t.toNat)]
  | .short s => .ofMembers [("t", .string "short"), ("v", .string s)]
  | .long b => .ofMembers [("t", .string "long"), ("v", Form.bytes b)]
  | .other type => .ofMembers [("t", .string (nameIn type OpaqueType.names))]

def FieldValue.ofJson? (v : Json) : Option FieldValue :=
  match v.textAt "t" with
  | "bool" => some (.bool (v.flagAt "v"))
  | "timestamp" => (Form.seconds? "v" v).map .timestamp
  | "short" => some (.short (v.textAt "v"))
  | "long" => some (.long (Form.bytesAt "v" v))
  | name =>
    match IntegerType.names.lookup name with
    | some type => ((v.member? "v").bind Json.integer?).map (.integer type)
    | none => (OpaqueType.names.lookup name).map .other

def FieldTable.toJson (t : FieldTable) : Json :=
  Form.list (fun e => Form.pair e.1 e.2.toJson) t.entries

def FieldTable.field? (v : Json) : Option (String × FieldValue) := do
  let (name, value) ← Form.pair? v
  return (← name.string?, ← FieldValue.ofJson? value)

def Properties.toJson (clock : UInt64) (p : Properties) : Json :=
  .ofMembers [("content_type", .text p.contentType), ("message_id", .text p.messageId),
    ("correlation_id", .text p.correlationId), ("reply_to", .text p.replyTo),
    ("timestamp", .ofOption (Form.timestamp clock) p.timestamp),
    ("headers", .ofOption FieldTable.toJson p.headers),
    ("delivery_mode", .ofOption .natural p.deliveryMode)]

def Properties.ofJson? (v : Json) : Option Properties := do
  let headers ← match (v.member? "headers").bind Json.array? with
    | none => some none
    | some items => (items.mapM FieldTable.field?).map fun fields => some (FieldTable.ofList fields)
  return { contentType := v.textAt? "content_type"
           messageId := v.textAt? "message_id"
           correlationId := v.textAt? "correlation_id"
           replyTo := v.textAt? "reply_to"
           timestamp := Form.seconds? "timestamp" v
           headers := headers
           deliveryMode := none }

def Delivery.toJson (clock : UInt64) (d : Delivery) : Json :=
  .ofMembers [("delivery_tag", .natural d.deliveryTag), ("exchange", .string d.exchange),
    ("routing_key", .string d.routingKey), ("redelivered", .bool d.redelivered),
    ("properties", d.properties.toJson clock), ("body", Form.bytes d.body)]

def Delivery.ofJson? (v : Json) : Option Delivery := do
  let properties ← Properties.ofJson? ((v.member? "properties").getD .null)
  return { deliveryTag := (v.naturalAt? "delivery_tag").getD 0
           exchange := v.textAt "exchange"
           routingKey := v.textAt "routing_key"
           redelivered := v.flagAt "redelivered"
           properties := properties
           body := Form.bytesAt "body" v }

def form : Protocol.Form protocol :=
  ⟨Binding.toJson, Binding.ofJson?, Route.toJson, Route.ofJson?, Delivery.toJson,
    Delivery.ofJson?⟩

end Amqp

namespace Kafka

def Binding.toJson (b : Binding) : Json :=
  .ofMembers [("topics", Form.list .string b.topics), ("group_id", .text b.groupId)]

def Binding.ofJson? : Json → Option Binding
  | .string topic => some (.topic topic)
  | v => some ⟨v.textsAt "topics", v.textAt? "group_id"⟩

def Route.toJson (r : Route) : Json :=
  .ofMembers [("topic", .string r.topic), ("key", .ofOption Form.bytes r.key),
    ("partition", .ofOption (fun p => .integer p.toInt) r.partition)]

def Route.ofJson? : Json → Option Route
  | .string topic => some (.topicOnly topic)
  | v => some ⟨v.textAt "topic", Form.bytesAt? "key" v, (v.member? "partition").bind Form.int32?⟩

def Record.toJson (clock : UInt64) (r : Record) : Json :=
  .ofMembers [("topic", .string r.topic), ("partition", .integer r.partition.toInt),
    ("offset", .integer r.offset.toInt), ("key", .ofOption Form.bytes r.key),
    ("timestamp_ms", .ofOption (fun t => Form.time clock 1000 t.toInt) r.timestampMs),
    ("headers", Form.list (fun h => Form.pair h.1 (Form.bytes h.2)) r.headers),
    ("body", Form.bytes r.body)]

def Record.header? (v : Json) : Option (String × ByteArray) := do
  let (name, value) ← Form.pair? v
  return (← name.string?, ← Form.bytes? value)

def Record.ofJson? (v : Json) : Option Record := do
  let headers ← (v.itemsAt "headers").mapM Record.header?
  return { topic := v.textAt "topic"
           partition := ((v.member? "partition").bind Form.int32?).getD 0
           offset := ((v.member? "offset").bind Form.int64?).getD 0
           key := Form.bytesAt? "key" v
           timestampMs := (v.member? "timestamp_ms").bind Form.int64?
           headers := headers
           body := Form.bytesAt "body" v }

def form : Protocol.Form protocol :=
  ⟨Binding.toJson, Binding.ofJson?, Route.toJson, Route.ofJson?, Record.toJson, Record.ofJson?⟩

end Kafka

namespace Nats

def Binding.toJson (b : Binding) : Json :=
  .ofMembers [("subject", .string b.subject), ("queue_group", .text b.queueGroup)]

def Binding.ofJson? (v : Json) : Option Binding :=
  (Form.named? "subject" v).map fun subject => ⟨subject, v.textAt? "queue_group"⟩

def Delivery.toJson (d : Delivery) : Json :=
  .ofMembers [("subject", .string d.subject), ("reply", .text d.reply),
    ("headers", Form.headers d.headers), ("body", Form.bytes d.body)]

def Delivery.ofJson? (v : Json) : Option Delivery :=
  some ⟨v.textAt "subject", v.textAt? "reply", Form.headersAt "headers" v, Form.bytesAt "body" v⟩

def form : Protocol.Form protocol :=
  ⟨Binding.toJson, Binding.ofJson?, fun r => .string r.subject,
    fun v => (Form.named? "subject" v).map Route.mk, fun _ => Delivery.toJson, Delivery.ofJson?⟩

end Nats

namespace Redis

def Binding.toJson (b : Binding) : Json :=
  .ofMembers [("channel", .string b.channel), ("pattern", .bool b.pattern)]

def Binding.ofJson? (v : Json) : Option Binding :=
  match v.textAt? "pattern" with
  | some pattern => some ⟨pattern, true⟩
  | none => (Form.named? "channel" v).map fun channel => ⟨channel, false⟩

/-- A framed message: the frame as JSON, its length in bytes, and its text if the frame has no
more than one header. -/
def Delivery.frame (data : ByteArray) : Json :=
  let text := Text.lossy data
  let f := Frame.decode? data
  let single : Bool := (f.map fun f => decide (f.headers.entries.length ≤ 1)).getD true
  .ofMembers ([("parsed", .ofOption Frame.toJson f), ("length", .natural data.size)] ++
    if single then [("verbatim", .string text)] else [])

def Delivery.toJson (d : Delivery) : Json :=
  .ofMembers [("channel", .string d.channel), ("pattern", .text d.pattern),
    ("frame", Delivery.frame d.data)]

def Delivery.ofJson? (v : Json) : Option Delivery :=
  some ⟨v.textAt "channel", v.textAt? "pattern", Form.bytesAt "data" v⟩

def form : Protocol.Form protocol :=
  ⟨Binding.toJson, Binding.ofJson?, fun r => .string r.channel,
    fun v => (Form.named? "channel" v).map Route.mk, fun _ => Delivery.toJson, Delivery.ofJson?⟩

end Redis

namespace Sqs

def Binding.toJson (b : Binding) : Json := .object [("queue", .string b.queue)]

def Route.toJson (r : Route) : Json :=
  .ofMembers [("queue", .string r.queue), ("group", .text r.group)]

def Delivery.toJson (d : Delivery) : Json :=
  .ofMembers [("message_id", .string d.messageId), ("receipt_handle", .string d.receiptHandle),
    ("queue", .string d.queue), ("body", Form.bytes d.body),
    ("attributes", Form.headers d.attributes)]

def Delivery.ofJson? (v : Json) : Option Delivery :=
  some ⟨v.textAt "message_id", v.textAt "receipt_handle", v.textAt "queue",
    Form.bytesAt "body" v, Form.headersAt "attributes" v⟩

def form : Protocol.Form protocol :=
  ⟨Binding.toJson, fun v => (Form.named? "queue" v).map Binding.mk, Route.toJson,
    fun v => (Form.named? "queue" v).map fun queue => ⟨queue, v.textAt? "group"⟩,
    fun _ => Delivery.toJson, Delivery.ofJson?⟩

end Sqs

def Broker.named? : String → Option Broker
  | "amqp" => some .amqp
  | "kafka" => some .kafka
  | "nats" => some .nats
  | "redis" => some .redis
  | "sqs" => some .sqs
  | _ => none

def Broker.form : (b : Broker) → b.protocol.Form
  | .amqp => Amqp.form
  | .kafka => Kafka.form
  | .nats => Nats.form
  | .redis => Redis.form
  | .sqs => Sqs.form

end MessageDispatch
