import MessageDispatch.Form.Failure

/-! JSON forms of bodies, payloads, messages and envelopes, and of what documents a subscriber. -/
namespace MessageDispatch

def Decoded.toJson : Decoded → Json
  | .empty => .object [("empty", .bool true)]
  | .bytes b => .object [("bytes", Form.bytes b)]
  | .text s => .object [("text", .string s)]
  | .json v => .object [("json", v)]

def Decoded.ofJson? (v : Json) : Option Decoded :=
  match v.single? with
  | some ("empty", _) => some .empty
  | some ("bytes", b) => (Form.bytes? b).map .bytes
  | some ("text", s) => s.string?.map .text
  | some ("json", w) => some (.json w)
  | _ => none

def Payload.toJson (p : Payload) : Json :=
  .ofMembers [("body", Form.bytes p.body), ("content_type", .text p.contentType),
    ("headers", Form.headers p.headers)]

def Payload.withHeaders (p : Payload) (entries : List (String × String)) : Payload :=
  { p with headers := p.headers.insertAll entries }

/-- A payload written as a plain text, or by its sort of body. -/
def Payload.ofJson? : Json → Option Payload
  | .string s => some (.text s)
  | v =>
    let body : Option Payload :=
      match v.given? "text", (v.given? "json").or (v.given? "to_json"), v.given? "bytes" with
      | some s, _, _ => s.string?.map .text
      | none, some w, _ => some (.json w)
      | none, none, some b => (Form.bytes? b).map .bytes
      | none, none, none => some ⟨Form.bytesAt "body" v, v.textAt? "content_type", .empty⟩
    body.map fun p => p.withHeaders (Form.headersAt "headers" v).entries

/-- A number of seconds. -/
def Form.seconds? (name : String) (v : Json) : Option UInt64 :=
  ((v.naturalAt? name).filter (· < UInt64.size)).map UInt64.ofNat

namespace Message

variable {Route : Type}

def toJson (route : Route → Json) (clock : UInt64) (m : Message Route) : Json :=
  .ofMembers [("route", route m.route), ("payload", m.payload.toJson),
    ("reply_to", .text m.replyTo), ("correlation_id", .text m.correlationId),
    ("message_id", .text m.messageId), ("timestamp", .ofOption (Form.timestamp clock) m.timestamp)]

def ofJson? (route? : Json → Option Route) (v : Json) : Option (Message Route) := do
  let route ← route? (← v.given? "route")
  let payload ← Payload.ofJson? (← v.given? "payload")
  return { payload := payload.withHeaders (Form.headersAt "headers" v).entries
           route := route
           replyTo := v.textAt? "reply_to"
           correlationId := v.textAt? "correlation_id"
           messageId := v.textAt? "message_id"
           timestamp := Form.seconds? "timestamp" v }

end Message

/-- An envelope and how its message is settled. -/
def Envelope.toJson (settlement : Option Action) (e : Envelope) : Json :=
  .ofMembers [("body", Form.bytes e.body), ("decoded", .ofOption Decoded.toJson e.decoded),
    ("content_type", .text e.contentType), ("reply_to", .string e.replyTo),
    ("headers", Form.headers e.headers), ("message_id", .string e.messageId),
    ("correlation_id", .string e.correlationId), ("processed", .bool e.processed),
    ("settlement", .ofOption Action.toJson settlement)]

def BindingInfo.toJson (b : BindingInfo) : Json :=
  .ofMembers [("protocol", .string b.protocol), ("destination", .string b.destination),
    ("kind", .text b.kind),
    ("attributes", Form.list (fun a => .array [.string a.1, .string a.2]) b.attributes)]

def CallInfo.toJson (c : CallInfo) : Json :=
  .ofMembers [("name", .string c.name), ("description", .text c.description),
    ("payload", .text c.payload)]

def SubscriberInfo.toJson (s : SubscriberInfo) : Json :=
  .ofMembers [("name", .string s.name), ("description", .text s.description),
    ("binding", s.binding.toJson), ("calls", Form.list CallInfo.toJson s.calls)]

def Metadata.toJson (m : Metadata) : Json :=
  .ofMembers [("message_id", .string m.messageId), ("correlation_id", .string m.correlationId),
    ("reply_to", .string m.replyTo), ("content_type", .text m.contentType),
    ("headers", Form.headers m.headers)]

/-- How many workers a subscription has. -/
def Form.workers : Option Nat → Json := .ofOption .natural

end MessageDispatch
