import MessageDispatch.Protocol.Basic
import MessageDispatch.Routing.Glob

/-! Redis publish/subscribe. Its messages have no metadata, so a published message is framed as
a JSON object with the body under `data` and the headers under `headers`. Anything that is not
such a frame is a bare body. -/
namespace MessageDispatch.Redis

structure Binding where
  channel : String
  /-- Is the channel a glob pattern? -/
  pattern : Bool
deriving DecidableEq

structure Route where
  channel : String
deriving DecidableEq

structure Delivery where
  channel : String
  pattern : Option String
  data : ByteArray

structure Frame where
  data : String
  headers : Headers

namespace Frame

def toJson (f : Frame) : Json :=
  .object [("data", .string f.data),
    ("headers", .object (f.headers.entries.map fun e => (e.1, .string e.2)))]

def encode (f : Frame) : ByteArray :=
  f.toJson.render.toUTF8

def data? : Document → Option String
  | .string s => s
  | _ => none

def header? : Option String × Document → Option (String × String)
  | (some name, .string (some value)) => some (name, value)
  | _ => none

def headers? : Document → Option Headers
  | .object members => (members.mapM header?).map .ofList
  | _ => none

def join? (data : Document) (headers : Option Document) : Option Frame :=
  match data? data, headers with
  | some data, none => some ⟨data, .empty⟩
  | some data, some h => (headers? h).map fun h => ⟨data, h⟩
  | none, _ => none

/-- A frame is an object with a text `data` and perhaps `headers` of texts, neither of them
twice, or an array of the two. -/
def ofDocument? : Document → Option Frame
  | .object members =>
    if members.any (fun m => m.1.isNone) then none
    else
      match members.filter (fun m => m.1 == some "data"),
        members.filter (fun m => m.1 == some "headers") with
      | [(_, data)], [] => join? data none
      | [(_, data)], [(_, headers)] => join? data (some headers)
      | _, _ => none
  | .array [data] => join? data none
  | .array [data, headers] => join? data (some headers)
  | _ => none

def decode? (bytes : ByteArray) : Option Frame :=
  (Document.parseBytes? bytes).bind ofDocument?

end Frame

def parse (fresh : String) (d : Delivery) : Envelope :=
  match Frame.decode? d.data with
  | some f => .ofHeaders fresh f.data.toUTF8 f.headers none none
  | none => .new fresh d.data

def accepts (b : Binding) (r : Route) (_ : Headers) : Bool :=
  if b.pattern then Glob.accepts b.channel r.channel else b.channel == r.channel

/-- The frame of a message. A body that is not text is framed as well as text can hold it. -/
def frame (m : Message Route) : Frame :=
  ⟨Text.lossy m.payload.body, m.outgoingHeaders⟩

def build (_ : FreshIds) (m : Message Route) : Delivery :=
  ⟨m.route.channel, none, (frame m).encode⟩

def describe (b : Binding) : BindingInfo :=
  ⟨"redis", b.channel, some (if b.pattern then "pattern" else "channel"), []⟩

def protocol : Protocol where
  name := "redis"
  defaultWorkers := none
  Binding := Binding
  Route := Route
  Raw := Delivery
  bindingEq := inferInstance
  parse := parse
  accepts := accepts
  build := build
  routeTo := Route.mk
  replyBinding := fun inbox => ⟨inbox, false⟩
  subscriptionName := Binding.channel
  describe := describe

end MessageDispatch.Redis
