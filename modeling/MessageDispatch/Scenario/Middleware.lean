import MessageDispatch.Form.Broker
import MessageDispatch.Scenario.Behaviour

/-! The filters, decoders and middlewares of a scenario. -/
namespace MessageDispatch.Scenario

/-! Filters and decoders. -/

abbrev Test := Envelope → Bool

mutual

/-- Read a test that nests at most `depth` levels. -/
def readTest : (depth : Nat) → Json → Option Test
  | 0, _ => none
  | depth + 1, v =>
    match v with
    | .bool b => some fun _ => b
    | .object [("header", .array [.string name, .string value])] =>
      some fun e => e.headers.get? name == some value
    | .object [("text", .string s)] => some fun e => e.decodedBody.text? == some s
    | .object [("json", w)] =>
      some fun e => (e.decodedBody.json?.map w.same).getD false
    | .object [("processed", .bool b)] => some fun e => e.processed == b
    | .object [("not", w)] => (readTest depth w).map fun test e => !test e
    | .object [("all", .array items)] =>
      (readTests depth items).map fun tests e => tests.all (· e)
    | .object [("any", .array items)] =>
      (readTests depth items).map fun tests e => tests.any (· e)
    | _ => none

def readTests : (depth : Nat) → List Json → Option (List Test)
  | _, [] => some []
  | depth, v :: rest => do
    let test ← readTest depth v
    let tests ← readTests depth rest
    return test :: tests

end

/-- The filter of a handler; one that is traced notes each evaluation. -/
def filter? (page handler : String) : Option Json → Option (Filter Notebook)
  | none => some Filter.notProcessed
  | some (.object [("trace", v)]) =>
    (readTest (v.depth + 1) v).map fun test e =>
      (Act.write page (.ofMembers [("filter", .string handler), ("processed", .bool e.processed),
        ("accept", .bool (test e)), ("decoded", e.decodedBody.toJson)])).bind fun _ =>
          .done (test e)
  | some v => (readTest (v.depth + 1) v).map fun test e => .done (test e)

def decoder? : Option Json → Option (Decoder Notebook)
  | none => some Decoder.byContentType
  | some (.string "text") => some fun e => .done (Decoded.readText e.body)
  | some (.string "json") => some fun e => .done (Decoded.readJson e.body)
  | some (.string "bytes") => some fun e => .done (.ok (.bytes e.body))
  | some (.object [("fail", .string reason)]) => some fun _ => .done (.error (.custom reason))
  | some (.object [("fixed", v)]) => (Decoded.ofJson? v).map fun d _ => .done (.ok d)
  | some _ => none

/-! Processing middlewares. -/

/-- The name that the behaviours of middlewares run under. -/
def middlewareName : String := "middleware"

def Handled.isOk : Handled → Bool
  | .ok _ => true
  | .error _ => false

/-- Note the way in and the way out. -/
def wrapping (name : String) : ProcessingMiddleware Notebook := fun i =>
  (Act.write i.subscription (.object [("before", .string name)])).bind fun _ =>
    .done (.forward i fun handled =>
      (Act.write i.subscription
        (.ofMembers [("after", .string name), ("ok", .bool (Handled.isOk handled))])).bind fun _ =>
          .done handled)

/-- Behave on the way in; a conclusion is the result. -/
def preceding (b : Behaviour) : ProcessingMiddleware Notebook := fun i =>
  (b.run middlewareName i).bind fun
    | some handled => .done (.answer handled)
    | none => .done (.forward i .done)

/-- Behave on the way out of a success; a conclusion replaces it. -/
def following (b : Behaviour) : ProcessingMiddleware Notebook := fun i =>
  .done (.forward i fun
    | .ok reply => (b.run middlewareName i).bind fun handled => .done (handled.getD (.ok reply))
    | .error e => .done (.error e))

/-- Behave on the way out of a failure, and have that decide. -/
def rescuing (b : Behaviour) : ProcessingMiddleware Notebook := fun i =>
  .done (.forward i fun
    | .ok reply => .done (.ok reply)
    | .error _ => (b.run middlewareName i).bind fun handled => .done (handled.getD (.ok none)))

def processing? (words : Vocabulary) (site : String) (v : Json) :
    Option (ProcessingMiddleware Notebook) :=
  match v with
  | .object [("wrap", .string name)] => some (wrapping name)
  | .object [("before", b)] => (Behaviour.ofJson? words site b).map preceding
  | .object [("after", b)] => (Behaviour.ofJson? words site b).map following
  | .object [("rescue", b)] => (Behaviour.ofJson? words site b).map rescuing
  | _ => none

/-- Read a list, each item with its place in the scenario. -/
def readEach {β : Type} (read : String → Json → Option β) (site : String) :
    Nat → List Json → Option (List β)
  | _, [] => some []
  | n, v :: rest => do
    let b ← read (Behaviour.place site (toString n)) v
    let bs ← readEach read site (n + 1) rest
    return b :: bs

/-! Telemetry middlewares. -/

/-- Does a telemetry middleware of this name keep its name with the message? -/
def isTag (name : String) : Bool := "tag".toList.isPrefixOf name.toList

def ProcessingOutcome.error? (o : ProcessingOutcome) : Option ProcessingError :=
  match o.result with
  | .ok () => none
  | .error e => some e

/-- Note the metadata on the way in and the outcome on the way out. -/
def observing (name : String) : TelemetryMiddleware Notebook := fun m => do
  Aside.write m.subscription (.ofMembers [("telemetry", .string name), ("metadata", m.toJson)])
  if isTag name then Aside.perform (.setLocal name)
  return .forward m fun outcome => do
    let item ← Aside.perform .getLocal
    let now ← Aside.perform .clock
    Aside.write m.subscription (.ofMembers [("telemetry", .string name),
      ("action", .ofOption Action.toJson outcome.action), ("requeued", .bool outcome.wasRequeued),
      ("error", .ofOption ProcessingError.toJson (ProcessingOutcome.error? outcome)),
      ("local", .text item), ("at", .natural now)])
    return outcome

/-! Publisher middlewares. -/

section
variable {P : Protocol} (F : P.Form) (clock : UInt64)

abbrev Publishes (P : Protocol) := PublisherMiddleware P.Route Notebook

def failure? : Except PublisherError Unit → Option PublisherError
  | .ok () => none
  | .error e => some e

/-- Note the way in and the way out, and keep the name for the middlewares further in. -/
def announcing (name : String) : Publishes P := fun o =>
  (Aside.write publisherPage (.ofMembers [("before", .string name),
    ("message", o.message.toJson F.route clock)])).bind fun _ =>
      .done (.forward { o with item := some name } fun p =>
        (Aside.write publisherPage (.ofMembers [("after", .string name), ("seen", .text o.item),
          ("last", .text p.item),
          ("error", .ofOption PublisherError.toJson (failure? p.result))])).bind fun _ => .done p)

/-- Change the message. -/
def changing (f : Message P.Route → Message P.Route) : Publishes P := fun o =>
  .done (.forward { o with message := f o.message } .done)

def delaying (ms : Nat) : Publishes P := fun o =>
  (Aside.perform (.sleep ms)).bind fun _ => .done (.forward o .done)

/-- Turn failures into successes. -/
def swallowing : Publishes P := fun o =>
  .done (.forward o fun p => .done { p with result := .ok () })

/-- Answer without publishing. -/
def answering (result : Except PublisherError Unit) : Publishes P := fun o =>
  .done (.answer ⟨result, o.item⟩)

def publishes? (v : Json) : Option (Publishes P) :=
  match v with
  | .object [("header", .array [.string name, .string value])] =>
    some (changing fun m => { m with payload := m.payload.withHeader name value })
  | .object [("wrap", .string name)] => some (announcing F clock name)
  | .object [("delay", ms)] => ms.natural?.map delaying
  | .object [("route", r)] => (F.route? r).map fun r => changing fun m => { m with route := r }
  | .object [("swallow", _)] => some swallowing
  | .object [("drop", _)] => some (answering (.ok ()))
  | .object [("fail", .string reason)] => some (answering (.error (.middleware reason)))
  | _ => none

end
end MessageDispatch.Scenario
