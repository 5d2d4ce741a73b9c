import MessageDispatch.Registration
import MessageDispatch.Scenario.Middleware

/-! Setting up the group of a scenario: its settings and middlewares, and the handlers to be
registered. -/
namespace MessageDispatch.Scenario

variable {P : Protocol}

abbrev HandlerSetup (P : Protocol) := Registration P Notebook

/-- The name that a handler notes its calls under. -/
def handlerName (v : Json) : String := (v.textAt? "name").getD "handler"

/-- How a handler is given. -/
inductive Style where
  | plain
  /-- Shared, so that it has no name of its own. -/
  | shared
  /-- A handler of bodies of one shape. -/
  | typed (name : String)

def Style.ofText (words : Vocabulary) (text : String) : Style :=
  if text = words.shared then .shared
  else if "typed:".toList.isPrefixOf text.toList then
    .typed (String.ofList (text.toList.drop "typed:".length))
  else .plain

/-- The name of a handler as documentation. -/
def title (words : Vocabulary) (v : Json) : Style → String
  | .shared => (v.textAt? "name").getD words.anonymous
  | _ => handlerName v

/-- A parser that puts something before the message ids. -/
def prefixing (before : String) : String → P.Raw → Envelope := fun fresh raw =>
  let e := P.parse fresh raw
  e.withMessageId (before ++ e.messageId)

def makeHandler (words : Vocabulary) (v : Json) (b : Behaviour) : Style → Option (Handler Notebook)
  | .typed shape => (words.shape? shape).map fun s => b.typedHandler s (handlerName v)
  | _ => some (b.handler (handlerName v))

def Style.shapeTitle? (words : Vocabulary) : Style → Option String
  | .typed shape => some (words.shapeTitle shape)
  | _ => none

/-- Read a handler that is at a place in the scenario. -/
def handler? (F : P.Form) (words : Vocabulary) (site : String) (v : Json) :
    Option (HandlerSetup P) := do
  let binding ← F.binding? (← v.given? "binding")
  let style := Style.ofText words (v.textAt "via")
  let name := handlerName v
  let behaviour ← Behaviour.ofJson? words (Behaviour.place site "do") ((v.given? "do").getD .null)
  let handler ← makeHandler words v behaviour style
  let filter ← filter? (P.subscriptionName binding) name (v.member? "filter")
  let decoder ← decoder? (v.member? "decoder")
  let processing ← readEach (processing? words) (Behaviour.place site "processing") 0
    (v.itemsAt "processing")
  let targets ← (v.itemsAt "publishes_to").mapM F.route?
  return { binding := binding
           retry := (v.given? "retry").bind RetryPolicy.ofJson?
           parser := (v.textAt? "parser").map prefixing
           decoder := decoder
           filter := filter
           maxWorkers := v.naturalAt? "max_workers"
           name := title words v style
           description := v.textAt? "description"
           payload := style.shapeTitle? words
           targets := targets
           processing := processing
           telemetry := (v.textsAt "telemetry").map observing
           handler := handler }

/-- The settings of a scenario; the ones that it names itself win over those of the record. -/
def settings? (v : Json) : Option DispatchSettings := do
  let s ← match v.member? "settings" with
    | none => some DispatchSettings.default
    | some s => DispatchSettings.ofJson? s
  return { s with
    defaultRetry := ((v.given? "default_retry").bind RetryPolicy.ofJson?).getD s.defaultRetry
    shortCircuit := ((v.member? "short_circuit").bind Json.bool?).getD s.shortCircuit }

def config? (F : P.Form) (words : Vocabulary) (clock : UInt64) (settings : DispatchSettings)
    (v : Json) : Option (GroupConfig P.Route Notebook) := do
  let processing ← readEach (processing? words) "processing" 0 (v.itemsAt "processing")
  let publisher ← (v.itemsAt "publisher").mapM (publishes? F clock)
  return { settings := settings
           replyInbox := v.textAt? "reply_inbox"
           processing := processing
           telemetry := (v.textsAt "telemetry").map observing
           publisherMiddlewares := publisher }

/-- What becomes of an attempt to publish, by name. -/
def fate? : String → Option Fate
  | "ok" => some .delivered
  | "publish" => some (.refused (.publish "Injected publish failure"))
  | "connection" => some (.refused (.connection "Injected connection failure"))
  | "hang" => some .lost
  | "slow" => some (.slow 1000)
  | _ => none

end MessageDispatch.Scenario
