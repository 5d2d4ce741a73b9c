import MessageDispatch.Engine

/-! Registering handlers. The first handler on a binding creates its subscriber and decides the
settings that its calls share; later handlers join it, and cannot ask for another retry policy. -/
namespace MessageDispatch

/-- What a group is set up with. -/
structure GroupConfig (ρ κ : Type) where
  settings : DispatchSettings
  /-- Where replies to requests go; a fresh destination if it is not given. -/
  replyInbox : Option String
  processing : List (ProcessingMiddleware κ)
  telemetry : List (TelemetryMiddleware κ)
  publisherMiddlewares : List (PublisherMiddleware ρ κ)

def GroupConfig.publisher {ρ κ : Type} (c : GroupConfig ρ κ) : Publisher ρ κ :=
  ⟨c.publisherMiddlewares, c.settings.publishTimeoutMs⟩

/-- A handler to be registered. -/
structure Registration (P : Protocol) (κ : Type) where
  binding : P.Binding
  retry : Option RetryPolicy
  parser : Option (String → P.Raw → Envelope)
  decoder : Decoder κ
  filter : Filter κ
  maxWorkers : Option Nat
  name : String
  description : Option String
  /-- The type a body is extracted into, if the handler asks for one. -/
  payload : Option String
  targets : List P.Route
  processing : List (ProcessingMiddleware κ)
  telemetry : List (TelemetryMiddleware κ)
  handler : Handler κ

inductive RegistrationError where
  | conflictingRetry (subscription : String) (existing requested : RetryPolicy)
deriving DecidableEq

def RegistrationError.message : RegistrationError → String
  | .conflictingRetry subscription existing requested =>
    s!"`{subscription}` already consumes with retry policy " ++ existing.text ++
      ", a new call cannot ask for " ++ requested.text

namespace Registration

variable {P : Protocol} {κ : Type}

/-- The call of a registration; the group's middlewares come before its own. -/
def call (config : GroupConfig P.Route κ) (r : Registration P κ) : Call P.Route κ :=
  { body := .handler (config.processing ++ r.processing) r.handler
    filter := r.filter
    decoder := r.decoder
    targets := r.targets
    info := ⟨r.name, r.description, r.payload⟩ }

/-- The subscriber that a registration creates if its binding has none, without calls. -/
def subscriber (config : GroupConfig P.Route κ) (r : Registration P κ) : Subscriber P κ :=
  let retry := r.retry.getD config.settings.defaultRetry
  { binding := r.binding
    description := r.description
    parse := r.parser.getD P.parse
    retry := retry
    telemetry := config.telemetry ++ r.telemetry
    shortCircuit := config.settings.shortCircuit
    maxWorkers := r.maxWorkers.or (config.settings.maxWorkers.or P.defaultWorkers)
    watcher := .ofPolicy retry
    calls := []
    records := []
    closed := false }

/-- Does a registration ask for a policy other than this one? -/
def conflicts (r : Registration P κ) (existing : RetryPolicy) : Option RetryPolicy :=
  r.retry.filter (· ≠ existing)

def ignoredLine : LogLine :=
  ⟨.warn, "The subscription already exists: the telemetry middlewares and the parser of the new " ++
    "handler are ignored"⟩

/-- What is logged when a registration joins a subscriber. -/
def remarks (r : Registration P κ) : List LogLine :=
  if !r.telemetry.isEmpty || r.parser.isSome then [ignoredLine] else []

end Registration

/-- Where a call was registered. -/
structure CallHandle where
  subscriber : Nat
  call : Nat

namespace Engine

variable {P : Protocol} {κ : Type}

/-- The subscriber of a binding. -/
def find? (e : Engine P κ) (b : P.Binding) : Option Nat :=
  e.subscribers.findIdx? (fun s => decide (s.binding = b))

/-- Register a handler. A registration that fails changes nothing. -/
def register (config : GroupConfig P.Route κ) (recording : Bool) (r : Registration P κ)
    (e : Engine P κ) : Except RegistrationError (CallHandle × Engine P κ) :=
  match e.find? r.binding with
  | some i =>
    match e.subscribers[i]? with
    | some s =>
      match r.conflicts s.retry with
      | some requested => .error (.conflictingRetry s.name s.retry requested)
      | none =>
        .ok (⟨i, s.calls.length⟩,
          { e.log r.remarks with
            subscribers := e.subscribers.modify i (·.addCall recording (r.call config)) })
    | none => .ok (⟨i, 0⟩, e)
  | none =>
    .ok (⟨e.subscribers.length, 0⟩,
      { e with
        subscribers := e.subscribers ++
          [(r.subscriber config).addCall recording (r.call config)] })

/-- Register handlers in turn, stopping at the first that fails. -/
def registerAll (config : GroupConfig P.Route κ) (recording : Bool) :
    List (Registration P κ) → Engine P κ →
      Except RegistrationError Unit × List CallHandle × Engine P κ
  | [], e => (.ok (), [], e)
  | r :: rest, e =>
    match e.register config recording r with
    | .error err => (.error err, [], e)
    | .ok (handle, e) =>
      let (result, handles, e) := registerAll config recording rest e
      (result, handle :: handles, e)

end Engine
end MessageDispatch
