import MessageDispatch.Attempt
import MessageDispatch.Call
import MessageDispatch.Publisher

/-! Processing a message: it is offered to the calls of its subscription one after another,
settled as the result asks, and its reply is sent on if it was acked. Telemetry middlewares run
around all of that. -/
namespace MessageDispatch

/-- Operations of the engine while it processes a message. -/
inductive Processing.Op (ρ κ : Type) where
  | publishing (op : Publishing.Op ρ κ)
  /-- Settle the message by hand. -/
  | settle (action : Action)
  | settlement
  | log (line : LogLine)
  /-- The calls registered so far. -/
  | calls
  | recordBody (call : Nat) (body : Decoded)
  | recordForwarded (call target : Nat) (payload : Payload)
  /-- Close the subscriber. -/
  | close
  | enter (id : String)
  | exit (id : String) (outcome : Outcome)
  /-- Hand a reply to the request that waits for it. -/
  | resolve (id : String) (reply : Decoded)

def Processing.Answer {ρ κ : Type} : Processing.Op ρ κ → Type
  | .publishing op => Publishing.Answer op
  | .settle _ => Except AckError Unit
  | .settlement => Option Action
  | .log _ => Unit
  | .calls => List (Call ρ κ)
  | .recordBody .. => Unit
  | .recordForwarded .. => Unit
  | .close => Unit
  | .enter _ => Unit
  | .exit .. => Except AckError (Option Action)
  | .resolve .. => Bool

def Processing (ρ κ : Type) : Signature := ⟨Processing.Op ρ κ, Processing.Answer⟩

/-- What the call that accepted a message produced. -/
structure Consumed (ρ : Type) where
  reply : Reply
  /-- Which of the calls it was. -/
  call : Nat
  targets : List ρ

/-- Why processing a message failed. -/
inductive ProcessingError where
  | handler (e : HandlerError)
  | ack (e : AckError)
deriving DecidableEq, Inhabited

def ProcessingError.message : ProcessingError → String
  | .handler _ => "An error was encountered while processing the message"
  | .ack e => e.message

/-- What telemetry learns about a processed message. -/
structure ProcessingOutcome where
  result : Except ProcessingError Unit
  /-- The instruction that the broker was given, or refused. -/
  action : Option Action

def ProcessingOutcome.wasRequeued (o : ProcessingOutcome) : Bool :=
  o.action == some .nack

/-- What telemetry is told about a message. -/
structure Metadata where
  subscription : String
  messageId : String
  correlationId : String
  replyTo : String
  contentType : Option String
  headers : Headers

def Metadata.ofEnvelope (subscription : String) (e : Envelope) : Metadata :=
  ⟨subscription, e.messageId, e.correlationId, e.replyTo, e.contentType, e.headers⟩

abbrev TelemetryMiddleware (κ : Type) := Middleware (Ambient κ) Metadata ProcessingOutcome

namespace Processing

variable {ρ κ : Type}

def ofPublishing (op : Publishing.Op ρ κ) : Program (Processing ρ κ) (Publishing.Answer op) :=
  .call (.publishing op) .done

def ofAmbient (op : Ambient.Op κ) : Program (Processing ρ κ) (Ambient.Answer op) :=
  .call (.publishing (.ambient op)) .done

def ofHandling : (op : Handling.Op κ) → Program (Processing ρ κ) (Handling.Answer op)
  | .ambient op => ofAmbient op
  | .settle action => .call (.settle action) .done
  | .settlement => .call .settlement .done

/-- One operation. -/
def perform (op : Processing.Op ρ κ) : Program (Processing ρ κ) (Processing.Answer op) :=
  .call op .done

def log (level : LogLevel) (text : String) : Program (Processing ρ κ) Unit :=
  perform (.log ⟨level, text⟩)

/-- What a call makes of a message that it accepted. -/
def runCall (body : CallBody κ) (incoming : Incoming) : Program (Processing ρ κ) Handled :=
  match body with
  | .handler middlewares h => Program.expand ofHandling (h.within middlewares incoming)
  | .replies =>
    .call (.resolve incoming.envelope.correlationId incoming.decoded) fun _ => .done (.ok none)

/-- A message and what consuming it came to: what a call produced, if one accepted it. -/
abbrev ConsumeResult (ρ : Type) := Envelope × Except HandlerError (Option (Consumed ρ))

/-- Offer a message to the calls from number `i` on. `consumed` is what an earlier call
produced; a further call that accepts the message makes its routing ambiguous. -/
def offer (subscription : String) (shortCircuit : Bool) :
    List (Call ρ κ) → Nat → Envelope → Option (Consumed ρ) →
      Program (Processing ρ κ) (ConsumeResult ρ)
  | [], _, e, consumed => .done (e, .ok consumed)
  | call :: calls, i, e, consumed => do
    match ← Program.expand ofHandling (call.decoder e) with
    | .error d => return (e, .error (.ofDecode d))
    | .ok body =>
      let e := e.withDecoded body
      if !(← Program.expand ofHandling (call.filter e)) then
        offer subscription shortCircuit calls (i + 1) e consumed
      else if consumed.isSome then
        return (e, .error (.ambiguous subscription e.messageId))
      else
        perform (.recordBody i body)
        match ← runCall call.body ⟨e, subscription⟩ with
        | .ok reply =>
          let e := e.markProcessed
          let consumed := some ⟨reply, i, call.targets⟩
          if shortCircuit then return (e, .ok consumed)
          else offer subscription shortCircuit calls (i + 1) e consumed
        | .error (.interrupt .stopConsuming) =>
          log .info "A handler asked to stop consuming, closing the subscriber"
          perform .close
          return (e, .ok none)
        | .error err => return (e, .error err)

/-- Offer a message to all calls. -/
def consume (subscription : String) (shortCircuit : Bool) (e : Envelope) :
    Program (Processing ρ κ) (ConsumeResult ρ) :=
  .call .calls fun calls => offer subscription shortCircuit calls 0 e none

/-- Send a reply on to the targets of a call, from number `i` on. -/
def forward (publisher : Publisher ρ κ) (correlationId : String) (payload : Payload)
    (call : Nat) : List ρ → Nat → Program (Processing ρ κ) Unit
  | [], _ => .done ()
  | target :: targets, i => do
    perform (.recordForwarded call i payload)
    let message := (Message.new target payload).withCorrelationId correlationId
    match ← Program.expand ofPublishing (publisher.publish message) with
    | .ok () => pure ()
    | .error _ => log .error "Failed to forward the reply to a chained publisher"
    forward publisher correlationId payload call targets (i + 1)

/-- Send a reply to whoever asked for it and to the targets of the call. The message has been
acked, so that failing to do so is only logged. -/
def propagate (publisher : Publisher ρ κ) (routeTo : String → ρ) (e : Envelope)
    (consumed : Consumed ρ) : Program (Processing ρ κ) Unit :=
  match consumed.reply with
  | none => .done ()
  | some payload => do
    if e.replyTo ≠ "" then
      let reply := (Message.new (routeTo e.replyTo) payload).withCorrelationId e.correlationId
      match ← Program.expand ofPublishing (publisher.publish reply) with
      | .ok () => pure ()
      | .error _ => log .error "Failed to publish the reply"
    forward publisher e.correlationId payload consumed.call consumed.targets 0

/-- Consume a message, settle it, and send its reply on. -/
def execute (publisher : Publisher ρ κ) (routeTo : String → ρ) (subscription : String)
    (shortCircuit : Bool) (e : Envelope) : Program (Processing ρ κ) ProcessingOutcome := do
  perform (.enter e.messageId)
  let (e, result) ← consume subscription shortCircuit e
  match ← perform (.exit e.messageId (.ofResult result)) with
  | .error err =>
    log .error "Failed to settle the message with the broker"
    return ⟨.error (.ack err), some err.action⟩
  | .ok action =>
    match result with
    | .ok consumed =>
      match action, consumed with
      | some .ack, some consumed => propagate publisher routeTo e consumed
      | _, _ => pure ()
      return ⟨.ok (), action⟩
    | .error (.interrupt _) => return ⟨.ok (), action⟩
    | .error err =>
      log .error "Failed to process the message"
      return ⟨.error (.handler err), action⟩

/-- Process a message inside the telemetry middlewares. -/
def observed (telemetry : List (TelemetryMiddleware κ)) (subscription : String) (e : Envelope)
    (core : Program (Processing ρ κ) ProcessingOutcome) :
    Program (Processing ρ κ) ProcessingOutcome :=
  Middleware.chain ofAmbient telemetry (fun _ => core) (.ofEnvelope subscription e)

end Processing
end MessageDispatch
