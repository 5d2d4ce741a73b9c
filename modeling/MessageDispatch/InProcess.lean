import MessageDispatch.Calling
import MessageDispatch.Registration
import MessageDispatch.Text.Duration

/-! Running a group in process, without a broker. A message goes straight to every open subscriber
whose binding takes it, and the messages that it causes are delivered in the same way, before the
next subscriber gets its turn. Nothing is settled: failures go back to the publisher. -/
namespace MessageDispatch

inductive InProcessError where
  | handler (e : HandlerError)
  | timeout (ms : Nat)
  | decode (e : DecodeError)
deriving DecidableEq, Inhabited

namespace InProcessError

def message : InProcessError → String
  | .handler e => e.message
  | .timeout ms => "No reply was received within " ++ Duration.text ms
  | .decode _ => "The reply could not be decoded"

def cause : InProcessError → Option Cause
  | .handler e => e.cause
  | .timeout _ => none
  | .decode e => some (.text e.message)

end InProcessError

/-- Why a delivery came to an early end. -/
inductive Halt where
  | failed (e : HandlerError)
  /-- The deadline passed. -/
  | late
  /-- Messages that cause each other in a chain longer than was to be followed. -/
  | tooDeep

/-- Deliveries act on an engine and can come to an early end. -/
abbrev InProcess (P : Protocol) (κ : Type) := ExceptT Halt (StateM (Engine P κ))

namespace InProcess

variable {P : Protocol} {κ : Type}

/-- Carry a program out, waiting included, as long as that takes no longer than until the
deadline. -/
def runBy (deadline : Option Nat) {α : Type} :
    Program (Processing P.Route κ) α → Scope → Engine P κ → Except Halt α × Engine P κ
  | .done a, _, e => (.ok a, e)
  | .call (.publishing (.ambient (.sleep ms))) next, scope, e =>
    match deadline.filter (· < e.now + ms) with
    | some time => (.error .late, { e with now := max e.now time })
    | none => runBy deadline (next ()) scope { e with now := e.now + ms }
  | .call op next, scope, e =>
    let (answer, e, scope) := Engine.execProcessing op (e, scope)
    runBy deadline (next answer) scope e

/-- A program as part of a delivery. -/
def runProgram (deadline : Option Nat) {α : Type} (scope : Scope)
    (program : Program (Processing P.Route κ) α) : InProcess P κ α := do
  let (result, e) := runBy deadline program scope (← get)
  set e
  match result with
  | .ok a => return a
  | .error halt => throw halt

/-- Change the engine and use what that answers. -/
def act {α : Type} (f : Engine P κ → α × Engine P κ) : InProcess P κ α :=
  modifyGet f

/-- Fill in what the sender of a message left out. -/
def complete (m : Message P.Route) : InProcess P κ (Message P.Route) :=
  act fun e =>
    let (id, e) := e.drawId
    (m.complete id e.wallClock, e)

/-- Have one subscriber consume a message. -/
def consume (deadline : Option Nat) (i : Nat) (s : Subscriber P κ) (m : Message P.Route) :
    InProcess P κ (Processing.ConsumeResult P.Route) := do
  let delivery ← act fun e => e.addDelivery ⟨.unbacked, .handed m⟩
  let ids ← act Engine.drawIds
  let fresh ← act Engine.drawId
  runProgram deadline ⟨.member i, delivery, some none⟩
    (Processing.consume s.name s.shortCircuit (s.parse fresh (P.build ids m)))

/-- Deliver a payload to targets, from number `i` on. `again` delivers one message. -/
def forward (again : Message P.Route → InProcess P κ Unit) (subscriber : SubscriberRef)
    (call : Nat) (correlationId : String) (payload : Payload) :
    List P.Route → Nat → InProcess P κ Unit
  | [], _ => pure ()
  | target :: targets, i => do
    modify fun e => e.updateSubscriber subscriber fun s =>
      { s with records := s.records.modify call (·.addForwarded i payload) }
    again (← complete ((Message.new target payload).withCorrelationId correlationId))
    forward again subscriber call correlationId payload targets (i + 1)

/-- Deliver a message to subscriber `i`, if it takes it; the reply, if there is one and the
message is a request. -/
def deliverTo (again : Message P.Route → InProcess P κ Unit) (deadline : Option Nat)
    (request : Bool) (m : Message P.Route) (i : Nat) : InProcess P κ Reply := do
  match (← get).subscribers[i]? with
  | none => return none
  | some s =>
    if s.closed || !P.accepts s.binding m.route m.payload.headers then return none
    let (e, result) ← consume deadline i s m
    match result with
    | .error (.interrupt _) | .ok none => return none
    | .error err => throw (.failed err)
    | .ok (some consumed) =>
      match consumed.reply with
      | none => return none
      | some payload =>
        forward again (.member i) consumed.call e.correlationId payload consumed.targets 0
        if request then return some payload
        if e.replyTo ≠ "" then
          let reply := (Message.new (P.routeTo e.replyTo) payload).withCorrelationId e.correlationId
          again (← complete reply)
        return none

/-- Deliver a message to subscribers in turn; the first reply counts. -/
def deliverToEach (again : Message P.Route → InProcess P κ Unit) (deadline : Option Nat)
    (request : Bool) (m : Message P.Route) : List Nat → InProcess P κ Reply
  | [] => return none
  | i :: rest => do
    let first ← deliverTo again deadline request m i
    let later ← deliverToEach again deadline request m rest
    return first.or later

/-- Deliver a message to all subscribers; messages that it causes are delivered as well, in
chains of at most `depth`. -/
def deliver (deadline : Option Nat) : Nat → Bool → Message P.Route → InProcess P κ Reply
  | 0, _, _ => throw .tooDeep
  | depth + 1, request, m => do
    let again (m : Message P.Route) : InProcess P κ Unit := do
      let _ ← deliver deadline depth false m
    deliverToEach again deadline request m (List.range (← get).subscribers.length)

/-- Deliver a message, with everything that it causes, unless that goes deeper than `depth`. -/
def publishWithin (depth : Nat) (m : Message P.Route) (e : Engine P κ) :
    Option (Except InProcessError Unit × Engine P κ) :=
  let delivery : InProcess P κ Reply := do deliver none depth false (← complete m)
  match delivery.run.run e with
  | (.ok _, e) => some (.ok (), e)
  | (.error (.failed err), e) => some (.error (.handler err), e)
  | (.error .late, e) => some (.ok (), e)
  | (.error .tooDeep, _) => none

/-- The longest chain of messages that are followed: without a bound, messages that keep causing
each other would be delivered for ever. -/
def maxDepth : Nat := 10000

def publish (m : Message P.Route) (e : Engine P κ) :
    Option (Except InProcessError Unit × Engine P κ) :=
  publishWithin maxDepth m e

/-- What a request comes to. -/
def replyOf (options : RequestOptions) : Reply → Except InProcessError (Option Decoded)
  | some payload =>
    match payload.decode with
    | .ok d => .ok (some d)
    | .error e => .error (.decode e)
  | none => if options.raiseTimeout then .error (.timeout options.timeoutMs) else .ok none

/-- Deliver a message and return the reply to it. A message that gets none is like one whose
reply comes too late. -/
def request (options : RequestOptions) (m : Message P.Route) (e : Engine P κ) :
    Option (Except InProcessError (Option Decoded) × Engine P κ) :=
  let deadline := e.now + options.timeoutMs
  let delivery : InProcess P κ Reply := do deliver (some deadline) maxDepth true (← complete m)
  match delivery.run.run e with
  | (.ok reply, e) => some (replyOf options reply, e)
  | (.error (.failed err), e) => some (.error (.handler err), e)
  | (.error .late, e) => some (replyOf options none, e)
  | (.error .tooDeep, _) => none

end InProcess
end MessageDispatch
