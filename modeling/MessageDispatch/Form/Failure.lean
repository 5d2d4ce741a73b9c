import MessageDispatch.Form.Basic
import MessageDispatch.Publisher
import MessageDispatch.Registration

/-! JSON forms of everything that can go wrong, of outcomes, and of what is logged. -/
namespace MessageDispatch

def Cause.toJson : Cause → Json
  | .json => .string "<json>"
  | .utf8 => .string "<utf8>"
  | .text s => .string s

/-- The members that errors of all kinds have. -/
def Form.failure (kind message : String) (cause : Json) : List (String × Json) :=
  [("kind", .string kind), ("message", .string message), ("cause", cause)]

/-- What is answered when there is no answer. -/
def Panic.toJson : Panic → Json
  | .overflow => .ofMembers [("error", .string "Panic"), ("message", .string "")]

def DecodeError.kind : DecodeError → String
  | .invalidText => "InvalidText"
  | .invalidJson => "InvalidJson"
  | .schema => "Schema"
  | .custom _ => "Custom"

def DecodeError.toJson (e : DecodeError) : Json :=
  .ofMembers (Form.failure e.kind e.message e.cause.toJson)

def Action.toJson (a : Action) : Json := .string a.name

def Action.named? (name : String) : Option Action :=
  [Action.ack, .nack, .reject].find? (·.name == name)

def AckError.toJson (e : AckError) : Json :=
  .ofMembers (Form.failure "AckError" e.message (.string e.reason) ++
    [("action", e.action.toJson)])

def ErrorType.named? (name : String) : Option ErrorType :=
  [ErrorType.transient, .validation, .fatal].find? (·.name == name)

def HandlerError.kind : HandlerError → String
  | .interrupt _ => "Interrupt"
  | .failure .. => "Failure"

def HandlerError.members (e : HandlerError) : List (String × Json) :=
  Form.failure e.kind e.message (.ofOption Cause.toJson e.cause) ++
    [("error_type", .text (e.errorType.map ErrorType.name)),
      ("interrupt", .text (e.signal.map Interrupt.name))]

def HandlerError.toJson (e : HandlerError) : Json := .ofMembers e.members

/-- The interrupt of this name, where `stop` is short for to stop consuming. -/
def Interrupt.named? : String → Option Interrupt
  | "ack" => some .ack
  | "nack" => some .nack
  | "reject" => some .reject
  | "skip" => some .skip
  | "stop" => some .stopConsuming
  | _ => none

/-- An error converted from another one: from a text, from a body that could not be decoded, from
a refused settlement, and otherwise from JSON that could not be read. -/
def HandlerError.via? (v : Json) : String → Option HandlerError
  | "anyhow" => some (.ofText (v.textAt "message"))
  | "decode" => some (.ofDecode (.custom (v.textAt "message")))
  | "ack" => (Action.named? (v.textAt "action")).map fun a => .ofAck ⟨a, v.textAt "message"⟩
  | _ => some .ofJson

/-- An error written as `interrupt`, `fail` or `fail_via`. -/
def HandlerError.ofJson? (v : Json) : Option HandlerError :=
  match v.textAt? "interrupt", v.textAt? "fail", v.textAt? "fail_via" with
  | some signal, _, _ => (Interrupt.named? signal).map .interrupt
  | none, some type, _ =>
    (ErrorType.named? type).map fun t => .failure t (.text (v.textAt "message"))
  | none, none, some via => HandlerError.via? v via
  | none, none, none => none

def Outcome.toJson : Outcome → Json
  | .ack => .string "ack"
  | .nack => .string "nack"
  | .reject => .string "reject"
  | .skip => .string "skip"
  | .stopConsuming => .string "stop_consuming"
  | .failure type => .object [("failure", .string type.name)]

/-- An outcome by name, a failure by the name of its type. -/
def Outcome.named? (name : String) : Option Outcome :=
  match [Outcome.ack, .nack, .reject, .skip, .stopConsuming].find?
      (fun o => o.toJson.string? == some name) with
  | some o => some o
  | none => (ErrorType.named? name).map .failure

def TransportError.kind : TransportError → String
  | .connection _ => "Connection"
  | .subscribe _ => "Subscribe"
  | .publish _ => "Publish"

def TransportError.toJson (e : TransportError) : Json :=
  .ofMembers (Form.failure e.kind e.message (.string e.reason))

def PublisherError.kind : PublisherError → String
  | .generic _ => "GenericError"
  | .middleware _ => "MiddlewareError"
  | .timeout => "TimeoutError"
  | .transport _ => "Transport"

def PublisherError.toJson (e : PublisherError) : Json :=
  .ofMembers (Form.failure e.kind e.message (.text e.cause))

def ProcessingError.toJson (e : ProcessingError) : Json :=
  let (kind, inner) :=
    match e with
    | .handler h => ("HandlerError", h.toJson)
    | .ack a => ("AckError", a.toJson)
  .ofMembers [("kind", .string kind), ("message", .string e.message), ("inner", inner)]

def RegistrationError.toJson (e : RegistrationError) : Json :=
  match e with
  | .conflictingRetry subscription existing requested =>
    .ofMembers [("kind", .string "ConflictingRetryPolicy"), ("message", .string e.message),
      ("subscription", .string subscription), ("existing", existing.toJson),
      ("requested", requested.toJson)]

/-- Log lines as a set: in the order of their texts. -/
def LogLine.toJsonSorted (lines : List LogLine) : Json :=
  Form.list .string ((lines.map LogLine.render).mergeSort (fun a b => decide (a ≤ b)))

end MessageDispatch
