import MessageDispatch.Acker

/-! How processing ends. A handler fails with an error, whose type says whether trying again can
help, or interrupts processing with a signal of its own. -/
namespace MessageDispatch

inductive ErrorType where
  | transient
  | validation
  | fatal
deriving DecidableEq, Inhabited

def ErrorType.name : ErrorType → String
  | .transient => "transient"
  | .validation => "validation"
  | .fatal => "fatal"

inductive Interrupt where
  | ack
  | nack
  | reject
  | skip
  | stopConsuming
deriving DecidableEq, Inhabited

def Interrupt.name : Interrupt → String
  | .ack => "ack"
  | .nack => "nack"
  | .reject => "reject"
  | .skip => "skip"
  | .stopConsuming => "stop consuming"

inductive HandlerError where
  | interrupt (signal : Interrupt)
  | failure (type : ErrorType) (inner : Cause)
deriving DecidableEq, Inhabited

namespace HandlerError

def message : HandlerError → String
  | .interrupt signal =>
    let name := signal.name
    s!"Message processing was interrupted with a `{name}` signal"
  | .failure type _ =>
    let name := type.name
    s!"Handling of a message failed due to a {name} issue"

def cause : HandlerError → Option Cause
  | .interrupt _ => none
  | .failure _ inner => some inner

def errorType : HandlerError → Option ErrorType
  | .interrupt _ => none
  | .failure type _ => some type

def signal : HandlerError → Option Interrupt
  | .interrupt signal => some signal
  | .failure .. => none

/-- An error of unknown kind may go away by itself. -/
def ofText (reason : String) : HandlerError := .failure .transient (.text reason)

/-- A body that cannot be read will not get better. -/
def ofDecode (e : DecodeError) : HandlerError := .failure .validation (.text e.message)

def ofJson : HandlerError := .failure .validation .json

def ofAck (e : AckError) : HandlerError := .failure .transient (.text e.message)

/-- More than one call accepted a message. -/
def ambiguous (subscription messageId : String) : HandlerError :=
  .failure .fatal
    (.text s!"More than one registered call accepted message `{messageId}` on `{subscription}`")

end HandlerError

/-- What processing came to, as far as settling the message is concerned. -/
inductive Outcome where
  | ack
  | nack
  | reject
  | skip
  | stopConsuming
  /-- A failure that is not fatal; the retry policy decides. -/
  | failure (type : ErrorType)
deriving DecidableEq, Inhabited

def Outcome.ofInterrupt : Interrupt → Outcome
  | .ack => .ack
  | .nack => .nack
  | .reject => .reject
  | .skip => .skip
  | .stopConsuming => .stopConsuming

/-- A fatal failure is rejected at once. -/
def Outcome.ofResult {α : Type} : Except HandlerError α → Outcome
  | .ok _ => .ack
  | .error (.interrupt signal) => ofInterrupt signal
  | .error (.failure .fatal _) => .reject
  | .error (.failure type _) => .failure type

end MessageDispatch
