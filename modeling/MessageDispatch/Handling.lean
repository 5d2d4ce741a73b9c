import MessageDispatch.Envelope
import MessageDispatch.Middleware
import MessageDispatch.Outcome

/-! What user code may do. All of it can wait, read the clock, use the context that its group
shares, and keep an item with the message being processed; what gets to see the envelope, which is
decoders, filters, handlers and the middlewares around handlers, can also settle that message by
hand. -/
namespace MessageDispatch

/-- Operations open to all user code over a shared context `κ`. -/
inductive Ambient.Op (κ : Type) where
  | sleep (ms : Nat)
  | clock
  /-- Change the context; the answer is what it was before. -/
  | context (update : κ → κ)
  /-- The item kept with the message being processed. -/
  | getLocal
  | setLocal (item : String)

def Ambient.Answer {κ : Type} : Ambient.Op κ → Type
  | .sleep _ => Unit
  | .clock => Nat
  | .context _ => κ
  | .getLocal => Option String
  | .setLocal _ => Unit

def Ambient (κ : Type) : Signature := ⟨Ambient.Op κ, Ambient.Answer⟩

/-- Operations open to code that has the envelope. -/
inductive Handling.Op (κ : Type) where
  | ambient (op : Ambient.Op κ)
  | settle (action : Action)
  | settlement

def Handling.Answer {κ : Type} : Handling.Op κ → Type
  | .ambient op => Ambient.Answer op
  | .settle _ => Except AckError Unit
  | .settlement => Option Action

def Handling (κ : Type) : Signature := ⟨Handling.Op κ, Handling.Answer⟩

section
variable {κ : Type}

def Handling.ofAmbient (op : Ambient.Op κ) : Program (Handling κ) (Ambient.Answer op) :=
  .call (.ambient op) .done

/-- A message on its way to a handler. -/
structure Incoming where
  envelope : Envelope
  /-- The name of the subscription it was received on. -/
  subscription : String

namespace Incoming

/-- The body as read for the call being run. -/
def decoded (i : Incoming) : Decoded := i.envelope.decodedBody

/-- What a shape asks for in the body; a body that does not have it fails validation. -/
def body (i : Incoming) (s : Shape) : Except HandlerError Json :=
  (i.decoded.extract s).mapError .ofDecode

end Incoming

/-- What a handler comes to. -/
abbrev Handled := Except HandlerError Reply

abbrev Handler (κ : Type) := Incoming → Program (Handling κ) Handled

abbrev ProcessingMiddleware (κ : Type) := Middleware (Handling κ) Incoming Handled

/-- Does a call accept a message? -/
abbrev Filter (κ : Type) := Envelope → Program (Handling κ) Bool

/-- The filter of a call that was given none: no other call has processed the message. -/
def Filter.notProcessed : Filter κ := fun e => .done !e.processed

/-- How the body is read for a call. -/
abbrev Decoder (κ : Type) := Envelope → Program (Handling κ) (Except DecodeError Decoded)

/-- The decoder of a call that was given none. -/
def Decoder.byContentType : Decoder κ := fun e => .done (Decoded.ofBody e.body e.contentType)

/-- A handler inside its middlewares. -/
def Handler.within (middlewares : List (ProcessingMiddleware κ)) (h : Handler κ) : Handler κ :=
  Middleware.chain Program.perform middlewares h

/-- A handler of bodies of one shape: the body is extracted before the handler runs. -/
def Handler.typed (s : Shape) (h : Json → Handler κ) : Handler κ := fun incoming =>
  match incoming.body s with
  | .ok v => h v incoming
  | .error e => .done (.error e)

end
end MessageDispatch
