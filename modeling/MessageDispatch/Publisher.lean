import MessageDispatch.Handling
import MessageDispatch.Protocol.Basic
import MessageDispatch.Transport

/-! Publishing: ids are assigned, then the middlewares run around one attempt to hand the
message to the broker, which has to answer in time. -/
namespace MessageDispatch

inductive PublisherError where
  | generic (reason : String)
  | middleware (reason : String)
  | timeout
  | transport (e : TransportError)
deriving DecidableEq, Inhabited

namespace PublisherError

def message : PublisherError → String
  | .generic _ => "Generic error encountered when interacting with the broker"
  | .middleware _ => "A middleware failed to process the message before publishing"
  | .timeout => "The timeout threshold was reached while trying to publish the message"
  | .transport e => e.message

def cause : PublisherError → Option String
  | .generic reason | .middleware reason => some reason
  | .timeout => none
  | .transport e => some e.reason

end PublisherError

/-- Operations of a publisher over messages with routes `ρ`. -/
inductive Publishing.Op (ρ κ : Type) where
  | ambient (op : Ambient.Op κ)
  | freshId
  /-- Seconds since the Unix epoch. -/
  | wallClock
  /-- What is to become of the attempt being made. -/
  | fate
  | send (m : Message ρ)

def Publishing.Answer {ρ κ : Type} : Publishing.Op ρ κ → Type
  | .ambient op => Ambient.Answer op
  | .freshId => String
  | .wallClock => UInt64
  | .fate => Fate
  | .send _ => Unit

def Publishing (ρ κ : Type) : Signature := ⟨Publishing.Op ρ κ, Publishing.Answer⟩

/-- A message on its way out, with the item that its middlewares share. -/
structure Outgoing (ρ : Type) where
  message : Message ρ
  item : Option String

/-- What became of it, with that item. -/
structure Published where
  result : Except PublisherError Unit
  item : Option String

abbrev PublisherMiddleware (ρ κ : Type) := Middleware (Ambient κ) (Outgoing ρ) Published

structure Publisher (ρ κ : Type) where
  middlewares : List (PublisherMiddleware ρ κ)
  timeoutMs : Nat

namespace Publisher

variable {ρ κ : Type}

def ofAmbient (op : Ambient.Op κ) : Program (Publishing ρ κ) (Ambient.Answer op) :=
  .call (.ambient op) .done

def sleep (ms : Nat) : Program (Publishing ρ κ) Unit :=
  .call (.ambient (.sleep ms)) .done

def send (m : Message ρ) : Program (Publishing ρ κ) Unit :=
  .call (.send m) .done

/-- One attempt to hand a message to the broker. An answer that comes with the timeout is still
in time. -/
def transmit (timeoutMs : Nat) (m : Message ρ) :
    Program (Publishing ρ κ) (Except PublisherError Unit) :=
  .call .fate fun
    | .delivered => (send m).bind fun _ => .done (.ok ())
    | .refused e => .done (.error (.transport e))
    | .slow ms =>
      if ms ≤ timeoutMs then
        (sleep ms).bind fun _ => (send m).bind fun _ => .done (.ok ())
      else (sleep timeoutMs).bind fun _ => .done (.error .timeout)
    | .lost => (sleep timeoutMs).bind fun _ => .done (.error .timeout)

/-- Assign what the sender left out. -/
def complete (m : Message ρ) : Program (Publishing ρ κ) (Message ρ) :=
  .call .freshId fun id => .call .wallClock fun now => .done (m.complete id now)

/-- The middlewares around one attempt. -/
def forward (p : Publisher ρ κ) : Outgoing ρ → Program (Publishing ρ κ) Published :=
  Middleware.chain ofAmbient p.middlewares fun o =>
    (transmit p.timeoutMs o.message).bind fun result => .done ⟨result, o.item⟩

def publish (p : Publisher ρ κ) (m : Message ρ) :
    Program (Publishing ρ κ) (Except PublisherError Unit) :=
  (complete m).bind fun m => (p.forward ⟨m, none⟩).bind fun published => .done published.result

end Publisher
end MessageDispatch
