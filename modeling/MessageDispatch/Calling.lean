import MessageDispatch.Publisher
import MessageDispatch.ReplyTable

/-! Using a running group from outside: starting and closing it, publishing, and requests that
wait for a reply. Starting, closing and looking up the reply inbox exclude each other: whoever
does one of them holds the group meanwhile. -/
namespace MessageDispatch

/-- Operations of a client of a group. Dispatchers are known by number. -/
inductive Calling.Op (ρ κ : Type) where
  | publishing (op : Publishing.Op ρ κ)
  /-- Wait until nobody holds the group, and hold it. -/
  | acquire
  | release
  /-- Connect to the broker, unless that was done already. -/
  | connect
  /-- Start a dispatcher for each subscriber that is open and has none; the answer names them. -/
  | dispatchAll
  /-- Make sure that the reply inbox has a dispatcher; the answer is its destination, and the
  dispatcher if one was started. -/
  | dispatchInbox
  /-- Wait until a dispatcher has tried to subscribe, or has left its loop before that. -/
  | attempted (dispatcher : Nat)
  /-- Have all dispatchers leave their loops; the answer names those that are to be waited for. -/
  | shutDown
  /-- Wait until a dispatcher has come to its end. -/
  | finished (dispatcher : Nat)
  /-- Allow dispatchers to be started again. -/
  | renew
  /-- Wait for the reply to a correlation id, unless someone does already. -/
  | register (id : String)
  /-- Wait until it is known what became of a registration, at most until a time. -/
  | awaitReply (handle deadline : Nat)
  /-- Give a registration up. -/
  | withdraw (id : String) (handle : Nat)
  /-- Raise a flag, and wait for one to be raised. -/
  | raiseFlag (flag : Nat)
  | awaitFlag (flag : Nat)

def Calling.Answer {ρ κ : Type} : Calling.Op ρ κ → Type
  | .publishing op => Publishing.Answer op
  | .acquire | .release => Unit
  | .connect => Except TransportError Unit
  | .dispatchAll => List Nat
  | .dispatchInbox => String × Option Nat
  | .attempted _ => Unit
  | .shutDown => List Nat
  | .finished _ | .renew => Unit
  | .register _ => Option Nat
  | .awaitReply .. => ReplyStatus
  | .withdraw .. => Unit
  | .raiseFlag _ | .awaitFlag _ => Unit

def Calling (ρ κ : Type) : Signature := ⟨Calling.Op ρ κ, Calling.Answer⟩

/-- How a request is made. -/
structure RequestOptions where
  timeoutMs : Nat
  /-- Is a reply that does not come in time an error? -/
  raiseTimeout : Bool

namespace Calling

variable {ρ κ : Type}

def perform (op : Calling.Op ρ κ) : Program (Calling ρ κ) (Calling.Answer op) :=
  .call op .done

def ofPublishing (op : Publishing.Op ρ κ) : Program (Calling ρ κ) (Publishing.Answer op) :=
  .call (.publishing op) .done

def sleep (ms : Nat) : Program (Calling ρ κ) Unit :=
  .call (.publishing (.ambient (.sleep ms))) .done

def clock : Program (Calling ρ κ) Nat :=
  .call (.publishing (.ambient .clock)) .done

/-- Do something about each of a list of things, in turn. -/
def each {α : Type} (act : α → Program (Calling ρ κ) Unit) : List α → Program (Calling ρ κ) Unit
  | [] => .done ()
  | a :: rest => (act a).bind fun _ => each act rest

/-- Connect, and have every open subscriber dispatched. -/
def start : Program (Calling ρ κ) (Except TransportError Unit) := do
  perform .acquire
  match ← perform .connect with
  | .error e =>
    perform .release
    return .error e
  | .ok () =>
    each (fun d => perform (.attempted d)) (← perform .dispatchAll)
    perform .release
    return .ok ()

/-- Stop all dispatchers and wait for the messages in flight. -/
def close : Program (Calling ρ κ) Unit := do
  perform .acquire
  each (fun d => perform (.finished d)) (← perform .shutDown)
  perform .renew
  perform .release

/-- Run the group until a flag is raised. -/
def runUntil (flag : Nat) : Program (Calling ρ κ) (Except TransportError Unit) := do
  match ← start with
  | .error e => return .error e
  | .ok () =>
    perform (.awaitFlag flag)
    close
    return .ok ()

def publish (publisher : Publisher ρ κ) (m : Message ρ) :
    Program (Calling ρ κ) (Except PublisherError Unit) :=
  Program.expand ofPublishing (publisher.publish m)

/-- Publish messages one after another. -/
def publishAll (publisher : Publisher ρ κ) :
    List (Message ρ) → Program (Calling ρ κ) (List (Except PublisherError Unit))
  | [] => .done []
  | m :: rest =>
    (publish publisher m).bind fun result =>
      (publishAll publisher rest).bind fun results => .done (result :: results)

/-- The destination of replies, once its dispatcher has tried to subscribe. -/
def replyInbox : Program (Calling ρ κ) (Except TransportError String) := do
  perform .acquire
  match ← perform .connect with
  | .error e =>
    perform .release
    return .error e
  | .ok () =>
    let (inbox, started) ← perform .dispatchInbox
    each (fun d => perform (.attempted d)) started.toList
    perform .release
    return .ok inbox

def abandonedText : String := "The reply inbox stopped before a reply was received"

/-- What a request comes to. -/
def replyOf (raiseTimeout : Bool) : ReplyStatus → Except PublisherError (Option Decoded)
  | .answered reply => .ok (some reply)
  | .abandoned => .error (.generic abandonedText)
  | .waiting => if raiseTimeout then .error .timeout else .ok none

/-- Publish a message under a registered correlation id, and wait for the reply. The
registration is given up in any case. -/
def exchange (publisher : Publisher ρ κ) (options : RequestOptions) (m : Message ρ) (handle : Nat) :
    Program (Calling ρ κ) (Except PublisherError (Option Decoded)) := do
  match ← publish publisher m with
  | .error e =>
    perform (.withdraw m.correlationText handle)
    return .error e
  | .ok () =>
    let now ← clock
    let status ← perform (.awaitReply handle (now + options.timeoutMs))
    perform (.withdraw m.correlationText handle)
    return replyOf options.raiseTimeout status

/-- Publish a message and wait for its reply. -/
def request (publisher : Publisher ρ κ) (options : RequestOptions) (m : Message ρ) :
    Program (Calling ρ κ) (Except PublisherError (Option Decoded)) := do
  match ← replyInbox with
  | .error e => return .error (.transport e)
  | .ok inbox =>
    let m ← Program.expand ofPublishing (Publisher.complete m)
    let m := m.withReplyTo inbox
    match ← perform (.register m.correlationText) with
    | none => return .error (.generic (ReplyTable.duplicateText m.correlationText))
    | some handle => exchange publisher options m handle

end Calling
end MessageDispatch
