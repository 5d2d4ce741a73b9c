import MessageDispatch.Acker
import MessageDispatch.Protocol.Basic
import MessageDispatch.Transport

/-! An in-memory broker. Every binding that was ever subscribed to has a queue, which outlives
its subscriptions; a published message goes to the end of every queue whose binding takes it,
and a nacked one back to the end of the queue it came from. Failures can be injected. -/
namespace MessageDispatch

/-- A message in a queue, and its place among all arrivals. -/
structure Waiting (ρ : Type) where
  message : Message ρ
  arrival : Nat

structure Queue (P : Protocol) where
  binding : P.Binding
  waiting : List (Waiting P.Route)

structure Settlement where
  messageId : String
  action : Action
deriving DecidableEq

structure Network (P : Protocol) where
  queues : List (Queue P)
  published : List (Message P.Route)
  settlements : List Settlement
  /-- Subscriptions that are still to fail, receptions that are, and subscriptions opened. -/
  subscribeFailures : Nat
  receiveFailures : Nat
  subscriptions : Nat
  arrivals : Nat

namespace Network

variable {P : Protocol}

def empty : Network P := ⟨[], [], [], 0, 0, 0, 0⟩

/-- The id of the message that wakes up a receiver, and the route it is sent on. A message with
this id is never delivered. -/
def wakeupId : String := "switchyard.in-memory.wakeup"

def wakeup : Message P.Route :=
  { Message.new (P.routeTo wakeupId) default with messageId := some wakeupId }

def isWakeup (m : Message P.Route) : Bool :=
  m.messageId == some wakeupId

/-- Put a message at the end of a queue. -/
def enqueue (n : Network P) (q : Nat) (m : Message P.Route) : Network P :=
  { n with
    queues := n.queues.modify q fun queue =>
      { queue with waiting := queue.waiting ++ [⟨m, n.arrivals⟩] }
    arrivals := n.arrivals + 1 }

/-- The queue of a binding. -/
def find? (n : Network P) (b : P.Binding) : Option Nat :=
  n.queues.findIdx? (fun q => decide (q.binding = b))

/-- Open a subscription to a binding, giving the number of its queue. -/
def subscribe (n : Network P) (b : P.Binding) : Except TransportError Nat × Network P :=
  if n.subscribeFailures > 0 then
    (.error (.subscribe "Injected subscription failure"),
      { n with subscribeFailures := n.subscribeFailures - 1 })
  else
    let n := { n with subscriptions := n.subscriptions + 1 }
    match n.find? b with
    | some q => (.ok q, n)
    | none => (.ok n.queues.length, { n with queues := n.queues ++ [⟨b, []⟩] })

/-- Put a message at the end of each of the queues from number `q` on that take it. -/
def deliver (m : Message P.Route) : List (Queue P) → Nat → Network P → Network P
  | [], _, n => n
  | queue :: queues, q, n =>
    deliver m queues (q + 1)
      (if P.accepts queue.binding m.route m.payload.headers then n.enqueue q m else n)

def publish (n : Network P) (m : Message P.Route) : Network P :=
  deliver m n.queues 0 { n with published := n.published ++ [m] }

/-- Make the next `count` receptions fail, and wake up whoever is waiting. -/
def failReceives (n : Network P) (count : Nat) : Network P :=
  (List.range n.queues.length).foldl (fun n q => n.enqueue q wakeup)
    { n with receiveFailures := n.receiveFailures + count }

/-- The failure that a reception runs into, if there is one. -/
def takeFailure (n : Network P) : Option (Network P) :=
  if n.receiveFailures > 0 then some { n with receiveFailures := n.receiveFailures - 1 } else none

def receiveFailure : TransportError := .connection "Injected connection failure"

/-- The message at the front of a queue. -/
def front? (n : Network P) (q : Nat) : Option (Waiting P.Route) :=
  n.queues[q]?.bind (·.waiting.head?)

/-- Take the message at the front of a queue. -/
def pop (n : Network P) (q : Nat) : Option (Message P.Route × Network P) :=
  (n.front? q).map fun w =>
    (w.message,
      { n with queues := n.queues.modify q fun queue =>
          { queue with waiting := queue.waiting.tail } })

inductive Received (P : Protocol) where
  | nothing
  | failed (e : TransportError)
  | message (m : Message P.Route)

/-- Receive from a queue without waiting, looking at no more than `fuel` of its messages. -/
def receiveUpTo (q : Nat) : Nat → Network P → Received P × Network P
  | 0, n => (.nothing, n)
  | fuel + 1, n =>
    match n.takeFailure with
    | some n => (.failed receiveFailure, n)
    | none =>
      match n.pop q with
      | none => (.nothing, n)
      | some (m, n) => if isWakeup m then receiveUpTo q fuel n else (.message m, n)

/-- Receive from a queue without waiting. -/
def receive (n : Network P) (q : Nat) : Received P × Network P :=
  receiveUpTo q (((n.queues[q]?.map (·.waiting.length)).getD 0) + 1) n

/-- An instruction for a message that came from a queue. -/
def settle (n : Network P) (q : Nat) (m : Message P.Route) (action : Action) : Network P :=
  let n := { n with settlements := n.settlements ++ [⟨m.idText, action⟩] }
  if action = .nack then n.enqueue q m else n

end Network
end MessageDispatch
