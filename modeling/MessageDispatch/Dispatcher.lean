import MessageDispatch.Log

/-! The receive loop of one subscription, as a machine that is told what happens to it. It
subscribes, again after a pause if that fails or the connection breaks, and starts a task for
each message it receives: one at a time, or up to a number of them, or as many as come. A message
received while all workers are busy is held until one is free. Once it has left the loop it only
waits for the tasks in flight. -/
namespace MessageDispatch.Dispatcher

inductive Workers where
  | one
  | bounded (n : Nat)
  | unbounded
deriving DecidableEq, Inhabited

def Workers.ofMax : Option Nat → Workers
  | none => .unbounded
  | some n => if n ≤ 1 then .one else .bounded n

inductive Phase (μ : Type) where
  | subscribing
  | receiving
  /-- The one worker there is has a message. -/
  | working
  /-- A message was received and no worker is free. -/
  | holding (m : μ)
  /-- Waiting to subscribe again. -/
  | pausing
  /-- Out of the loop. -/
  | left

structure State (μ : Type) where
  workers : Workers
  phase : Phase μ
  /-- Was the subscription lost, with no message received since? -/
  lost : Bool
  /-- The tasks that were started and have not completed. -/
  inFlight : List Nat
  /-- How many tasks were started. -/
  started : Nat

/-- What happens to a dispatcher. -/
inductive Event (μ : Type) where
  /-- The group shuts down. -/
  | shutdown
  /-- The subscriber is closed. -/
  | closed
  | subscribed
  | subscribeFailed
  | received (m : μ)
  /-- The broker closed the subscription. -/
  | ended
  | receiveFailed
  /-- The pause is over. -/
  | resumed
  | completed (task : Nat)
  /-- A worker takes the message that is held. -/
  | workerFree

/-- What a dispatcher has done about it. -/
inductive Effect (μ : Type) where
  | log (line : LogLine)
  | unsubscribe
  | start (task : Nat) (m : μ)

section
variable {μ : Type}

def lostLine : LogLine :=
  ⟨.warn, "Lost the subscription with the broker, retrying until it is restored"⟩

def restoredLine : LogLine := ⟨.info, "Subscription restored"⟩

def shutdownLine : LogLine := ⟨.info, "Dispatcher received shutdown event"⟩

def endedLine : LogLine := ⟨.info, "The broker closed the subscription"⟩

namespace State

def new (workers : Workers) : State μ := ⟨workers, .subscribing, false, [], 0⟩

/-- Has everything come to an end? -/
def isFinished (s : State μ) : Bool :=
  match s.phase with
  | .left => s.inFlight.isEmpty
  | _ => false

def goto (s : State μ) (phase : Phase μ) : State μ := { s with phase := phase }

/-- The subscription is lost; that is logged once until a message arrives. -/
def lose (s : State μ) : State μ × List (Effect μ) :=
  ({ s with phase := .pausing, lost := true }, if s.lost then [] else [.log lostLine])

/-- Start a task for a message. -/
def start (s : State μ) (m : μ) (phase : Phase μ) : State μ × List (Effect μ) :=
  ({ s with phase := phase, inFlight := s.inFlight ++ [s.started], started := s.started + 1 },
    [.start s.started m])

/-- Is there a worker for one more message? -/
def hasWorker (s : State μ) : Bool :=
  match s.workers with
  | .one => s.inFlight.isEmpty
  | .bounded n => decide (s.inFlight.length < n)
  | .unbounded => true

/-- Where a dispatcher goes that has started a task: the one worker has to be waited for. -/
def afterStart (s : State μ) : Phase μ :=
  match s.workers with
  | .one => .working
  | _ => .receiving

/-- Give a message to a worker, or hold it if none is free. -/
def assign (s : State μ) (m : μ) : State μ × List (Effect μ) :=
  if s.hasWorker then s.start m s.afterStart else (s.goto (.holding m), [])

/-- A message arrived. -/
def receive (s : State μ) (m : μ) : State μ × List (Effect μ) :=
  let (t, effects) := { s with lost := false }.assign m
  (t, (if s.lost then [.log restoredLine] else []) ++ effects)

/-- A task completed. -/
def complete (s : State μ) (task : Nat) : State μ :=
  let s := { s with inFlight := s.inFlight.erase task }
  match s.phase with
  | .working => s.goto .receiving
  | _ => s

/-- The state after an event, if the event can happen at all. -/
def step (s : State μ) (event : Event μ) : Option (State μ × List (Effect μ)) :=
  match s.phase, event with
  | .subscribing, .shutdown | .subscribing, .closed => some (s.goto .left, [])
  | .subscribing, .subscribed => some (s.goto .receiving, [])
  | .subscribing, .subscribeFailed => some s.lose
  | .receiving, .shutdown => some (s.goto .left, [.log shutdownLine, .unsubscribe])
  | .receiving, .closed => some (s.goto .left, [.unsubscribe])
  | .receiving, .received m => some (s.receive m)
  | .receiving, .ended => some (s.goto .left, [.log endedLine])
  | .receiving, .receiveFailed => some s.lose
  | .pausing, .shutdown | .pausing, .closed => some (s.goto .left, [])
  | .pausing, .resumed => some (s.goto .subscribing, [])
  | .holding m, .workerFree => if s.hasWorker then some (s.start m s.afterStart) else none
  | _, .completed task => if s.inFlight.contains task then some (s.complete task, []) else none
  | _, _ => none

end State
end
end MessageDispatch.Dispatcher
