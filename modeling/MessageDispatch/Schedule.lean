import MessageDispatch.Live

/-! One way to run a group. Whoever can go on gets a place in a line; the first of the line goes on
until it has to wait, and others who can go on by then have joined at the end. A dispatcher thus
takes all messages that it has workers for before the first of them is processed, and a message
whose processing never sleeps is processed as a whole. Clients go on when the line is empty, and
time passes when everything waits for it. -/
namespace MessageDispatch.Live

variable {P : Protocol} {κ α : Type}

/-- Who takes steps: clients, dispatchers, and the tasks that are not a dispatcher's own. -/
inductive Actor where
  | client (i : Nat)
  | dispatcher (i : Nat)
  | task (receiver number : Nat)
deriving DecidableEq

/-- Who carries out a task: the dispatcher itself if it has one worker. -/
def actorOf (l : Live P κ α) (t : ProcessingTask P κ) : Actor :=
  match (l.receivers[t.receiver]?).map (·.state.workers) with
  | some Dispatcher.Workers.one => .dispatcher t.receiver
  | _ => .task t.receiver t.number

/-- Is nobody before a dispatcher in the line for the queue that it waits at? -/
def isFirst (l : Live P κ α) (i : Nat) : Bool :=
  match l.receivers[i]? with
  | none => false
  | some r =>
    l.receivers.all fun other =>
      awaited? other != awaited? r || decide (r.waiting.getD 0 ≤ other.waiting.getD 0)

/-- The step of a task that an actor carries out. -/
def taskStep? (l : Live P κ α) (a : Actor) : Option LiveStep :=
  (l.tasks.findIdx? (fun t => decide (l.actorOf t = a))).map .task

/-- The steps that an actor may take, the first possible one being taken. -/
def stepsOf (l : Live P κ α) : Actor → List LiveStep
  | .client i => [.client i]
  | .dispatcher i =>
    .heed i :: (if l.isFirst i then [.receive i] else []) ++ (l.taskStep? (.dispatcher i)).toList
  | .task receiver number => (l.taskStep? (.task receiver number)).toList

def stepAs (l : Live P κ α) (a : Actor) : Option (Live P κ α) :=
  (l.stepsOf a).findSome? l.step

/-- The dispatchers in the order of their queues, which is the order in which a message that
reaches several of them does so. -/
def dispatchers (l : Live P κ α) : List Nat :=
  let place (i : Nat) : Nat := (((l.receivers[i]?).bind (·.queue)).map (· + 1)).getD 0
  (List.range l.receivers.length).mergeSort fun i j => decide (place i ≤ place j)

/-- Who can go on without being asked to by a client. -/
def awake (l : Live P κ α) : List Actor :=
  (l.tasks.filter fun t => decide (t.wakeAt ≤ l.now)).map l.actorOf ++
    (l.dispatchers.filter fun i =>
      (l.heed i).isSome || (l.isFirst i && (l.receive i).isSome)).map .dispatcher

/-- A group, those who are to go on, and whether the first of them asks for another turn. -/
structure Turns (P : Protocol) (κ α : Type) where
  live : Live P κ α
  line : List Actor
  again : Bool

/-- Whoever can go on and is not in the line joins it. -/
def Turns.join (t : Turns P κ α) : Turns P κ α :=
  { t with line := t.line ++ t.live.awake.filter fun a => !t.line.contains a }

/-- Does a dispatcher have just one task in flight, which it has started in this step? It then
looks at it again after the others had their turns. -/
def startedAlone (before after : Live P κ α) : Actor → Bool
  | .dispatcher i =>
    match before.receivers[i]?, after.receivers[i]? with
    | some r, some s =>
      decide (r.state.started < s.state.started) && s.state.inFlight.length == 1 &&
        decide (s.state.workers ≠ .one)
    | _, _ => false
  | _ => false

/-- The next step that takes no time; none if everything waits. -/
def Turns.next? (t : Turns P κ α) : Option (Turns P κ α) :=
  match t.line with
  | a :: rest =>
    match t.live.stepAs a with
    | some l => some (Turns.join ⟨l, a :: rest, t.again || startedAlone t.live l a⟩)
    | none => some ⟨t.live, rest ++ (if t.again then [a] else []), false⟩
  | [] =>
    ((List.range t.live.clients.length).find? fun i => (t.live.stepClient i).isSome).map fun i =>
      ⟨t.live, [.client i], false⟩

/-- Go on, for at most `fuel` steps, until everything waits. -/
def Turns.rest : Nat → Turns P κ α → Live P κ α
  | 0, t => t.live
  | fuel + 1, t =>
    match t.next? with
    | some t => rest fuel t
    | none => t.live

/-- When a client goes on by itself. -/
def Client.due? (c : Client P κ α) (now : Nat) : Option Nat :=
  if c.abandoned then none
  else
    match c.program with
    | .call (.awaitReply _ deadline) _ => some (max deadline c.wakeAt)
    | _ => if now < c.wakeAt then some c.wakeAt else none

/-- When a dispatcher goes on by itself. -/
def Receiver.due? (r : Receiver P) : Option Nat :=
  match r.state.phase with
  | .pausing => some r.resumeAt
  | _ => none

/-- The next time at which something goes on by itself. -/
def nextDue? (l : Live P κ α) : Option Nat :=
  let times :=
    l.tasks.map (·.wakeAt) ++ l.clients.filterMap (Client.due? · l.now) ++
      l.receivers.filterMap Receiver.due?
  (times.filter (l.now < ·)).min?

/-- How many steps are taken, and how often time passes, at most. -/
def patience : Nat := 100000

def settle (l : Live P κ α) : Live P κ α :=
  Turns.rest patience (Turns.join ⟨l, [], false⟩)

def elapseTo (l : Live P κ α) (time : Nat) : Live P κ α :=
  { l with engine := { l.engine with now := max l.engine.now time } }

/-- Let time pass until `time`, with everything that is due on the way. -/
def passUpTo (time : Nat) : Nat → Live P κ α → Live P κ α
  | 0, l => l.settle
  | fuel + 1, l =>
    let l := l.settle
    match l.nextDue? with
    | some due =>
      if due ≤ time then passUpTo time fuel (l.elapseTo due) else (l.elapseTo time).settle
    | none => (l.elapseTo time).settle

def pass (l : Live P κ α) (ms : Nat) : Live P κ α := passUpTo (l.now + ms) patience l

/-- Let time pass until clients have their results, if they ever get them. -/
def awaitUpTo (clients : List Nat) : Nat → Live P κ α → Live P κ α
  | 0, l => l.settle
  | fuel + 1, l =>
    let l := l.settle
    if clients.all fun i => (l.result? i).isSome then l
    else
      match l.nextDue? with
      | some due => awaitUpTo clients fuel (l.elapseTo due)
      | none => l

def await (l : Live P κ α) (clients : List Nat) : Live P κ α := awaitUpTo clients patience l

end MessageDispatch.Live
