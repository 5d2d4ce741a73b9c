import MessageDispatch.Calling
import MessageDispatch.Dispatcher
import MessageDispatch.Registration

/-! A group at work: its dispatchers, the tasks that process messages, and the clients that use
it. A step is one operation of a task or of a client, one event of a dispatcher, or the passing of
time; which step comes next is left open, and a step that cannot be taken is none. -/
namespace MessageDispatch

/-- A dispatcher with its subscription. -/
structure Receiver (P : Protocol) where
  subscriber : SubscriberRef
  /-- How often the group was shut down before the dispatcher was started. -/
  generation : Nat
  /-- Has it tried to subscribe? -/
  attempted : Bool
  /-- The queue it receives from. -/
  queue : Option Nat
  /-- Its place in the line of those who are past the point where a reception can fail, and wait
  for a message. -/
  waiting : Option Nat
  /-- Did the broker end its subscription? -/
  ended : Bool
  /-- When a pause is over. -/
  resumeAt : Nat
  state : Dispatcher.State (Nat × Message P.Route)

/-- A message being processed. -/
structure ProcessingTask (P : Protocol) (κ : Type) where
  receiver : Nat
  /-- Which of the tasks of its dispatcher it is. -/
  number : Nat
  scope : Scope
  wakeAt : Nat
  program : Program (Processing P.Route κ) ProcessingOutcome

/-- Somebody who uses the group, to get an answer `α`. -/
structure Client (P : Protocol) (κ α : Type) where
  wakeAt : Nat
  program : Program (Calling P.Route κ) α
  /-- The correlation id it is registered under, and the handle of the registration. -/
  registered : Option (String × Nat)
  abandoned : Bool

structure Live (P : Protocol) (κ α : Type) where
  config : GroupConfig P.Route κ
  engine : Engine P κ
  connected : Bool
  connections : Nat
  unsubscriptions : Nat
  /-- How often the group was shut down. -/
  generation : Nat
  /-- Dispatchers of an earlier generation are to leave their loops. -/
  stopped : Nat
  /-- The dispatchers that the group keeps track of. -/
  running : List Nat
  /-- The client that holds the group. -/
  holder : Option Nat
  receivers : List (Receiver P)
  /-- How often a dispatcher has begun to wait for a message. -/
  places : Nat
  tasks : List (ProcessingTask P κ)
  clients : List (Client P κ α)
  flags : List Nat

/-- What can happen next. -/
inductive LiveStep where
  | task (i : Nat)
  | client (i : Nat)
  /-- A dispatcher does something other than to receive a message. -/
  | heed (i : Nat)
  /-- A dispatcher takes the next message from its queue. -/
  | receive (i : Nat)
  | elapse (ms : Nat)

namespace Live

variable {P : Protocol} {κ α : Type}

def new (config : GroupConfig P.Route κ) (engine : Engine P κ) : Live P κ α :=
  { config := config, engine := engine, connected := false, connections := 0,
    unsubscriptions := 0, generation := 0, stopped := 0, running := [], holder := none,
    receivers := [], places := 0, tasks := [], clients := [], flags := [] }

def now (l : Live P κ α) : Nat := l.engine.now

/-! Dispatchers. -/

def isFinished (l : Live P κ α) (i : Nat) : Bool :=
  ((l.receivers[i]?).map (·.state.isFinished)).getD true

/-- Does a dispatcher hear that the group shuts down? -/
def isStopped (l : Live P κ α) (r : Receiver P) : Bool :=
  decide (r.generation < l.stopped)

def isClosed (l : Live P κ α) (ref : SubscriberRef) : Bool :=
  ((l.engine.subscriber? ref).map (·.closed)).getD true

/-- Start a dispatcher for a subscriber, unless one is at work or the subscriber is closed. -/
def dispatch (l : Live P κ α) (ref : SubscriberRef) : Option Nat × Live P κ α :=
  let running := l.running.filter (fun i => !l.isFinished i)
  let l := { l with running := running }
  let taken := running.any fun i => ((l.receivers[i]?).map (·.subscriber)) == some ref
  match l.engine.subscriber? ref with
  | some s =>
    if taken || s.closed then (none, l)
    else
      let r : Receiver P :=
        { subscriber := ref, generation := l.generation, attempted := false, queue := none,
          waiting := none, ended := false, resumeAt := 0,
          state := .new (.ofMax s.maxWorkers) }
      (some l.receivers.length,
        { l with
          receivers := l.receivers ++ [r]
          running := running ++ [l.receivers.length] })
  | none => (none, l)

/-- Start dispatchers for subscribers, giving the numbers of those that were started. -/
def dispatchEach : List SubscriberRef → Live P κ α → List Nat × Live P κ α
  | [], l => ([], l)
  | ref :: refs, l =>
    let (started, l) := l.dispatch ref
    let (more, l) := dispatchEach refs l
    (started.toList ++ more, l)

def members (l : Live P κ α) : List SubscriberRef :=
  (List.range l.engine.subscribers.length).map .member

/-- The call that hands replies over. -/
def replyCall : Call P.Route κ :=
  { body := .replies, filter := Filter.notProcessed, decoder := Decoder.byContentType,
    targets := [], info := ⟨"reply_inbox", none, none⟩ }

/-- The subscriber of a reply inbox. -/
def inboxSubscriber (config : GroupConfig P.Route κ) (inbox : String) : Subscriber P κ :=
  Subscriber.addCall
    { binding := P.replyBinding inbox
      description := some "Replies to the requests of this group"
      parse := P.parse
      retry := .never
      telemetry := config.telemetry
      shortCircuit := false
      maxWorkers := none
      watcher := .never
      calls := []
      records := []
      closed := false }
    false replyCall

/-- The destination of replies, chosen at the first request. -/
def openInbox (l : Live P κ α) : String × Live P κ α :=
  match l.engine.inbox with
  | some (inbox, _) => (inbox, l)
  | none =>
    let (id, engine) := l.engine.drawId
    let inbox := l.config.replyInbox.getD ("switchyard.reply." ++ id)
    (inbox, { l with
      engine := { engine with inbox := some (inbox, inboxSubscriber l.config inbox) } })

/-- Take a message into processing. -/
def begin (l : Live P κ α) (i : Nat) (r : Receiver P) (number q : Nat) (m : Message P.Route) :
    Live P κ α :=
  match l.engine.subscriber? r.subscriber with
  | none => l
  | some s =>
    let (delivery, engine) := l.engine.addDelivery ⟨.ofBackend true, .queue q m⟩
    let (ids, engine) := engine.drawIds
    { l with
      engine := engine
      tasks := l.tasks ++
        [{ receiver := i, number := number, scope := ⟨r.subscriber, delivery, some none⟩,
           wakeAt := engine.now, program := s.process l.config.publisher (P.build ids m) }] }

def unsubscribeFailedLine : LogLine := ⟨.warn, "Failed to unsubscribe cleanly"⟩

/-- Give a subscription back. -/
def unsubscribe (l : Live P κ α) : Live P κ α :=
  let l := { l with unsubscriptions := l.unsubscriptions + 1 }
  let failures := l.engine.weather.unsubscribeFailures
  if failures > 0 then
    { l with
      engine := { l.engine with weather.unsubscribeFailures := failures - 1 }.log
        [unsubscribeFailedLine] }
  else l

/-- Carry out what a dispatcher has decided on. -/
def effect (i : Nat) (r : Receiver P) (l : Live P κ α) :
    Dispatcher.Effect (Nat × Message P.Route) → Live P κ α
  | .log line => { l with engine := l.engine.log [line] }
  | .unsubscribe => l.unsubscribe
  | .start number (q, m) => l.begin i r number q m

/-- Tell a dispatcher what happened. -/
def tell (l : Live P κ α) (i : Nat) (r : Receiver P)
    (event : Dispatcher.Event (Nat × Message P.Route)) : Option (Live P κ α) :=
  (r.state.step event).map fun (state, effects) =>
    let r := { r with state := state }
    effects.foldl (effect i r) { l with receivers := l.receivers.set i r }

/-- Subscribe to the binding of a subscriber. -/
def subscribe (l : Live P κ α) (i : Nat) (r : Receiver P) : Option (Live P κ α) :=
  (l.engine.subscriber? r.subscriber).bind fun s =>
    let (opened, network) := l.engine.network.subscribe s.binding
    let l := { l with engine := { l.engine with network := network } }
    let r := { r with attempted := true, waiting := none, ended := false }
    match opened with
    | .ok q => l.tell i { r with queue := some q } .subscribed
    | .error _ =>
      l.tell i { r with resumeAt := l.now + l.config.settings.reconnectDelayMs } .subscribeFailed

/-- Look for a failure before waiting for a message. -/
def poll (l : Live P κ α) (i : Nat) (r : Receiver P) : Option (Live P κ α) :=
  if r.waiting.isSome then none
  else
    match l.engine.network.takeFailure with
    | some network =>
      { l with engine := { l.engine with network := network } }.tell i
        { r with queue := none, resumeAt := l.now + l.config.settings.reconnectDelayMs }
        .receiveFailed
    | none =>
      some { l with
        receivers := l.receivers.set i { r with waiting := some l.places }
        places := l.places + 1 }

/-- What a dispatcher does next, other than to receive a message. A shutdown comes before a
closed subscriber, and both before anything else. -/
def heed (l : Live P κ α) (i : Nat) : Option (Live P κ α) :=
  (l.receivers[i]?).bind fun r =>
    match r.state.phase with
    | .subscribing =>
      if l.isStopped r then l.tell i r .shutdown
      else if l.isClosed r.subscriber then l.tell i r .closed
      else l.subscribe i r
    | .receiving =>
      if l.isStopped r then l.tell i r .shutdown
      else if l.isClosed r.subscriber then l.tell i r .closed
      else if r.ended then l.tell i r .ended
      else l.poll i r
    | .pausing =>
      if l.isStopped r then l.tell i r .shutdown
      else if l.isClosed r.subscriber then l.tell i r .closed
      else if r.resumeAt ≤ l.now then l.tell i r .resumed
      else none
    | .holding _ => l.tell i r .workerFree
    | .working | .left => none

/-- The queue that a dispatcher waits at. -/
def awaited? (r : Receiver P) : Option Nat :=
  match r.state.phase with
  | .receiving => if r.waiting.isSome then r.queue else none
  | _ => none

/-- Take the next message from the queue of a dispatcher. -/
def receive (l : Live P κ α) (i : Nat) : Option (Live P κ α) :=
  (l.receivers[i]?).bind fun r =>
    (awaited? r).bind fun q =>
      (l.engine.network.pop q).bind fun (m, network) =>
        let l := { l with engine := { l.engine with network := network } }
        let r := { r with waiting := none }
        if Network.isWakeup m then some { l with receivers := l.receivers.set i r }
        else l.tell i r (.received (q, m))

/-- All open subscriptions end. -/
def endSubscriptions (l : Live P κ α) : Live P κ α :=
  { l with
    receivers := l.receivers.map fun r => if r.queue.isSome then { r with ended := true } else r }

/-! Tasks. -/

/-- A task is done. -/
def complete (l : Live P κ α) (i : Nat) (t : ProcessingTask P κ) : Live P κ α :=
  let l := { l with tasks := l.tasks.eraseIdx i }
  match l.receivers[t.receiver]? with
  | some r => (l.tell t.receiver { r with waiting := none } (.completed t.number)).getD l
  | none => l

/-- One operation of a task. -/
def stepTask (l : Live P κ α) (i : Nat) : Option (Live P κ α) :=
  (l.tasks[i]?).bind fun t =>
    if l.now < t.wakeAt then none
    else
      match t.program with
      | .done _ => some (l.complete i t)
      | .call (.publishing (.ambient (.sleep ms))) next =>
        some { l with
          tasks := l.tasks.set i { t with wakeAt := l.now + ms, program := next () } }
      | .call op next =>
        let (answer, engine, scope) := Engine.execProcessing op (l.engine, t.scope)
        some { l with
          engine := engine
          tasks := l.tasks.set i { t with scope := scope, program := next answer } }

/-! Clients. -/

def setRegistered (l : Live P κ α) (i : Nat) (registered : Option (String × Nat)) :
    Live P κ α :=
  { l with clients := l.clients.modify i ({ · with registered := registered }) }

def connect (l : Live P κ α) : Except TransportError Unit × Live P κ α :=
  if l.connected then (.ok (), l)
  else
    let failures := l.engine.weather.connectFailures
    if failures > 0 then
      (.error (.connection "Injected connect failure"),
        { l with engine := { l.engine with weather.connectFailures := failures - 1 } })
    else (.ok (), { l with connected := true, connections := l.connections + 1 })

/-- The answer to an operation of client `i`, unless it has to wait for it. -/
def answer (l : Live P κ α) (i : Nat) :
    (op : Calling.Op P.Route κ) → Option (Calling.Answer op × Live P κ α)
  | .publishing op =>
    let (answer, engine, _) := Engine.execPublishing op (l.engine, none)
    some (answer, { l with engine := engine })
  | .acquire => if l.holder.isSome then none else some ((), { l with holder := some i })
  | .release => some ((), { l with holder := none })
  | .connect => some l.connect
  | .dispatchAll => some (dispatchEach l.members l)
  | .dispatchInbox =>
    let (inbox, l) := l.openInbox
    let (started, l) := l.dispatch .inbox
    some ((inbox, started), l)
  | .attempted d =>
    match l.receivers[d]? with
    | none => some ((), l)
    | some r =>
      match r.attempted, r.state.phase with
      | true, _ | _, .left => some ((), l)
      | _, _ => none
  | .shutDown => some (l.running, { l with stopped := l.generation + 1, running := [] })
  | .finished d => if l.isFinished d then some ((), l) else none
  | .renew => some ((), { l with generation := l.generation + 1 })
  | .register id =>
    let (handle, replies) := l.engine.replies.register id
    let l := { l with engine := { l.engine with replies := replies } }
    some (handle, match handle with
      | some h => l.setRegistered i (some (id, h))
      | none => l)
  | .awaitReply handle deadline =>
    match l.engine.replies.status handle with
    | .waiting => if deadline ≤ l.now then some (.waiting, l) else none
    | status => some (status, l)
  | .withdraw id handle =>
    some ((), { l with
      engine := { l.engine with replies := l.engine.replies.drop id handle } }.setRegistered i none)
  | .raiseFlag flag => some ((), { l with flags := flag :: l.flags })
  | .awaitFlag flag => if l.flags.contains flag then some ((), l) else none

/-- One operation of a client. -/
def stepClient (l : Live P κ α) (i : Nat) : Option (Live P κ α) :=
  (l.clients[i]?).bind fun c =>
    if c.abandoned || decide (l.now < c.wakeAt) then none
    else
      match c.program with
      | .done _ => none
      | .call (.publishing (.ambient (.sleep ms))) next =>
        some { l with
          clients := l.clients.set i { c with wakeAt := l.now + ms, program := next () } }
      | .call op next =>
        (l.answer i op).map fun (answer, l) =>
          { l with clients := l.clients.modify i ({ · with program := next answer }) }

/-- A new client, by number. -/
def addClient (l : Live P κ α) (program : Program (Calling P.Route κ) α) : Nat × Live P κ α :=
  (l.clients.length,
    { l with
      clients := l.clients ++
        [{ wakeAt := l.now, program := program, registered := none, abandoned := false }] })

/-- What a client has got. -/
def result? (l : Live P κ α) (i : Nat) : Option α :=
  (l.clients[i]?).bind fun c =>
    if c.abandoned || decide (l.now < c.wakeAt) then none
    else
      match c.program with
      | .done a => some a
      | .call .. => none

/-- A client walks away: it lets go of the group and of its registration. -/
def abandon (l : Live P κ α) (i : Nat) : Live P κ α :=
  match l.clients[i]? with
  | none => l
  | some c =>
    let replies :=
      match c.registered with
      | some (id, handle) => l.engine.replies.drop id handle
      | none => l.engine.replies
    { l with
      engine := { l.engine with replies := replies }
      holder := if l.holder = some i then none else l.holder
      clients := l.clients.set i { c with abandoned := true, registered := none } }

/-! Steps. -/

/-- The state after a step, if it can be taken. -/
def step (l : Live P κ α) : LiveStep → Option (Live P κ α)
  | .task i => l.stepTask i
  | .client i => l.stepClient i
  | .heed i => l.heed i
  | .receive i => l.receive i
  | .elapse ms => some { l with engine := { l.engine with now := l.engine.now + ms } }

end Live
end MessageDispatch
