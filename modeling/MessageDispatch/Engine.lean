import MessageDispatch.Network
import MessageDispatch.ReplyTable
import MessageDispatch.Settings.Dispatch
import MessageDispatch.Subscriber

/-! The engine: everything that programs act on, and what each of their operations does to it.
An operation is one step that nothing comes between; waiting is not an operation of the engine
but of whoever schedules its programs. -/
namespace MessageDispatch

/-- Failures and delays still to be met by the engine on its way to the broker. -/
structure Weather where
  fates : List Fate
  connectFailures : Nat
  settleFailures : Nat
  unsubscribeFailures : Nat
deriving Inhabited

/-- Where a message came from, which is where its settlement goes. -/
inductive Source (P : Protocol) where
  | queue (q : Nat) (m : Message P.Route)
  /-- Whoever only counts instructions: acks, nacks and rejects. -/
  | counter (acks nacks rejects : Nat)
  /-- Whoever handed the message over in process, and is told nothing. -/
  | handed (m : Message P.Route)
  | nowhere

structure Delivery (P : Protocol) where
  acker : Acker
  source : Source P

/-- One of the subscribers of a group, or the one that receives replies. -/
inductive SubscriberRef where
  | member (i : Nat)
  | inbox
deriving DecidableEq, Inhabited

structure Engine (P : Protocol) (κ : Type) where
  /-- Milliseconds since the engine was set up. -/
  now : Nat
  /-- Seconds since the Unix epoch. -/
  wallClock : UInt64
  /-- Fresh ids handed out so far. -/
  idsDrawn : Nat
  context : κ
  logged : List LogLine
  network : Network P
  weather : Weather
  subscribers : List (Subscriber P κ)
  inbox : Option (String × Subscriber P κ)
  replies : ReplyTable
  deliveries : List (Delivery P)

/-- What a running program can reach: its subscriber, its message, and the item kept with that
message. There is no such item outside processing. -/
structure Scope where
  subscriber : SubscriberRef
  delivery : Nat
  item : Option (Option String)
deriving Inhabited

/-- The text of the `n`-th fresh id, in the form of a random UUID. -/
def freshIdText (n : Nat) : String :=
  let digits := Nat.toDigits 16 n
  "5f0c2f9a-7d31-4e86-b1c4-" ++ String.ofList (List.replicate (12 - digits.length) '0' ++ digits)

namespace Engine

variable {P : Protocol} {κ : Type}

def new (wallClock : UInt64) (context : κ) : Engine P κ :=
  { now := 0, wallClock := wallClock, idsDrawn := 0, context := context, logged := [],
    network := .empty, weather := ⟨[], 0, 0, 0⟩, subscribers := [], inbox := none,
    replies := .empty, deliveries := [] }

def drawId (e : Engine P κ) : String × Engine P κ :=
  (freshIdText e.idsDrawn, { e with idsDrawn := e.idsDrawn + 1 })

def drawIds (e : Engine P κ) : FreshIds × Engine P κ :=
  let (message, e) := e.drawId
  let (receipt, e) := e.drawId
  (⟨message, receipt⟩, e)

def log (e : Engine P κ) (lines : List LogLine) : Engine P κ :=
  { e with logged := e.logged ++ lines }

def subscriber? (e : Engine P κ) : SubscriberRef → Option (Subscriber P κ)
  | .member i => e.subscribers[i]?
  | .inbox => e.inbox.map (·.2)

def updateSubscriber (e : Engine P κ) (ref : SubscriberRef)
    (f : Subscriber P κ → Subscriber P κ) : Engine P κ :=
  match ref with
  | .member i => { e with subscribers := e.subscribers.modify i f }
  | .inbox => { e with inbox := e.inbox.map fun (name, s) => (name, f s) }

/-- Take a message in hand, giving its number. -/
def addDelivery (e : Engine P κ) (d : Delivery P) : Nat × Engine P κ :=
  (e.deliveries.length, { e with deliveries := e.deliveries ++ [d] })

/-- Instruct whoever a message came from. -/
def instruct (delivery : Nat) (action : Action) (e : Engine P κ) :
    Except String Unit × Engine P κ :=
  match e.deliveries[delivery]? with
  | some ⟨_, .queue q m⟩ =>
    if e.weather.settleFailures > 0 then
      (.error "Injected settlement failure",
        { e with weather.settleFailures := e.weather.settleFailures - 1 })
    else (.ok (), { e with network := e.network.settle q m action })
  | some ⟨_, .counter acks nacks rejects⟩ =>
    let source :=
      match action with
      | .ack => Source.counter (acks + 1) nacks rejects
      | .nack => .counter acks (nacks + 1) rejects
      | .reject => .counter acks nacks (rejects + 1)
    (.ok (), { e with deliveries := e.deliveries.modify delivery ({ · with source := source }) })
  | _ => (.ok (), e)

def acker (e : Engine P κ) (delivery : Nat) : Acker :=
  (e.deliveries[delivery]?.map (·.acker)).getD .unbacked

def setAcker (e : Engine P κ) (delivery : Nat) (a : Acker) : Engine P κ :=
  { e with deliveries := e.deliveries.modify delivery ({ · with acker := a }) }

/-- Settle a message by hand. -/
def settle (e : Engine P κ) (delivery : Nat) (action : Action) :
    Except AckError Unit × Engine P κ :=
  let (result, a, e') := (e.acker delivery).settle (instruct delivery) action e
  (result, e'.setAcker delivery a)

/-- End an attempt at processing a message. -/
def exit (e : Engine P κ) (scope : Scope) (id : String) (outcome : Outcome) :
    Except AckError (Option Action) × Engine P κ :=
  let watcher := ((e.subscriber? scope.subscriber).map (·.watcher)).getD .never
  let ended :=
    Attempt.exit (instruct scope.delivery) watcher id outcome (e.acker scope.delivery) e
  let e := ended.broker.setAcker scope.delivery ended.acker
  let e := e.updateSubscriber scope.subscriber ({ · with watcher := ended.watcher })
  (ended.result, e.log (Attempt.remarks watcher id outcome))

def localOutside : LogLine :=
  ⟨.warn, "Message-local storage is only available while processing a message"⟩

/-- An operation of user code. Waiting lets the time pass. -/
def execAmbient : (op : Ambient.Op κ) → Engine P κ × Option (Option String) →
    Ambient.Answer op × (Engine P κ × Option (Option String))
  | .sleep ms, (e, item) => ((), ({ e with now := e.now + ms }, item))
  | .clock, (e, item) => (e.now, (e, item))
  | .context update, (e, item) => (e.context, ({ e with context := update e.context }, item))
  | .getLocal, (e, item) => (item.join, (e, item))
  | .setLocal s, (e, some _) => ((), (e, some (some s)))
  | .setLocal _, (e, none) => ((), (e.log [localOutside], none))

/-- An operation of a publisher. -/
def execPublishing : (op : Publishing.Op P.Route κ) → Engine P κ × Option (Option String) →
    Publishing.Answer op × (Engine P κ × Option (Option String))
  | .ambient op, s => execAmbient op s
  | .freshId, (e, item) =>
    let (id, e) := e.drawId
    (id, (e, item))
  | .wallClock, (e, item) => (e.wallClock, (e, item))
  | .fate, (e, item) =>
    match e.weather.fates with
    | [] => (.delivered, (e, item))
    | fate :: fates => (fate, ({ e with weather.fates := fates }, item))
  | .send m, (e, item) => ((), ({ e with network := e.network.publish m }, item))

/-- An operation of the engine while it processes a message. -/
def execProcessing : (op : Processing.Op P.Route κ) → Engine P κ × Scope →
    Processing.Answer op × (Engine P κ × Scope)
  | .publishing op, (e, scope) =>
    let (answer, e, item) := execPublishing op (e, scope.item)
    (answer, e, { scope with item := item })
  | .settle action, (e, scope) =>
    let (result, e) := e.settle scope.delivery action
    (result, e, scope)
  | .settlement, (e, scope) => ((e.acker scope.delivery).settlement, e, scope)
  | .log line, (e, scope) => ((), e.log [line], scope)
  | .calls, (e, scope) =>
    (((e.subscriber? scope.subscriber).map (·.calls)).getD [], e, scope)
  | .recordBody call body, (e, scope) =>
    ((), e.updateSubscriber scope.subscriber
      (fun s => { s with records := s.records.modify call (·.addBody body) }), scope)
  | .recordForwarded call target payload, (e, scope) =>
    ((), e.updateSubscriber scope.subscriber
      (fun s => { s with records := s.records.modify call (·.addForwarded target payload) }),
      scope)
  | .close, (e, scope) => ((), e.updateSubscriber scope.subscriber .close, scope)
  | .enter id, (e, scope) =>
    ((), e.updateSubscriber scope.subscriber
      (fun s => { s with watcher := Attempt.enter s.watcher id }), scope)
  | .exit id outcome, (e, scope) =>
    let (result, e) := e.exit scope id outcome
    (result, e, scope)
  | .resolve id reply, (e, scope) =>
    let (found, replies) := e.replies.resolve id reply
    (found, { e with replies := replies }, scope)

/-- Process from start to end, waiting included. -/
def runProcessing {α : Type} (program : Program (Processing P.Route κ) α) (e : Engine P κ)
    (scope : Scope) : α × (Engine P κ × Scope) :=
  program.run execProcessing (e, scope)

end Engine
end MessageDispatch
