import MessageDispatch.InProcess
import MessageDispatch.Schedule
import MessageDispatch.Scenario.Step

/-! The stage of a scenario: a group with what its steps need besides. A group that runs in process
is published to without a broker, and what its calls see is recorded. -/
namespace MessageDispatch.Scenario

structure Stage (P : Protocol) where
  /-- Is the group run in process? -/
  inProcess : Bool
  live : Live P Notebook Json
  /-- Where the handlers of steps were registered. -/
  handles : List CallHandle
  /-- The clients of requests that were left to themselves. -/
  spawned : List (String × Nat)

def InProcessError.toJson (e : InProcessError) : Json :=
  match e with
  | .handler h => .ofMembers (h.members ++ [("via", .string "Handler")])
  | .timeout _ => .ofMembers (Form.failure "Timeout" e.message .null)
  | .decode d =>
    .ofMembers (Form.failure "Decode" e.message (.ofOption Cause.toJson e.cause) ++
      [("inner", d.toJson)])

/-- What a group says that could not be started. -/
def unstarted (e : TransportError) : Json :=
  .ofMembers (Form.failure "anyhow" "Failed to start the consumer group" (.string e.message))

def published (result : Except PublisherError Unit) : Json :=
  Form.result PublisherError.toJson Form.done result

def replied (result : Except PublisherError (Option Decoded)) : Json :=
  Form.result PublisherError.toJson (.ofOption Decoded.toJson) result

namespace Stage

variable {P : Protocol}

def engine (s : Stage P) : Engine P Notebook := s.live.engine

def config (s : Stage P) : GroupConfig P.Route Notebook := s.live.config

def setEngine (s : Stage P) (e : Engine P Notebook) : Stage P :=
  { s with live.engine := e }

def updateEngine (s : Stage P) (f : Engine P Notebook → Engine P Notebook) : Stage P :=
  s.setEngine (f s.engine)

def updateWeather (s : Stage P) (f : Weather → Weather) : Stage P :=
  s.updateEngine fun e => { e with weather := f e.weather }

/-! Clients. -/

/-- Have clients do something at the same time, and wait until the first is done. -/
def clients (s : Stage P) (first : Program (Calling P.Route Notebook) Json)
    (others : List (Program (Calling P.Route Notebook) Json)) : Json × Stage P :=
  let (i, live) := s.live.addClient first
  let (js, live) := others.foldl (fun (js, live) program =>
    let (j, live) := live.addClient program
    (js ++ [j], live)) (([] : List Nat), live)
  let live := live.await (i :: js)
  ((live.result? i).getD .null, { s with live := live })

def startProgram : Program (Calling P.Route Notebook) Json :=
  Calling.start.bind fun result => .done (Form.result TransportError.toJson Form.done result)

def closeProgram : Program (Calling P.Route Notebook) Json :=
  Calling.close.bind fun _ => .done .null

/-- Run the group until a flag is raised. -/
def runProgram (flag : Nat) : Program (Calling P.Route Notebook) Json :=
  (Calling.runUntil flag).bind fun result => .done (Form.result unstarted Form.done result)

/-- Wait a moment, publish, wait again, and raise the flag. -/
def driveProgram (s : Stage P) (flag ms : Nat) (messages : List (Message P.Route)) :
    Program (Calling P.Route Notebook) Json := do
  Calling.sleep 1
  let _ ← Calling.publishAll s.config.publisher messages
  Calling.sleep ms
  Calling.perform (.raiseFlag flag)
  return .null

def publishProgram (s : Stage P) (messages : List (Message P.Route)) :
    Program (Calling P.Route Notebook) Json :=
  (Calling.publishAll s.config.publisher messages).bind fun results =>
    .done (Form.list published results)

def options (s : Stage P) (q : Inquiry P) : RequestOptions :=
  ⟨q.timeoutMs.getD s.config.settings.rpcTimeoutMs, q.raiseTimeout⟩

def requestProgram (s : Stage P) (q : Inquiry P) : Program (Calling P.Route Notebook) Json :=
  (Calling.request s.config.publisher (s.options q) q.message).bind fun result =>
    .done (replied result)

/-! In process. What goes on for ever has no result, and leaves no trace. -/

def settled {α : Type} (toJson : α → Json) (s : Stage P) :
    Option (Except InProcessError α × Engine P Notebook) → Json × Stage P
  | some (result, e) => (Form.result InProcessError.toJson toJson result, s.setEngine e)
  | none => (.null, s)

/-- Publish messages one after another. -/
def deliver (messages : List (Message P.Route)) (s : Stage P) : List Json × Stage P :=
  match messages with
  | [] => ([], s)
  | m :: rest =>
    let (result, s) := s.settled Form.done (InProcess.publish m s.engine)
    let (results, s) := deliver rest s
    (result :: results, s)

/-- Was a message handed over whose native message cannot be built where overflow is checked? -/
def panicked (s : Stage P) : Bool :=
  s.engine.deliveries.any fun d =>
    match d.source with
    | .handed m => P.overflows m
    | _ => false

def ask (s : Stage P) (q : Inquiry P) : Json × Stage P :=
  s.settled (.ofOption Decoded.toJson) (InProcess.request (s.options q) q.message s.engine)

/-! Requests that were left to themselves. -/

def spawn (s : Stage P) (name : String) (q : Inquiry P) : Stage P :=
  let (i, live) := s.live.addClient (s.requestProgram q)
  { s with live := live, spawned := (name, i) :: s.spawned }

/-- Wait for a request and forget it. -/
def join (s : Stage P) (name : String) : Json × Stage P :=
  match s.spawned.lookup name with
  | none => (.null, s)
  | some i =>
    let s := { s with spawned := s.spawned.filter (·.1 != name) }
    match (s.live.clients[i]?).map (·.abandoned) with
    | some true => (.string "aborted", s)
    | _ =>
      let live := s.live.await [i]
      ((live.result? i).getD .null, { s with live := live })

/-- Drop a request that is still waiting. -/
def abort (s : Stage P) (name : String) : Stage P :=
  match s.spawned.lookup name with
  | some i => if (s.live.result? i).isSome then s else { s with live := s.live.abandon i }
  | none => s

/-! Calls. -/

def call? (s : Stage P) (h : CallHandle) : Option (Call P.Route Notebook) :=
  (s.engine.subscriber? (.member h.subscriber)).bind (·.calls[h.call]?)

def record? (s : Stage P) (h : CallHandle) : Option CallRecord :=
  (s.engine.subscriber? (.member h.subscriber)).bind (·.records[h.call]?)

def handleToJson (F : P.Form) (s : Stage P) (h : CallHandle) : Json :=
  match s.engine.subscriber? (.member h.subscriber), s.call? h with
  | some subscriber, some call =>
    .ofMembers [("subscription", .string subscriber.name),
      ("binding", F.binding subscriber.binding), ("info", call.info.toJson),
      ("publishers", Form.list F.route call.targets)]
  | _, _ => .null

def register (F : P.Form) (s : Stage P) (r : HandlerSetup P) : Json × Stage P :=
  match s.engine.register s.config s.inProcess r with
  | .ok (handle, e) =>
    let s := { s.setEngine e with handles := s.handles ++ [handle] }
    (.object [("ok", s.handleToJson F handle)], s)
  | .error e => (.object [("err", e.toJson)], s)

def recordToJson (r : CallRecord) : Json :=
  .ofMembers [("calls", Form.list Decoded.toJson r.bodies), ("count", .natural r.bodies.length),
    ("last", .ofOption Decoded.toJson r.bodies.getLast?),
    ("published", Form.list (Form.list Payload.toJson) r.forwarded)]

def mocks (s : Stage P) : Json :=
  Form.list (fun h => .ofOption recordToJson (s.record? h)) s.handles

def resetMock (s : Stage P) (handle : Nat) : Stage P :=
  match s.handles[handle]? with
  | none => s
  | some h =>
    s.updateEngine fun e => e.updateSubscriber (.member h.subscriber) fun sub =>
      { sub with records := sub.records.modify h.call .reset }

/-! Subscribers. -/

def attempts (s : Stage P) (subscriber : Nat) (id : String) : Json :=
  .ofOption (fun sub => .natural (sub.watcher.attempts id).toNat)
    (s.engine.subscriber? (.member subscriber))

def subscriberToJson (F : P.Form) (sub : Subscriber P Notebook) : Json :=
  .ofMembers [("name", .string sub.name), ("closed", .bool sub.closed),
    ("max_workers", Form.workers sub.maxWorkers), ("retry", sub.retry.toJson),
    ("binding", F.binding sub.binding)]

def state (F : P.Form) (s : Stage P) : Json :=
  .ofMembers [("subscribers", Form.list (subscriberToJson F) s.engine.subscribers),
    ("pending_requests", .natural s.engine.replies.size),
    ("subscriptions", .natural s.engine.network.subscriptions),
    ("connections", .natural s.live.connections),
    ("unsubscriptions", .natural s.live.unsubscriptions)]

def consumedToJson (F : P.Form) (c : Consumed P.Route) : Json :=
  .ofMembers [("reply", .ofOption Payload.toJson c.reply),
    ("publishers", Form.list F.route c.targets)]

/-- Have a subscriber consume an envelope a number of times. -/
def consumeTimes (F : P.Form) (sub : Subscriber P Notebook) (scope : Scope) :
    Nat → Envelope → Engine P Notebook → List Json × Envelope × Engine P Notebook
  | 0, envelope, e => ([], envelope, e)
  | n + 1, envelope, e =>
    let ((envelope, result), e, _) :=
      e.runProcessing (Processing.consume sub.name sub.shortCircuit envelope) scope
    let (results, envelope, e) := consumeTimes F sub scope n envelope e
    (Form.result HandlerError.toJson (.ofOption (consumedToJson F)) result :: results, envelope, e)

def settlements : Source P → List Nat
  | .counter acks nacks rejects => [acks, nacks, rejects]
  | _ => [0, 0, 0]

/-- Have a subscriber consume a native message, outside of any processing. -/
def consume (F : P.Form) (s : Stage P) (subscriber : Nat) (raw : P.Raw) (recording : Bool)
    (n : Nat) : Json × Stage P :=
  match s.engine.subscriber? (.member subscriber) with
  | none => (.null, s)
  | some sub =>
    let source : Delivery P :=
      if recording then ⟨.ofBackend true, .counter 0 0 0⟩ else ⟨.unbacked, .nowhere⟩
    let (delivery, e) := s.engine.addDelivery source
    let (fresh, e) := e.drawId
    let (results, envelope, e) :=
      consumeTimes F sub ⟨.member subscriber, delivery, none⟩ n (sub.parse fresh raw) e
    let counts := ((e.deliveries[delivery]?).map (settlements ·.source)).getD []
    let closed := ((e.subscriber? (.member subscriber)).map (·.closed)).getD false
    (.ofMembers [("consumed", .array results),
      ("envelope", envelope.toJson (e.acker delivery).settlement),
      ("settlements", Form.list .natural counts), ("closed", .bool closed)], s.setEngine e)

/-! Steps. -/

/-- Carry out a step; what follows from it is left to come. -/
def perform (F : P.Form) (s : Stage P) : Step P → Json × Stage P
  | .start => s.clients startProgram []
  | .close => s.clients closeProgram []
  | .run ms messages =>
    let flag := s.live.clients.length
    s.clients (runProgram flag) [s.driveProgram flag ms messages]
  | .publish messages =>
    if s.inProcess then
      let (results, s) := deliver messages s
      (.array results, s)
    else s.clients (s.publishProgram messages) []
  | .request q => if s.inProcess then s.ask q else s.clients (s.requestProgram q) []
  | .spawnRequest name q => (.null, s.spawn name q)
  | .join name => s.join name
  | .abort name => (.null, s.abort name)
  | .advance ms => (.null, { s with live := s.live.pass ms })
  | .failSubscriptions n =>
    (.null, s.updateEngine fun e =>
      { e with network.subscribeFailures := e.network.subscribeFailures + n })
  | .failReceives n =>
    (.null, s.updateEngine fun e => { e with network := e.network.failReceives n })
  | .failConnects n =>
    (.null, s.updateWeather fun w => { w with connectFailures := w.connectFailures + n })
  | .failSettlements n =>
    (.null, s.updateWeather fun w => { w with settleFailures := w.settleFailures + n })
  | .failUnsubscribes n =>
    (.null, s.updateWeather fun w => { w with unsubscribeFailures := w.unsubscribeFailures + n })
  | .failPublishes fates => (.null, s.updateWeather fun w => { w with fates := w.fates ++ fates })
  | .endSubscriptions => (.null, { s with live := s.live.endSubscriptions })
  | .register r => s.register F r
  | .mocks => (s.mocks, s)
  | .resetMock handle => (.null, s.resetMock handle)
  | .closeSubscriber subscriber =>
    (.null, s.updateEngine fun e => e.updateSubscriber (.member subscriber) .close)
  | .attempts subscriber id => (s.attempts subscriber id, s)
  | .info => (Form.list (fun sub => sub.info.toJson) s.engine.subscribers, s)
  | .state => (s.state F, s)
  | .consume subscriber raw recording n => s.consume F subscriber raw recording n

/-- Carry out a step, with all that follows from it while no time passes. -/
def take (F : P.Form) (s : Stage P) (step : Step P) : Json × Stage P :=
  let (answer, s) := s.perform F step
  (answer, { s with live := s.live.settle })

end Stage
end MessageDispatch.Scenario
