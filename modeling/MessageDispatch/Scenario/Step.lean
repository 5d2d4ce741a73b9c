import MessageDispatch.Scenario.Setup

/-! The steps of a scenario: what is done to a group from outside, in turn. -/
namespace MessageDispatch.Scenario

/-- A request, with the time to wait for its reply if that is not the group's. -/
structure Inquiry (P : Protocol) where
  message : Message P.Route
  timeoutMs : Option Nat
  raiseTimeout : Bool

inductive Step (P : Protocol) where
  | start
  | close
  /-- Run the group: wait a moment, publish, wait `ms`, and shut down. -/
  | run (ms : Nat) (messages : List (Message P.Route))
  | publish (messages : List (Message P.Route))
  | request (inquiry : Inquiry P)
  /-- Start a request and leave it to itself. -/
  | spawnRequest (name : String) (inquiry : Inquiry P)
  | join (name : String)
  | abort (name : String)
  | advance (ms : Nat)
  | failSubscriptions (n : Nat)
  | failReceives (n : Nat)
  | failConnects (n : Nat)
  | failSettlements (n : Nat)
  | failUnsubscribes (n : Nat)
  | failPublishes (fates : List Fate)
  | endSubscriptions
  | register (handler : HandlerSetup P)
  | mocks
  | resetMock (handle : Nat)
  | closeSubscriber (subscriber : Nat)
  | attempts (subscriber : Nat) (id : String)
  | info
  | state
  /-- Have a subscriber consume one message `n` times over. -/
  | consume (subscriber : Nat) (raw : P.Raw) (recording : Bool) (n : Nat)

section
variable {P : Protocol} (F : P.Form)

def inquiry? (v : Json) : Option (Inquiry P) :=
  ((v.given? "message").bind (Message.ofJson? F.route?)).map fun m =>
    ⟨m, v.naturalAt? "timeout", v.flagAt "raise"⟩

/-- The messages of a step, or the one that it has. -/
def messages? (v : Json) : Option (List (Message P.Route)) :=
  match v.member? "messages", v.member? "message" with
  | none, some m => (Message.ofJson? F.route? m).map ([·])
  | _, _ => (v.itemsAt "messages").mapM (Message.ofJson? F.route?)

/-- Read a step that is at a place in the scenario. -/
def step? (words : Vocabulary) (site : String) (v : Json) : Option (Step P) :=
  let n := (v.naturalAt? "n").getD 1
  let index := (v.naturalAt? "index").getD 0
  let name := v.textAt "id"
  let ms := (v.naturalAt? "ms").getD 0
  match v.textAt "do" with
  | "start" => some .start
  | "close" => some .close
  | "run" => (messages? F v).map (.run ms)
  | "publish" => (messages? F v).map .publish
  | "request" => (inquiry? F v).map .request
  | "spawn_request" => (inquiry? F v).map (.spawnRequest name)
  | "join" => some (.join name)
  | "abort" => some (.abort name)
  | "advance" => some (.advance ms)
  | "fail_subscriptions" => some (.failSubscriptions n)
  | "fail_receives" => some (.failReceives n)
  | "fail_connect" => some (.failConnects n)
  | "fail_settle" => some (.failSettlements n)
  | "fail_unsubscribe" => some (.failUnsubscribes n)
  | "fail_publish" => ((v.textsAt "with").mapM fate?).map .failPublishes
  | "end_subscriptions" => some .endSubscriptions
  | "register" => (v.given? "handler").bind fun h => (handler? F words site h).map .register
  | "mocks" => some .mocks
  | "reset_mock" => some (.resetMock index)
  | "close_subscriber" => some (.closeSubscriber index)
  | "attempts" => some (.attempts index name)
  | "info" => some .info
  | "state" => some .state
  | "consume" =>
    ((v.given? "raw").bind F.raw?).map fun raw =>
      .consume index raw (v.textAt "acker" == "recording") n
  | _ => none

end
end MessageDispatch.Scenario
