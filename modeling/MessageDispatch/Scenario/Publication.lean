import MessageDispatch.Scenario.Report

/-! Scenarios without a group: messages that a publisher sends in turn, and an item that is kept
although no message is being processed. -/
namespace MessageDispatch.Scenario

section
variable {P : Protocol}

/-- Publish a message from start to end, waiting included. -/
def publishNow (publisher : Publisher P.Route Notebook) (m : Message P.Route)
    (e : Engine P Notebook) : Except PublisherError Unit × Engine P Notebook :=
  let (result, e, _) := (publisher.publish m).run Engine.execPublishing (e, none)
  (result, e)

/-- Publish messages in turn and report on each. -/
def publishEach (F : P.Form) (publisher : Publisher P.Route Notebook) :
    List (Message P.Route) → Engine P Notebook → List Json
  | [], _ => []
  | m :: rest, e =>
    let (result, e') := publishNow publisher m e
    let news := (news F e' (.ofEngine e)).filter fun n => n.1 == "journal" || n.1 == "published"
    .sparse (("result", published result) :: news) :: publishEach F publisher rest e'

/-- Read a publisher, what is to become of its attempts, and its messages, and have it publish
them. -/
def publication? (F : P.Form) (clock : UInt64) (v : Json) : Option Json := do
  let middlewares ← (v.itemsAt "middlewares").mapM (publishes? F clock)
  let fates ← (v.textsAt "transport").mapM fate?
  let messages ← (v.itemsAt "messages").mapM (Message.ofJson? F.route?)
  let timeout := (v.naturalAt? "timeout").getD DispatchSettings.default.publishTimeoutMs
  let engine : Engine P Notebook := .new clock .empty
  return .array (publishEach F ⟨middlewares, timeout⟩ messages
    { engine with weather.fates := fates })

/-- Keep an item, and look for it, while no message is being processed. -/
def keepOutside (P : Protocol) (item : String) : Json :=
  let program : Program (Ambient Notebook) (Option String) := do
    Aside.perform (.setLocal item)
    Aside.perform .getLocal
  let (found, e, _) := program.run Engine.execAmbient ((.new 0 .empty : Engine P Notebook), none)
  .ofMembers [("got", .text found), ("logs", LogLine.toJsonSorted e.logged)]

end
end MessageDispatch.Scenario
