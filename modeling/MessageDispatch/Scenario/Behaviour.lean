import MessageDispatch.Form.Message
import MessageDispatch.Scenario.Notebook

/-! Behaviours: what the handlers of a scenario do with a message. A behaviour acts, and may
conclude with what the handler then comes to; parts of a sequence run until one concludes. -/
namespace MessageDispatch.Scenario

inductive Behaviour where
  | idle
  | sequence (parts : List Behaviour)
  /-- Note a value. -/
  | record (v : Json)
  /-- Note the message as it is seen. -/
  | see
  | sleep (ms : Nat)
  /-- Settle the message by hand; a refusal concludes. -/
  | settle (action : Action)
  | setLocal (item : String)
  /-- Note the item kept with the message. -/
  | getLocal
  /-- Note what a shape asks for in the body; a body without it concludes. -/
  | body (s : Shape)
  | reply (p : Payload)
  | silent
  /-- Reply with the body. -/
  | echo
  | fail (e : HandlerError)
  /-- The `n`-th part on the `n`-th run for a message, and the last from then on. -/
  | byAttempt (site : String) (parts : List Behaviour)
  /-- The part for the text of the body. -/
  | byText (cases : List (String × Behaviour)) (otherwise : Behaviour)
deriving Inhabited

/-- What scenarios call things: the shapes that bodies are extracted into, the names of these
shapes as documentation, handlers that are shared, and the name of a handler that has none. -/
structure Vocabulary where
  shape? : String → Option Shape
  shapeTitle : String → String
  shared : String
  anonymous : String

namespace Behaviour

/-- Note something on the page of a message's subscription. -/
def note (i : Incoming) (entry : List (String × Json)) : Act (Option Handled) :=
  (Act.write i.subscription (.ofMembers entry)).bind fun _ => .done none

mutual

/-- Run a behaviour as part of a handler: what it concludes with, if it concludes. -/
def run (handler : String) (i : Incoming) : Behaviour → Act (Option Handled)
  | .idle => .done none
  | .sequence parts => runSequence handler i parts
  | .record v => note i [("record", v)]
  | .see => do
    let settlement ← Act.perform .settlement
    note i [("see", i.envelope.toJson settlement), ("on", .string i.subscription),
      ("decoded", i.decoded.toJson)]
  | .sleep ms => do
    Act.aside (.sleep ms)
    return none
  | .settle action => do
    match ← Act.perform (.settle action) with
    | .ok () => return none
    | .error e => return some (.error (.ofAck e))
  | .setLocal item => do
    Act.aside (.setLocal item)
    return none
  | .getLocal => do
    let item ← Act.aside .getLocal
    note i [("local", .text item)]
  | .body s =>
    match i.body s with
    | .ok v => note i [("body", v)]
    | .error e => .done (some (.error e))
  | .reply p => .done (some (.ok (some p)))
  | .silent => .done (some (.ok none))
  | .echo => .done (some (.ok (Payload.ofDecoded i.decoded)))
  | .fail e => .done (some (.error e))
  | .byAttempt site parts => do
    let visit : Visit := ⟨site, handler, i.envelope.messageId⟩
    let before ← Act.aside (.context (·.countOne visit))
    runNth handler i parts (Notebook.count visit before)
  | .byText cases otherwise =>
    match i.decoded.text? with
    | some t => runCase handler i t (run handler i otherwise) cases
    | none => run handler i otherwise

def runSequence (handler : String) (i : Incoming) : List Behaviour → Act (Option Handled)
  | [] => .done none
  | b :: rest =>
    (run handler i b).bind fun
      | some handled => .done (some handled)
      | none => runSequence handler i rest

/-- The part at place `n`, or the last one if there are not so many. -/
def runNth (handler : String) (i : Incoming) : List Behaviour → Nat → Act (Option Handled)
  | [], _ => .done none
  | [b], _ => run handler i b
  | b :: _ :: _, 0 => run handler i b
  | _ :: b :: rest, n + 1 => runNth handler i (b :: rest) n

def runCase (handler : String) (i : Incoming) (text : String) (otherwise : Act (Option Handled)) :
    List (String × Behaviour) → Act (Option Handled)
  | [] => otherwise
  | (t, b) :: rest => if t = text then run handler i b else runCase handler i text otherwise rest

end

/-- A handler that notes that it was called and behaves so. Without a conclusion it replies
nothing. -/
def handler (name : String) (b : Behaviour) : Handler Notebook := fun i => do
  let now ← Act.aside .clock
  Act.write i.subscription (.ofMembers
    [("call", .string name), ("id", .string i.envelope.messageId), ("at", .natural now)])
  return ((← b.run name i).getD (.ok none))

/-- A handler of bodies of one shape, which notes the body before anything else. -/
def typedHandler (s : Shape) (name : String) (b : Behaviour) : Handler Notebook :=
  .typed s fun v i =>
    (Act.write i.subscription (.object [("typed", v)])).bind fun _ => b.handler name i

/-- A behaviour that is one thing done once. -/
def single? (words : Vocabulary) (v : Json) : Option Behaviour :=
  match HandlerError.ofJson? v with
  | some e => some (.fail e)
  | none =>
    match v.object? with
    | some [] => some .idle
    | some [("record", x)] => some (.record x)
    | some [("see", _)] => some .see
    | some [("sleep", ms)] => ms.natural?.map .sleep
    | some [("settle", a)] => (a.string?.bind Action.named?).map .settle
    | some [("set_local", s)] => s.string?.map .setLocal
    | some [("get_local", _)] => some .getLocal
    | some [("body", name)] => (name.string?.bind words.shape?).map .body
    | some [("reply", p)] => (Payload.ofJson? p).map .reply
    | some [("none", _)] => some .silent
    | some [("echo", _)] => some .echo
    | _ => none

/-- The place of a part inside another place. -/
def place (site part : String) : String := site ++ "/" ++ part

mutual

/-- Read a behaviour that nests at most `depth` levels. -/
def read (words : Vocabulary) : (depth : Nat) → (site : String) → Json → Option Behaviour
  | 0, _, _ => none
  | depth + 1, site, v =>
    match v with
    | .array items => (readParts words depth site 0 items).map .sequence
    | .object [("by_attempt", .array items)] =>
      (readParts words depth site 0 items).map (.byAttempt site)
    | .object [("by_text", .object members)] => do
      let cases ← readCases words depth site members
      return .byText cases ((cases.lookup "*").getD .idle)
    | .null => some .idle
    | v => single? words v

def readParts (words : Vocabulary) :
    (depth : Nat) → (site : String) → Nat → List Json → Option (List Behaviour)
  | _, _, _, [] => some []
  | depth, site, n, v :: rest => do
    let b ← read words depth (place site (toString n)) v
    let bs ← readParts words depth site (n + 1) rest
    return b :: bs

def readCases (words : Vocabulary) :
    (depth : Nat) → (site : String) → List (String × Json) → Option (List (String × Behaviour))
  | _, _, [] => some []
  | depth, site, (text, v) :: rest => do
    let b ← read words depth (place site text) v
    let bs ← readCases words depth site rest
    return (text, b) :: bs

end

def ofJson? (words : Vocabulary) (site : String) (v : Json) : Option Behaviour :=
  read words (v.depth + 1) site v

end Behaviour
end MessageDispatch.Scenario
