import MessageDispatch.Scenario.Stage

/-! Playing a scenario, with a report on each step: its answer, and what was written, published,
settled and logged meanwhile. -/
namespace MessageDispatch.Scenario

/-- How much there was of everything when a step began. -/
structure Bookmark where
  entries : Nat
  published : Nat
  settlements : Nat
  logged : Nat

def Bookmark.start : Bookmark := ⟨0, 0, 0, 0⟩

/-- Entries by page, pages in the order of their names. -/
def pagesToJson (entries : List (String × Json)) : Json :=
  .ofMembers (entries.map fun e =>
    (e.1, .array ((entries.filter (·.1 == e.1)).map (·.2))))

section
variable {P : Protocol}

def Bookmark.ofEngine (e : Engine P Notebook) : Bookmark :=
  ⟨e.context.entries.length, e.network.published.length, e.network.settlements.length,
    e.logged.length⟩

/-- How many messages were published before the first one with an id. -/
def rank (n : Network P) (id : String) : Nat :=
  (n.published.findIdx? (·.idText == id)).getD n.published.length

/-- Settlements by message, in the order in which the messages were published. -/
def grouped (n : Network P) (settlements : List Settlement) : List Settlement :=
  settlements.mergeSort fun a b => decide (rank n a.messageId ≤ rank n b.messageId)

def settlementToJson (t : Settlement) : Json := .array [.string t.messageId, t.action.toJson]

/-- What came about since a bookmark was set. -/
def news (F : P.Form) (e : Engine P Notebook) (mark : Bookmark) : List (String × Json) :=
  [("journal", pagesToJson (e.context.entries.drop mark.entries)),
    ("published", Form.list (Message.toJson F.route e.wallClock)
      (e.network.published.drop mark.published)),
    ("settled", Form.list settlementToJson
      (grouped e.network (e.network.settlements.drop mark.settlements))),
    ("logs", LogLine.toJsonSorted (e.logged.drop mark.logged))]

/-- Take steps in turn and report on each, unless one ends in a panic. -/
def play (F : P.Form) (words : Vocabulary) :
    Nat → Bookmark → List Json → Stage P → Option (Except Panic (List Json))
  | _, _, [], _ => some (.ok [])
  | n, mark, v :: rest, s => do
    let step ← step? F words (Behaviour.place "steps" (toString n)) v
    let (answer, s) := s.take F step
    if s.panicked then return .error .overflow
    let report := Json.sparse
      (("result", answer) :: ("at", .natural s.live.now) :: news F s.engine mark)
    return (← play F words (n + 1) (.ofEngine s.engine) rest s).map (report :: ·)

/-- What a scenario reports that cannot be set up. -/
def refused (e : RegistrationError) (logged : List LogLine) : Json :=
  .ofMembers [("error", .string "RegistrationError"), ("message", .string e.message),
    ("details", e.toJson), ("logs", LogLine.toJsonSorted logged)]

/-- Set up the group of a scenario and take its steps. -/
def report? (F : P.Form) (words : Vocabulary) (clock : UInt64) (settings : DispatchSettings)
    (v : Json) : Option Json := do
  let config ← config? F words clock settings v
  let handlers ← readEach (handler? F words) "handlers" 0 (v.itemsAt "handlers")
  let inProcess := v.textAt "mode" == "test"
  let (result, _, engine) := (Engine.new clock Notebook.empty).registerAll config inProcess handlers
  match result with
  | .error e => return refused e engine.logged
  | .ok () =>
    let stage : Stage P := ⟨inProcess, .new config engine, [], []⟩
    match ← play F words 0 .start (v.itemsAt "steps") stage with
    | .ok reports => return .object [("ok", .array reports)]
    | .error panic => return panic.toJson

end
end MessageDispatch.Scenario
