import MessageDispatch.Handling
import MessageDispatch.Json.Value

/-! The notebook of a scenario: the context that its group shares. The scenario's handlers and
middlewares write into it what they see, and those that change their minds from run to run count
their runs there. -/
namespace MessageDispatch.Scenario

/-- What runs are counted by: a place in the scenario, the handler that runs there, and the
message it runs for. -/
structure Visit where
  site : String
  handler : String
  messageId : String
deriving DecidableEq

structure Notebook where
  /-- Entries, the latest last, each under the name of the subscription it was made on. -/
  entries : List (String × Json)
  visits : List (Visit × Nat)

namespace Notebook

def empty : Notebook := ⟨[], []⟩

def write (page : String) (entry : Json) (n : Notebook) : Notebook :=
  { n with entries := n.entries ++ [(page, entry)] }

/-- How often a place was visited. -/
def count (v : Visit) (n : Notebook) : Nat :=
  (n.visits.lookup v).getD 0

def countOne (v : Visit) (n : Notebook) : Notebook :=
  { n with visits := (v, n.count v + 1) :: n.visits.filter (fun e => e.1 != v) }

end Notebook

/-- The page of publisher middlewares, which have no subscription. -/
def publisherPage : String := "publisher"

/-! What the code of a scenario does, in its two settings. -/

abbrev Aside := Program (Ambient Notebook)

abbrev Act := Program (Handling Notebook)

namespace Aside

def perform (op : Ambient.Op Notebook) : Aside (Ambient.Answer op) := .call op .done

def write (page : String) (entry : Json) : Aside Unit :=
  (perform (.context (·.write page entry))).bind fun _ => .done ()

end Aside

namespace Act

def perform (op : Handling.Op Notebook) : Act (Handling.Answer op) := .call op .done

def aside (op : Ambient.Op Notebook) : Act (Ambient.Answer op) := .call (.ambient op) .done

def write (page : String) (entry : Json) : Act Unit :=
  (aside (.context (·.write page entry))).bind fun _ => .done ()

end Act
end MessageDispatch.Scenario
