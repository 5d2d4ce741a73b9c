import MessageDispatch.Processing

/-! Subscribers: the calls registered on one binding, with the settings that they share and the
state that goes with them. -/
namespace MessageDispatch

structure Subscriber (P : Protocol) (κ : Type) where
  binding : P.Binding
  description : Option String
  parse : (fresh : String) → P.Raw → Envelope
  retry : RetryPolicy
  telemetry : List (TelemetryMiddleware κ)
  shortCircuit : Bool
  maxWorkers : Option Nat
  watcher : Watcher
  calls : List (Call P.Route κ)
  /-- What was seen of each call. -/
  records : List CallRecord
  /-- A closed subscriber gets no more messages, ever. -/
  closed : Bool

/-- A subscriber as documentation. -/
structure SubscriberInfo where
  name : String
  description : Option String
  binding : BindingInfo
  calls : List CallInfo

namespace Subscriber

variable {P : Protocol} {κ : Type}

def name (s : Subscriber P κ) : String := P.subscriptionName s.binding

def info (s : Subscriber P κ) : SubscriberInfo :=
  ⟨s.name, s.description, P.describe s.binding, s.calls.map (·.info)⟩

def addCall (s : Subscriber P κ) (recording : Bool) (call : Call P.Route κ) : Subscriber P κ :=
  { s with
    calls := s.calls ++ [call]
    records := s.records ++ [.fresh recording call.targets.length] }

def close (s : Subscriber P κ) : Subscriber P κ := { s with closed := true }

/-- Process a native message from end to end. -/
def process (s : Subscriber P κ) (publisher : Publisher P.Route κ) (raw : P.Raw) :
    Program (Processing P.Route κ) ProcessingOutcome := do
  let fresh ← Processing.ofPublishing .freshId
  let e := s.parse fresh raw
  Processing.observed s.telemetry s.name e
    (Processing.execute publisher P.routeTo s.name s.shortCircuit e)

end Subscriber
end MessageDispatch
