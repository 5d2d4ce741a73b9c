import MessageDispatch.Message

/-! The network side of a broker as the engine meets it: the errors it reports, and what becomes
of an attempt to publish. -/
namespace MessageDispatch

inductive TransportError where
  | connection (reason : String)
  | subscribe (reason : String)
  | publish (reason : String)
deriving DecidableEq, Inhabited

namespace TransportError

def message : TransportError → String
  | .connection _ => "The connection with the broker is not available"
  | .subscribe _ => "Failed to set up a subscription with the broker"
  | .publish _ => "Failed to publish a message to the broker"

def reason : TransportError → String
  | .connection r | .subscribe r | .publish r => r

end TransportError

/-- What becomes of an attempt to publish. -/
inductive Fate where
  | delivered
  | refused (e : TransportError)
  /-- Delivered after a while. -/
  | slow (ms : Nat)
  /-- Never answered. -/
  | lost
deriving DecidableEq, Inhabited

end MessageDispatch
