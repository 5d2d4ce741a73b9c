import MessageDispatch.Handling

/-! Calls: what is registered on a binding. A call says how bodies are decoded for it, which
messages it accepts, what it runs for them, and where its replies are forwarded to. -/
namespace MessageDispatch

/-- A call as documentation. -/
structure CallInfo where
  name : String
  description : Option String
  /-- The type a body is extracted into, if the handler asks for one. -/
  payload : Option String
deriving DecidableEq, Inhabited

/-- What a call runs for a message. -/
inductive CallBody (κ : Type) where
  | handler (middlewares : List (ProcessingMiddleware κ)) (h : Handler κ)
  /-- Hand the message over to the request it replies to. -/
  | replies

structure Call (ρ κ : Type) where
  body : CallBody κ
  filter : Filter κ
  decoder : Decoder κ
  /-- The routes that replies are forwarded to. -/
  targets : List ρ
  info : CallInfo

/-- What was seen of a call since recording was switched on: the bodies it was run with, and
the payloads forwarded to each of its targets. -/
structure CallRecord where
  recording : Bool
  bodies : List Decoded
  forwarded : List (List Payload)
deriving Inhabited

namespace CallRecord

/-- Nothing yet, for a call with so many targets. -/
def fresh (recording : Bool) (targets : Nat) : CallRecord :=
  ⟨recording, [], List.replicate targets []⟩

def addBody (r : CallRecord) (body : Decoded) : CallRecord :=
  if r.recording then { r with bodies := r.bodies ++ [body] } else r

def addForwarded (r : CallRecord) (target : Nat) (payload : Payload) : CallRecord :=
  if r.recording then { r with forwarded := r.forwarded.modify target (· ++ [payload]) } else r

/-- Forget the bodies; what was forwarded stays. -/
def reset (r : CallRecord) : CallRecord := { r with bodies := [] }

end CallRecord
end MessageDispatch
