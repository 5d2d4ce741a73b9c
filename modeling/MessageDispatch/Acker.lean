import MessageDispatch.Decoded

/-! Settling a message with the broker. The first caller claims the message, instructs the
broker and keeps the claim if the broker accepts; if it refuses, the message is unsettled again
and can be settled anew. Whoever finds the message claimed has nothing to do. -/
namespace MessageDispatch

/-- The instructions a broker takes. -/
inductive Action where
  | ack
  | nack
  | reject
deriving DecidableEq, Inhabited

def Action.name : Action → String
  | .ack => "ack"
  | .nack => "nack"
  | .reject => "reject"

structure AckError where
  action : Action
  reason : String
deriving DecidableEq, Inhabited

def AckError.message (e : AckError) : String :=
  let action := e.action.name
  s!"Failed to {action} the message with the broker"

/-- The settlement state of one message, shared by everyone who may settle it. -/
structure Acker where
  settlement : Option Action
  /-- Is there a broker behind the message at all? -/
  backed : Bool
  /-- Does that broker deliver a nacked message again? -/
  redelivering : Bool
deriving DecidableEq, Inhabited

namespace Acker

def unbacked : Acker := ⟨none, false, false⟩

def ofBackend (redelivering : Bool) : Acker := ⟨none, true, redelivering⟩

def isSettled (a : Acker) : Bool := a.settlement.isSome

def redelivers (a : Acker) : Bool := a.backed && a.redelivering

/-- Claim an unsettled message for an instruction. -/
def claim? (a : Acker) (action : Action) : Option Acker :=
  match a.settlement with
  | none => some { a with settlement := some action }
  | some _ => none

/-- The broker's answer to the instruction a claim was made for. -/
def complete (a : Acker) (action : Action) : Except String Unit → Except AckError Unit × Acker
  | .ok () => (.ok (), a)
  | .error reason => (.error ⟨action, reason⟩, { a with settlement := none })

/-- Settle a message. `call` instructs the broker and is not made for a message that is claimed
already or has no broker. -/
def settle {σ : Type} (call : Action → σ → Except String Unit × σ) (action : Action) (a : Acker)
    (s : σ) : Except AckError Unit × Acker × σ :=
  match a.claim? action with
  | none => (.ok (), a, s)
  | some claimed =>
    if claimed.backed then
      let (answer, s) := call action s
      let (result, a) := claimed.complete action answer
      (result, a, s)
    else (.ok (), claimed, s)

end Acker
end MessageDispatch
