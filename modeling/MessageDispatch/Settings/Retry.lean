import MessageDispatch.Settings.Reader

/-! Retry policies: what a subscription does with a message whose processing failed. -/
namespace MessageDispatch

inductive RetryPolicy where
  /-- Reject at the first failure. -/
  | never
  /-- Ask for redelivery after every failure. -/
  | always
  /-- Ask for redelivery until the message was attempted more than `n` times. -/
  | times (n : UInt32)
deriving DecidableEq, Inhabited

namespace RetryPolicy

/-- The name of a policy in messages. -/
def text : RetryPolicy → String
  | .never => "Never"
  | .always => "Always"
  | .times n => "Times(" ++ toString n.toNat ++ ")"

/-- A truth value, or how often to try again. -/
def ofJson? : Json → Option RetryPolicy
  | .bool false => some .never
  | .bool true => some .always
  | .number (.integer (.ofNat n)) => if n < UInt32.size then some (.times (.ofNat n)) else none
  | _ => none

def toJson : RetryPolicy → Json
  | .never => .bool false
  | .always => .bool true
  | .times n => .natural n.toNat

def read (room : Nat) : Settings.Reader RetryPolicy := fun tokens =>
  match Settings.value room tokens with
  | .error fault => .error fault
  | .ok (v, rest) =>
    match ofJson? v with
    | some p => .ok (p, rest)
    | none => .error .unsuitable

def parse (text : String) : Except Settings.Fault RetryPolicy :=
  Settings.readText (read Document.maxDepth) text

end RetryPolicy
end MessageDispatch
