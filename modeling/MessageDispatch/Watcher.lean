import MessageDispatch.Assoc
import MessageDispatch.Log
import MessageDispatch.Settings.Retry

/-! Delivery attempts. A watcher that counts keeps, for each message id, how many attempts were
started since the message was last forgotten; the other two need no memory. -/
namespace MessageDispatch

inductive Watcher where
  | never
  | always
  | counting (limit : UInt32) (attempts : List (String × UInt32))
deriving DecidableEq, Inhabited

namespace Watcher

def ofPolicy : RetryPolicy → Watcher
  | .never => .never
  | .always => .always
  | .times n => .counting n []

/-- The attempts on record for a message. -/
def attempts (id : String) : Watcher → UInt32
  | .counting _ attempts => (Assoc.get? id attempts).getD 0
  | _ => 0

/-- How many messages have attempts on record. -/
def tracked : Watcher → Nat
  | .counting _ attempts => attempts.length
  | _ => 0

/-- An attempt is starting. -/
def add (id : String) : Watcher → Watcher
  | .counting limit attempts =>
    .counting limit (Assoc.put id ((Assoc.get? id attempts).getD 0 + 1) attempts)
  | w => w

/-- Forget a message. -/
def remove (id : String) : Watcher → Watcher
  | .counting limit attempts => .counting limit (Assoc.erase id attempts)
  | w => w

/-- Has a message used up its attempts? -/
def isExhausted (id : String) : Watcher → Bool
  | .never => true
  | .always => false
  | .counting limit attempts => decide (limit < (Assoc.get? id attempts).getD 0)

/-- What a watcher says when it is asked about a failed message; only one that counts says
anything. -/
def verdict (id : String) (w : Watcher) : List LogLine :=
  match w with
  | .counting .. =>
    if w.isExhausted id then
      [⟨.error, "Message exhausted its delivery attempts and will be rejected"⟩]
    else [⟨.warn, "Message processing failed, it will be redelivered"⟩]
  | _ => []

end Watcher
end MessageDispatch
