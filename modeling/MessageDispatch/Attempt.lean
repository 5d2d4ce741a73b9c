import MessageDispatch.Outcome
import MessageDispatch.Watcher

/-! One attempt at processing a message. It is put on record when it starts; when it ends, the
message is settled as its outcome asks, and the record is dropped unless the broker will deliver
the message again. A settlement that the broker refuses leaves the record as it is. -/
namespace MessageDispatch.Attempt

/-- The instruction that an outcome asks for. A failure is rejected once its attempts are used
up, and handed back until then. -/
def instruction (w : Watcher) (id : String) : Outcome → Option Action
  | .ack | .stopConsuming => some .ack
  | .nack => some .nack
  | .reject => some .reject
  | .skip => none
  | .failure _ => some (if w.isExhausted id then .reject else .nack)

/-- What is logged when an attempt ends. -/
def remarks (w : Watcher) (id : String) : Outcome → List LogLine
  | .failure _ => w.verdict id
  | _ => []

/-- Is the record of a message dropped after this instruction? -/
def forgets (a : Acker) : Option Action → Bool
  | some .nack => !a.redelivers
  | _ => true

def enter (w : Watcher) (id : String) : Watcher :=
  w.add id

/-- The watcher, the acker and the broker after an attempt. -/
structure Ended (σ : Type) where
  result : Except AckError (Option Action)
  watcher : Watcher
  acker : Acker
  broker : σ

/-- End an attempt. `call` instructs the broker. -/
def exit {σ : Type} (call : Action → σ → Except String Unit × σ) (w : Watcher) (id : String)
    (outcome : Outcome) (a : Acker) (s : σ) : Ended σ :=
  let action := instruction w id outcome
  let (settled, a, s) :=
    match action with
    | some action => a.settle call action s
    | none => (.ok (), a, s)
  match settled with
  | .error e => ⟨.error e, w, a, s⟩
  | .ok () => ⟨.ok action, if forgets a action then w.remove id else w, a, s⟩

end MessageDispatch.Attempt
