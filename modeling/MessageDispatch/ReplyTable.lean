import MessageDispatch.Decoded

/-! Requests that wait for a reply, by correlation id. Each registration has a handle of its
own, through which its requester finds the reply, learns that there will be none, or gives up.
Giving up clears the correlation id. -/
namespace MessageDispatch

structure ReplyTable where
  /-- Correlation ids that are waited for, each with the handle of its registration. -/
  pending : List (String × Nat)
  /-- Replies that arrived and were not picked up yet, by handle. -/
  answered : List (Nat × Decoded)
  /-- Handles given out so far. -/
  handles : Nat
deriving Inhabited

/-- How a registration stands. -/
inductive ReplyStatus where
  | waiting
  | answered (reply : Decoded)
  /-- Nobody will answer any more. -/
  | abandoned

namespace ReplyTable

def empty : ReplyTable := ⟨[], [], 0⟩

def duplicateText (id : String) : String :=
  s!"A request with correlation id `{id}` is already waiting for a reply"

/-- Wait for the reply to `id`, unless someone does already. -/
def register (t : ReplyTable) (id : String) : Option Nat × ReplyTable :=
  match t.pending.lookup id with
  | some _ => (none, t)
  | none =>
    (some t.handles, { t with pending := (id, t.handles) :: t.pending, handles := t.handles + 1 })

/-- Stop waiting for the reply to `id`. -/
def cancel (t : ReplyTable) (id : String) : ReplyTable :=
  { t with pending := t.pending.filter (fun e => e.1 != id) }

/-- Hand a reply to whoever waits for it; false if nobody does. -/
def resolve (t : ReplyTable) (id : String) (reply : Decoded) : Bool × ReplyTable :=
  match t.pending.lookup id with
  | some handle => (true, { t.cancel id with answered := (handle, reply) :: t.answered })
  | none => (false, t)

def status (t : ReplyTable) (handle : Nat) : ReplyStatus :=
  match t.answered.lookup handle with
  | some reply => .answered reply
  | none => if t.pending.any (fun e => e.2 == handle) then .waiting else .abandoned

/-- A requester is done with its registration, whatever became of it. -/
def drop (t : ReplyTable) (id : String) (handle : Nat) : ReplyTable :=
  { t.cancel id with answered := t.answered.filter (fun e => e.1 != handle) }

def size (t : ReplyTable) : Nat := t.pending.length

end ReplyTable
end MessageDispatch
