import MessageDispatch.Calling
import MessageDispatch.Processing
import MessageDispatch.Proofs.Nesting

/-! What passes between a publisher and the broker. A message that is published is handed over in
one attempt, unless a middleware answers by itself, and it is sent if that attempt arrives in time.
Those who process messages publish as a part of what they do, and so do those who make requests. -/
namespace MessageDispatch

/-! ## Publishing as a part of something else -/

def Processing.publishing {ρ κ : Type} : Embedding (Publishing ρ κ) (Processing ρ κ) where
  lift := ofPublishing
  event?
    | ⟨.publishing op, answer⟩ => some ⟨op, answer⟩
    | _ => none
  filterMap_event? h := by
    rw [eq_of_runs_single h]
    rfl

def Calling.publishing {ρ κ : Type} : Embedding (Publishing ρ κ) (Calling ρ κ) where
  lift := ofPublishing
  event?
    | ⟨.publishing op, answer⟩ => some ⟨op, answer⟩
    | _ => none
  filterMap_event? h := by
    rw [eq_of_runs_single h]
    rfl

/-! ## One attempt -/

namespace Fate

/-- Does the message get to the broker in time? -/
def arrives (timeoutMs : Nat) : Fate → Bool
  | .delivered => true
  | .slow ms => ms ≤ timeoutMs
  | .refused _ | .lost => false

/-- What an attempt comes to. -/
def result (timeoutMs : Nat) : Fate → Except PublisherError Unit
  | .delivered => .ok ()
  | .refused e => .error (.transport e)
  | .slow ms => if ms ≤ timeoutMs then .ok () else .error .timeout
  | .lost => .error .timeout

end Fate

section
variable {ρ κ ν : Type} {timeoutMs : Nat} {m : Message ρ} {t : List (Event (Publishing ρ κ))}
  {result : Except PublisherError Unit}

/-- A message is handed to the broker once, and sent if it arrives; what comes of that is the
result. While it waits, nothing else is done. -/
theorem Publisher.flatMap_of_transmit {read : Event (Publishing ρ κ) → List ν}
    (hsleep : ∀ ms, read ⟨.ambient (.sleep ms), ()⟩ = [])
    (h : Runs (Publisher.transmit timeoutMs m) t result) :
    ∃ fate : Fate, t.flatMap read = read ⟨.fate, fate⟩ ++
        (if fate.arrives timeoutMs then read ⟨.send m, ()⟩ else []) ∧
      result = fate.result timeoutMs := by
  obtain ⟨fate, u, rfl, hrest⟩ := runs_call_iff.mp h
  refine ⟨fate, ?_⟩
  rw [List.flatMap_cons]
  cases fate with
  | delivered =>
    obtain ⟨⟨⟩, v, rfl, hdone⟩ := runs_call_iff.mp hrest
    obtain ⟨rfl, rfl⟩ := runs_done_iff.mp hdone
    exact ⟨congrArg (_ ++ ·) (List.append_nil _), rfl⟩
  | refused e =>
    obtain ⟨rfl, rfl⟩ := runs_done_iff.mp hrest
    exact ⟨rfl, rfl⟩
  | lost =>
    obtain ⟨⟨⟩, v, rfl, hdone⟩ := runs_call_iff.mp hrest
    obtain ⟨rfl, rfl⟩ := runs_done_iff.mp hdone
    rw [List.flatMap_singleton, hsleep]
    exact ⟨rfl, rfl⟩
  | slow ms =>
    by_cases hms : ms ≤ timeoutMs
    · simp only [if_pos hms] at hrest
      obtain ⟨⟨⟩, v, rfl, hsent⟩ := runs_call_iff.mp hrest
      obtain ⟨⟨⟩, w, rfl, hdone⟩ := runs_call_iff.mp hsent
      obtain ⟨rfl, rfl⟩ := runs_done_iff.mp hdone
      rw [List.flatMap_cons, hsleep, List.nil_append, List.flatMap_singleton]
      simp [Fate.arrives, Fate.result, hms]
    · simp only [if_neg hms] at hrest
      obtain ⟨⟨⟩, v, rfl, hdone⟩ := runs_call_iff.mp hrest
      obtain ⟨rfl, rfl⟩ := runs_done_iff.mp hdone
      rw [List.flatMap_singleton, hsleep]
      simp [Fate.arrives, Fate.result, hms]

end

/-! ## A message within the middlewares of a publisher -/

/-- What passes between a publisher and the broker. -/
inductive Contact (ρ : Type) where
  /-- A message was handed over, with what is to become of it. -/
  | attempted (fate : Fate)
  | sent (m : Message ρ)

def Contact.isAttempt {ρ : Type} : Contact ρ → Bool
  | .attempted _ => true
  | .sent _ => false

namespace Publishing

variable {ρ κ : Type}

def contact : Event (Publishing ρ κ) → List (Contact ρ)
  | ⟨.fate, fate⟩ => [.attempted fate]
  | ⟨.send m, _⟩ => [.sent m]
  | _ => []

def contacts (t : List (Event (Publishing ρ κ))) : List (Contact ρ) := t.flatMap contact

end Publishing

/-- A message gets what its sender left out, and then goes through the middlewares. -/
theorem Publisher.exists_runs_forward {ρ κ : Type} {publisher : Publisher ρ κ} {m : Message ρ}
    {t : List (Event (Publishing ρ κ))} {result : Except PublisherError Unit}
    (h : Runs (publisher.publish m) t result) :
    ∃ (fresh : String) (now : UInt64) (u : List (Event (Publishing ρ κ))) (published : Published),
      t = ⟨.freshId, fresh⟩ :: ⟨.wallClock, now⟩ :: u ∧ published.result = result ∧
        Runs (publisher.forward ⟨m.complete fresh now, none⟩) u published := by
  obtain ⟨u, v, m', rfl, hcomplete, hpublish⟩ := runs_bind_iff.mp h
  obtain ⟨fresh, u, rfl, hdrawn⟩ := runs_call_iff.mp hcomplete
  obtain ⟨now, u, rfl, hfilled⟩ := runs_call_iff.mp hdrawn
  obtain ⟨rfl, rfl⟩ := runs_done_iff.mp hfilled
  obtain ⟨u, v, published, rfl, hforward, hdone⟩ := runs_bind_iff.mp hpublish
  obtain ⟨rfl, hresult⟩ := runs_done_iff.mp hdone
  rw [List.append_nil]
  exact ⟨fresh, now, u, published, rfl, hresult, hforward⟩

/-- At the core of the middlewares there is one attempt, whose result they get to see. -/
theorem Publisher.flatMap_of_core {ρ κ ν : Type} (read : Event (Publishing ρ κ) → List ν)
    (hsleep : ∀ ms, read ⟨.ambient (.sleep ms), ()⟩ = []) {timeoutMs : Nat} {o : Outgoing ρ}
    {t : List (Event (Publishing ρ κ))} {published : Published}
    (h : Runs ((Publisher.transmit timeoutMs o.message).bind fun result => .done ⟨result, o.item⟩) t
      published) :
    ∃ fate : Fate, t.flatMap read = read ⟨.fate, fate⟩ ++
        (if fate.arrives timeoutMs then read ⟨.send o.message, ()⟩ else []) ∧
      published.result = fate.result timeoutMs := by
  obtain ⟨u, v, result, rfl, htransmit, hdone⟩ := runs_bind_iff.mp h
  obtain ⟨rfl, rfl⟩ := runs_done_iff.mp hdone
  rw [List.append_nil]
  exact Publisher.flatMap_of_transmit hsleep htransmit

/-- One attempt at most, with a message sent just if that arrives in time. -/
inductive Contact.AtMostOnce {ρ : Type} (timeoutMs : Nat) : List (Contact ρ) → Prop where
  | never : AtMostOnce timeoutMs []
  | once (fate : Fate) (m : Message ρ) : AtMostOnce timeoutMs
      (.attempted fate :: if fate.arrives timeoutMs then [.sent m] else [])

theorem Contact.AtMostOnce.countP_isAttempt_le {ρ : Type} {timeoutMs : Nat}
    {contacts : List (Contact ρ)} (h : Contact.AtMostOnce timeoutMs contacts) :
    contacts.countP (·.isAttempt) ≤ 1 := by
  cases h with
  | never => exact Nat.zero_le 1
  | once fate m => cases fate.arrives timeoutMs <;> exact Nat.le_refl 1

section
variable {ρ κ : Type} {publisher : Publisher ρ κ} {m : Message ρ}
  {t : List (Event (Publishing ρ κ))} {result : Except PublisherError Unit}

/-- Whatever the middlewares of a publisher do, it hands a message over once at most. -/
theorem Publisher.atMostOnce_publish (h : Runs (publisher.publish m) t result) :
    Contact.AtMostOnce publisher.timeoutMs (Publishing.contacts t) := by
  have hquiet : Relays (Publisher.ofAmbient (ρ := ρ)) (fun _ : Event (Ambient κ) => [])
      (Publishing.contact (ρ := ρ)) := by
    intro op t answer h
    rw [eq_of_runs_single h]
    rfl
  obtain ⟨fresh, now, u, published, rfl, -, hforward⟩ := Publisher.exists_runs_forward h
  show Contact.AtMostOnce publisher.timeoutMs (u.flatMap Publishing.contact)
  rcases flatMap_of_chain hquiet hforward with hnone | ⟨o, v, published, hcore, hcontacts⟩
  · rw [hnone]
    exact .never
  · obtain ⟨fate, honce, -⟩ := Publisher.flatMap_of_core Publishing.contact (fun _ => rfl) hcore
    rw [hcontacts, honce]
    exact .once fate o.message

/-- Without middlewares it hands the message over once, filled in, and tells what became of it. -/
theorem Publisher.contacts_publish (hplain : publisher.middlewares = [])
    (h : Runs (publisher.publish m) t result) :
    ∃ (fate : Fate) (fresh : String) (now : UInt64),
      Publishing.contacts t = .attempted fate ::
        (if fate.arrives publisher.timeoutMs then [.sent (m.complete fresh now)] else []) ∧
      result = fate.result publisher.timeoutMs := by
  obtain ⟨fresh, now, u, published, rfl, rfl, hforward⟩ := Publisher.exists_runs_forward h
  rw [Publisher.forward, hplain] at hforward
  obtain ⟨fate, honce, hresult⟩ :=
    Publisher.flatMap_of_core Publishing.contact (fun _ => rfl) hforward
  exact ⟨fate, fresh, now, honce, hresult⟩

end
end MessageDispatch
