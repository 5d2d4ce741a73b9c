import MessageDispatch.Live
import MessageDispatch.Proofs.Attempts

/-! Replies on their way to whoever waits for them. Processing a message that came to the inbox
hands one reply over at most, which is what the message says under the correlation id it carries;
processing any other message hands over none. -/
namespace MessageDispatch

/-! ## What a program may hand over -/

namespace Processing

variable {ρ κ α β : Type}

/-- Does the operation hand a reply over? -/
def Op.handsOver : Processing.Op ρ κ → Bool
  | .resolve .. => true
  | _ => false

/-- May it be asked for by a program that has yet to hand over a reply, or has done so? -/
def Op.Permitted (may : String → Decoded → Prop) (ready : Bool) : Processing.Op ρ κ → Prop
  | .resolve id reply => ready = true ∧ may id reply
  | _ => True

/-- Is this an answer that a subscriber with such calls can get? -/
def Op.Met (offers : List (Call ρ κ) → Prop) :
    (op : Processing.Op ρ κ) → Processing.Answer op → Prop
  | .calls, found => offers found
  | _, _ => True

/-- A program that hands over one reply at most, and one that it `may`, at a subscriber with such
calls. -/
def Hands (offers : List (Call ρ κ) → Prop) (may : String → Decoded → Prop) :
    Bool → Program (Processing ρ κ) α → Prop
  | _, .done _ => True
  | ready, .call op next => Op.Permitted may ready op ∧
      ∀ answer, Op.Met offers op answer → Hands offers may (ready && !Op.handsOver op) (next answer)

/-- A program that hands no reply over. -/
def Mute (p : Program (Processing ρ κ) α) : Prop :=
  p.Within fun op : Processing.Op ρ κ => Op.handsOver op = false

variable {offers : List (Call ρ κ) → Prop} {may : String → Decoded → Prop} {ready : Bool}
  {p : Program (Processing ρ κ) α} {f : α → Program (Processing ρ κ) β}

theorem Mute.hands (h : Mute p) : Hands offers may ready p := by
  induction p with
  | done a => trivial
  | call op next ih =>
    obtain ⟨hop, hnext⟩ := h
    refine ⟨?_, fun answer _ => ?_⟩
    · cases op <;> trivial
    · rw [hop, Bool.not_false, Bool.and_true]
      exact ih answer (hnext answer)

theorem Hands.bind (hp : Hands offers may ready p) (hf : ∀ a, Mute (f a)) :
    Hands offers may ready (p.bind f) := by
  induction p generalizing ready with
  | done a => exact (hf a).hands
  | call op next ih => exact ⟨hp.1, fun answer hmet => ih answer (hp.2 answer hmet)⟩

theorem Mute.bind (hp : Mute p) (hf : ∀ a, Hands offers may ready (f a)) :
    Hands offers may ready (p.bind f) := by
  induction p with
  | done a => exact hf a
  | call op next ih =>
    obtain ⟨hop, hnext⟩ := hp
    refine ⟨?_, fun answer _ => ?_⟩
    · cases op <;> trivial
    · rw [hop, Bool.not_false, Bool.and_true]
      exact ih answer (hnext answer)

/-! ## What hands nothing over -/

theorem handsOver_of_isOfReplies (op : Processing.Op ρ κ) (h : op.isOfReplies = true) :
    op.handsOver = false := by
  cases op <;> first | rfl | cases h

theorem mute_ofHandling (p : Program (Handling κ) α) : Mute (p.expand (ofHandling (ρ := ρ))) := by
  refine Program.within_expand ?_ p
  intro op
  cases op <;> exact ⟨rfl, fun _ => trivial⟩

/-- A call that user code was registered for. -/
def IsHandler (call : Call ρ κ) : Prop := ∃ middlewares h, call.body = .handler middlewares h

theorem mute_offer {calls : List (Call ρ κ)} (hcalls : ∀ call ∈ calls, IsHandler call)
    (subscription : String) (shortCircuit : Bool) (i : Nat) (e : Envelope)
    (consumed : Option (Consumed ρ)) :
    Mute (offer subscription shortCircuit calls i e consumed) := by
  induction calls generalizing i e consumed with
  | nil => trivial
  | cons call calls ih =>
    obtain ⟨hcall, hrest⟩ := List.forall_mem_cons.mp hcalls
    obtain ⟨middlewares, h, hbody⟩ := hcall
    refine Program.within_bind (mute_ofHandling _) ?_
    intro decoded
    cases decoded with
    | error d => trivial
    | ok body =>
      refine Program.within_bind (mute_ofHandling _) ?_
      intro accepts
      dsimp only
      split
      · exact ih hrest ..
      · split
        · trivial
        · refine Program.within_bind (within_perform rfl) fun _ => ?_
          rw [hbody]
          refine Program.within_bind (mute_ofHandling _) ?_
          intro handled
          rcases handled with (signal | ⟨type, cause⟩) | reply
          · cases signal with
            | stopConsuming =>
              refine Program.within_bind (within_perform rfl) fun _ => ?_
              exact Program.within_bind (within_perform rfl) fun _ => trivial
            | _ => trivial
          · trivial
          · dsimp only
            split
            · trivial
            · exact ih hrest ..

/-! ## What is handed over -/

section
variable {P : Protocol} {offers : List (Call P.Route κ) → Prop} {subscription : String}
  {shortCircuit : Bool} {e : Envelope}

/-- The inbox hands over what the message says, under its correlation id. -/
theorem hands_offer_replies
    (hmay : ∀ reply, Decoded.ofBody e.body e.contentType = .ok reply → may e.correlationId reply) :
    Hands offers may true (offer subscription shortCircuit [Live.replyCall] 0 e none) := by
  unfold offer
  show Hands offers may true ((Program.done (Decoded.ofBody e.body e.contentType)).bind _)
  -- the decoder and the filter of the inbox ask for nothing
  cases hread : Decoded.ofBody e.body e.contentType with
  | error d => trivial
  | ok reply =>
    rw [Program.bind_done]
    show Hands offers may true ((Program.done !(e.withDecoded reply).processed).bind _)
    rw [Program.bind_done]
    split
    · trivial
    · refine ⟨trivial, fun _ _ => ⟨⟨rfl, ?_⟩, fun _ _ => ?_⟩⟩
      · exact hmay reply hread
      · show Hands offers may false (if _ then _ else _)
        split <;> trivial

end

section
variable {offers : List (Call ρ κ) → Prop} {publisher : Publisher ρ κ} {routeTo : String → ρ}
  {subscription : String} {shortCircuit : Bool} {e : Envelope}

theorem hands_execute
    (hoffer : ∀ calls, offers calls →
      Hands offers may ready (offer subscription shortCircuit calls 0 e none)) :
    Hands offers may ready (execute publisher routeTo subscription shortCircuit e) := by
  have hconsume : Hands offers may ready (consume subscription shortCircuit e) := by
    refine ⟨trivial, fun calls hcalls => ?_⟩
    show Hands offers may (ready && true) _
    rw [Bool.and_true]
    exact hoffer calls hcalls
  rw [execute_eq]
  refine Mute.bind (within_perform rfl) fun _ => hconsume.bind fun consumed => ?_
  refine Program.within_bind (within_perform rfl) fun answer => ?_
  exact (within_conclude ..).mono handsOver_of_isOfReplies

theorem hands_observed {telemetry : List (TelemetryMiddleware κ)} {metadata : Metadata}
    {core : Program (Processing ρ κ) ProcessingOutcome} (hcore : Hands offers may ready core) :
    Hands offers may ready
      (Middleware.chain ofAmbient telemetry (fun _ => core) metadata) := by
  induction telemetry generalizing metadata with
  | nil => exact hcore
  | cons m telemetry ih =>
    refine Mute.bind (within_ofAmbient _ (fun _ => rfl) _) ?_
    intro passage
    cases passage with
    | answer result => trivial
    | forward input wayOut => exact ih.bind fun _ => within_ofAmbient _ (fun _ => rfl) _

end

end Processing

/-! ## Processing a message -/

/-- Under this correlation id, the message is this reply to whoever it is delivered to. -/
def Protocol.Carries (P : Protocol) (m : Message P.Route) (id : String) (reply : Decoded) : Prop :=
  ∃ ids fresh, id = (P.parse fresh (P.build ids m)).correlationId ∧
    Decoded.ofBody (P.parse fresh (P.build ids m)).body
      (P.parse fresh (P.build ids m)).contentType = .ok reply

namespace SubscriberRef

variable {P : Protocol} {κ : Type}

/-- The calls that a subscriber can have: user code is registered with the members of a group, and
the inbox hands replies over. -/
def Offers : SubscriberRef → List (Call P.Route κ) → Prop
  | .member _, calls => ∀ call ∈ calls, Processing.IsHandler call
  | .inbox, calls => calls = [] ∨ calls = [Live.replyCall]

/-- What may be handed over of a message that came to a subscriber. -/
def May (ref : SubscriberRef) (m : Message P.Route) (id : String) (reply : Decoded) : Prop :=
  ref = .inbox ∧ P.Carries m id reply

/-- A subscriber that is what it should be for one of the group, or for its inbox. -/
structure Fits (ref : SubscriberRef) (s : Subscriber P κ) : Prop where
  calls : ref.Offers s.calls
  parse : ref = .inbox → s.parse = P.parse

theorem Fits.hands_process {ref : SubscriberRef} {s : Subscriber P κ} (h : ref.Fits s)
    (publisher : Publisher P.Route κ) (ids : FreshIds) (m : Message P.Route) :
    Processing.Hands ref.Offers (ref.May m) true (s.process publisher (P.build ids m)) := by
  refine ⟨trivial, fun fresh _ => ?_⟩
  refine Processing.hands_observed (Processing.hands_execute fun calls hcalls => ?_)
  cases ref with
  | member i => exact (Processing.mute_offer hcalls ..).hands
  | inbox =>
    rw [h.parse rfl]
    rcases hcalls with rfl | rfl
    · trivial
    · exact Processing.hands_offer_replies fun reply hread => ⟨rfl, ids, fresh, rfl, hread⟩

end SubscriberRef
end MessageDispatch
