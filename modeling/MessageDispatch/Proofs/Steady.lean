import MessageDispatch.Proofs.ReplyDelivery
import MessageDispatch.Proofs.Sending

/-! User code that makes the same of a message each time. What it comes to may depend on what the
message says, and neither on the id and the headers that it goes by nor on what else happens. Any
two runs of calls like that can then be compared step by step: they record the same bodies, begin
to settle the message in the same way, and come to the same result. -/
namespace MessageDispatch

/-- What of an envelope stays when the message is sent once more under another id. -/
def Envelope.bare (e : Envelope) : Envelope :=
  { e with headers := .empty, messageId := "" }

namespace Handling

variable {κ α : Type}

/-- What the message is settled with by hand, if the broker agrees. -/
def asked? : Event (Handling κ) → Option Action
  | ⟨.settle action, _⟩ => some action
  | _ => none

/-- Any two runs, one of each program, come to the same, and begin to settle the message in the
same way. -/
def Alike (p q : Program (Handling κ) α) : Prop :=
  ∀ t a u b, Runs p t a → Runs q u b → a = b ∧ t.findSome? asked? = u.findSome? asked?

end Handling

/-- A call whose code makes the same of a message each time, and interrupts processing only in ways
that do not bring the message back. -/
structure Call.Steady {ρ κ : Type} (call : Call ρ κ) : Prop where
  decoder : ∀ {e e'}, e.bare = e'.bare → Handling.Alike (call.decoder e) (call.decoder e')
  filter : ∀ {e e'}, e.bare = e'.bare → Handling.Alike (call.filter e) (call.filter e')
  handler : ∃ middlewares h, call.body = .handler middlewares h ∧
    (∀ {e e'} subscription, e.bare = e'.bare →
      Handling.Alike (h.within middlewares ⟨e, subscription⟩)
        (h.within middlewares ⟨e', subscription⟩)) ∧
    ∀ incoming t signal, Runs (h.within middlewares incoming) t (.error (.interrupt signal)) →
      signal ∈ [.ack, .reject, .skip]

namespace Processing

variable {ρ κ α β : Type}

/-! ## Two runs side by side -/

/-- What the message is settled with by hand, if the broker agrees. -/
def asked? : Event (Processing ρ κ) → Option Action
  | ⟨.settle action, _⟩ => some action
  | _ => none

/-- Any two runs, one of each program, come to results that go together, record the same bodies,
and begin to settle the message in the same way. -/
def Alike (R : α → α → Prop) (p q : Program (Processing ρ κ) α) : Prop :=
  ∀ t a u b, Runs p t a → Runs q u b →
    R a b ∧ recordedBodies t = recordedBodies u ∧ t.findSome? asked? = u.findSome? asked?

theorem recordedBodies_append {t u : List (Event (Processing ρ κ))} :
    recordedBodies (t ++ u) = recordedBodies t ++ recordedBodies u :=
  List.filterMap_append

theorem alike_done {R : α → α → Prop} {a b : α} (h : R a b) :
    Alike (ρ := ρ) (κ := κ) R (.done a) (.done b) := by
  intro t a' u b' ht hu
  obtain ⟨rfl, rfl⟩ := runs_done_iff.mp ht
  obtain ⟨rfl, rfl⟩ := runs_done_iff.mp hu
  exact ⟨h, rfl, rfl⟩

theorem alike_perform {op : Processing.Op ρ κ} :
    Alike (fun _ _ => True) (perform op) (perform op) := by
  intro t a u b ht hu
  obtain ⟨answer, t, rfl, hdone⟩ := runs_call_iff.mp ht
  obtain ⟨rfl, -⟩ := runs_done_iff.mp hdone
  obtain ⟨answer', u, rfl, hdone'⟩ := runs_call_iff.mp hu
  obtain ⟨rfl, -⟩ := runs_done_iff.mp hdone'
  refine ⟨trivial, ?_, ?_⟩ <;> cases op <;> rfl

theorem Alike.bind {R : α → α → Prop} {R' : β → β → Prop} {p q : Program (Processing ρ κ) α}
    {f g : α → Program (Processing ρ κ) β} (h : Alike R p q)
    (h' : ∀ a b, R a b → Alike R' (f a) (g b)) : Alike R' (p.bind f) (q.bind g) := by
  intro t a u b ht hu
  obtain ⟨t₁, t₂, a₁, rfl, ht₁, ht₂⟩ := runs_bind_iff.mp ht
  obtain ⟨u₁, u₂, b₁, rfl, hu₁, hu₂⟩ := runs_bind_iff.mp hu
  obtain ⟨hR, hbodies, hasked⟩ := h _ _ _ _ ht₁ hu₁
  obtain ⟨hR', hbodies', hasked'⟩ := h' _ _ hR _ _ _ _ ht₂ hu₂
  refine ⟨hR', ?_, ?_⟩
  · rw [recordedBodies_append, recordedBodies_append, hbodies, hbodies']
  · rw [List.findSome?_append, List.findSome?_append, hasked, hasked']

theorem asked?_of_refines {t : List (Event (Handling κ))} {u : List (Event (Processing ρ κ))}
    (h : Refines ofHandling t u) : u.findSome? asked? = t.findSome? Handling.asked? := by
  induction h with
  | nil => rfl
  | @cons op answer s t u hop rest ih =>
    rw [List.findSome?_append, ih, List.findSome?_cons]
    cases op with
    | ambient op =>
      obtain ⟨answer, t, rfl, hdone⟩ := runs_call_iff.mp hop
      obtain ⟨rfl, -⟩ := runs_done_iff.mp hdone
      rfl
    | settle action =>
      obtain ⟨answer, t, rfl, hdone⟩ := runs_call_iff.mp hop
      obtain ⟨rfl, -⟩ := runs_done_iff.mp hdone
      rfl
    | settlement =>
      obtain ⟨answer, t, rfl, hdone⟩ := runs_call_iff.mp hop
      obtain ⟨rfl, -⟩ := runs_done_iff.mp hdone
      rfl

theorem alike_ofHandling {p q : Program (Handling κ) α} (h : Handling.Alike p q) :
    Alike (ρ := ρ) Eq (p.expand ofHandling) (q.expand ofHandling) := by
  intro t a u b ht hu
  have hquiet {v : List (Event (Processing ρ κ))} {r : Program (Handling κ) α} {c : α}
      (hv : Runs (r.expand ofHandling) v c) : recordedBodies v = [] :=
    recordedBodies_eq_nil (hv.allowed (within_ofHandling r))
  rw [hquiet ht, hquiet hu]
  obtain ⟨t', ht', hruns⟩ := exists_refines_of_runs ht
  obtain ⟨u', hu', hruns'⟩ := exists_refines_of_runs hu
  rw [asked?_of_refines ht', asked?_of_refines hu']
  obtain ⟨rfl, hasked⟩ := h _ _ _ _ hruns hruns'
  exact ⟨rfl, rfl, hasked⟩

/-! ## Offering a message to steady calls -/

/-- Results that differ in nothing but the ids and the headers of the message, and in what is
said about a failure. -/
def Matches (x y : ConsumeResult ρ) : Prop :=
  x.1.bare = y.1.bare ∧ x.2.mapError HandlerError.signal = y.2.mapError HandlerError.signal

theorem alike_offer {calls : List (Call ρ κ)} (hcalls : ∀ call ∈ calls, call.Steady)
    {subscription : String} {shortCircuit : Bool} {i : Nat} {e e' : Envelope}
    {consumed : Option (Consumed ρ)} (he : e.bare = e'.bare) :
    Alike Matches (offer subscription shortCircuit calls i e consumed)
      (offer subscription shortCircuit calls i e' consumed) := by
  -- both runs ask the same calls in the same order, as none of them sees where the messages differ
  induction calls generalizing i e e' consumed with
  | nil => exact alike_done ⟨he, rfl⟩
  | cons call calls ih =>
    obtain ⟨hcall, hrest⟩ := List.forall_mem_cons.mp hcalls
    refine (alike_ofHandling (hcall.decoder he)).bind ?_
    rintro read _ rfl
    cases read with
    | error d => exact alike_done ⟨he, rfl⟩
    | ok body =>
      have hread : (e.withDecoded body).bare = (e'.withDecoded body).bare :=
        congrArg (Envelope.withDecoded · body) he
      refine (alike_ofHandling (hcall.filter hread)).bind ?_
      rintro accepts _ rfl
      cases accepts with
      | false => exact ih hrest hread
      | true =>
        cases consumed with
        | some earlier => exact alike_done ⟨hread, rfl⟩
        | none =>
          refine alike_perform.bind fun _ _ _ => ?_
          obtain ⟨middlewares, h, hbody, hsteady, -⟩ := hcall.handler
          simp only [runCall, hbody]
          refine (alike_ofHandling (hsteady subscription hread)).bind ?_
          rintro handled _ rfl
          cases handled with
          | ok reply =>
            have hmarked : (e.withDecoded body).markProcessed.bare =
                (e'.withDecoded body).markProcessed.bare := congrArg Envelope.markProcessed hread
            cases shortCircuit with
            | true => exact alike_done ⟨hmarked, rfl⟩
            | false => exact ih hrest hmarked
          | error err =>
            rcases err with signal | ⟨type, cause⟩
            · cases signal with
              | stopConsuming =>
                exact alike_perform.bind fun _ _ _ => alike_perform.bind fun _ _ _ =>
                  alike_done ⟨hread, rfl⟩
              | _ => exact alike_done ⟨hread, rfl⟩
            · exact alike_done ⟨hread, rfl⟩

end Processing
end MessageDispatch
