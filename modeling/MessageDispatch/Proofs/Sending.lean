import MessageDispatch.Calling
import MessageDispatch.Network
import MessageDispatch.Proofs.Arriving
import MessageDispatch.Proofs.Reporting
import MessageDispatch.Proofs.Transmission

/-! What is sent when no middleware comes between a publisher and the broker, and the broker takes
what it is given. A message goes out with what its sender left out filled in; and of a message that
was acknowledged, the reply goes to whoever asked for it and to the targets of the call, under the
correlation id of that message. -/
namespace MessageDispatch

/-! ## Ids -/

/-- An id that is neither empty nor the one that the broker keeps for itself. -/
structure Genuine (id : String) : Prop where
  nonempty : id ≠ ""
  ne_wakeup : id ≠ Network.wakeupId

theorem head?_freshIdText (n : Nat) : (freshIdText n).toList.head? = some '5' := by
  have hprefix (digits : String) :
      ("5f0c2f9a-7d31-4e86-b1c4-" ++ digits).toList.head? = some '5' := by
    have hfirst : "5f0c2f9a-7d31-4e86-b1c4-".toList.head? = some '5' := by decide
    rw [String.toList_append, List.head?_append, hfirst]
    rfl
  unfold freshIdText
  exact hprefix _

theorem genuine_freshIdText (n : Nat) : Genuine (freshIdText n) := by
  have hfirst := head?_freshIdText n
  constructor
  · intro h
    rw [h] at hfirst
    exact absurd hfirst (by decide)
  · intro h
    rw [h] at hfirst
    exact absurd hfirst (by decide)

/-! ## Messages as they go out -/

/-- What of a message does not change when it is sent. -/
structure Letter (Route : Type) where
  payload : Payload
  route : Route
  replyTo : Option String

namespace Message

variable {Route : Type} {m : Message Route} {id fresh : String}

def letter (m : Message Route) : Letter Route := ⟨m.payload, m.route, m.replyTo⟩

/-- The message travels under a correlation id, with an id of its own. -/
structure Under (id : String) (m : Message Route) : Prop where
  correlationId : m.correlationId = some id
  nonempty : id ≠ ""
  messageId : ∃ own, m.messageId = some own ∧ Genuine own

theorem Under.identified (h : m.Under id) : m.Identified := by
  obtain ⟨own, hown, hgenuine⟩ := h.messageId
  exact ⟨⟨own, hown, hgenuine.nonempty⟩, ⟨id, h.correlationId, h.nonempty⟩⟩

theorem Under.correlationText (h : m.Under id) : m.correlationText = id := by
  rw [Message.correlationText, h.correlationId, Option.getD_some]

theorem Under.isWakeup {P : Protocol} {m : Message P.Route} (h : m.Under id) :
    Network.isWakeup m = false := by
  obtain ⟨own, hown, hgenuine⟩ := h.messageId
  simpa [Network.isWakeup, hown] using hgenuine.ne_wakeup

/-- A message gets an id of its own, and keeps the correlation id that it has or gets that one. -/
theorem under_complete (hfresh : Genuine fresh) (now : UInt64)
    (hm : m.messageId ≠ some Network.wakeupId) :
    (m.complete fresh now).Under (m.complete fresh now).correlationText := by
  have hown : Genuine ((m.messageId.filter (· ≠ "")).getD fresh) := by
    cases hid : m.messageId with
    | none => exact hfresh
    | some own =>
      by_cases hempty : own = ""
      · simpa [Option.filter, hempty] using hfresh
      · have hother : own ≠ Network.wakeupId := fun heq => hm (by rw [hid, heq])
        simpa [Option.filter, hempty] using (⟨hempty, hother⟩ : Genuine own)
  have hcorrelation : (m.complete fresh now).correlationId =
      some ((m.correlationId.filter (· ≠ "")).getD ((m.messageId.filter (· ≠ "")).getD fresh)) :=
    rfl
  refine ⟨?_, ?_, _, rfl, hown⟩
  · rw [Message.correlationText, hcorrelation, Option.getD_some]
  · rw [Message.correlationText, hcorrelation, Option.getD_some]
    cases hchosen : m.correlationId with
    | none => exact hown.nonempty
    | some chosen =>
      by_cases hempty : chosen = ""
      · simpa [Option.filter, hempty] using hown.nonempty
      · simp [Option.filter, hempty]

/-- The correlation id that its sender gave it stays. -/
theorem under_complete_of_correlationId (hfresh : Genuine fresh) (now : UInt64)
    (hm : m.messageId ≠ some Network.wakeupId) (hid : m.correlationId = some id)
    (hne : id ≠ "") : (m.complete fresh now).Under id := by
  have hkept : (m.complete fresh now).correlationText = id := by
    simp [Message.correlationText, complete, hid, Option.filter, hne]
  exact hkept ▸ under_complete hfresh now hm

theorem Under.complete (h : m.Under id) (hfresh : Genuine fresh) (now : UInt64) :
    (m.complete fresh now).Under id := by
  obtain ⟨own, hown, hgenuine⟩ := h.messageId
  refine under_complete_of_correlationId hfresh now ?_ h.correlationId h.nonempty
  rw [hown]
  exact fun hsame => hgenuine.ne_wakeup (Option.some.inj hsame)

end Message

/-! ## A publisher without middlewares -/

namespace Publishing

variable {ρ κ : Type}

/-- The messages that are sent. -/
def sent (t : List (Event (Publishing ρ κ))) : List (Message ρ) :=
  t.filterMap fun
    | ⟨.send m, _⟩ => some m
    | _ => none

/-- What is drawn is genuine, and the broker takes what it is given. -/
def Fair : Event (Publishing ρ κ) → Prop
  | ⟨.freshId, (id : String)⟩ => Genuine id
  | ⟨.fate, (fate : Fate)⟩ => fate = .delivered
  | _ => True

end Publishing

open Publishing (sent Fair)

section
variable {ρ κ : Type} {m : Message ρ} {t : List (Event (Publishing ρ κ))}

/-- A message is sent once, filled in. -/
theorem Publisher.sent_publish {publisher : Publisher ρ κ} (hplain : publisher.middlewares = [])
    {result : Except PublisherError Unit} (h : Runs (publisher.publish m) t result)
    (hfair : ∀ ev ∈ t, Fair ev) :
    result = .ok () ∧ ∃ fresh now, Genuine fresh ∧ sent t = [m.complete fresh now] := by
  obtain ⟨fresh, now, u, published, rfl, rfl, hforward⟩ := Publisher.exists_runs_forward h
  rw [Publisher.forward, hplain] at hforward
  obtain ⟨u, v, result, rfl, htransmit, hdone⟩ := runs_bind_iff.mp hforward
  obtain ⟨rfl, rfl⟩ := runs_done_iff.mp hdone
  rw [List.append_nil] at hfair ⊢
  obtain ⟨hfresh, hfair⟩ := List.forall_mem_cons.mp hfair
  obtain ⟨-, hfair⟩ := List.forall_mem_cons.mp hfair
  obtain ⟨fate, u, rfl, hrest⟩ := runs_call_iff.mp htransmit
  obtain rfl : fate = .delivered := (List.forall_mem_cons.mp hfair).1
  obtain ⟨⟨⟩, u, rfl, hsent⟩ := runs_call_iff.mp hrest
  obtain ⟨rfl, rfl⟩ := runs_done_iff.mp hsent
  exact ⟨rfl, fresh, now, hfresh, rfl⟩

end

/-! ## The replies to a message -/

namespace Processing

variable {ρ κ α : Type}

variable {t u : List (Event (Processing ρ κ))}

/-- What is sent for a message that was acknowledged. -/
def replies (routeTo : String → ρ) (e : Envelope) (consumed : Consumed ρ) : List (Letter ρ) :=
  match consumed.reply with
  | none => []
  | some payload =>
    (if e.replyTo ≠ "" then [⟨payload, routeTo e.replyTo, none⟩] else []) ++
      consumed.targets.map fun target => ⟨payload, target, none⟩

/-- What follows a message that was consumed. -/
def followUps (routeTo : String → ρ) (consumed : ConsumeResult ρ) : List (Letter ρ) :=
  match consumed.2 with
  | .ok (some produced) => replies routeTo consumed.1 produced
  | _ => []

/-- Everything that is sent is one of these letters, under a correlation id. -/
structure Sends (id : String) (letters : List (Letter ρ)) (t : List (Event (Processing ρ κ))) :
    Prop where
  letters : (sent (publishing.events t)).map (·.letter) = letters
  under : ∀ m ∈ sent (publishing.events t), m.Under id

theorem Sends.append {id : String} {letters more : List (Letter ρ)} (h : Sends id letters t)
    (h' : Sends id more u) : Sends id (letters ++ more) (t ++ u) := by
  have happend : sent (publishing.events (t ++ u)) =
      sent (publishing.events t) ++ sent (publishing.events u) := by
    rw [publishing.events_append]
    exact List.filterMap_append
  refine ⟨?_, ?_⟩
  · rw [happend, List.map_append, h.letters, h'.letters]
  · rw [happend]
    exact List.forall_mem_append.mpr ⟨h.under, h'.under⟩

theorem sends_nil {id : String} (h : publishing.events t = []) : Sends id [] t := by
  constructor <;> simp [h, sent]

variable {publisher : Publisher ρ κ} (hplain : publisher.middlewares = [])
  {routeTo : String → ρ} {e : Envelope} {consumed : Consumed ρ} {id : String} (hid : id ≠ "")
include hplain hid

theorem sends_publish {route : ρ} {payload : Payload} {result : Except PublisherError Unit}
    (h : Runs (Program.expand ofPublishing
      (publisher.publish ((Message.new route payload).withCorrelationId id))) t result)
    (hfair : ∀ ev ∈ publishing.events t, Fair ev) :
    result = .ok () ∧ Sends id [⟨payload, route, none⟩] t := by
  obtain ⟨hok, fresh, now, hfresh, hsent⟩ :=
    Publisher.sent_publish hplain (publishing.runs_events h) hfair
  refine ⟨hok, by rw [hsent]; rfl, ?_⟩
  rw [hsent]
  refine List.forall_mem_singleton.mpr ?_
  exact Message.under_complete_of_correlationId hfresh now nofun rfl hid

theorem sends_forward {payload : Payload} {call : Nat} {targets : List ρ} {i : Nat}
    (h : Runs (forward publisher id payload call targets i) t ())
    (hfair : ∀ ev ∈ publishing.events t, Fair ev) :
    Sends id (targets.map fun target => ⟨payload, target, none⟩) t := by
  induction targets generalizing i t with
  | nil =>
    obtain ⟨rfl, -⟩ := runs_done_iff.mp h
    exact sends_nil rfl
  | cons target targets ih =>
    obtain ⟨⟨⟩, u, rfl, hnoted⟩ := runs_perform_bind h
    obtain ⟨u, v, result, rfl, hpublish, hpublished⟩ := runs_bind_iff.mp hnoted
    have hsame : publishing.events (⟨.recordForwarded call i payload, ()⟩ :: (u ++ v)) =
        publishing.events u ++ publishing.events v :=
      publishing.events_append (⟨.recordForwarded call i payload, ()⟩ :: u) v
    rw [hsame] at hfair
    obtain ⟨hu, hv⟩ := List.forall_mem_append.mp hfair
    obtain ⟨rfl, hsends⟩ := sends_publish hplain hid hpublish hu
    have hall := hsends.append (ih hpublished hv)
    exact ⟨hall.letters, hall.under⟩

/-- The reply goes to whoever asked for it, and then to the targets. -/
theorem sends_propagate (he : e.correlationId = id)
    (h : Runs (propagate publisher routeTo e consumed) t ())
    (hfair : ∀ ev ∈ publishing.events t, Fair ev) : Sends id (replies routeTo e consumed) t := by
  subst he
  unfold propagate at h
  unfold replies
  cases hreply : consumed.reply with
  | none =>
    simp only [hreply] at h ⊢
    obtain ⟨rfl, -⟩ := runs_done_iff.mp h
    exact sends_nil rfl
  | some payload =>
    simp only [hreply] at h ⊢
    by_cases hto : e.replyTo ≠ ""
    · rw [if_pos hto] at h ⊢
      obtain ⟨u, v, result, rfl, hpublish, hpublished⟩ := runs_bind_iff.mp h
      rw [publishing.events_append] at hfair
      obtain ⟨hu, hv⟩ := List.forall_mem_append.mp hfair
      obtain ⟨rfl, hsends⟩ := sends_publish hplain hid hpublish hu
      exact hsends.append (sends_forward hplain hid hpublished hv)
    · rw [if_neg hto] at h ⊢
      exact sends_forward hplain hid h hfair

/-- What is sent once a message that was consumed has been settled. -/
theorem sends_conclude {consumed : ConsumeResult ρ} (he : consumed.1.correlationId = id)
    {answer : Except AckError (Option Action)}
    (hanswer : consumed.2.isOk = true → answer = .ok (some .ack)) {out : ProcessingOutcome}
    (h : Runs (conclude publisher routeTo consumed.1 consumed.2 answer) t out)
    (hfair : ∀ ev ∈ publishing.events t, Fair ev) : Sends id (followUps routeTo consumed) t := by
  obtain ⟨env, result⟩ := consumed
  cases result with
  | error err =>
    have hnone : publishing.events t = [] := by
      cases answer with
      | error refusal =>
        obtain ⟨⟨⟩, u, rfl, hdone⟩ := runs_perform_bind h
        obtain ⟨rfl, -⟩ := runs_done_iff.mp hdone
        rfl
      | ok action =>
        cases err with
        | interrupt signal =>
          obtain ⟨rfl, -⟩ := runs_done_iff.mp h
          rfl
        | failure type cause =>
          obtain ⟨⟨⟩, u, rfl, hdone⟩ := runs_perform_bind h
          obtain ⟨rfl, -⟩ := runs_done_iff.mp hdone
          rfl
    exact sends_nil hnone
  | ok consumed =>
    obtain rfl := hanswer rfl
    cases consumed with
    | none =>
      obtain ⟨rfl, -⟩ := runs_done_iff.mp h
      exact sends_nil rfl
    | some consumed =>
      obtain ⟨u, v, ⟨⟩, rfl, hpropagate, hdone⟩ := runs_bind_iff.mp h
      obtain ⟨rfl, -⟩ := runs_done_iff.mp hdone
      rw [List.append_nil] at hfair ⊢
      exact sends_propagate hplain hid he hpropagate hfair

end Processing

/-! ## The course of a message -/

open Processing

theorem Processing.sends_of_silent {ρ κ : Type} {id : String} {t : List (Event (Processing ρ κ))}
    (h : ∀ ev ∈ t, ev.op.sends = false) : Sends id [] t := by
  have hnone : sent (publishing.events t) = [] := by
    refine List.filterMap_eq_nil_iff.mpr fun ev hev => ?_
    obtain ⟨ev', hev', hsame⟩ := List.mem_filterMap.mp hev
    obtain ⟨op, answer⟩ := ev'
    have hop := h _ hev'
    cases op with
    | publishing op =>
      obtain rfl := Option.some.inj hsame
      cases op with
      | send m => cases hop
      | _ => rfl
    | _ => cases hsame
  constructor <;> simp [hnone]

section
variable {P : Protocol} {κ : Type} {s : Subscriber P κ} {publisher : Publisher P.Route κ}
  {raw : P.Raw} {t : List (Event (Processing P.Route κ))} {out : ProcessingOutcome} {id : String}

/-- Of all the course of a message, what follows it comes at the end. -/
theorem Course.sends (c : Course s publisher raw t out) (hplain : publisher.middlewares = [])
    (hid : id ≠ "") (he : c.consumed.1.correlationId = id)
    (hanswer : c.consumed.2.isOk = true → c.answer = .ok (some .ack))
    (hfair : ∀ ev ∈ publishing.events t, Fair ev) :
    Sends id (followUps P.routeTo c.consumed) t := by
  have hbefore : Sends id [] (c.before ++ [c.exit]) := by
    refine sends_of_silent (List.forall_mem_append.mpr ⟨?_, List.forall_mem_singleton.mpr rfl⟩)
    refine List.forall_mem_cons.mpr ⟨rfl, List.forall_mem_append.mpr ⟨fun ev hev => ?_, ?_⟩⟩
    · exact sends_of_isAmbient _ (c.ambient_entering ev hev)
    · refine List.forall_mem_cons.mpr ⟨rfl, List.forall_mem_cons.mpr ⟨rfl, fun ev hev => ?_⟩⟩
      exact sends_of_isOfConsuming _ (c.refines.allowed within_carry ev hev)
  have hleaving : Sends id [] c.leaving :=
    sends_of_silent fun ev hev => sends_of_isAmbient _ (c.ambient_leaving ev hev)
  have hsplit : t = (c.before ++ [c.exit]) ++ (c.concluding ++ c.leaving) :=
    c.trace_split.trans (by simp)
  have hevents : publishing.events t = publishing.events (c.before ++ [c.exit]) ++
      (publishing.events c.concluding ++ publishing.events c.leaving) := by
    refine (congrArg publishing.events hsplit).trans ?_
    rw [publishing.events_append, publishing.events_append c.concluding]
  rw [hevents] at hfair
  have hconcluding := sends_conclude hplain hid he hanswer c.concludes fun ev hev =>
    hfair ev (List.mem_append_right _ (List.mem_append_left _ hev))
  have hall := hbefore.append (hconcluding.append hleaving)
  rw [List.nil_append, List.append_nil] at hall
  exact Eq.subst (motive := Sends id _) hsplit.symm hall

end
end MessageDispatch
