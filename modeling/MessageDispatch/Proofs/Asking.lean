import MessageDispatch.Proofs.Requests
import MessageDispatch.Proofs.Tasks

/-! What a client does when it makes a request. It registers one correlation id, once, waits under
the handle that it got, and withdraws in every case; a request that is refused does nothing more.
Whatever else a client may do leaves the reply table alone. -/
namespace MessageDispatch
namespace Calling

variable {ρ κ α β : Type}

/-- Is the operation one on the reply table? -/
def Op.isOfTable : Calling.Op ρ κ → Bool
  | .register _ | .awaitReply .. | .withdraw .. => true
  | _ => false

/-- A program that leaves the reply table alone. -/
def Plain (p : Program (Calling ρ κ) α) : Prop :=
  p.Within fun op : Calling.Op ρ κ => op.isOfTable = false

/-! ## Programs that leave the reply table alone -/

theorem plain_perform {op : Calling.Op ρ κ} (h : op.isOfTable = false) : Plain (perform op) :=
  ⟨h, fun _ => trivial⟩

theorem plain_ofPublishing (p : Program (Publishing ρ κ) α) : Plain (p.expand ofPublishing) := by
  refine Program.within_expand ?_ p
  intro op
  exact ⟨rfl, fun _ => trivial⟩

theorem plain_each {act : α → Program (Calling ρ κ) Unit} (hact : ∀ a, Plain (act a))
    (as : List α) : Plain (each act as) := by
  induction as with
  | nil => trivial
  | cons a as ih => exact Program.within_bind (hact a) fun _ => ih

theorem plain_start : Plain (start : Program (Calling ρ κ) _) := by
  refine Program.within_bind (plain_perform rfl) fun _ => ?_
  refine Program.within_bind (plain_perform rfl) ?_
  intro connected
  cases connected with
  | error e => exact Program.within_bind (plain_perform rfl) fun _ => trivial
  | ok _ =>
    refine Program.within_bind (plain_perform rfl) fun started => ?_
    refine Program.within_bind (plain_each (fun _ => plain_perform rfl) started) fun _ => ?_
    exact Program.within_bind (plain_perform rfl) fun _ => trivial

theorem plain_close : Plain (close : Program (Calling ρ κ) Unit) := by
  refine Program.within_bind (plain_perform rfl) fun _ => ?_
  refine Program.within_bind (plain_perform rfl) fun stopped => ?_
  refine Program.within_bind (plain_each (fun _ => plain_perform rfl) stopped) fun _ => ?_
  exact Program.within_bind (plain_perform rfl) fun _ => plain_perform rfl

theorem plain_runUntil (flag : Nat) : Plain (runUntil flag : Program (Calling ρ κ) _) := by
  refine Program.within_bind plain_start ?_
  intro started
  cases started with
  | error e => trivial
  | ok _ =>
    refine Program.within_bind (plain_perform rfl) fun _ => ?_
    exact Program.within_bind plain_close fun _ => trivial

theorem plain_publishAll (publisher : Publisher ρ κ) (ms : List (Message ρ)) :
    Plain (publishAll publisher ms) := by
  induction ms with
  | nil => trivial
  | cons m ms ih =>
    refine Program.within_bind (plain_ofPublishing _) fun _ => ?_
    exact Program.within_bind ih fun _ => trivial

theorem plain_replyInbox : Plain (replyInbox : Program (Calling ρ κ) _) := by
  refine Program.within_bind (plain_perform rfl) fun _ => ?_
  refine Program.within_bind (plain_perform rfl) ?_
  intro connected
  cases connected with
  | error e => exact Program.within_bind (plain_perform rfl) fun _ => trivial
  | ok _ =>
    refine Program.within_bind (plain_perform rfl) fun opened => ?_
    refine Program.within_bind (plain_each (fun _ => plain_perform rfl) _) fun _ => ?_
    exact Program.within_bind (plain_perform rfl) fun _ => trivial

/-! ## A request -/

/-- What a request comes to. -/
abbrev Replied := Except PublisherError (Option Decoded)

/-- How far a request has got. -/
inductive Phase where
  | asking
  /-- Its correlation id was taken. -/
  | refused (id : String)
  | holding (id : String) (handle : Nat)
  /-- It has waited, and is yet to withdraw. -/
  | told (id : String) (handle : Nat) (status : ReplyStatus)
  /-- It has given its registration up, having been told how that stood if it waited. -/
  | withdrawn (status : Option ReplyStatus)

namespace Phase

/-- The operations that a request may come to next; `own` are the correlation ids it may have. -/
def Allows (own : String → Prop) : Phase → Calling.Op ρ κ → Prop
  | .asking, .register id => own id
  | .holding _ handle, .awaitReply handle' _ => handle' = handle
  | .holding id handle, .withdraw id' handle' => id' = id ∧ handle' = handle
  | .told id handle _, .withdraw id' handle' => id' = id ∧ handle' = handle
  | .asking, op => op.isOfTable = false
  | .holding .., op => op.isOfTable = false
  | _, _ => False

def after : Phase → (op : Calling.Op ρ κ) → Calling.Answer op → Phase
  | .asking, .register id, some handle => .holding id handle
  | .asking, .register id, none => .refused id
  | .holding id handle, .awaitReply .., status => .told id handle status
  | .holding .., .withdraw .., _ => .withdrawn none
  | .told _ _ status, .withdraw .., _ => .withdrawn (some status)
  | phase, _, _ => phase

/-- Only what it does to the reply table gets a request further. -/
theorem after_plain {op : Calling.Op ρ κ} (hop : op.isOfTable = false) (phase : Phase)
    (answer : Calling.Answer op) : phase.after op answer = phase := by
  cases op <;> first | cases phase <;> rfl | cases hop

/-- What a request may end with: a reply only if it was told that reply. -/
def Ends : Phase → Replied → Prop
  | .asking, result => ∀ reply, result ≠ .ok reply
  | .refused id, result => result = .error (.generic (ReplyTable.duplicateText id))
  | .withdrawn status, result =>
    ∀ reply, result = .ok (some reply) → status = some (.answered reply)
  | _, _ => False

end Phase

/-- A program that goes on as a request in this phase does. -/
def Asks (own : String → Prop) : Phase → Program (Calling ρ κ) Replied → Prop
  | phase, .done result => phase.Ends result
  | phase, .call op next =>
    phase.Allows own op ∧ ∀ answer, Asks own (phase.after op answer) (next answer)

variable {own : String → Prop} {phase : Phase} {f : α → Program (Calling ρ κ) Replied}
  {p : Program (Calling ρ κ) α}

/-- A request may do other things before it registers, and while it is registered. -/
theorem asks_bind (hphase : phase = .asking ∨ ∃ id handle, phase = .holding id handle)
    (hp : Plain p) (hf : ∀ a, Asks own phase (f a)) : Asks own phase (p.bind f) := by
  induction p with
  | done a => exact hf a
  | call op next ih =>
    obtain ⟨hop, hnext⟩ := hp
    refine ⟨?_, fun answer => ?_⟩
    · rcases hphase with rfl | ⟨id, handle, rfl⟩ <;> cases op <;> first | rfl | cases hop
    rw [Phase.after_plain hop]
    exact ih answer (hnext answer)

/-- A request that is refused does nothing more. -/
theorem eq_of_asks_refused {p : Program (Calling ρ κ) Replied} {id : String}
    (h : Asks own (.refused id) p) :
    p = .done (.error (.generic (ReplyTable.duplicateText id))) := by
  cases p with
  | done result => exact congrArg Program.done h
  | call op _ => cases op <;> exact h.1.elim

/-- The correlation ids that a request for this message can have. -/
def Own (m : Message ρ) (id : String) : Prop :=
  ∃ fresh now, id = (m.complete fresh now).correlationText

/-- A correlation id that the sender has chosen is kept. -/
theorem Own.eq_of_correlationId {m : Message ρ} {id chosen : String} (h : Own m id)
    (hchosen : m.correlationId = some chosen) (hne : chosen ≠ "") : id = chosen := by
  obtain ⟨fresh, now, rfl⟩ := h
  simp [Message.correlationText, Message.complete, hchosen, Option.filter, hne]

theorem asks_exchange (publisher : Publisher ρ κ) (options : RequestOptions) (m : Message ρ)
    (handle : Nat) :
    Asks own (.holding m.correlationText handle) (exchange publisher options m handle) := by
  refine asks_bind (.inr ⟨_, _, rfl⟩) (plain_ofPublishing _) ?_
  intro published
  cases published with
  | error e => exact ⟨⟨rfl, rfl⟩, fun _ _ h => by cases h⟩
  | ok _ =>
    refine asks_bind (.inr ⟨_, _, rfl⟩) (plain_perform rfl) fun now => ?_
    refine ⟨rfl, fun status => ⟨⟨rfl, rfl⟩, fun _ reply h => ?_⟩⟩
    cases status with
    | answered reply' =>
      obtain rfl := Option.some.inj (Except.ok.inj h)
      rfl
    | abandoned => cases h
    | waiting =>
      have hnone : replyOf options.raiseTimeout .waiting ≠ .ok (some reply) := by
        cases options.raiseTimeout <;> nofun
      exact absurd h hnone

theorem asks_request (publisher : Publisher ρ κ) (options : RequestOptions) (m : Message ρ) :
    Asks (Own m) .asking (request publisher options m) := by
  refine asks_bind (.inl rfl) plain_replyInbox ?_
  intro opened
  cases opened with
  | error e => exact fun _ h => by cases h
  | ok inbox =>
    refine ⟨rfl, fun fresh => ⟨rfl, fun now => ⟨⟨fresh, now, rfl⟩, fun granted => ?_⟩⟩⟩
    cases granted with
    | none => rfl
    | some handle => exact asks_exchange publisher options _ handle

end Calling

/-! ## The step of a client -/

namespace Live

variable {P : Protocol} {κ α : Type} {l l' : Live P κ α}

theorem calm_connect (l : Live P κ α) : l.Calm l.connect.2 := by
  unfold connect
  split
  · exact .refl l
  · dsimp only
    split <;> exact .of_outline rfl (.refl _) rfl

theorem calm_dispatch (l : Live P κ α) (ref : SubscriberRef) : l.Calm (l.dispatch ref).2 := by
  unfold dispatch
  dsimp only
  split
  · split <;> exact .of_outline rfl (.refl _) rfl
  · exact .of_outline rfl (.refl _) rfl

theorem calm_dispatchEach (refs : List SubscriberRef) (l : Live P κ α) :
    l.Calm (dispatchEach refs l).2 := by
  induction refs generalizing l with
  | nil => exact .refl l
  | cons ref refs ih => exact (calm_dispatch l ref).trans (ih _)

theorem fits_inboxSubscriber (config : GroupConfig P.Route κ) (inbox : String) :
    SubscriberRef.inbox.Fits (inboxSubscriber config inbox) :=
  ⟨.inr rfl, fun _ => rfl⟩

theorem calm_openInbox (l : Live P κ α) : l.Calm l.openInbox.2 := by
  unfold openInbox
  split
  · exact .refl l
  · refine ⟨rfl, rfl, fun arrivals hm => hm.mono ?_ (fun _ _ => id) (.refl _)⟩
    intro ref s hs
    cases ref with
    | member i => exact hm.staffed (.member i) s hs
    | inbox =>
      obtain rfl := Option.some.inj hs
      exact fits_inboxSubscriber ..

/-- Only the operations on the reply table change it. -/
theorem calm_answer {i : Nat} {op : Calling.Op P.Route κ} {answer : Calling.Answer op}
    (hop : op.isOfTable = false) (h : l.answer i op = some (answer, l')) : l.Calm l' := by
  cases op with
  | publishing op =>
    obtain ⟨-, rfl⟩ := Prod.mk.inj (Option.some.inj h)
    exact .of_outline (Engine.outline_execPublishing ..) (.refl _) rfl
  | connect =>
    have hconnect := calm_connect l
    rw [Option.some.inj h] at hconnect
    exact hconnect
  | dispatchAll =>
    have hdispatch := calm_dispatchEach l.members l
    rw [Option.some.inj h] at hdispatch
    exact hdispatch
  | dispatchInbox =>
    obtain ⟨-, rfl⟩ := Prod.mk.inj (Option.some.inj h)
    exact (calm_openInbox l).trans (calm_dispatch ..)
  | register | awaitReply | withdraw => cases hop
  | acquire =>
    obtain ⟨-, h⟩ := Option.ite_none_left_eq_some.mp h
    obtain ⟨-, rfl⟩ := Prod.mk.inj (Option.some.inj h)
    exact .of_outline rfl (.refl _) rfl
  | finished d =>
    obtain ⟨-, h⟩ := Option.ite_none_right_eq_some.mp h
    obtain ⟨-, rfl⟩ := Prod.mk.inj (Option.some.inj h)
    exact .refl l
  | awaitFlag flag =>
    obtain ⟨-, h⟩ := Option.ite_none_right_eq_some.mp h
    obtain ⟨-, rfl⟩ := Prod.mk.inj (Option.some.inj h)
    exact .refl l
  | attempted d =>
    simp only [Live.answer] at h
    split at h
    · obtain ⟨-, rfl⟩ := Prod.mk.inj (Option.some.inj h)
      exact .refl l
    · split at h
      · obtain ⟨-, rfl⟩ := Prod.mk.inj (Option.some.inj h)
        exact .refl l
      · obtain ⟨-, rfl⟩ := Prod.mk.inj (Option.some.inj h)
        exact .refl l
      · cases h
  | release | shutDown | renew | raiseFlag =>
    obtain ⟨-, rfl⟩ := Prod.mk.inj (Option.some.inj h)
    exact .of_outline rfl (.refl _) rfl

/-- What an operation of a client does to the reply table and to what it is registered under. -/
inductive Turn {ρ κ : Type} (t : ReplyTable) (registered : Option (String × Nat)) :
    (op : Calling.Op ρ κ) → Calling.Answer op → ReplyTable → Option (String × Nat) → Prop where
  | plain {op : Calling.Op ρ κ} {answer : Calling.Answer op} (hop : op.isOfTable = false) :
      Turn t registered op answer t registered
  | granted {id : String} {handle : Nat} {t' : ReplyTable}
      (h : t.register id = (some handle, t')) :
      Turn t registered (.register id) (some handle) t' (some (id, handle))
  | refused {id : String} (h : t.register id = (none, t)) :
      Turn t registered (.register id) none t registered
  | told {handle deadline : Nat} :
      Turn t registered (.awaitReply handle deadline) (t.status handle) t registered
  | withdrawn {id : String} {handle : Nat} :
      Turn t registered (.withdraw id handle) () (t.drop id handle) none

theorem answer_cases {i : Nat} {c : Client P κ α} {op : Calling.Op P.Route κ}
    {answer : Calling.Answer op} (hc : l.clients[i]? = some c)
    (h : l.answer i op = some (answer, l')) :
    ∃ registered, Turn l.engine.replies c.registered op answer l'.engine.replies registered ∧
      l'.clients = l.clients.set i { c with registered := registered } ∧
        ∀ arrivals, l.Manned arrivals → l'.Manned arrivals := by
  have hmanned : ∀ replies clients arrivals, l.Manned arrivals →
      Manned { l with engine := { l.engine with replies := replies }, clients := clients }
        arrivals :=
    fun _ _ _ hm => hm.mono (hm.staffed.congr fun _ => rfl) (fun _ _ => id) (.refl _)
  cases hop : op.isOfTable with
  | false =>
    have hcalm := calm_answer hop h
    refine ⟨c.registered, ?_, ?_, hcalm.manned⟩
    · rw [hcalm.replies]
      exact .plain hop
    · rw [hcalm.clients]
      exact (set_self hc).symm
  | true =>
    cases op with
    | register id =>
      rcases ReplyTable.register_cases l.engine.replies id with hr | ⟨-, hr⟩ <;>
        simp only [Live.answer, hr, Option.some.injEq] at h <;>
        obtain ⟨rfl, rfl⟩ := Prod.mk.inj h
      · exact ⟨c.registered, .refused hr, (set_self hc).symm, fun _ hm => hm⟩
      · exact ⟨_, .granted hr, modify_eq_set hc, hmanned _ _⟩
    | awaitReply handle deadline =>
      simp only [Live.answer] at h
      split at h
      · rename_i hstatus
        obtain ⟨-, h⟩ := Option.ite_none_right_eq_some.mp h
        obtain ⟨rfl, rfl⟩ := Prod.mk.inj (Option.some.inj h)
        exact ⟨c.registered, hstatus ▸ .told, (set_self hc).symm, fun _ => id⟩
      · obtain ⟨rfl, rfl⟩ := Prod.mk.inj (Option.some.inj h)
        exact ⟨c.registered, .told, (set_self hc).symm, fun _ => id⟩
    | withdraw id handle =>
      obtain ⟨-, rfl⟩ := Prod.mk.inj (Option.some.inj h)
      exact ⟨none, .withdrawn, modify_eq_set hc, hmanned _ _⟩
    | _ => cases hop

/-- A client that takes a step goes on with what its operation comes to. -/
theorem stepClient_cases {i : Nat} (h : l.stepClient i = some l') :
    ∃ c op next answer wakeAt registered, l.clients[i]? = some c ∧ c.abandoned = false ∧
      c.program = .call op next ∧
        Turn l.engine.replies c.registered op answer l'.engine.replies registered ∧
          l'.clients = l.clients.set i ⟨wakeAt, next answer, registered, false⟩ ∧
            ∀ arrivals, l.Manned arrivals → l'.Manned arrivals := by
  obtain ⟨c, hc, h⟩ := Option.bind_eq_some_iff.mp h
  split at h
  · cases h
  · rename_i hawake
    have hhere : c.abandoned = false := by
      cases habandoned : c.abandoned with
      | false => rfl
      | true => simp [habandoned] at hawake
    split at h
    · cases h
    · rename_i ms next hprogram
      obtain rfl := Option.some.inj h
      refine ⟨c, _, next, (), l.now + ms, c.registered, hc, hhere, hprogram, .plain rfl, ?_, ?_⟩
      · rw [← hhere]
      · exact fun _ hm => hm.mono hm.staffed (fun _ _ => id) (.refl _)
    · rename_i op next _ hprogram
      obtain ⟨⟨answer, l₁⟩, hanswer, rfl⟩ := Option.map_eq_some_iff.mp h
      obtain ⟨registered, hturn, hclients, hmanned⟩ := answer_cases hc hanswer
      refine ⟨c, op, next, answer, c.wakeAt, registered, hc, hhere, hprogram, hturn, ?_, ?_⟩
      · have hset : l₁.clients[i]? = some { c with registered := registered } := by
          rw [hclients]
          exact (getElem?_set_iff hc).mpr (.inl ⟨rfl, rfl⟩)
        show l₁.clients.modify i _ = _
        rw [modify_eq_set hset, hclients, List.set_set, hhere]
      · exact fun arrivals hm => (hmanned arrivals hm).mono (hmanned arrivals hm).staffed
          (fun _ _ => id) (.refl _)

/-- A client that has got something is there, and at the end of its program. -/
theorem of_result? {i : Nat} {result : α} (h : l.result? i = some result) :
    ∃ c, l.clients[i]? = some c ∧ c.abandoned = false ∧ c.program = .done result := by
  obtain ⟨c, hc, h⟩ := Option.bind_eq_some_iff.mp h
  obtain ⟨hawake, h⟩ := Option.ite_none_left_eq_some.mp h
  refine ⟨c, hc, ?_, ?_⟩
  · cases habandoned : c.abandoned with
    | false => rfl
    | true => simp [habandoned] at hawake
  · split at h
    · rename_i hprogram
      rw [hprogram, Option.some.inj h]
    · cases h

end Live
end MessageDispatch
