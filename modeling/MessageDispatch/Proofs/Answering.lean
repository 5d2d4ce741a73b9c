import MessageDispatch.Proofs.Reporting
import MessageDispatch.Proofs.Transmission

/-! What is sent after a message was settled. A reply goes to whoever waits for it and then to each
target of the call that gave it, one message each; what becomes of one of them changes nothing for
the others, for the settlement or for the outcome. -/
namespace MessageDispatch

namespace Processing

variable {ρ κ : Type}

/-! ## One message -/

/-- The operations of sending a message, from the id that it gets on. -/
def Op.publishes : Processing.Op ρ κ → Bool
  | .publishing (.ambient _) => false
  | .publishing _ | .recordForwarded .. => true
  | _ => false

/-- Is the message handed to the broker, which may take it or not? -/
def Op.attempts : Processing.Op ρ κ → Bool
  | .publishing .fate => true
  | _ => false

/-- How often a message is handed to the broker. -/
def attempts (t : List (Event (Processing ρ κ))) : Nat := t.countP (·.op.attempts)

/-- What passes between a publisher and the broker meanwhile. -/
def contacts (t : List (Event (Processing ρ κ))) : List (Contact ρ) :=
  Publishing.contacts (publishing.events t)

/-- What is sent after a message was settled: the reply to its sender, and the same to a target of
the call. -/
inductive Posting.Op (ρ : Type) where
  | reply (m : Message ρ)
  | forward (call target : Nat) (m : Message ρ)

abbrev Posting (ρ : Type) : Signature := ⟨Posting.Op ρ, fun _ => Except PublisherError Unit⟩

/-- Publish a message. A failure is logged. -/
def post (publisher : Publisher ρ κ) (m : Message ρ) (failure : String) :
    Program (Processing ρ κ) (Except PublisherError Unit) :=
  (Program.expand ofPublishing (publisher.publish m)).bind fun
    | .ok () => .done (.ok ())
    | .error e => (log .error failure).bind fun _ => .done (.error e)

def Posting.Op.message : Posting.Op ρ → Message ρ
  | .reply m | .forward _ _ m => m

/-- What is forwarded to a target is noted first. -/
def carryPost (publisher : Publisher ρ κ) :
    (op : Posting.Op ρ) → Program (Processing ρ κ) (Except PublisherError Unit)
  | .reply m => post publisher m "Failed to publish the reply"
  | .forward call target m =>
    (perform (.recordForwarded call target m.payload)).bind fun _ =>
      post publisher m "Failed to forward the reply to a chained publisher"

/-- One after the other, whatever becomes of them. -/
def posts : List (Posting.Op ρ) → Program (Posting ρ) Unit
  | [] => .done ()
  | op :: ops => .call op fun _ => posts ops

theorem ops_of_runs_posts {ops : List (Posting.Op ρ)} {s : List (Event (Posting ρ))}
    (h : Runs (posts ops) s ()) : s.map (·.op) = ops := by
  induction ops generalizing s with
  | nil =>
    obtain ⟨rfl, -⟩ := runs_done_iff.mp h
    rfl
  | cons op ops ih =>
    obtain ⟨answer, s, rfl, hrest⟩ := runs_call_iff.mp h
    rw [List.map_cons, ih hrest]

/-! ## The messages of an answer -/

/-- A message with a reply, for the same conversation. -/
def answerTo (e : Envelope) (payload : Payload) (route : ρ) : Message ρ :=
  (Message.new route payload).withCorrelationId e.correlationId

/-- What is sent for a reply: to whoever waits for it, if anybody does, and to the targets of the
call in the order of their registration. -/
def answers (routeTo : String → ρ) (e : Envelope) (payload : Payload) (call : Nat)
    (targets : List ρ) : List (Posting.Op ρ) :=
  (if e.replyTo = "" then [] else [.reply (answerTo e payload (routeTo e.replyTo))]) ++
    targets.zipIdx.map fun target => .forward call target.2 (answerTo e payload target.1)

theorem answers_congr {e e' : Envelope} {routeTo : String → ρ} (hreplyTo : e.replyTo = e'.replyTo)
    (hcorrelation : e.correlationId = e'.correlationId) (payload : Payload) (call : Nat)
    (targets : List ρ) :
    answers routeTo e payload call targets = answers routeTo e' payload call targets := by
  unfold answers answerTo
  rw [hreplyTo, hcorrelation]

section
variable (publisher : Publisher ρ κ) (routeTo : String → ρ) (e : Envelope) (payload : Payload)
  (call : Nat) (targets : List ρ)

/-- To publish and log a failure, and then go on. -/
theorem post_bind {α : Type} (m : Message ρ) (failure : String)
    (rest : Program (Processing ρ κ) α) :
    ((post publisher m failure).bind fun _ => rest) =
      (Program.expand ofPublishing (publisher.publish m)).bind fun
        | .ok () => rest
        | .error _ => (log .error failure).bind fun _ => rest := by
  rw [post, Program.bind_assoc]
  congr 1
  funext published
  cases published with
  | ok _ => rfl
  | error e => exact Program.bind_assoc _ _ _

theorem forward_eq (i : Nat) :
    forward publisher e.correlationId payload call targets i =
      (posts ((targets.zipIdx i).map fun target =>
        .forward call target.2 (answerTo e payload target.1))).expand (carryPost publisher) := by
  induction targets generalizing i with
  | nil => rfl
  | cons target targets ih =>
    rw [forward, List.zipIdx_cons, List.map_cons, posts, Program.expand_call, ← ih (i + 1),
      carryPost, Program.bind_assoc]
    simp only [post_bind]
    rfl

theorem propagate_eq :
    propagate publisher routeTo e ⟨some payload, call, targets⟩ =
      (posts (answers routeTo e payload call targets)).expand (carryPost publisher) := by
  have hforward := forward_eq publisher e payload call targets 0
  by_cases hreply : e.replyTo = ""
  · simp only [propagate, answers, hreply, if_pos, List.nil_append]
    exact hforward
  · simp only [propagate, answers, if_neg hreply, List.cons_append, List.nil_append, posts,
      Program.expand_call, ← hforward, carryPost, post_bind]
    rw [if_pos hreply]
    rfl

end

/-- An answer keeps what it is about, whatever id and time it gets. -/
theorem complete_answerTo {e : Envelope} (hid : e.correlationId ≠ "") (payload : Payload)
    (route : ρ) (id : String) (now : UInt64) :
    (answerTo e payload route).complete id now =
      ⟨payload, route, none, some e.correlationId, some id, some now⟩ := by
  have hkept : (some e.correlationId).filter (· ≠ "") = some e.correlationId := by
    rw [Option.filter_some, if_pos (decide_eq_true hid)]
  simp only [answerTo, Message.new, Message.withCorrelationId, Message.complete, hkept]
  rfl

/-! ## One attempt for each message -/

theorem attempts_eq_countP (t : List (Event (Processing ρ κ))) :
    attempts t = (contacts t).countP (·.isAttempt) := by
  induction t with
  | nil => rfl
  | cons ev t ih =>
    obtain ⟨op, answer⟩ := ev
    have hcontacts : contacts (⟨op, answer⟩ :: t) = contacts [⟨op, answer⟩] ++ contacts t := by
      have hevents := publishing.events_append [⟨op, answer⟩] t
      exact (congrArg Publishing.contacts hevents).trans List.flatMap_append
    have hone : (contacts [⟨op, answer⟩]).countP (·.isAttempt) = op.attempts.toNat := by
      cases op with
      | publishing op => cases op <;> rfl
      | _ => rfl
    rw [hcontacts, List.countP_append, hone, ← ih, attempts, attempts, List.countP_cons]
    cases op.attempts <;> simp [Nat.add_comm]

/-- What is done to send a message is to publish it; all else is to note and to log. -/
theorem runs_publish_of_carryPost {publisher : Publisher ρ κ} {op : Posting.Op ρ}
    {t : List (Event (Processing ρ κ))} {result : Except PublisherError Unit}
    (h : Runs (carryPost publisher op) t result) :
    Runs (publisher.publish op.message) (publishing.events t) result := by
  have hpost {m : Message ρ} {failure : String} {u : List (Event (Processing ρ κ))}
      (hu : Runs (post publisher m failure) u result) :
      Runs (publisher.publish m) (publishing.events u) result := by
    obtain ⟨u, v, published, rfl, hpublish, hrest⟩ := runs_bind_iff.mp hu
    have hlogged : publishing.events v = [] ∧ published = result := by
      cases published with
      | ok _ =>
        obtain ⟨rfl, rfl⟩ := runs_done_iff.mp hrest
        exact ⟨rfl, rfl⟩
      | error e =>
        obtain ⟨⟨⟩, w, rfl, hdone⟩ := runs_call_iff.mp hrest
        obtain ⟨rfl, rfl⟩ := runs_done_iff.mp hdone
        exact ⟨rfl, rfl⟩
    obtain ⟨hlogged, rfl⟩ := hlogged
    rw [publishing.events_append, hlogged, List.append_nil]
    exact publishing.runs_events hpublish
  cases op with
  | reply m => exact hpost h
  | forward call target m =>
    obtain ⟨⟨⟩, v, rfl, hpublish⟩ := runs_perform_bind h
    have hpublished := hpost hpublish
    exact hpublished

/-! ## What was replied -/

section
variable {subscription : String} {shortCircuit : Bool} {cs : List (Numbered ρ κ)} {e : Envelope}
  {s : List (Event (Offering ρ κ))} {out : ConsumeResult ρ}

/-- What calls are asked after one has succeeded can only come to a failure. -/
theorem Offered.stands_again {earlier : Consumed ρ}
    (h : Offered subscription shortCircuit cs e (some earlier) s out) :
    out.2 = .ok (some earlier) ∨ ∃ type cause, out.2 = .error (.failure type cause) := by
  generalize hc : some earlier = consumed at h
  induction h with
  | finished => exact .inl (by rw [← hc])
  | undecodable => exact .inr ⟨_, _, rfl⟩
  | refused rest ih => exact ih hc
  | ambiguous => exact .inr ⟨_, _, rfl⟩
  | last | succeeded | stopped | failed => cases hc

/-- What a call replied is the result, unless a call after it fails the message. -/
theorem Offered.stands (h : Offered subscription shortCircuit cs e none s out)
    {c : Numbered ρ κ} {incoming : Incoming} {reply : Reply}
    (hv : (c, incoming, .ok reply) ∈ invocations s) :
    out.2 = .ok (some ⟨reply, c.2, c.1.targets⟩) ∨
      ∃ type cause, out.2 = .error (.failure type cause) := by
  generalize hc : none = consumed at h
  induction h with
  | refused rest ih => exact ih (by simpa [invocations, asking] using hv) hc
  | last =>
    cases List.mem_singleton.mp hv
    exact .inl rfl
  | @succeeded c cs e body reply s out hshort rest ih =>
    have hinvocations : invocations (taking c e body subscription (.ok reply) s) =
        [(c, ⟨e.withDecoded body, subscription⟩, .ok reply)] :=
      congrArg (List.cons _) rest.none_runs
    rw [hinvocations] at hv
    cases List.mem_singleton.mp hv
    exact rest.stands_again
  | _ => simp [invocations, asking, taking] at hv

end

/-- No failure ends with an acknowledgement. -/
theorem instruction_of_failure (w : Watcher) (id : String) (type : ErrorType) (cause : Cause)
    {α : Type} :
    Attempt.instruction w id (.ofResult (.error (.failure type cause) : Except HandlerError α)) ≠
      some .ack := by
  cases type with
  | fatal => simp [Outcome.ofResult, Attempt.instruction]
  | _ =>
    simp only [Outcome.ofResult, Attempt.instruction]
    split <;> simp

/-! ## What a conclusion sends -/

section
variable {publisher : Publisher ρ κ} {routeTo : String → ρ} {e : Envelope}
  {t : List (Event (Processing ρ κ))} {out : ProcessingOutcome}

/-- After an acknowledgement the answer is sent, and whatever becomes of it the outcome is good. -/
theorem posts_of_conclude {payload : Payload} {call : Nat} {targets : List ρ}
    (h : Runs (conclude publisher routeTo e (.ok (some ⟨some payload, call, targets⟩))
      (.ok (some .ack))) t out) :
    out = ⟨.ok (), some .ack⟩ ∧ ∃ s : List (Event (Posting ρ)), Refines (carryPost publisher) s t ∧
      s.map (·.op) = answers routeTo e payload call targets := by
  obtain ⟨u, v, ⟨⟩, rfl, hpropagate, hdone⟩ := runs_bind_iff.mp h
  obtain ⟨rfl, rfl⟩ := runs_done_iff.mp hdone
  rw [propagate_eq] at hpropagate
  obtain ⟨s, hs, hposts⟩ := exists_refines_of_runs hpropagate
  rw [List.append_nil]
  exact ⟨rfl, s, hs, ops_of_runs_posts hposts⟩

/-- Once the broker has let the attempt end, the outcome is not that it did not. -/
theorem result_of_accepted {result : Except HandlerError (Option (Consumed ρ))}
    {action : Option Action} (h : Runs (conclude publisher routeTo e result (.ok action)) t out)
    (err : AckError) : out.result ≠ .error (.ack err) := by
  rcases result with (signal | ⟨type, cause⟩) | consumed
  · obtain ⟨-, rfl⟩ := runs_done_iff.mp h
    simp
  · obtain ⟨⟨⟩, u, rfl, hdone⟩ := runs_perform_bind h
    obtain ⟨-, rfl⟩ := runs_done_iff.mp hdone
    simp
  · unfold conclude at h
    dsimp only at h
    split at h
    · obtain ⟨u, v, ⟨⟩, rfl, -, hdone⟩ := runs_bind_iff.mp h
      obtain ⟨-, rfl⟩ := runs_done_iff.mp hdone
      simp
    · obtain ⟨-, rfl⟩ := runs_done_iff.mp h
      simp

/-- Without an acknowledgement or a reply nothing is sent. -/
theorem publishes_of_conclude {result : Except HandlerError (Option (Consumed ρ))}
    {answer : Except AckError (Option Action)}
    (h : Runs (conclude publisher routeTo e result answer) t out)
    (hsilent : answer ≠ .ok (some .ack) ∨ ∀ consumed, result = .ok (some consumed) →
      consumed.reply = none) : ∀ ev ∈ t, ev.op.publishes = false := by
  have hlog {level : LogLevel} {text : String} {outcome : ProcessingOutcome} :
      ((log level text).bind fun _ => (.done outcome : Program (Processing ρ κ) _)).Within
        fun op => Op.publishes op = false :=
    Program.within_bind (within_perform rfl) fun _ => trivial
  have hwithin : (conclude publisher routeTo e result answer).Within
      fun op => Op.publishes op = false := by
    cases answer with
    | error err => exact hlog
    | ok action =>
      rcases result with (signal | ⟨type, cause⟩) | consumed
      · trivial
      · exact hlog
      · unfold conclude
        dsimp only
        split
        · rename_i consumed
          have hreply : consumed.reply = none :=
            hsilent.resolve_left (fun hne => hne rfl) consumed rfl
          unfold propagate
          rw [hreply]
          trivial
        · trivial
  exact h.allowed hwithin

end

theorem publishes_of_isAmbient (op : Processing.Op ρ κ) (h : op.isAmbient = true) :
    op.publishes = false := by
  cases op with
  | publishing op =>
    cases op with
    | ambient op => rfl
    | _ => cases h
  | _ => cases h

theorem publishes_of_isOfConsuming (op : Processing.Op ρ κ) (h : op.isOfConsuming = true) :
    op.publishes = false := by
  cases op with
  | publishing op =>
    cases op with
    | ambient op => rfl
    | _ => cases h
  | recordForwarded => cases h
  | _ => rfl

end Processing

open Processing

/-! ## The answer to a message -/

section
variable {P : Protocol} {κ : Type} {s : Subscriber P κ} {publisher : Publisher P.Route κ}
  {raw : P.Raw} {t : List (Event (Processing P.Route κ))} {out : ProcessingOutcome}
  {e : Engine P κ} {st : Engine P κ × Scope} {ref : SubscriberRef}
  {others : Engine P κ → Engine P κ → Prop}

/-- An attempt that the broker lets end comes to the instruction of its outcome. -/
theorem Course.answer_of_ok {scope : Scope} (c : Course s publisher raw t out)
    (h : Engine.Performed others (e, scope) t st) {action : Option Action}
    (hok : c.answer = .ok action) :
    ∃ w : Watcher, action = Attempt.instruction w c.id (.ofResult c.consumed.2) := by
  rw [c.trace_split] at h
  obtain ⟨⟨e₁, scope₁⟩, -, h⟩ := h.split
  obtain ⟨e₂, -, hexit, -⟩ := h.uncons
  have hresult : (e₂.ending scope₁ c.id (.ofResult c.consumed.2)).result = .ok action :=
    hexit.trans hok
  exact ⟨_, (Attempt.watcher_exit hresult).1⟩

/-- An answer goes out once to each destination, whatever becomes of it. -/
structure Answered (c : Course s publisher raw t out) (earlier settlement : Option Action) : Prop
    where
  acked : c.answer = .ok (some .ack) ↔
    out.action = some .ack ∧ ∀ err, out.result ≠ .error (.ack err)
  /-- The reply of an acked message is sent as it should be: first to whoever waits for it, then to
  the targets of the call. Nothing that happens on the way keeps the rest from being sent. -/
  replied : c.answer = .ok (some .ack) → ∀ call incoming payload,
    (call, incoming, .ok (some payload)) ∈ invocations c.steps →
      out = ⟨.ok (), some .ack⟩ ∧ ∃ sent : List (Event (Posting P.Route)),
        Refines (carryPost publisher) sent c.concluding ∧
        sent.map (·.op) =
          answers P.routeTo (s.parse c.fresh raw) payload call.2 call.1.targets
  /-- Each of these messages is handed to the broker once at most, -/
  once : ∀ op u result, Runs (carryPost publisher op) u result → attempts u ≤ 1
  /-- and one that arrives in time is sent, whatever the middlewares of the publisher do. -/
  handed : ∀ op u result, Runs (carryPost publisher op) u result →
    Contact.AtMostOnce publisher.timeoutMs (contacts u)
  /-- Without them each is handed over exactly once, as it was to be sent. -/
  plain : publisher.middlewares = [] → ∀ op u result, Runs (carryPost publisher op) u result →
    ∃ (fate : Fate) (fresh : String) (now : UInt64),
      contacts u = .attempted fate :: (if fate.arrives publisher.timeoutMs then
        [.sent (op.message.complete fresh now)] else []) ∧
      result = fate.result publisher.timeoutMs
  /-- They all belong to the conversation of the message. -/
  conversation : (s.parse c.fresh raw).correlationId ≠ "" → ∀ payload (route : P.Route) id now,
    (answerTo (s.parse c.fresh raw) payload route).complete id now =
      ⟨payload, route, none, some (s.parse c.fresh raw).correlationId, some id, some now⟩
  /-- Nothing is sent, or noted to be sent, without both an acknowledgement and a reply. -/
  silent : c.answer ≠ .ok (some .ack) ∨
      (∀ call incoming payload, (call, incoming, .ok (some payload)) ∉ invocations c.steps) →
    ∀ ev ∈ c.concluding, ev.op.publishes = false
  /-- Before the settlement only the id is drawn that the message gets if it brings none, and
  afterwards nothing is sent but the answer. -/
  confined : ∃ before, c.before ++ [c.exit] = ⟨.publishing .freshId, c.fresh⟩ :: before ∧
    ∀ ev ∈ before ++ c.leaving, ev.op.publishes = false
  /-- What comes after the settlement does not change it. -/
  settled : settlement = earlier.or ((c.before ++ [c.exit]).findSome? settledWith?)

theorem Course.confined (c : Course s publisher raw t out) :
    ∃ before, c.before ++ [c.exit] = ⟨.publishing .freshId, c.fresh⟩ :: before ∧
      ∀ ev ∈ before ++ c.leaving, ev.op.publishes = false := by
  refine ⟨(c.entering ++ ⟨.enter c.id, ()⟩ :: ⟨.calls, c.calls⟩ :: c.consuming) ++ [c.exit],
    rfl, ?_⟩
  intro ev hev
  simp only [List.mem_append, List.mem_cons, List.not_mem_nil, or_false] at hev
  rcases hev with ((hev | rfl | rfl | hev) | rfl) | hev
  · exact publishes_of_isAmbient _ (c.ambient_entering ev hev)
  · rfl
  · rfl
  · exact publishes_of_isOfConsuming _ (c.refines.allowed within_carry ev hev)
  · rfl
  · exact publishes_of_isAmbient _ (c.ambient_leaving ev hev)

theorem Course.findSome?_settledWith?_until (c : Course s publisher raw t out) :
    t.findSome? settledWith? = (c.before ++ [c.exit]).findSome? settledWith? := by
  have hsplit : t = (c.before ++ [c.exit]) ++ (c.concluding ++ c.leaving) :=
    c.trace_split.trans (by simp)
  have hafter := findSome?_settledWith?_eq_none c.settles_after
  calc t.findSome? settledWith?
      = ((c.before ++ [c.exit]) ++ (c.concluding ++ c.leaving)).findSome? settledWith? :=
        congrArg _ hsplit
    _ = (c.before ++ [c.exit]).findSome? settledWith? := by
        rw [List.findSome?_append, hafter, Option.or_none]

theorem Course.acked_iff (c : Course s publisher raw t out) : c.answer = .ok (some .ack) ↔
    out.action = some .ack ∧ ∀ err, out.result ≠ .error (.ack err) := by
  constructor
  · intro hanswer
    have hconcludes := c.concludes
    rw [hanswer] at hconcludes
    exact ⟨action_of_accepted hconcludes, result_of_accepted hconcludes⟩
  · rintro ⟨haction, hsettled⟩
    rw [c.answer_eq_action hsettled, haction]

/-- What the run of a message comes to if it was acked and a call replied. -/
theorem Course.consumed_eq {scope : Scope} (c : Course s publisher raw t out)
    (h : Engine.Performed others (e, scope) t st) (hacked : c.answer = .ok (some .ack))
    {call : Numbered P.Route κ} {incoming : Incoming} {reply : Reply}
    (hv : (call, incoming, .ok reply) ∈ invocations c.steps) :
    c.consumed.2 = .ok (some ⟨reply, call.2, call.1.targets⟩) := by
  rcases c.offered.stands hv with hstands | ⟨type, cause, hfailed⟩
  · exact hstands
  · obtain ⟨w, hw⟩ := c.answer_of_ok h hacked
    rw [hfailed] at hw
    exact absurd hw.symm (instruction_of_failure w c.id type cause)

theorem Course.replied {scope : Scope} (c : Course s publisher raw t out)
    (h : Engine.Performed others (e, scope) t st) (hacked : c.answer = .ok (some .ack))
    {call : Numbered P.Route κ} {incoming : Incoming} {payload : Payload}
    (hv : (call, incoming, .ok (some payload)) ∈ invocations c.steps) :
    out = ⟨.ok (), some .ack⟩ ∧ ∃ sent : List (Event (Posting P.Route)),
      Refines (carryPost publisher) sent c.concluding ∧
      sent.map (·.op) =
        answers P.routeTo (s.parse c.fresh raw) payload call.2 call.1.targets := by
  have hconcludes := c.concludes
  rw [hacked, c.consumed_eq h hacked hv] at hconcludes
  obtain ⟨hout, sent, hsent, hops⟩ := posts_of_conclude hconcludes
  -- an answer goes by what decoding and processing do not change of the message
  have hkept := (c.offered.keeps (f := fun e => (e.replyTo, e.correlationId)) (fun _ _ => rfl)
    fun _ => rfl).1
  obtain ⟨hreplyTo, hcorrelation⟩ := Prod.mk.inj hkept
  exact ⟨hout, sent, hsent, hops.trans (answers_congr hreplyTo hcorrelation ..)⟩

theorem Course.silent (c : Course s publisher raw t out)
    (h : c.answer ≠ .ok (some .ack) ∨
      ∀ call incoming payload, (call, incoming, .ok (some payload)) ∉ invocations c.steps) :
    ∀ ev ∈ c.concluding, ev.op.publishes = false := by
  refine publishes_of_conclude c.concludes (h.imp_right ?_)
  intro hnone consumed hconsumed
  rcases c.offered.replied hconsumed with hc | ⟨⟨call, incoming, handled⟩, hv, hok, -⟩
  · cases hc
  · cases hreply : consumed.reply with
    | none => rfl
    | some payload =>
      obtain rfl : handled = .ok (some payload) := hok.trans (congrArg _ hreply)
      exact absurd hv (hnone call incoming payload)

/-- Whatever becomes of the messages of an answer, they are sent one after the other to each
destination, after the message was settled, and change neither that nor the outcome. -/
theorem Subscriber.answers_once {d : Nat} {a : Acker}
    (hfaithful : ∀ m ∈ s.telemetry, Faithful m) (hruns : Runs (s.process publisher raw) t out)
    (hleaves : ∀ e e', others e e' → Engine.Leaves d e e')
    (hperformed : Engine.Performed others (e, ⟨ref, d, some none⟩) t st)
    (hacker : e.acker? d = some a) :
    Nonempty (Course s publisher raw t out) ∧
      ∀ c : Course s publisher raw t out, Answered c a.settlement (st.1.settlement? d) := by
  refine ⟨Subscriber.nonempty_course hfaithful hruns, fun c => {
    acked := c.acked_iff
    replied := fun hacked _ _ _ hv => c.replied hperformed hacked hv
    once := fun op u _ hrun => by
      rw [attempts_eq_countP]
      exact (Publisher.atMostOnce_publish (runs_publish_of_carryPost hrun)).countP_isAttempt_le
    handed := fun _ _ _ hrun => Publisher.atMostOnce_publish (runs_publish_of_carryPost hrun)
    plain := fun hplain _ _ _ hrun =>
      Publisher.contacts_publish hplain (runs_publish_of_carryPost hrun)
    conversation := fun hid payload route id now => complete_answerTo hid payload route id now
    silent := c.silent
    confined := c.confined
    settled := ?_ }⟩
  rw [Engine.settlement?, hperformed.acker? hleaves rfl hacker, Option.bind_some,
    c.findSome?_settledWith?_until]

end

/-! ## A reply that reaches only the last of its destinations -/

/-- A subscriber whose handler replies, and whose replies are forwarded to two more subjects. -/
def replying : Subscriber Broker.nats.protocol Unit :=
  { failing .never with
    calls := [{
      body := .handler [] fun _ => .done (.ok (some (.text "done")))
      filter := .notProcessed
      decoder := .byContentType
      targets := [(⟨"archive"⟩ : Nats.Route), ⟨"audit"⟩]
      info := ⟨"replying", none, none⟩ }] }

/-- The broker refuses the first attempt to publish, and does not answer the second. -/
def replyingStart : Engine Broker.nats.protocol Unit × Scope :=
  (({ Engine.new 0 () with
      subscribers := [replying]
      weather := ⟨[.refused (.publish "full"), .lost], 0, 0, 0⟩ }.addDelivery
    ⟨.ofBackend true, .nowhere⟩).2, ⟨.member 0, 0, some none⟩)

def replyingTrace : List (Event (Processing Broker.nats.protocol.Route Unit)) :=
  (replying.process ⟨[], 0⟩ question).trace Engine.execProcessing replyingStart

/-- The group after that. -/
def replyingEnd : Engine Broker.nats.protocol Unit × Scope :=
  ((replying.process ⟨[], 0⟩ question).run Engine.execProcessing replyingStart).2

theorem answers_once_replying : attempts replyingTrace = 3 ∧
    Nonempty (Course replying ⟨[], 0⟩ question replyingTrace ⟨.ok (), some .ack⟩) ∧
      ∀ c : Course replying ⟨[], 0⟩ question replyingTrace ⟨.ok (), some .ack⟩,
        Answered c none (replyingEnd.1.settlement? 0) := by
  have hperformed : Engine.Performed Eq replyingStart replyingTrace replyingEnd :=
    .of_run (fun _ => rfl) _ _
  refine ⟨rfl, ?_⟩
  exact Subscriber.answers_once (s := replying) (d := 0) (a := .ofBackend true)
    (by simp [replying, failing]) (.of_run ..) (by rintro _ _ rfl; rfl) hperformed rfl

end MessageDispatch
