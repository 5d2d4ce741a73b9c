import MessageDispatch.Proofs.Decoding
import MessageDispatch.Proofs.Matching
import MessageDispatch.Proofs.Queues
import MessageDispatch.Proofs.Reporting
import MessageDispatch.Proofs.Sending

/-! One correlation id on its way through a request: it is chosen when the request registers, goes
out with the question, comes in with the question wherever that is taken from its queue, goes out
again with the reply, and comes in with the reply at the inbox, which hands the reply over under
it. On the way it is filled in twice, and built and parsed twice, and nothing else that the messages
carry gets into its place. -/
namespace MessageDispatch

open Publishing (sent Fair)

/-! ## What a request does -/

namespace Calling

variable {ρ κ α : Type}

/-- The course of a request that comes to no error: it is registered and sent, and it waits. -/
structure Inquiry (publisher : Publisher ρ κ) (options : RequestOptions) (m : Message ρ)
    (t : List (Event (Calling ρ κ))) (result : Replied) where
  opening : List (Event (Calling ρ κ))
  /-- Where the reply is to go. -/
  inbox : String
  started : Option Nat
  fresh : String
  now : UInt64
  handle : Nat
  sending : List (Event (Calling ρ κ))
  time : Nat
  status : ReplyStatus
  opened : ⟨.dispatchInbox, (inbox, started)⟩ ∈ opening
  silent : publishing.events opening = []
  sends : Runs (publish publisher ((m.complete fresh now).withReplyTo inbox)) sending (.ok ())
  trace_eq : t = opening ++ ⟨.publishing .freshId, fresh⟩ :: ⟨.publishing .wallClock, now⟩ ::
    ⟨.register (m.complete fresh now).correlationText, some handle⟩ :: (sending ++
      [⟨.publishing (.ambient .clock), time⟩,
        ⟨.awaitReply handle (time + options.timeoutMs), status⟩,
        ⟨.withdraw (m.complete fresh now).correlationText handle, ()⟩])
  result_eq : result = replyOf options.raiseTimeout status

/-- The correlation id that a request registers under. -/
def Inquiry.id {publisher : Publisher ρ κ} {options : RequestOptions} {m : Message ρ}
    {t : List (Event (Calling ρ κ))} {result : Replied}
    (q : Inquiry publisher options m t result) : String :=
  (m.complete q.fresh q.now).correlationText

theorem events_each {act : Nat → Program (Calling ρ κ) Unit}
    (hact : ∀ d t, Runs (act d) t () → publishing.events t = []) {ds : List Nat}
    {t : List (Event (Calling ρ κ))} (h : Runs (each act ds) t ()) : publishing.events t = [] := by
  induction ds generalizing t with
  | nil =>
    obtain ⟨rfl, -⟩ := runs_done_iff.mp h
    rfl
  | cons d ds ih =>
    obtain ⟨u, v, ⟨⟩, rfl, hd, hds⟩ := runs_bind_iff.mp h
    rw [publishing.events_append, hact d u hd, ih hds]
    rfl

theorem of_runs_replyInbox {t : List (Event (Calling ρ κ))} {inbox : String}
    (h : Runs replyInbox t (.ok inbox)) :
    (∃ started, ⟨.dispatchInbox, (inbox, started)⟩ ∈ t) ∧ publishing.events t = [] := by
  obtain ⟨⟨⟩, u, rfl, hacquired⟩ := runs_call_iff.mp h
  obtain ⟨connected, u, rfl, hconnected⟩ := runs_call_iff.mp hacquired
  cases connected with
  | error err =>
    obtain ⟨⟨⟩, u, rfl, hreleased⟩ := runs_call_iff.mp hconnected
    cases hreleased
  | ok _ =>
    obtain ⟨⟨chosen, started⟩, u, rfl, hopened⟩ := runs_call_iff.mp hconnected
    have hwaits : Runs ((each (fun d => perform (.attempted d)) started.toList).bind fun _ =>
        (perform .release).bind fun _ => .done (Except.ok chosen)) u
          (Except.ok inbox : Except TransportError String) := hopened
    obtain ⟨u, v, ⟨⟩, rfl, hattempted, hrest⟩ := runs_bind_iff.mp hwaits
    obtain ⟨⟨⟩, v, rfl, hreleased⟩ := runs_call_iff.mp hrest
    obtain ⟨rfl, hsame⟩ := runs_done_iff.mp hreleased
    obtain rfl := Except.ok.inj hsame
    have hsilent : publishing.events u = [] := by
      refine events_each (fun d t hd => ?_) hattempted
      obtain ⟨⟨⟩, v, rfl, hdone⟩ := runs_call_iff.mp hd
      obtain ⟨rfl, -⟩ := runs_done_iff.mp hdone
      rfl
    refine ⟨⟨started, by simp⟩, ?_⟩
    show publishing.events (u ++ [⟨.release, ()⟩]) = []
    rw [publishing.events_append, hsilent]
    rfl

theorem nonempty_inquiry {publisher : Publisher ρ κ} {options : RequestOptions} {m : Message ρ}
    {t : List (Event (Calling ρ κ))} {reply : Option Decoded}
    (h : Runs (request publisher options m) t (.ok reply)) :
    Nonempty (Inquiry publisher options m t (.ok reply)) := by
  obtain ⟨opening, u, inboxed, rfl, hinbox, hrest⟩ := runs_bind_iff.mp h
  cases inboxed with
  | error err => cases hrest
  | ok inbox =>
    obtain ⟨⟨started, hopened⟩, hsilent⟩ := of_runs_replyInbox hinbox
    obtain ⟨fresh, u, rfl, hdrawn⟩ := runs_call_iff.mp hrest
    obtain ⟨now, u, rfl, hfilled⟩ := runs_call_iff.mp hdrawn
    obtain ⟨granted, u, rfl, hregistered⟩ := runs_call_iff.mp hfilled
    cases granted with
    | none => cases hregistered
    | some handle =>
      have hexchange : Runs (exchange publisher options ((m.complete fresh now).withReplyTo inbox)
        handle) u (.ok reply) := hregistered
      obtain ⟨sending, v, published, rfl, hsends, hpublished⟩ := runs_bind_iff.mp hexchange
      cases published with
      | error err =>
        obtain ⟨⟨⟩, v, rfl, hwithdrawn⟩ := runs_call_iff.mp hpublished
        cases hwithdrawn
      | ok _ =>
        obtain ⟨time, v, rfl, htimed⟩ := runs_call_iff.mp hpublished
        obtain ⟨status, v, rfl, htold⟩ := runs_call_iff.mp htimed
        obtain ⟨⟨⟩, v, rfl, hwithdrawn⟩ := runs_call_iff.mp htold
        obtain ⟨rfl, hresult⟩ := runs_done_iff.mp hwithdrawn
        exact ⟨{
          opening, inbox, started, fresh, now, handle, sending, time, status
          opened := hopened
          silent := hsilent
          sends := hsends
          trace_eq := rfl
          result_eq := hresult.symm }⟩

theorem Inquiry.events_eq {publisher : Publisher ρ κ} {options : RequestOptions} {m : Message ρ}
    {t : List (Event (Calling ρ κ))} {result : Replied}
    (q : Inquiry publisher options m t result) :
    publishing.events t = ⟨.freshId, q.fresh⟩ :: ⟨.wallClock, q.now⟩ ::
      (publishing.events q.sending ++ [⟨.ambient .clock, q.time⟩]) := by
  refine (congrArg publishing.events q.trace_eq).trans ?_
  rw [publishing.events_append, q.silent]
  show ⟨.freshId, q.fresh⟩ :: ⟨.wallClock, q.now⟩ :: publishing.events (q.sending ++ _) = _
  rw [publishing.events_append]
  rfl

theorem Inquiry.dispatchInbox_mem {publisher : Publisher ρ κ} {options : RequestOptions}
    {m : Message ρ} {t : List (Event (Calling ρ κ))} {result : Replied}
    (q : Inquiry publisher options m t result) : ⟨.dispatchInbox, (q.inbox, q.started)⟩ ∈ t :=
  Eq.subst (motive := (⟨.dispatchInbox, (q.inbox, q.started)⟩ ∈ ·)) q.trace_eq.symm
    (List.mem_append_left _ q.opened)

/-- A question is sent under the correlation id that is registered, with the inbox to reply to. -/
theorem Inquiry.sent_eq {publisher : Publisher ρ κ} (hplain : publisher.middlewares = [])
    {options : RequestOptions} {m : Message ρ} {t : List (Event (Calling ρ κ))} {result : Replied}
    (q : Inquiry publisher options m t result) (hm : m.messageId ≠ some Network.wakeupId)
    (hfair : ∀ ev ∈ publishing.events t, Fair ev) :
    ∃ question, sent (publishing.events t) = [question] ∧ question.Under q.id ∧
      question.letter = ⟨m.payload, m.route, some q.inbox⟩ := by
  rw [q.events_eq] at hfair ⊢
  obtain ⟨hfresh, hfair⟩ := List.forall_mem_cons.mp hfair
  obtain ⟨-, hfair⟩ := List.forall_mem_cons.mp hfair
  have hunder : (m.complete q.fresh q.now).Under (m.complete q.fresh q.now).correlationText :=
    Message.under_complete hfresh q.now hm
  obtain ⟨own, hown, hgenuine⟩ := hunder.messageId
  obtain ⟨-, fresh, now, hfresh, hsent⟩ := Publisher.sent_publish hplain
    (publishing.runs_events q.sends) (List.forall_mem_append.mp hfair).1
  refine ⟨((m.complete q.fresh q.now).withReplyTo q.inbox).complete fresh now, ?_, ?_, rfl⟩
  · show sent (publishing.events q.sending ++ _) = _
    rw [sent, List.filterMap_append]
    exact congrArg (· ++ []) hsent
  · refine Message.under_complete_of_correlationId hfresh now ?_ hunder.correlationId
      hunder.nonempty
    show (m.complete q.fresh q.now).messageId ≠ _
    rw [hown]
    exact fun h => hgenuine.ne_wakeup (Option.some.inj h)

end Calling

/-! ## What the inbox does -/

namespace Processing

variable {ρ κ : Type}

/-- The replies that a run hands over, each with the correlation id that it is for. -/
def resolutions (t : List (Event (Processing ρ κ))) : List (String × Decoded) :=
  t.filterMap fun
    | ⟨.resolve id reply, _⟩ => some (id, reply)
    | _ => none

variable {t u : List (Event (Processing ρ κ))}

theorem resolutions_append : resolutions (t ++ u) = resolutions t ++ resolutions u :=
  List.filterMap_append

theorem resolutions_eq_nil (h : ∀ ev ∈ t, ev.op.handsOver = false) : resolutions t = [] := by
  refine List.filterMap_eq_nil_iff.mpr fun ev hev => ?_
  obtain ⟨op, answer⟩ := ev
  have hop := h _ hev
  cases op with
  | resolve => cases hop
  | _ => rfl

theorem handsOver_of_isAmbient (op : Processing.Op ρ κ) (h : op.isAmbient = true) :
    op.handsOver = false := by
  cases op <;> first | rfl | cases h

end Processing

open Processing

/-- The inbox hands over what it reads, under the correlation id of the message. -/
theorem Live.resolutions_inbox {P : Protocol} {κ : Type} {config : GroupConfig P.Route κ}
    (hfaithful : ∀ m ∈ config.telemetry, Faithful m) {inbox : String} {raw : P.Raw}
    {e : Envelope} (he : ∀ fresh, P.parse fresh raw = e) (hprocessed : e.processed = false)
    {d : Decoded} (hd : Decoded.ofBody e.body e.contentType = .ok d)
    {t : List (Event (Processing P.Route κ))} {out : ProcessingOutcome}
    (h : Runs ((inboxSubscriber config inbox).process config.publisher raw) t out)
    (hcalls : ∀ calls, ⟨.calls, calls⟩ ∈ t → calls = [replyCall]) :
    resolutions t = [(e.correlationId, d)] := by
  obtain ⟨fresh, u, rfl, hobserved⟩ := runs_call_iff.mp h
  obtain rfl := he fresh
  obtain ⟨t₁, t₂, t₃, rfl, h₁, hcore, h₃⟩ := runs_faithful hfaithful hobserved
  rw [execute_eq] at hcore
  obtain ⟨⟨⟩, t₂, rfl, hentered⟩ := runs_perform_bind hcore
  obtain ⟨consuming, t₂, consumed, rfl, hconsume, hconsumed⟩ := runs_bind_iff.mp hentered
  obtain ⟨calls, consuming, rfl, hoffer⟩ := runs_call_iff.mp hconsume
  obtain ⟨answer, concluding, rfl, hconclude⟩ := runs_perform_bind hconsumed
  obtain rfl : calls = [replyCall] := hcalls calls (by simp)
  have hread : Runs (offer (inboxSubscriber config inbox).name false [replyCall] 0
    (P.parse fresh raw) none) consuming consumed := hoffer
  rw [offer_replyCall _ _ _ hprocessed, hd] at hread
  obtain ⟨⟨⟩, v, rfl, hrecorded⟩ := runs_call_iff.mp hread
  obtain ⟨found, v, rfl, hresolved⟩ := runs_call_iff.mp hrecorded
  obtain ⟨rfl, -⟩ := runs_done_iff.mp hresolved
  have hentering : resolutions t₁ = [] :=
    resolutions_eq_nil fun ev hev => handsOver_of_isAmbient _ (h₁ ev hev)
  have hleaving : resolutions t₃ = [] :=
    resolutions_eq_nil fun ev hev => handsOver_of_isAmbient _ (h₃ ev hev)
  have hconcluding : resolutions concluding = [] :=
    resolutions_eq_nil fun ev hev =>
      handsOver_of_isOfReplies _ (hconclude.allowed (within_conclude ..) ev hev)
  have hcons (ev : Event (Processing P.Route κ)) (rest : List (Event (Processing P.Route κ))) :
      resolutions (ev :: rest) = resolutions [ev] ++ resolutions rest :=
    resolutions_append (t := [ev])
  simp only [List.cons_append, List.nil_append, hcons _ (_ :: _), hcons _ (_ ++ _),
    resolutions_append, hentering, hleaving, hconcluding]
  rfl

/-! ## From the broker to the inbox -/

/-- The inbox is reached by what is sent to it. -/
theorem Broker.accepts_replyBinding (b : Broker) (inbox : String) (headers : Headers) :
    b.protocol.accepts (b.protocol.replyBinding inbox) (b.protocol.routeTo inbox) headers =
      true := by
  cases b with
  | amqp =>
    show Amqp.accepts (Amqp.Binding.ofQueue inbox).transient (Amqp.Route.toQueue inbox) headers =
      true
    simp [Amqp.accepts, Amqp.Binding.transient, Amqp.Binding.ofQueue, Amqp.Route.toQueue]
  | kafka =>
    show Kafka.accepts (Kafka.Binding.topic inbox) (Kafka.Route.topicOnly inbox) headers = true
    simp [Kafka.accepts, Kafka.Binding.topic, Kafka.Route.topicOnly]
  | nats => exact beq_self_eq_true inbox
  | redis => exact beq_self_eq_true inbox
  | sqs => exact beq_self_eq_true inbox

namespace Network

variable {P : Protocol} {n : Network P} {q q' : Nat} {queue : Queue P} {b : P.Binding}

/-- A message that a queue takes comes to its end. -/
theorem waiting_publish (hqueue : n.queues[q]? = some queue) {m : Message P.Route}
    (haccepts : P.accepts queue.binding m.route m.payload.headers = true) :
    ∃ queue', (n.publish m).queues[q]? = some queue' ∧
      queue'.waiting.map (·.message) = queue.waiting.map (·.message) ++ [m] := by
  obtain ⟨queue', hqueue', hgrows⟩ := (n.grows_publish m).queues hqueue
  obtain ⟨fresh, hwaiting, hadded, -⟩ := hgrows.waiting
  rw [if_pos haccepts] at hadded
  refine ⟨queue', hqueue', ?_⟩
  rw [hwaiting, List.map_append, hadded]

/-- Who subscribes to another binding gets another queue. -/
theorem ne_of_subscribe (hqueue : n.queues[q]? = some queue) (hb : b ≠ queue.binding)
    (h : (n.subscribe b).1 = .ok q') : q' ≠ q := by
  rintro rfl
  rcases n.subscribe_cases b with
      ⟨err, hsame⟩ | ⟨q, queue', hqueue', hbinding, hsame⟩ | ⟨-, hsame⟩ <;>
    rw [hsame] at h
  · cases h
  · obtain rfl := Except.ok.inj h
    obtain rfl := Option.some.inj (hqueue.symm.trans hqueue')
    exact hb hbinding.symm
  · have hlt := lt_length_of_getElem? hqueue
    rw [Except.ok.inj h] at hlt
    exact Nat.lt_irrefl _ hlt

end Network

/-- A task that hands over a reply to a request that waits for it, after which the request is told
that reply as soon as it asks. -/
theorem Live.answer_of_resolve {P : Protocol} {κ : Type} {l₀ l : Live P κ Calling.Replied}
    {log : List (Happening P)} (h₀ : l₀.Untouched) (h : l₀.Unfolds log l) {id : String}
    {handle : Nat} (hpending : (id, handle) ∈ l.engine.replies.pending) {d : Decoded} {j : Nat}
    {t : ProcessingTask P κ} {next : Bool → Program (Processing P.Route κ) ProcessingOutcome}
    (ht : l.tasks[j]? = some t) (hawake : t.wakeAt ≤ l.now)
    (hprogram : t.program = .call (.resolve id d) next) :
    ∃ l', l.step (.task j) = some l' ∧ ∀ i deadline,
      l'.answer i (.awaitReply handle deadline) = some (.answered d, l') := by
  have hids := ((Valid.start h₀).unfolds h).ids_distinct
  obtain ⟨-, hstatus⟩ := ReplyTable.resolve_of_mem hids hpending d
  have hawake : ¬ l.now < t.wakeAt := Nat.not_lt.mpr hawake
  let resolved := l.engine.replies.resolve id d
  refine ⟨{ l with
    engine := { l.engine with replies := resolved.2 }
    tasks := l.tasks.set j { t with program := next resolved.1 } }, ?_, fun i deadline => ?_⟩
  · show l.stepTask j = some _
    simp only [stepTask, ht, Option.bind_some, if_neg hawake, hprogram]
    rfl
  · simp only [Live.answer, resolved]
    rw [hstatus]

/-! ## The whole exchange -/

/-- A request that was sent, and the processing of what was sent by a subscriber that took it from
a queue. -/
structure Exchange (b : Broker) (κ : Type) where
  config : GroupConfig b.protocol.Route κ
  options : RequestOptions
  /-- The message that a reply is asked for. -/
  message : Message b.protocol.Route
  asking : List (Event (Calling b.protocol.Route κ))
  result : Calling.Replied
  inquiry : Calling.Inquiry config.publisher options message asking result
  /-- The message as it was sent. -/
  question : Message b.protocol.Route
  subscriber : Subscriber b.protocol κ
  ids : FreshIds
  handling : List (Event (Processing b.protocol.Route κ))
  outcome : ProcessingOutcome
  course : Course subscriber config.publisher (b.protocol.build ids question) handling outcome
  /-- What the subscriber's calls produced, and the payload of the reply. -/
  produced : Consumed b.protocol.Route
  payload : Payload

namespace Exchange

variable {b : Broker} {κ : Type}

/-- One call replies to the question, which is acknowledged, and all that is sent reaches the
broker. -/
structure Proper (x : Exchange b κ) : Prop where
  plain : x.config.publisherMiddlewares = []
  faithful : ∀ m ∈ x.config.telemetry, Faithful m
  inbox : x.inquiry.inbox ≠ ""
  message : x.message.messageId ≠ some Network.wakeupId
  sent : x.question ∈ sent (Calling.publishing.events x.asking)
  parse : x.subscriber.parse = b.protocol.parse
  /-- Nobody but the requests of the group consumes from the inbox. -/
  apart : x.subscriber.binding ≠ b.protocol.replyBinding x.inquiry.inbox
  produced : x.course.consumed.2 = .ok (some x.produced)
  reply : x.produced.reply = some x.payload
  acked : x.course.answer = .ok (some .ack)
  fair_asking : ∀ ev ∈ Calling.publishing.events x.asking, Fair ev
  fair_handling : ∀ ev ∈ publishing.events x.handling, Fair ev

/-- A message is the reply to the question, gets to the inbox and is handed to the request. -/
structure RepliedBy (x : Exchange b κ) (reply : Message b.protocol.Route) : Prop where
  under : reply.Under x.inquiry.id
  letter : reply.letter = ⟨x.payload, b.protocol.routeTo x.inquiry.inbox, none⟩
  accepted : b.protocol.accepts (b.protocol.replyBinding x.inquiry.inbox) reply.route
    reply.payload.headers = true
  /-- It comes to the end of the queue of the inbox, which is nobody else's. -/
  queued : ∀ (n : Network b.protocol) q queue, n.queues[q]? = some queue →
    queue.binding = b.protocol.replyBinding x.inquiry.inbox →
      (∃ queue', (n.publish reply).queues[q]? = some queue' ∧
        queue'.waiting.map (·.message) = queue.waiting.map (·.message) ++ [reply]) ∧
      ∀ q', (n.subscribe x.subscriber.binding).1 = .ok q' → q' ≠ q
  /-- The inbox sees it under the correlation id of the request. -/
  parsed : ∀ fresh ids,
    (b.protocol.parse fresh (b.protocol.build ids reply)).correlationId = x.inquiry.id
  /-- Whenever the inbox processes it, it hands over the decoded body under that id. -/
  handed : ∀ d, Decoded.ofBody (b.arrived reply).body (b.arrived reply).contentType = .ok d →
    ∀ ids t out, Runs ((Live.inboxSubscriber x.config x.inquiry.inbox).process x.config.publisher
      (b.protocol.build ids reply)) t out →
    (∀ calls, ⟨.calls, calls⟩ ∈ t → calls = [Live.replyCall]) →
      resolutions t = [(x.inquiry.id, d)]
  /-- What is handed over while the request waits is what it is told, -/
  told : ∀ (l₀ l : Live b.protocol κ Calling.Replied) log, l₀.Untouched → l₀.Unfolds log l →
    (x.inquiry.id, x.inquiry.handle) ∈ l.engine.replies.pending → ∀ d j t next,
    l.tasks[j]? = some t → t.wakeAt ≤ l.now →
    t.program = .call (.resolve x.inquiry.id d) next →
      ∃ l', l.step (.task j) = some l' ∧ ∀ i deadline,
        l'.answer i (.awaitReply x.inquiry.handle deadline) = some (.answered d, l')
  /-- and what it is told is what it returns. -/
  returned : ∀ d, x.inquiry.status = .answered d → x.result = .ok (some d)

/-- One correlation id is that of the request, of the question and of the reply, wherever they
go. -/
structure Correlated (x : Exchange b κ) : Prop where
  asked : x.question.Under x.inquiry.id
  /-- Every call that is run for the question is shown that id, and the inbox to reply to. -/
  shown : ∀ v ∈ invocations x.course.steps, v.2.1.envelope.correlationId = x.inquiry.id ∧
    v.2.1.envelope.replyTo = x.inquiry.inbox
  answered : ∃ v ∈ invocations x.course.steps, v.2.2 = .ok (some x.payload)
  /-- The first message that is sent for the question is the reply to it. -/
  replied : ∃ reply others,
    sent (publishing.events x.handling) = reply :: others ∧ x.RepliedBy reply

variable {x : Exchange b κ} (h : x.Proper)
include h

theorem Proper.question_eq :
    x.question.Under x.inquiry.id ∧ x.question.replyTo = some x.inquiry.inbox := by
  obtain ⟨question, hsent, hunder, hletter⟩ :=
    x.inquiry.sent_eq h.plain h.message h.fair_asking
  have hmem := h.sent
  rw [hsent] at hmem
  obtain rfl := List.mem_singleton.mp hmem
  exact ⟨hunder, congrArg Letter.replyTo hletter⟩

/-- The envelope that the subscriber gets, which is what all calls see. -/
theorem Proper.parsed :
    (x.subscriber.parse x.course.fresh (b.protocol.build x.ids x.question)).correlationId =
      x.inquiry.id ∧
    (x.subscriber.parse x.course.fresh (b.protocol.build x.ids x.question)).replyTo =
      x.inquiry.inbox := by
  obtain ⟨hunder, hto⟩ := h.question_eq
  rw [h.parse, b.parse_build hunder.identified, b.correlationId_arrived, hunder.correlationText]
  exact ⟨rfl, b.replyTo_arrived hto h.inbox⟩

theorem Proper.repliedBy {reply : Message b.protocol.Route} (hunder : reply.Under x.inquiry.id)
    (hletter : reply.letter = ⟨x.payload, b.protocol.routeTo x.inquiry.inbox, none⟩) :
    x.RepliedBy reply := by
  have hroute : reply.route = b.protocol.routeTo x.inquiry.inbox := congrArg Letter.route hletter
  have haccepted : b.protocol.accepts (b.protocol.replyBinding x.inquiry.inbox) reply.route
      reply.payload.headers = true := hroute ▸ b.accepts_replyBinding _ _
  have hcorrelation : (b.arrived reply).correlationId = x.inquiry.id := by
    rw [b.correlationId_arrived, hunder.correlationText]
  exact
    { under := hunder
      letter := hletter
      accepted := haccepted
      queued := by
        intro n q queue hqueue hbinding
        refine ⟨Network.waiting_publish hqueue (hbinding ▸ haccepted), fun q' hq' => ?_⟩
        exact Network.ne_of_subscribe hqueue (hbinding ▸ h.apart) hq'
      parsed := by
        intro fresh ids
        rw [b.parse_build hunder.identified, hcorrelation]
      handed := by
        intro d hd ids t out hrun hcalls
        rw [← hcorrelation]
        have hparse := fun fresh => b.parse_build hunder.identified fresh ids
        exact Live.resolutions_inbox h.faithful hparse b.processed_arrived hd hrun hcalls
      told := fun _ _ _ h₀ hunfolds hpending _ _ _ _ => Live.answer_of_resolve h₀ hunfolds hpending
      returned := by
        intro d hd
        rw [x.inquiry.result_eq, hd]
        rfl }

theorem Proper.correlated : x.Correlated := by
  obtain ⟨hunder, -⟩ := h.question_eq
  obtain ⟨hcorrelation, hto⟩ := h.parsed
  obtain ⟨hkept, hshown⟩ := x.course.offered.keeps (f := fun e => (e.correlationId, e.replyTo))
    (fun _ _ => rfl) (fun _ => rfl)
  rw [hcorrelation, hto] at hkept hshown
  obtain ⟨hkept_id, hkept_to⟩ := Prod.mk.inj hkept
  refine ⟨hunder, fun v hv => Prod.mk.inj (hshown v hv), ?_, ?_⟩
  · obtain hnone | ⟨v, hv, hreply, -⟩ := x.course.offered.replied h.produced
    · cases hnone
    · exact ⟨v, hv, hreply.trans (congrArg Except.ok h.reply)⟩
  · have hsends := x.course.sends h.plain hunder.nonempty hkept_id (fun _ => h.acked)
      h.fair_handling
    have hletters : followUps b.protocol.routeTo x.course.consumed =
        ⟨x.payload, b.protocol.routeTo x.inquiry.inbox, none⟩ ::
          x.produced.targets.map fun target => ⟨x.payload, target, none⟩ := by
      simp [followUps, h.produced, replies, h.reply, hkept_to, h.inbox]
    rw [hletters] at hsends
    obtain ⟨reply, others, hsent, hletter, -⟩ := List.map_eq_cons_iff.mp hsends.letters
    exact ⟨reply, others, hsent,
      h.repliedBy (hsends.under reply (hsent ▸ List.mem_cons_self)) hletter⟩

omit h

/-! ## A question that is answered with a text -/

namespace Pong

def config : GroupConfig Nats.protocol.Route Unit :=
  { settings := .default, replyInbox := some "inbox", processing := [], telemetry := [],
    publisherMiddlewares := [] }

/-- A message whose headers name other ids and another place to reply to. -/
def message : Message Nats.protocol.Route where
  payload := ⟨⟨#[]⟩, none,
    .ofList [(HeaderName.correlationId, "c-9"), (HeaderName.replyTo, "elsewhere")]⟩
  route := Nats.Route.mk "questions"
  replyTo := some "nowhere"
  correlationId := some ""
  messageId := some "m-1"
  timestamp := none

def question : Message Nats.protocol.Route :=
  ((message.complete "id-1" 0).withReplyTo "inbox").complete "id-2" 0

def call : Call Nats.protocol.Route Unit where
  body := .handler [] fun _ => .done (.ok (some (.text "pong")))
  filter := Filter.notProcessed
  decoder := Decoder.byContentType
  targets := []
  info := ⟨"pong", none, none⟩

def subscriber : Subscriber Nats.protocol Unit :=
  { Live.inboxSubscriber config "questions" with calls := [call] }

def envelope : Envelope :=
  Nats.protocol.parse "id-3" (Nats.protocol.build ⟨"", ""⟩ question)

def reply : Message Nats.protocol.Route :=
  ((Message.new (Nats.Route.mk "inbox") (.text "pong")).withCorrelationId
    envelope.correlationId).complete "id-4" 0

/-- What is done to ask. -/
def asking : List (Event (Calling Nats.protocol.Route Unit)) :=
  [⟨.acquire, ()⟩, ⟨.connect, .ok ()⟩, ⟨.dispatchInbox, ("inbox", none)⟩, ⟨.release, ()⟩,
    ⟨.publishing .freshId, "id-1"⟩, ⟨.publishing .wallClock, (0 : UInt64)⟩,
    ⟨.register "m-1", some 0⟩,
    ⟨.publishing .freshId, "id-2"⟩, ⟨.publishing .wallClock, (0 : UInt64)⟩,
    ⟨.publishing .fate, .delivered⟩, ⟨.publishing (.send question), ()⟩,
    ⟨.publishing (.ambient .clock), (0 : Nat)⟩, ⟨.awaitReply 0 1000, .answered (.text "pong")⟩,
    ⟨.withdraw "m-1" 0, ()⟩]

/-- What is done with the question. -/
def handling : List (Event (Processing Nats.protocol.Route Unit)) :=
  [⟨.publishing .freshId, "id-3"⟩, ⟨.enter "m-1", ()⟩, ⟨.calls, [call]⟩,
    ⟨.recordBody 0 .empty, ()⟩, ⟨.exit "m-1" .ack, .ok (some .ack)⟩,
    ⟨.publishing .freshId, "id-4"⟩, ⟨.publishing .wallClock, (0 : UInt64)⟩,
    ⟨.publishing .fate, .delivered⟩, ⟨.publishing (.send reply), ()⟩]

theorem runs_request : Runs (Calling.request config.publisher ⟨1000, true⟩ message) asking
    (.ok (some (.text "pong"))) :=
  .call (.call (.call (.call (.call (.call (.call (.call (.call (.call (.call (.call (.call
    (.call (.done _))))))))))))))

theorem runs_process : Runs (subscriber.process config.publisher
    (Nats.protocol.build ⟨"", ""⟩ question)) handling ⟨.ok (), some .ack⟩ :=
  .call (.call (.call (.call (.call (.call (.call (.call (.call (.done _)))))))))

def produced : Consumed Nats.protocol.Route := ⟨some (.text "pong"), 0, []⟩

/-- The envelope when the call has run. -/
def processed : Envelope := (envelope.withDecoded .empty).markProcessed

/-! What can be read off an event. -/

def drawn? : Event (Publishing Nats.protocol.Route Unit) → Option String
  | ⟨.freshId, id⟩ => some id
  | _ => none

def inbox? : Event (Calling Nats.protocol.Route Unit) → Option String
  | ⟨.dispatchInbox, (inbox, _)⟩ => some inbox
  | _ => none

def found? : Event (Processing Nats.protocol.Route Unit) →
    Option (List (Call Nats.protocol.Route Unit))
  | ⟨.calls, found⟩ => some found
  | _ => none

def ended? : Event (Processing Nats.protocol.Route Unit) →
    Option (Except AckError (Option Action))
  | ⟨.exit .., answer⟩ => some answer
  | _ => none

section
variable (q : Calling.Inquiry config.publisher ⟨1000, true⟩ message asking
  (.ok (some (.text "pong"))))

theorem inbox_eq : q.inbox = "inbox" := by
  have hone : asking.filterMap inbox? = ["inbox"] := rfl
  exact eq_of_filterMap_eq_singleton hone q.dispatchInbox_mem rfl

theorem id_eq : q.id = "m-1" := by
  have hdrawn : some "id-1" = some q.fresh :=
    congrArg (fun t => t.head?.bind drawn?) q.events_eq
  rw [Calling.Inquiry.id, ← Option.some.inj hdrawn]
  rfl

variable (c : Course subscriber config.publisher (Nats.protocol.build ⟨"", ""⟩ question) handling
  ⟨.ok (), some .ack⟩)

theorem answer_eq : c.answer = .ok (some .ack) := by
  have hone : handling.filterMap ended? = [.ok (some .ack)] := rfl
  exact eq_of_filterMap_eq_singleton hone c.exit_mem rfl

theorem consumed_eq (hoffer : Runs (offer subscriber.name subscriber.shortCircuit c.calls 0
    (subscriber.parse c.fresh (Nats.protocol.build ⟨"", ""⟩ question)) none) c.consuming
      c.consumed) : c.consumed = (processed, .ok (some produced)) := by
  have hcalls : c.calls = [call] := by
    have hone : handling.filterMap found? = [[call]] := rfl
    exact eq_of_filterMap_eq_singleton hone c.calls_mem rfl
  have hfresh : c.fresh = "id-3" := by
    have hdrawn : some "id-3" = some c.fresh :=
      congrArg (fun t => (publishing.events t).head?.bind drawn?) c.trace_eq
    exact (Option.some.inj hdrawn).symm
  rw [hcalls, hfresh] at hoffer
  obtain ⟨⟨⟩, u, -, hdone⟩ := runs_call_iff.mp hoffer
  exact (runs_done_iff.mp hdone).2.symm

end

/-- The exchange that these runs make. -/
def exchange (q : Calling.Inquiry config.publisher ⟨1000, true⟩ message asking
      (.ok (some (.text "pong"))))
    (c : Course subscriber config.publisher (Nats.protocol.build ⟨"", ""⟩ question) handling
      ⟨.ok (), some .ack⟩) : Exchange .nats Unit where
  config := config
  options := ⟨1000, true⟩
  message := message
  asking := asking
  result := .ok (some (.text "pong"))
  inquiry := q
  question := question
  subscriber := subscriber
  ids := ⟨"", ""⟩
  handling := handling
  outcome := ⟨.ok (), some .ack⟩
  course := c
  produced := produced
  payload := .text "pong"

end Pong

theorem correlated_pong :
    Runs (Calling.request Pong.config.publisher ⟨1000, true⟩ Pong.message) Pong.asking
      (.ok (some (.text "pong"))) ∧
    Runs (Pong.subscriber.process Pong.config.publisher
      (Nats.protocol.build ⟨"", ""⟩ Pong.question)) Pong.handling ⟨.ok (), some .ack⟩ ∧
    ∃ q c, (Pong.exchange q c).Proper ∧ (Pong.exchange q c).Correlated ∧ q.id = "m-1" := by
  have hnothing : ∀ ev ∈ ([] : List (Event (Publishing Nats.protocol.Route Unit))), Fair ev :=
    List.forall_mem_nil _
  have hfair {id : String} (hne : id ≠ "") (hother : id ≠ Network.wakeupId)
      {rest : List (Event (Publishing Nats.protocol.Route Unit))} (hrest : ∀ ev ∈ rest, Fair ev) :
      ∀ ev ∈ ⟨.freshId, id⟩ :: ⟨.wallClock, (0 : UInt64)⟩ :: rest, Fair ev :=
    List.forall_mem_cons.mpr ⟨⟨hne, hother⟩, List.forall_mem_cons.mpr ⟨trivial, hrest⟩⟩
  have htaken {m : Message Nats.protocol.Route}
      {rest : List (Event (Publishing Nats.protocol.Route Unit))} (hrest : ∀ ev ∈ rest, Fair ev) :
      ∀ ev ∈ ⟨.fate, Fate.delivered⟩ :: ⟨.send m, ()⟩ :: rest, Fair ev :=
    List.forall_mem_cons.mpr ⟨rfl, List.forall_mem_cons.mpr ⟨trivial, hrest⟩⟩
  obtain ⟨q⟩ := Calling.nonempty_inquiry Pong.runs_request
  obtain ⟨c, hoffer⟩ := Subscriber.exists_course (s := Pong.subscriber) nofun Pong.runs_process
  have hconsumed := Pong.consumed_eq c hoffer
  have hinbox := Pong.inbox_eq q
  have hproper : (Pong.exchange q c).Proper :=
    { plain := rfl
      faithful := nofun
      inbox := by
        show q.inbox ≠ ""
        rw [hinbox]
        decide
      message := by
        show Pong.message.messageId ≠ some Network.wakeupId
        decide
      sent := List.mem_singleton_self _
      parse := rfl
      apart := by
        show Pong.subscriber.binding ≠ Nats.protocol.replyBinding q.inbox
        rw [hinbox]
        decide
      produced := congrArg Prod.snd hconsumed
      reply := rfl
      acked := Pong.answer_eq c
      fair_asking := hfair (by decide) (by decide) (hfair (by decide) (by decide)
        (htaken (List.forall_mem_cons.mpr ⟨trivial, hnothing⟩)))
      fair_handling := List.forall_mem_cons.mpr ⟨(⟨by decide, by decide⟩ : Genuine "id-3"),
        hfair (by decide) (by decide) (htaken hnothing)⟩ }
  exact ⟨Pong.runs_request, Pong.runs_process, q, c, hproper, hproper.correlated, Pong.id_eq q⟩

end Exchange
end MessageDispatch
