import MessageDispatch.Proofs.InProcessUnrolling
import MessageDispatch.Proofs.StartedGroup

/-! A group in process and the same group over a broker. When a message was delivered in process
with all that it leads to, and no delivery failed, every complete run of the started group runs the
same calls with the same bodies under the same correlation id, whichever step is taken when. -/
namespace MessageDispatch

variable {P : Protocol} {κ : Type}

/-! ## Registering -/

/-- A group without publisher middlewares, the code of which makes the same of a message each time.
Parsers that its handlers bring read what the message says, and telemetry only looks on. -/
structure GroupConfig.Steady (config : GroupConfig P.Route κ) (rs : List (Registration P κ))
    (id : String) : Prop where
  plain : config.publisherMiddlewares = []
  telemetry : ∀ m ∈ config.telemetry, Faithful m
  calls : ∀ r ∈ rs, (r.call config).Steady
  parsers : ∀ r ∈ rs, ∀ parse, r.parser = some parse → P.Reads parse id
  ownTelemetry : ∀ r ∈ rs, ∀ m ∈ r.telemetry, Faithful m

/-- A subscriber that is set up, with nothing heard of its calls. -/
structure Subscriber.Unheard (id : String) (s : Subscriber P κ) : Prop where
  steady : s.Steady id
  unclosed : s.closed = false
  recording : s.Recording
  bodies : ∀ r ∈ s.records, r.bodies = []

namespace Subscriber.Unheard

variable {id : String} {s : Subscriber P κ}

theorem addCall (h : s.Unheard id) {call : Call P.Route κ} (hcall : call.Steady) :
    (s.addCall true call).Unheard id where
  steady :=
    { calls := List.forall_mem_append.mpr ⟨h.steady.calls, List.forall_mem_singleton.mpr hcall⟩
      reads := h.steady.reads
      telemetry := h.steady.telemetry }
  unclosed := h.unclosed
  recording :=
    { length := by
        show (s.records ++ [_]).length = (s.calls ++ [_]).length
        rw [List.length_append, List.length_append, h.recording.length]
        rfl
      on := List.forall_mem_append.mpr ⟨h.recording.on, List.forall_mem_singleton.mpr rfl⟩ }
  bodies := List.forall_mem_append.mpr ⟨h.bodies, List.forall_mem_singleton.mpr rfl⟩

theorem invocations_eq (h : s.Unheard id) : s.invocations = [] := by
  have hnone : s.records.map (·.bodies) = List.replicate s.records.length [] :=
    List.eq_replicate_iff.mpr ⟨List.length_map .., List.forall_mem_map.mpr h.bodies⟩
  refine List.flatMap_eq_nil_iff.mpr fun x hx => ?_
  have hempty := List.fst_mem_of_mem_zipIdx hx
  rw [hnone] at hempty
  rw [(List.mem_replicate.mp hempty).2, List.map_nil]

end Subscriber.Unheard

/-- An engine at which such subscribers were registered, and nothing else was done. -/
structure Engine.Unheard (id : String) (e : Engine P κ) : Prop where
  subscribers : ∀ s ∈ e.subscribers, s.Unheard id
  distinct : (e.subscribers.map (·.binding)).Nodup
  network : e.network = .empty
  weather : e.weather = ⟨[], 0, 0, 0⟩
  deliveries : e.deliveries = []

theorem Engine.unheard_new (id : String) (clock : UInt64) (context : κ) :
    (Engine.new clock context : Engine P κ).Unheard id :=
  ⟨List.forall_mem_nil _, List.nodup_nil, rfl, rfl, rfl⟩

namespace Engine.Unheard

variable {id : String} {e e' : Engine P κ} {config : GroupConfig P.Route κ}

theorem register (h : e.Unheard id) {r : Registration P κ} (hcall : (r.call config).Steady)
    (hreads : P.Reads (r.parser.getD P.parse) id)
    (htelemetry : ∀ m ∈ config.telemetry ++ r.telemetry, Faithful m) {handle : CallHandle}
    (hr : e.register config true r = .ok (handle, e')) : e'.Unheard id := by
  unfold Engine.register at hr
  split at hr
  · split at hr
    · rename_i s hs
      split at hr
      · cases hr
      · obtain ⟨-, rfl⟩ := Prod.mk.inj (Except.ok.inj hr)
        -- another call for a subscriber that is there
        refine ⟨fun s' hs' => ?_, ?_, h.network, h.weather, h.deliveries⟩
        · rw [modify_eq_set hs] at hs'
          rcases List.mem_or_eq_of_mem_set hs' with hs' | rfl
          · exact h.subscribers s' hs'
          · exact (h.subscribers s (List.mem_of_getElem? hs)).addCall hcall
        · have hbinding : (s.addCall true (r.call config)).binding = s.binding := rfl
          show ((e.subscribers.modify _ _).map _).Nodup
          rw [modify_eq_set hs, map_set_eq hs hbinding]
          exact h.distinct
    · obtain ⟨-, rfl⟩ := Prod.mk.inj (Except.ok.inj hr)
      exact h
  · rename_i hnone
    obtain ⟨-, rfl⟩ := Prod.mk.inj (Except.ok.inj hr)
    have hnew : (r.subscriber config).Unheard id :=
      { steady := ⟨List.forall_mem_nil _, hreads, htelemetry⟩
        unclosed := rfl
        recording := ⟨rfl, List.forall_mem_nil _⟩
        bodies := List.forall_mem_nil _ }
    refine ⟨List.forall_mem_append.mpr ⟨h.subscribers, List.forall_mem_singleton.mpr
      (hnew.addCall hcall)⟩, ?_, h.network, h.weather, h.deliveries⟩
    rw [List.map_append]
    refine nodup_concat h.distinct fun hmem => ?_
    obtain ⟨s, hs, hbinding⟩ := List.mem_map.mp hmem
    exact of_decide_eq_false (List.findIdx?_eq_none_iff.mp hnone s hs) hbinding

end Engine.Unheard

/-- The subscribers of a broker read messages with the parser of their protocol, unless they bring
their own. -/
theorem GroupConfig.Steady.unheard {b : Broker} {config : GroupConfig b.protocol.Route κ}
    {rs : List (Registration b.protocol κ)} {id : String} (hsteady : config.Steady rs id)
    {e e' : Engine b.protocol κ} {handles : List CallHandle} (h : e.Unheard id)
    (hregistered : Engine.registerAll config true rs e = (.ok (), handles, e')) :
    e'.Unheard id := by
  obtain ⟨hplain, htelemetry, hcalls, hparsers, hown⟩ := hsteady
  induction rs generalizing e handles with
  | nil =>
    obtain ⟨-, hsame⟩ := Prod.mk.inj hregistered
    obtain ⟨-, rfl⟩ := Prod.mk.inj hsame
    exact h
  | cons r rs ih =>
    obtain ⟨hcall, hcalls⟩ := List.forall_mem_cons.mp hcalls
    obtain ⟨hparser, hparsers⟩ := List.forall_mem_cons.mp hparsers
    obtain ⟨howned, hown⟩ := List.forall_mem_cons.mp hown
    have hreads : b.protocol.Reads (r.parser.getD b.protocol.parse) id := by
      cases hparse : r.parser with
      | none => exact b.reads id
      | some parse => exact hparser parse hparse
    unfold Engine.registerAll at hregistered
    split at hregistered
    · cases hregistered
    · rename_i handle e₁ hr
      obtain ⟨hok, hrest⟩ := Prod.mk.inj hregistered
      obtain ⟨-, hlast⟩ := Prod.mk.inj hrest
      exact ih (h.register hcall hreads (List.forall_mem_append.mpr ⟨htelemetry, howned⟩) hr)
        (Prod.ext hok (Prod.ext rfl hlast)) hcalls hparsers hown

namespace Engine.Unheard

variable {id : String} {e : Engine P κ} (h : e.Unheard id)
include h

theorem crew : Crew e.staff id where
  steady := List.forall_mem_map.mpr fun s hs =>
    have hsteady := (h.subscribers s hs).steady
    ⟨hsteady.calls, hsteady.reads, hsteady.telemetry⟩
  unclosed := List.forall_mem_map.mpr fun s hs => (h.subscribers s hs).unclosed
  distinct := by
    rw [Engine.staff, List.map_map]
    exact h.distinct

theorem ready : e.Ready e.staff where
  staff_eq := rfl
  recording := fun s hs => (h.subscribers s hs).recording
  clear := by constructor <;> simp [h.network, h.weather, Network.empty]

theorem inHand : e.InHand id := by
  rw [InHand, h.deliveries]
  exact List.forall_mem_nil _

theorem invocations_eq : e.invocations = [] :=
  List.flatMap_eq_nil_iff.mpr fun s hs => (h.subscribers s hs).invocations_eq

end Engine.Unheard

/-! ## Running -/

namespace Live

section
variable {α : Type}

/-- The state after these steps, if they can be taken. -/
def run : List LiveStep → Live P κ α → Option (Live P κ α)
  | [], l => some l
  | next :: steps, l => (l.step next).bind (run steps)

/-- Nothing is left to be done: the clients have got their results, no message is being processed,
none is held, and none waits. -/
def isComplete (l : Live P κ α) : Bool :=
  (l.clients.all fun c => match c.program with | .done _ => true | .call .. => false) &&
    l.tasks.isEmpty && l.engine.network.queues.all (·.waiting.isEmpty) &&
    l.receivers.all fun r => match r.state.phase with | .holding _ => false | _ => true

theorem jobs_eq_nil {l : Live P κ α} (hcomplete : l.isComplete = true)
    (staff : List (Subscriber P κ)) : l.jobs staff = [] := by
  simp only [isComplete, Bool.and_eq_true, List.all_eq_true] at hcomplete
  obtain ⟨⟨-, hqueues⟩, hreceivers⟩ := hcomplete
  refine List.append_eq_nil_iff.mpr ⟨List.flatMap_eq_nil_iff.mpr fun queue hqueue => ?_,
    List.flatMap_eq_nil_iff.mpr fun r hr => ?_⟩
  · rw [Queue.jobs, List.isEmpty_iff.mp (hqueues queue hqueue), List.map_nil]
  · have hfree := hreceivers r hr
    unfold Receiver.jobs
    split
    · rename_i hholding
      rw [hholding] at hfree
      cases hfree
    · rfl

end

variable {staff : List (Subscriber P κ)} {id : String} {total : List (Invocation P)}
  {m : Message P.Route} {publisher : Publisher P.Route κ}
  {l l' : Live P κ (Except PublisherError Unit)}

theorem Underway.step (hcrew : Crew staff id) (hplain : publisher.middlewares = [])
    (hm : m.Under id) (h : l.Underway publisher staff id total m) {next : LiveStep}
    (hstep : l.step next = some l') : l'.Underway publisher staff id total m := by
  by_cases hclient : ∃ i, next = .client i
  · obtain ⟨i, rfl⟩ := hclient
    exact h.stepClient hcrew hplain hm hstep
  · obtain ⟨c, letters, charges, hclients, hstage, haccounted⟩ := h.client
    obtain ⟨⟨charges', haccounted'⟩, honward⟩ :=
      haccounted.step hcrew (fun i hi => hclient ⟨i, hi⟩) hstep
    exact ⟨c, letters, charges', honward.clients.trans hclients,
      hstage.mono honward.running honward.length honward.receivers, haccounted'⟩

theorem Underway.run (hcrew : Crew staff id) (hplain : publisher.middlewares = [])
    (hm : m.Under id) (h : l.Underway publisher staff id total m) {steps : List LiveStep}
    (hrun : l.run steps = some l') : l'.Underway publisher staff id total m := by
  induction steps generalizing l with
  | nil => exact Option.some.inj hrun ▸ h
  | cons next steps ih =>
    obtain ⟨l₁, hstep, hrest⟩ := Option.bind_eq_some_iff.mp hrun
    exact ih (h.step hcrew hplain hm hstep) hrest

/-- When nothing is left to be done, all calls were run. -/
theorem Underway.finished (h : l.Underway publisher staff id total m)
    (hcomplete : l.isComplete = true) :
    l.engine.invocations.Perm total ∧ l.engine.Ready staff ∧ l.engine.InHand id := by
  obtain ⟨c, letters, charges, hclients, hstage, haccounted⟩ := h.client
  have hjobs := jobs_eq_nil hcomplete staff
  simp only [isComplete, Bool.and_eq_true, hclients] at hcomplete
  obtain ⟨⟨⟨hclient, htasks⟩, -⟩, -⟩ := hcomplete
  obtain rfl : letters = [] := by
    cases hdone : c.program with
    | done a => exact hstage.letters_eq_nil hdone
    | call op next => simp [hdone] at hclient
  obtain rfl : charges = [] := by
    rw [← List.map_eq_nil_iff (f := Charge.task), haccounted.tasks]
    exact List.isEmpty_iff.mp htasks
  refine ⟨?_, haccounted.ready, haccounted.inHand⟩
  have hbalanced := haccounted.balanced
  simp only [hjobs, List.flatMap_nil, List.map_nil, List.append_nil] at hbalanced
  exact hbalanced.finished

/-- The group is to be started, and a message is to be published. -/
theorem underway_new {config : GroupConfig P.Route κ} {e : Engine P κ}
    (hplain : config.publisherMiddlewares = []) (h : e.Unheard id)
    (htotal : Unrolls e.staff id [.send m.letter] total) :
    ((Live.new config e).addClient
      (Calling.startAndPublish config.publisher m)).2.Underway config.publisher e.staff id total
        m := by
  refine ⟨_, [m.letter], [], rfl, ?_, ?_⟩
  · rw [Calling.startAndPublish_eq]
    exact .acquire rfl rfl
  · have hqueues : e.network.queues = [] := by rw [h.network]; rfl
    have hjobs : Live.jobs e.staff ((Live.new config e).addClient
        (Calling.startAndPublish config.publisher m)).2 = [] := by
      show e.network.queues.flatMap _ ++ [] = []
      rw [hqueues]
      rfl
    exact
      { plain := hplain
        stopped := rfl
        ready := h.ready
        inHand := h.inHand
        orderly := by constructor <;> simp [Live.new, addClient, hqueues]
        posted := List.forall_mem_nil _
        tasks := rfl
        valid := List.forall_mem_nil _
        apart := List.nodup_nil
        underway := .inr ⟨rfl, by simp [hjobs]⟩
        balanced := by
          rw [hjobs]
          refine ⟨total, htotal, .inl ?_⟩
          show ((e.invocations ++ []) ++ total).Perm total
          rw [h.invocations_eq]
          exact .refl _ }

end Live

/-! ## Agreeing -/

/-- Every message that was taken in hand comes to the calls under this correlation id. -/
def Engine.CallsUnder (id : String) (e : Engine P κ) : Prop :=
  ∀ d ∈ e.deliveries, ∃ m, d.source.carried? = some m ∧ ∀ s ∈ e.subscribers, ∀ fresh ids steps out,
    Processing.Offered s.name s.shortCircuit s.calls.zipIdx (s.parse fresh (P.build ids m)) none
        steps out →
      ∀ v ∈ Processing.invocations steps, v.2.1.envelope.correlationId = id

theorem Engine.InHand.callsUnder {staff : List (Subscriber P κ)} {id : String} {e : Engine P κ}
    (hin : e.InHand id) (hcrew : Crew staff id) (h : e.Ready staff) : e.CallsUnder id := by
  intro d hd
  obtain ⟨m, hcarried, hm⟩ := hin d hd
  refine ⟨m, hcarried, fun s hs fresh ids steps out hoffered v hv => ?_⟩
  have hmember : s.bare ∈ staff := h.staff_eq ▸ List.mem_map_of_mem hs
  have hreads : (s.parse fresh (P.build ids m)).correlationId = id :=
    (hcrew.steady s.bare hmember).reads.correlationId hm
  have hkeeps := hoffered.keeps (f := Envelope.correlationId) (fun _ _ => rfl) fun _ => rfl
  exact (hkeeps.2 v hv).trans hreads

/-- What runs in process runs over a broker: if a message was delivered in process with all that it
leads to, and no delivery failed, then a run of the started group to which that message is
published, once nothing is left to be done, has run the same calls with the same bodies, all of them
under the correlation id of that message. The steps of the run come in any order. -/
theorem Live.invocations_perm_publishWithin {b : Broker} {config : GroupConfig b.protocol.Route κ}
    {rs : List (Registration b.protocol κ)} {id : String} {clock : UInt64} {context : κ}
    {handles : List CallHandle} {e e' : Engine b.protocol κ} {m : Message b.protocol.Route}
    {depth : Nat} {steps : List LiveStep} {l : Live b.protocol κ (Except PublisherError Unit)}
    (hsteady : config.Steady rs id) (hm : m.Under id)
    (hregistered : Engine.registerAll config true rs (.new clock context) = (.ok (), handles, e))
    (hpublished : InProcess.publishWithin depth m e = some (.ok (), e'))
    (hrun : ((Live.new config e).addClient
      (Calling.startAndPublish config.publisher m)).2.run steps = some l)
    (hcomplete : l.isComplete = true) :
    l.engine.invocations.Perm e'.invocations ∧ l.engine.CallsUnder id ∧ e'.CallsUnder id := by
  have hunheard := hsteady.unheard (Engine.unheard_new id clock context) hregistered
  have hcrew := hunheard.crew
  obtain ⟨hready', hinHand', total, hunrolls, hinvocations⟩ :=
    InProcess.delivers_of_publishWithin hcrew hm hunheard.ready hunheard.inHand hpublished
  have hstarted := Live.underway_new hsteady.plain hunheard hunrolls
  obtain ⟨htotal, hready, hinHand⟩ :=
    (hstarted.run hcrew hsteady.plain hm hrun).finished hcomplete
  rw [hunheard.invocations_eq, List.nil_append] at hinvocations
  exact ⟨htotal.trans hinvocations.symm, hinHand.callsUnder hcrew hready,
    hinHand'.callsUnder hcrew hready'⟩

/-! ## A question, and an audit of the answers -/

namespace Handling

theorem alike_done {α : Type} {a b : α} (h : a = b) :
    Alike (κ := κ) (.done a) (.done b) := by
  intro t a' u b' ht hu
  obtain ⟨rfl, rfl⟩ := runs_done_iff.mp ht
  obtain ⟨rfl, rfl⟩ := runs_done_iff.mp hu
  exact ⟨h, rfl⟩

/-- The decoder that a call has by default looks at the body and at its content type. -/
theorem alike_byContentType {e e' : Envelope} (h : e.bare = e'.bare) :
    Alike (κ := κ) (Decoder.byContentType e) (Decoder.byContentType e') := by
  have hbody : e.bare.body = e'.bare.body := congrArg Envelope.body h
  have htype : e.bare.contentType = e'.bare.contentType := congrArg Envelope.contentType h
  exact alike_done (congr (congrArg Decoded.ofBody hbody) htype)

/-- The filter that a call has by default looks at whether the message was processed. -/
theorem alike_notProcessed {e e' : Envelope} (h : e.bare = e'.bare) :
    Alike (κ := κ) (Filter.notProcessed e) (Filter.notProcessed e') := by
  have hprocessed : e.bare.processed = e'.bare.processed := congrArg Envelope.processed h
  exact alike_done (congrArg not hprocessed)

end Handling

namespace Audit

/-- A handler that gives the same reply to whatever comes. -/
def replying (subject : String) (reply : Reply) (targets : List Nats.protocol.Route) :
    Registration Nats.protocol Unit :=
  { binding := ⟨subject, none⟩, retry := none, parser := none, decoder := Decoder.byContentType,
    filter := Filter.notProcessed, maxWorkers := some 2, name := subject, description := none,
    payload := none, targets := targets, processing := [], telemetry := [],
    handler := fun _ => .done (.ok reply) }

def config : GroupConfig Nats.protocol.Route Unit :=
  { settings := .default, replyInbox := none, processing := [], telemetry := [],
    publisherMiddlewares := [] }

theorem steady_replying (subject : String) (reply : Reply) (targets : List Nats.protocol.Route) :
    ((replying subject reply targets).call config).Steady where
  decoder := Handling.alike_byContentType
  filter := Handling.alike_notProcessed
  handler := by
    refine ⟨[], fun _ => .done (.ok reply), rfl, fun _ _ => Handling.alike_done rfl, ?_⟩
    intro incoming t signal hruns
    cases (runs_done_iff.mp hruns).2

/-- The answer goes to the audit twice: as a reply, and because it is forwarded there. -/
def handlers : List (Registration Nats.protocol Unit) :=
  [replying "questions" (some (.text "pong")) [Nats.Route.mk "audit"], replying "audit" none []]

theorem steady_handlers : config.Steady handlers "c-1" where
  plain := rfl
  telemetry := List.forall_mem_nil _
  calls := List.forall_mem_cons.mpr ⟨steady_replying .., List.forall_mem_singleton.mpr
    (steady_replying ..)⟩
  parsers := List.forall_mem_cons.mpr ⟨by simp [replying], List.forall_mem_singleton.mpr
    (by simp [replying])⟩
  ownTelemetry := List.forall_mem_cons.mpr ⟨List.forall_mem_nil _, List.forall_mem_singleton.mpr
    (List.forall_mem_nil _)⟩

def question : Message Nats.protocol.Route :=
  { Message.new (Nats.Route.mk "questions") (.text "ping") with
    replyTo := some "audit", correlationId := some "c-1", messageId := some "m-1" }

theorem under_question : question.Under "c-1" :=
  ⟨rfl, by decide, "m-1", rfl, by decide, by decide⟩

def engine : Engine Nats.protocol Unit :=
  (Engine.registerAll config true handlers (.new 0 ())).2.2

def started : Live Nats.protocol Unit (Except PublisherError Unit) :=
  ((Live.new config engine).addClient (Calling.startAndPublish config.publisher question)).2

/-- Both messages to the audit are taken in hand before the first of them is processed, and the
later one is processed first. -/
def steps : List LiveStep :=
  List.replicate 3 (.client 0) ++ [.heed 0, .heed 1] ++ List.replicate 7 (.client 0) ++
    [.heed 0, .heed 1, .receive 0] ++ List.replicate 15 (.task 0) ++
      [.receive 1, .heed 1, .receive 1] ++ List.replicate 6 (.task 1) ++ List.replicate 6 (.task 0)

/-- Has all been done, with three calls run? -/
def ends (l : Live Nats.protocol Unit (Except PublisherError Unit)) : Bool :=
  l.isComplete && l.engine.invocations.length == 3

theorem exists_ends : ∃ l, started.run steps = some l ∧ l.isComplete = true ∧
    l.engine.invocations.length = 3 := by
  have hrun : (started.run steps).any ends = true := by decide +kernel
  obtain ⟨l, hl, hends⟩ := (Option.any_eq_true ..).mp hrun
  obtain ⟨hcomplete, hlength⟩ := Bool.and_eq_true_iff.mp hends
  exact ⟨l, hl, hcomplete, eq_of_beq hlength⟩

theorem exists_registered : ∃ handles,
    Engine.registerAll config true handlers (.new 0 ()) = (.ok (), handles, engine) := by
  have hok : (Engine.registerAll config true handlers (.new 0 ())).1.isOk = true := by
    decide +kernel
  rw [engine]
  generalize Engine.registerAll config true handlers (.new 0 ()) = registered at hok ⊢
  obtain ⟨err | ⟨⟩, handles, e⟩ := registered
  · cases hok
  · exact ⟨handles, rfl⟩

theorem exists_published : ∃ e', InProcess.publishWithin 2 question engine = some (.ok (), e') := by
  have hrun : (InProcess.publishWithin 2 question engine).any (·.1.isOk) = true := by decide +kernel
  obtain ⟨⟨result, e'⟩, hpublished, hok⟩ := (Option.any_eq_true ..).mp hrun
  cases result with
  | ok _ => exact ⟨e', hpublished⟩
  | error err => cases hok

end Audit

/-- The audit hears the answer twice, and the question is heard once. -/
theorem Live.agreed_audit : ∃ handles e' l, Audit.config.Steady Audit.handlers "c-1" ∧
    Audit.question.Under "c-1" ∧
    Engine.registerAll Audit.config true Audit.handlers (.new 0 ()) =
      (.ok (), handles, Audit.engine) ∧
    InProcess.publishWithin 2 Audit.question Audit.engine = some (.ok (), e') ∧
    Audit.started.run Audit.steps = some l ∧ l.isComplete = true ∧
    l.engine.invocations.Perm e'.invocations ∧ e'.invocations.length = 3 ∧
    l.engine.CallsUnder "c-1" ∧ e'.CallsUnder "c-1" := by
  obtain ⟨e', hpublished⟩ := Audit.exists_published
  obtain ⟨l, hrun, hcomplete, hlength⟩ := Audit.exists_ends
  obtain ⟨handles, hregistered⟩ := Audit.exists_registered
  obtain ⟨hperm, hunder, hunder'⟩ := Live.invocations_perm_publishWithin (b := .nats)
    Audit.steady_handlers Audit.under_question hregistered hpublished hrun hcomplete
  exact ⟨handles, e', l, Audit.steady_handlers, Audit.under_question, hregistered, hpublished, hrun,
    hcomplete, hperm, hperm.length_eq ▸ hlength, hunder, hunder'⟩

end MessageDispatch
