import Mathlib.Data.List.Forall2
import MessageDispatch.Proofs.Answering
import MessageDispatch.Proofs.Obligations
import MessageDispatch.Proofs.ShortCircuit
import MessageDispatch.Proofs.Transmission
import MessageDispatch.Registration

/-! The layers around the processing of a message, told by what middlewares and handlers note in the
context. Telemetry is the outer layer. Inside of it the middlewares of the call are nested around
its handler; then the attempt ends, and each message of the answer goes out within the middlewares
of the publisher. -/
namespace MessageDispatch

/-! ## What is noted -/

/-- What shows of the processing of a message. -/
inductive Mark (μ : Type) where
  /-- User code has noted something. -/
  | note (m : μ)
  /-- The attempt has come to its end. -/
  | settled (answer : Except AckError (Option Action))
  /-- A message was handed to the broker, which may have taken it or not. -/
  | published (fate : Fate)
  /-- The message got to the broker. -/
  | arrived

namespace Mark

variable {ρ κ μ : Type} (note : (κ → κ) → κ → List μ)

/-- Notes are read off the changes of the context. -/
def ofAmbient : Event (Ambient κ) → List (Mark μ)
  | ⟨.context update, before⟩ => (note update before).map .note
  | _ => []

def ofHandling : Event (Handling κ) → List (Mark μ)
  | ⟨.ambient op, answer⟩ => ofAmbient note ⟨op, answer⟩
  | _ => []

def ofPublishing : Event (Publishing ρ κ) → List (Mark μ)
  | ⟨.ambient op, answer⟩ => ofAmbient note ⟨op, answer⟩
  | ⟨.fate, fate⟩ => [.published fate]
  | ⟨.send _, _⟩ => [.arrived]
  | _ => []

def ofProcessing : Event (Processing ρ κ) → List (Mark μ)
  | ⟨.publishing op, answer⟩ => ofPublishing note ⟨op, answer⟩
  | ⟨.exit .., answer⟩ => [.settled answer]
  | _ => []

/-! Whoever carries an operation out for somebody else leaves the same marks. -/

theorem relays_perform {S : Signature} {ν : Type} (read : Event S → List ν) :
    Relays Program.perform read read := by
  intro op t answer h
  rw [eq_of_runs_single h]
  exact List.append_nil _

theorem relays_publisher : Relays (Publisher.ofAmbient (ρ := ρ)) (ofAmbient note)
    (ofPublishing note) := by
  intro op t answer h
  rw [eq_of_runs_single h]
  exact List.append_nil _

theorem relays_publishing : Relays (Processing.ofPublishing (ρ := ρ)) (ofPublishing note)
    (ofProcessing note) := by
  intro op t answer h
  rw [eq_of_runs_single h]
  exact List.append_nil _

theorem relays_ambient : Relays (Processing.ofAmbient (ρ := ρ)) (ofAmbient note)
    (ofProcessing note) := by
  intro op t answer h
  rw [eq_of_runs_single h]
  exact List.append_nil _

theorem relays_handling : Relays (Processing.ofHandling (ρ := ρ)) (ofHandling note)
    (ofProcessing note) := by
  intro op t answer h
  cases op with
  | ambient op => exact relays_ambient note op t answer h
  | settle | settlement =>
    rw [eq_of_runs_single h]
    rfl

end Mark

open Mark

/-! ## The handler within its middlewares -/

section
variable {ρ κ μ : Type} {note : (κ → κ) → κ → List μ}

/-- A handler that leaves one mark is run once within its middlewares, or not at all. -/
theorem nested_of_runCall
    {recorders : List (Recorder (Handling κ) Incoming Handled (ofHandling note))} {h : Handler κ}
    {handles : Handled → Mark μ} (hhandler : ∀ incoming u handled, Runs (h incoming) u handled →
      u.flatMap (ofHandling note) = [handles handled])
    {incoming : Incoming} {t : List (Event (Processing ρ κ))} {handled : Handled}
    (hruns : Runs (Processing.runCall (.handler (recorders.map (·.middleware)) h) incoming) t
      handled) :
    Nested recorders (fun inner handled => inner = [handles handled])
      (t.flatMap (ofProcessing note)) handled := by
  obtain ⟨s, hs, hwithin⟩ := exists_refines_of_runs hruns
  rw [hs.flatMap_eq (relays_handling note)]
  exact (chained_of_runs hwithin).nested (relays_perform _) hhandler

/-! ## A message within the middlewares of the publisher -/

/-- One attempt to hand a message to the broker, which gets the message just if that arrives in
time. -/
def Handed (timeoutMs : Nat) (marks : List (Mark μ)) (published : Published) : Prop :=
  ∃ fate : Fate,
    marks = .published fate :: (if fate.arrives timeoutMs then [.arrived] else []) ∧
    published.result = fate.result timeoutMs

/-- The middlewares of a publisher are nested around one attempt to hand the message over. -/
theorem nested_of_publish {publisher : Publisher ρ κ}
    {outbound : List (Recorder (Ambient κ) (Outgoing ρ) Published (ofAmbient note))}
    (houtbound : publisher.middlewares = outbound.map (·.middleware)) {m : Message ρ}
    {t : List (Event (Publishing ρ κ))} {result : Except PublisherError Unit}
    (h : Runs (publisher.publish m) t result) :
    ∃ published : Published, published.result = result ∧
      Nested outbound (Handed publisher.timeoutMs) (t.flatMap (ofPublishing note)) published := by
  obtain ⟨fresh, now, u, published, rfl, hresult, hforward⟩ := Publisher.exists_runs_forward h
  rw [Publisher.forward, houtbound] at hforward
  refine ⟨published, hresult, (chained_of_runs hforward).nested (relays_publisher note) ?_⟩
  intro o u published hcore
  exact Publisher.flatMap_of_core _ (fun _ => rfl) hcore

/-! ## The messages of an answer -/

/-- What shows of messages that are sent one after the other. -/
inductive Posted (timeoutMs : Nat)
    (outbound : List (Recorder (Ambient κ) (Outgoing ρ) Published (ofAmbient note))) :
    List (Event (Processing.Posting ρ)) → List (Mark μ) → Prop where
  | nothing : Posted timeoutMs outbound [] []
  | message {op : Processing.Posting.Op ρ} {sent : List (Event (Processing.Posting ρ))}
      {marks more : List (Mark μ)} {published : Published}
      (h : Nested outbound (Handed timeoutMs) marks published)
      (rest : Posted timeoutMs outbound sent more) :
      Posted timeoutMs outbound (⟨op, published.result⟩ :: sent) (marks ++ more)

section
variable {publisher : Publisher ρ κ}
  {outbound : List (Recorder (Ambient κ) (Outgoing ρ) Published (ofAmbient note))}
  (houtbound : publisher.middlewares = outbound.map (·.middleware))
include houtbound

theorem nested_of_post {m : Message ρ} {failure : String} {t : List (Event (Processing ρ κ))}
    {result : Except PublisherError Unit}
    (h : Runs (Processing.post publisher m failure) t result) :
    ∃ published : Published, published.result = result ∧
      Nested outbound (Handed publisher.timeoutMs) (t.flatMap (ofProcessing note)) published := by
  obtain ⟨u, v, sent, rfl, hpublish, hrest⟩ := runs_bind_iff.mp h
  obtain ⟨s, hs, hpublished⟩ := exists_refines_of_runs hpublish
  have hlogged : v.flatMap (ofProcessing note) = [] ∧ sent = result := by
    cases sent with
    | ok _ =>
      obtain ⟨rfl, rfl⟩ := runs_done_iff.mp hrest
      exact ⟨rfl, rfl⟩
    | error e =>
      obtain ⟨⟨⟩, w, rfl, hdone⟩ := runs_call_iff.mp hrest
      obtain ⟨rfl, rfl⟩ := runs_done_iff.mp hdone
      exact ⟨rfl, rfl⟩
  obtain ⟨hlogged, rfl⟩ := hlogged
  rw [List.flatMap_append, hlogged, List.append_nil, hs.flatMap_eq (relays_publishing note)]
  exact nested_of_publish houtbound hpublished

theorem posted_of_refines {sent : List (Event (Processing.Posting ρ))}
    {t : List (Event (Processing ρ κ))}
    (h : Refines (Processing.carryPost publisher) sent t) :
    Posted publisher.timeoutMs outbound sent (t.flatMap (ofProcessing note)) := by
  induction h with
  | nil => exact .nothing
  | @cons op result sent t u hop rest ih =>
    have hpost : ∃ published : Published, published.result = result ∧
        Nested outbound (Handed publisher.timeoutMs) (t.flatMap (ofProcessing note)) published := by
      cases op with
      | reply m => exact nested_of_post houtbound hop
      | forward call target m =>
        obtain ⟨⟨⟩, v, rfl, hpost⟩ := Processing.runs_perform_bind hop
        -- that it is noted leaves no mark
        have hnested := nested_of_post houtbound hpost
        exact hnested
    obtain ⟨published, rfl, hnested⟩ := hpost
    rw [List.flatMap_append]
    exact .message hnested ih

/-- The messages that are owed for a message that was processed: those of its reply, if it was
acked. -/
def owed (routeTo : String → ρ) (e : Envelope) :
    Except HandlerError (Option (Consumed ρ)) → Except AckError (Option Action) →
      List (Processing.Posting.Op ρ)
  | .ok (some ⟨some payload, call, targets⟩), .ok (some .ack) =>
    Processing.answers routeTo e payload call targets
  | _, _ => []

/-- What follows the end of an attempt are the messages that are owed. -/
theorem posted_of_conclude {routeTo : String → ρ} {e : Envelope}
    {result : Except HandlerError (Option (Consumed ρ))} {answer : Except AckError (Option Action)}
    {t : List (Event (Processing ρ κ))} {out : ProcessingOutcome}
    (h : Runs (Processing.conclude publisher routeTo e result answer) t out) :
    ∃ sent, sent.map (·.op) = owed routeTo e result answer ∧
      Posted publisher.timeoutMs outbound sent (t.flatMap (ofProcessing note)) := by
  have hnothing (hmarks : t.flatMap (ofProcessing note) = [])
      (howed : owed routeTo e result answer = []) : ∃ sent,
      sent.map (·.op) = owed routeTo e result answer ∧
        Posted publisher.timeoutMs outbound sent (t.flatMap (ofProcessing note)) := by
    rw [hmarks, howed]
    exact ⟨[], rfl, .nothing⟩
  have hlogged {level : LogLevel} {text : String} {out' : ProcessingOutcome}
      (h : Runs ((Processing.log level text).bind fun _ => .done out') t out) :
      t.flatMap (ofProcessing note) = [] := by
    obtain ⟨⟨⟩, u, rfl, hdone⟩ := Processing.runs_perform_bind h
    obtain ⟨rfl, -⟩ := runs_done_iff.mp hdone
    rfl
  have hdone {out' : ProcessingOutcome} (h : Runs (.done out') t out) :
      t.flatMap (ofProcessing note) = [] := by
    obtain ⟨rfl, -⟩ := runs_done_iff.mp h
    rfl
  cases answer with
  | error err => exact hnothing (hlogged h) (by rcases result with _ | _ | ⟨_ | _, _, _⟩ <;> rfl)
  | ok action =>
    rcases result with (signal | ⟨type, cause⟩) | (_ | ⟨reply, call, targets⟩)
    · exact hnothing (hdone h) rfl
    · exact hnothing (hlogged h) rfl
    · exact hnothing (hdone (by simpa [Processing.conclude] using h)) rfl
    · rcases action with _ | (_ | _ | _)
      · exact hnothing (hdone h) (by cases reply <;> rfl)
      · cases reply with
        | none => exact hnothing (hdone h) rfl
        | some payload =>
          obtain ⟨-, sent, hsent, hops⟩ := Processing.posts_of_conclude h
          exact ⟨sent, hops, posted_of_refines houtbound hsent⟩
      · exact hnothing (hdone h) (by cases reply <;> rfl)
      · exact hnothing (hdone h) (by cases reply <;> rfl)

end

/-! ## A message and its calls -/

/-- Decoder and filter of the call leave no marks. -/
structure Call.Quiet (note : (κ → κ) → κ → List μ) (call : Call ρ κ) : Prop where
  decoder : ∀ {e t read}, Runs (call.decoder e) t read → t.flatMap (ofHandling note) = []
  filter : ∀ {e t accepts}, Runs (call.filter e) t accepts → t.flatMap (ofHandling note) = []

open Processing (Numbered Offering Offered ConsumeResult carry runCall invocations)

/-- User code that has no envelope is carried out by what it asks for itself. -/
theorem isAmbient_of_refines {s : List (Event (Ambient κ))} {t : List (Event (Processing ρ κ))}
    (h : Refines Processing.ofAmbient s t) : ∀ ev ∈ t, ev.op.isAmbient = true := by
  induction h with
  | nil => simp
  | cons hop rest ih =>
    rw [eq_of_runs_single hop]
    exact List.forall_mem_cons.mpr ⟨rfl, ih⟩

/-- Whatever is asked of calls leaves no marks, but for running one of them. -/
theorem marks_of_carry {cs : List (Numbered ρ κ)} (hquiet : ∀ c ∈ cs, c.1.Quiet note)
    {op : Offering.Op ρ κ} (hop : op.About cs) (hother : ∀ c incoming, op ≠ .handle c incoming)
    {answer : Offering.Answer op} {t : List (Event (Processing ρ κ))}
    (h : Runs (carry op) t answer) : t.flatMap (ofProcessing note) = [] := by
  cases op with
  | decode c e =>
    obtain ⟨s, hs, hread⟩ := exists_refines_of_runs h
    rw [hs.flatMap_eq (relays_handling note)]
    exact (hquiet c hop).decoder hread
  | filter c e =>
    obtain ⟨s, hs, haccepts⟩ := exists_refines_of_runs h
    rw [hs.flatMap_eq (relays_handling note)]
    exact (hquiet c hop).filter haccepts
  | record c body =>
    rw [eq_of_runs_single h]
    rfl
  | handle c incoming => exact absurd rfl (hother c incoming)
  | stop =>
    obtain ⟨⟨⟩, u, rfl, hclose⟩ := Processing.runs_perform_bind h
    rw [eq_of_runs_single hclose]
    rfl

/-- The marks of a message that is offered to calls are those of the calls that are run for it. -/
theorem marks_of_consuming {cs : List (Numbered ρ κ)} (hquiet : ∀ c ∈ cs, c.1.Quiet note)
    {s : List (Event (Offering ρ κ))} {t : List (Event (Processing ρ κ))} (h : Refines carry s t)
    (habout : ∀ ev ∈ s, ev.op.About cs) :
    ∃ us : List (List (Event (Processing ρ κ))),
      List.Forall₂ (fun v u => Runs (runCall v.1.1.body v.2.1) u v.2.2) (invocations s) us ∧
        t.flatMap (ofProcessing note) = us.flatMap (·.flatMap (ofProcessing note)) := by
  induction h with
  | nil => exact ⟨[], .nil, rfl⟩
  | @cons op answer s t u hop rest ih =>
    obtain ⟨hfirst, hothers⟩ := List.forall_mem_cons.mp habout
    obtain ⟨us, hus, hmarks⟩ := ih hothers
    cases op with
    | handle c incoming =>
      refine ⟨t :: us, .cons hop hus, ?_⟩
      rw [List.flatMap_append, hmarks, List.flatMap_cons]
    | _ =>
      have hnone : t.flatMap (ofProcessing note) = [] :=
        marks_of_carry hquiet hfirst (fun _ _ h => by cases h) hop
      refine ⟨us, hus, ?_⟩
      rw [List.flatMap_append, hnone, hmarks, List.nil_append]

/-- One call is run for a message at most. -/
theorem invocations_eq_singleton {subscription : String} {shortCircuit : Bool}
    {cs : List (Numbered ρ κ)} {e : Envelope} {s : List (Event (Offering ρ κ))}
    {consumed : ConsumeResult ρ} (h : Offered subscription shortCircuit cs e none s consumed)
    {v : Numbered ρ κ × Incoming × Handled} (hv : v ∈ invocations s) : invocations s = [v] := by
  have hlength : (invocations s).length ≤ 1 := by
    have hfirst := congrArg List.length h.first_runs
    simp only [List.length_map, List.length_take] at hfirst
    omega
  obtain ⟨v', hv'⟩ := List.length_eq_one_iff.mp
    (Nat.le_antisymm hlength (List.length_pos_of_mem hv))
  rw [hv'] at hv ⊢
  rw [List.mem_singleton.mp hv]

end

section
open Processing (invocations runCall)

variable {P : Protocol} {κ μ : Type} {note : (κ → κ) → κ → List μ} {s : Subscriber P κ}
  {publisher : Publisher P.Route κ} {raw : P.Raw} {t : List (Event (Processing P.Route κ))}
  {out : ProcessingOutcome}

theorem Course.marks_eq (c : Course s publisher raw t out) :
    t.flatMap (ofProcessing note) = c.entering.flatMap (ofProcessing note) ++
      (c.consuming.flatMap (ofProcessing note) ++ .settled c.answer ::
        c.concluding.flatMap (ofProcessing note)) ++ c.leaving.flatMap (ofProcessing note) := by
  have htrace := congrArg (List.flatMap (ofProcessing note)) c.trace_eq
  simpa [ofProcessing, ofPublishing] using htrace

/-- The call that a body was recorded for is the one that was run. -/
theorem Course.invocations_eq (c : Course s publisher raw t out) {i : Nat} {body : Decoded}
    {call : Call P.Route κ} (hcall : c.calls[i]? = some call)
    (hran : (i, body) ∈ Processing.recordedBodies t) :
    ∃ incoming handled, Processing.invocations c.steps = [((call, i), incoming, handled)] := by
  rw [c.recordedBodies_eq, Processing.recordedBodies_of_refines c.refines, c.offered.recorded,
    List.map_map] at hran
  obtain ⟨⟨⟨call', i'⟩, incoming, handled⟩, hv, hsame⟩ := List.mem_map.mp hran
  obtain ⟨rfl, -⟩ := Prod.mk.inj hsame
  have hfound := List.mem_zipIdx_iff_getElem?.mp (c.offered.called _ hv)
  obtain rfl := Option.some.inj (hcall.symm.trans hfound)
  exact ⟨incoming, handled, invocations_eq_singleton c.offered hv⟩

/-- If it is one call that is run for a message, all that shows of the calls is what that one
leaves. -/
theorem Course.nested_consuming (c : Course s publisher raw t out)
    {config : GroupConfig P.Route κ} {r : Registration P κ}
    {group own : List (Recorder (Handling κ) Incoming Handled (ofHandling note))}
    {handles : Handled → Mark μ} {i : Nat} {incoming : Incoming} {handled : Handled}
    (hgroup : config.processing = group.map (·.middleware))
    (hown : r.processing = own.map (·.middleware))
    (hhandler : ∀ incoming u handled, Runs (r.handler incoming) u handled →
      u.flatMap (ofHandling note) = [handles handled])
    (hquiet : ∀ call ∈ c.calls, call.Quiet note)
    (hinvoked : Processing.invocations c.steps = [((r.call config, i), incoming, handled)]) :
    Nested (group ++ own) (fun inner handled => inner = [handles handled])
      (c.consuming.flatMap (ofProcessing note)) handled := by
  have hquiet : ∀ c' ∈ c.calls.zipIdx, c'.1.Quiet note := by
    intro c' hc'
    exact hquiet _ (List.fst_mem_of_mem_zipIdx hc')
  obtain ⟨us, hus, hmarks⟩ := marks_of_consuming hquiet c.refines c.offered.about
  rw [hinvoked] at hus
  obtain ⟨u, _, hran, hnone, rfl⟩ := List.forall₂_cons_left_iff.mp hus
  obtain rfl := List.forall₂_nil_left_iff.mp hnone
  have hbody : (r.call config).body = .handler ((group ++ own).map (·.middleware)) r.handler := by
    rw [List.map_append, ← hgroup, ← hown]
    rfl
  rw [hbody] at hran
  rw [hmarks, List.flatMap_singleton]
  exact nested_of_runCall hhandler hran

/-- What shows of a message on its course, where it is one call that is run for it. -/
structure Layered (s : Subscriber P κ) (publisher : Publisher P.Route κ) (raw : P.Raw)
    (t : List (Event (Processing P.Route κ))) (out : ProcessingOutcome)
    (call : Processing.Numbered P.Route κ)
    (telemetry : List (Recorder (Ambient κ) Metadata ProcessingOutcome (ofAmbient note)))
    (processing : List (Recorder (Handling κ) Incoming Handled (ofHandling note)))
    (outbound : List (Recorder (Ambient κ) (Outgoing P.Route) Published (ofAmbient note)))
    (handles : Handled → Mark μ) where
  /-- What telemetry gets to see. -/
  outcome : ProcessingOutcome
  course : Course s publisher raw t outcome
  incoming : Incoming
  /-- What the call came to. -/
  handled : Handled
  sent : List (Event (Processing.Posting P.Route))
  processed : List (Mark μ)
  published : List (Mark μ)
  exits : List (Mark μ)
  /-- Telemetry comes in, the call is run, the attempt ends, messages go out, and so does
  telemetry. -/
  marks_eq : t.flatMap (ofProcessing note) = telemetry.map (·.enters) ++
    (processed ++ .settled course.answer :: published) ++ exits
  runs_once : invocations course.steps = [(call, incoming, handled)]
  nested : Nested processing (fun inner handled => inner = [handles handled]) processed handled
  sent_eq : sent.map (·.op) = owed P.routeTo course.consumed.1 course.consumed.2 course.answer
  posted : Posted publisher.timeoutMs outbound sent published
  unwound : Unwound telemetry.reverse outcome exits out

/-- Of a message that a call of a registration is run for, it shows that telemetry is around all
that is done with it, and the middlewares of the group and of the registration, in this order,
around the handler. Whatever a publisher is given goes out within its middlewares. -/
theorem Subscriber.layered {config : GroupConfig P.Route κ} {r : Registration P κ}
    {telemetry : List (Recorder (Ambient κ) Metadata ProcessingOutcome (ofAmbient note))}
    {group own : List (Recorder (Handling κ) Incoming Handled (ofHandling note))}
    {outbound : List (Recorder (Ambient κ) (Outgoing P.Route) Published (ofAmbient note))}
    {handles : Handled → Mark μ} {calls : List (Call P.Route κ)} {i : Nat} {body : Decoded}
    (htelemetry : s.telemetry = telemetry.map (·.middleware))
    (hforward : ∀ m ∈ telemetry, ∀ outcome, ¬ m.Answers outcome)
    (hgroup : config.processing = group.map (·.middleware))
    (hown : r.processing = own.map (·.middleware))
    (houtbound : publisher.middlewares = outbound.map (·.middleware))
    (hhandler : ∀ incoming u handled, Runs (r.handler incoming) u handled →
      u.flatMap (ofHandling note) = [handles handled])
    (hruns : Runs (s.process publisher raw) t out)
    (hcalls : ∀ found, ⟨.calls, found⟩ ∈ t → found = calls)
    (hquiet : ∀ call ∈ calls, call.Quiet note) (hcall : calls[i]? = some (r.call config))
    (hran : (i, body) ∈ Processing.recordedBodies t) :
    Nonempty (Layered s publisher raw t out (r.call config, i) telemetry (group ++ own) outbound
      handles) ∧
    ∀ m u result, Runs (publisher.publish m) u result →
      ∃ published : Published, published.result = result ∧
        Nested outbound (Handed publisher.timeoutMs) (u.flatMap (ofPublishing note)) published := by
  refine ⟨?_, fun m u result h => nested_of_publish houtbound h⟩
  obtain ⟨fresh, u, rfl, hobserved⟩ := runs_call_iff.mp hruns
  have hobserved : Runs (Middleware.chain Processing.ofAmbient s.telemetry _ _) u out := hobserved
  rw [htelemetry] at hobserved
  -- telemetry passes everything on, so the run comes to its core
  cases chained_of_runs hobserved with
  | @stopped outer rest m _ _ _ outcome _ hsplit hanswers =>
    have hm : m ∈ telemetry := by simp [hsplit]
    exact absurd hanswers (hforward m hm outcome)
  | @through noted noted' entering core leaving metadata outcome _ hin henters hcore hout hexits =>
    obtain ⟨c, hentering, hleaving, -⟩ := s.course_of_execute (isAmbient_of_refines hin)
      hcore (isAmbient_of_refines hout)
    have hfound : c.calls = calls := hcalls _ c.calls_mem
    obtain ⟨incoming, handled, hinvoked⟩ := c.invocations_eq (hfound ▸ hcall) hran
    obtain ⟨sent, hsent, hposted⟩ := posted_of_conclude houtbound c.concludes
    exact ⟨{
      outcome := outcome
      course := c
      incoming := incoming
      handled := handled
      sent := sent
      processed := c.consuming.flatMap (ofProcessing note)
      published := c.concluding.flatMap (ofProcessing note)
      exits := noted'.flatMap (ofAmbient note)
      marks_eq := by
        rw [c.marks_eq, hentering, hleaving, hin.flatMap_eq (relays_ambient note), henters,
          hout.flatMap_eq (relays_ambient note)]
      runs_once := hinvoked
      nested := c.nested_consuming hgroup hown hhandler (hfound ▸ hquiet) hinvoked
      sent_eq := hsent
      posted := hposted
      unwound := hexits }⟩

end

/-! ## Layers that keep a journal -/

/-- What layers write into the journal that their group shares. -/
inductive Entry where
  | entered (layer : String)
  | left (layer : String)
  | handled

namespace Entry

/-- What a change adds to the journal. -/
def added (update : List Entry → List Entry) (before : List Entry) : List Entry :=
  (update before).drop before.length

def write (entry : Entry) : Ambient.Op (List Entry) := .context (· ++ [entry])

/-- User code without an envelope writes. -/
def tell (entry : Entry) : Program (Ambient (List Entry)) Unit :=
  .call entry.write fun _ => .done ()

/-- So does user code that has one. -/
def tellHandling (entry : Entry) : Program (Handling (List Entry)) Unit :=
  .call (.ambient entry.write) fun _ => .done ()

variable {entry : Entry} {a : Unit}

theorem ofAmbient_write {before : List Entry} :
    ofAmbient added ⟨entry.write, before⟩ = [.note entry] := by
  simp [ofAmbient, write, added]

theorem marks_of_tell {t : List (Event (Ambient (List Entry)))} (h : Runs (tell entry) t a) :
    t.flatMap (ofAmbient added) = [.note entry] := by
  obtain ⟨before, u, rfl, hdone⟩ := runs_call_iff.mp h
  obtain ⟨rfl, -⟩ := runs_done_iff.mp hdone
  rw [List.flatMap_singleton]
  exact ofAmbient_write

theorem marks_of_tellHandling {t : List (Event (Handling (List Entry)))}
    (h : Runs (tellHandling entry) t a) : t.flatMap (ofHandling added) = [.note entry] := by
  obtain ⟨before, u, rfl, hdone⟩ := runs_call_iff.mp h
  obtain ⟨rfl, -⟩ := runs_done_iff.mp hdone
  rw [List.flatMap_singleton]
  exact ofAmbient_write

end Entry

/-- A layer that writes when it is entered and when it is left, and passes everything on. -/
def Recorder.telling {S : Signature} {ι ρ : Type} {read : Event S → List (Mark Entry)}
    {tell : Entry → Program S Unit}
    (htell : ∀ {entry t a}, Runs (tell entry) t a → t.flatMap read = [.note entry])
    (layer : String) : Recorder S ι ρ read where
  middleware input :=
    (tell (.entered layer)).bind fun _ => .done (.forward input fun result =>
      (tell (.left layer)).bind fun _ => .done result)
  enters := .note (.entered layer)
  leaves _ _ := .note (.left layer)
  answers h := by
    obtain ⟨t₁, t₂, ⟨⟩, -, -, hdone⟩ := runs_bind_iff.mp h
    cases hdone
  forwards h := by
    obtain ⟨t₁, t₂, ⟨⟩, rfl, hentered, hdone⟩ := runs_bind_iff.mp h
    cases hdone
    refine ⟨by rw [List.append_nil, htell hentered], ?_⟩
    intro seen u returned hout
    obtain ⟨u₁, u₂, ⟨⟩, rfl, hleft, hdone⟩ := runs_bind_iff.mp hout
    cases hdone
    rw [List.append_nil, htell hleft]

theorem Recorder.not_answers_telling {S : Signature} {ι ρ : Type}
    {read : Event S → List (Mark Entry)} {tell : Entry → Program S Unit}
    (htell : ∀ {entry t a}, Runs (tell entry) t a → t.flatMap read = [.note entry])
    {layer : String} {own : ρ} : ¬ (Recorder.telling (ι := ι) htell layer).Answers own := by
  rintro ⟨input, t, h⟩
  obtain ⟨t₁, t₂, ⟨⟩, -, -, hdone⟩ := runs_bind_iff.mp h
  cases hdone

namespace Layered

def telemetry : List (Recorder (Ambient (List Entry)) Metadata ProcessingOutcome
    (ofAmbient Entry.added)) :=
  [.telling Entry.marks_of_tell "telemetry"]

def group : List (Recorder (Handling (List Entry)) Incoming Handled (ofHandling Entry.added)) :=
  [.telling Entry.marks_of_tellHandling "group"]

def own : List (Recorder (Handling (List Entry)) Incoming Handled (ofHandling Entry.added)) :=
  [.telling Entry.marks_of_tellHandling "own"]

def outbound : List (Recorder (Ambient (List Entry)) (Outgoing Broker.nats.protocol.Route)
    Published (ofAmbient Entry.added)) :=
  [.telling Entry.marks_of_tell "outbound"]

def config : GroupConfig Broker.nats.protocol.Route (List Entry) :=
  ⟨.default, none, group.map (·.middleware), telemetry.map (·.middleware),
    outbound.map (·.middleware)⟩

/-- A handler that writes when it is run, and replies. -/
def registration : Registration Broker.nats.protocol (List Entry) where
  binding := (⟨"jobs", none⟩ : Nats.Binding)
  retry := none
  parser := none
  decoder := .byContentType
  filter := .notProcessed
  maxWorkers := none
  name := "jobs"
  description := none
  payload := none
  targets := []
  processing := own.map (·.middleware)
  telemetry := []
  handler := fun _ =>
    (Entry.tellHandling .handled).bind fun _ => .done (.ok (some (.text "done")))

def subscriber : Subscriber Broker.nats.protocol (List Entry) :=
  (registration.subscriber config).addCall false (registration.call config)

def start : Engine Broker.nats.protocol (List Entry) × Scope :=
  (({ Engine.new 0 [] with subscribers := [subscriber] }.addDelivery
    ⟨.ofBackend true, .nowhere⟩).2, ⟨.member 0, 0, some none⟩)

def trace : List (Event (Processing Broker.nats.protocol.Route (List Entry))) :=
  (subscriber.process config.publisher question).trace Engine.execProcessing start

/-- The calls that a message is offered to. -/
def found? : Event (Processing Broker.nats.protocol.Route (List Entry)) →
    Option (List (Call Broker.nats.protocol.Route (List Entry)))
  | ⟨.calls, found⟩ => some found
  | _ => none

theorem quiet_call : (registration.call config).Quiet Entry.added where
  decoder h := by
    obtain ⟨rfl, -⟩ := runs_done_iff.mp h
    rfl
  filter h := by
    obtain ⟨rfl, -⟩ := runs_done_iff.mp h
    rfl

theorem layered_trace :
    Nonempty (Layered subscriber config.publisher question trace ⟨.ok (), some .ack⟩
      (registration.call config, 0) telemetry (group ++ own) outbound fun _ => .note .handled) ∧
    ∀ m u result, Runs (config.publisher.publish m) u result →
      ∃ published : Published, published.result = result ∧
        Nested outbound (Handed config.publisher.timeoutMs)
          (u.flatMap (ofPublishing Entry.added)) published := by
  have hforward : ∀ m ∈ telemetry, ∀ outcome, ¬ m.Answers outcome := by
    simp [telemetry, Recorder.not_answers_telling]
  have hhandler : ∀ incoming u handled, Runs (registration.handler incoming) u handled →
      u.flatMap (ofHandling Entry.added) = [.note .handled] := by
    intro incoming u handled h
    obtain ⟨t₁, t₂, ⟨⟩, rfl, htold, hdone⟩ := runs_bind_iff.mp h
    cases hdone
    rw [List.append_nil, Entry.marks_of_tellHandling htold]
  have hcalls : ∀ found, ⟨.calls, found⟩ ∈ trace → found = subscriber.calls := by
    intro found h
    have hfound : trace.filterMap found? = [subscriber.calls] := rfl
    exact eq_of_filterMap_eq_singleton hfound h rfl
  have hquiet : ∀ call ∈ subscriber.calls, call.Quiet Entry.added :=
    List.forall_mem_singleton.mpr quiet_call
  have hcall : subscriber.calls[0]? = some (registration.call config) := rfl
  have hran : (0, .bytes "work".toUTF8) ∈ Processing.recordedBodies trace := .head _
  exact Subscriber.layered rfl hforward rfl rfl rfl hhandler (.of_run ..) hcalls hquiet hcall hran

/-- The journal of that, and what else shows. -/
example : trace.flatMap (ofProcessing Entry.added) = [.note (.entered "telemetry"),
    .note (.entered "group"), .note (.entered "own"), .note .handled, .note (.left "own"),
    .note (.left "group"), .settled (.ok (some .ack)), .note (.entered "outbound"),
    .published .delivered, .arrived, .note (.left "outbound"), .note (.left "telemetry")] := rfl

end Layered

end MessageDispatch
