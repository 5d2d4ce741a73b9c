import MessageDispatch.Proofs.Instructions
import MessageDispatch.Proofs.Lists
import MessageDispatch.Proofs.Unrolling

/-! An engine that is set up, while no failure is due: its subscribers stay what they are but for
their books, the broker takes every instruction, and of all operations only the one that records a
body adds to what was heard of the calls. -/
namespace MessageDispatch

variable {P : Protocol} {κ : Type}

/-! ## What was heard of the calls -/

/-- The bodies on record, for the calls from number `i` on. -/
def heard (b : P.Binding) (i : Nat) (bodies : List (List Decoded)) : List (Invocation P) :=
  (bodies.zipIdx i).flatMap fun x => x.1.map fun body => ⟨b, x.2, body⟩

theorem heard_modify {b : P.Binding} {i j : Nat} {bodies : List (List Decoded)} {body : Decoded}
    (hj : j < bodies.length) :
    (heard b i (bodies.modify j (· ++ [body]))).Perm
      (heard b i bodies ++ [⟨b, i + j, body⟩]) := by
  induction bodies generalizing i j with
  | nil => exact absurd hj (Nat.not_lt_zero j)
  | cons first bodies ih =>
    cases j with
    | zero =>
      simp only [heard, List.modify_zero_cons, List.zipIdx_cons, List.flatMap_cons, List.map_append,
        List.map_singleton, List.append_assoc, Nat.add_zero]
      exact List.perm_append_comm.append_left _
    | succ j =>
      have hrest := ih (i := i + 1) (Nat.lt_of_succ_lt_succ hj)
      rw [Nat.add_right_comm] at hrest
      simp only [heard, List.modify_succ_cons, List.zipIdx_cons, List.flatMap_cons,
        List.append_assoc] at hrest ⊢
      exact hrest.append_left _

/-! What is added to a record does not switch it off, and a forwarded payload is no body. -/

theorem CallRecord.recording_addBody (r : CallRecord) (body : Decoded) :
    (r.addBody body).recording = r.recording := by
  unfold addBody
  split <;> rfl

theorem CallRecord.recording_addForwarded (r : CallRecord) (target : Nat) (payload : Payload) :
    (r.addForwarded target payload).recording = r.recording := by
  unfold addForwarded
  split <;> rfl

theorem CallRecord.bodies_addForwarded (r : CallRecord) (target : Nat) (payload : Payload) :
    (r.addForwarded target payload).bodies = r.bodies := by
  unfold addForwarded
  split <;> rfl

namespace Subscriber

/-- A subscriber without its books. -/
def bare (s : Subscriber P κ) : Subscriber P κ := { s with watcher := .never, records := [] }

/-- What was heard of its calls. -/
def invocations (s : Subscriber P κ) : List (Invocation P) :=
  heard s.binding 0 (s.records.map (·.bodies))

/-- There is a record of each call, and it is kept. -/
structure Recording (s : Subscriber P κ) : Prop where
  length : s.records.length = s.calls.length
  on : ∀ r ∈ s.records, r.recording = true

/-- The records with one of them changed. -/
def note (s : Subscriber P κ) (call : Nat) (f : CallRecord → CallRecord) : Subscriber P κ :=
  { s with records := s.records.modify call f }

variable {s : Subscriber P κ} {call : Nat} {f : CallRecord → CallRecord}

theorem Recording.note (hs : s.Recording) (hf : ∀ r, (f r).recording = r.recording) :
    (s.note call f).Recording where
  length := (List.length_modify ..).trans hs.length
  on := by
    intro r hr
    obtain ⟨i, hi⟩ := List.mem_iff_getElem?.mp hr
    obtain ⟨r', hr', rfl⟩ := Option.map_eq_some_iff.mp ((List.getElem?_modify ..).symm.trans hi)
    have hon := hs.on r' (List.mem_of_getElem? hr')
    split
    · exact (hf r').trans hon
    · exact hon

theorem invocations_note_addBody {body : Decoded} (hs : s.Recording)
    (hcall : call < s.calls.length) :
    (s.note call (·.addBody body)).invocations.Perm
      (s.invocations ++ [⟨s.binding, call, body⟩]) := by
  have hlt : call < s.records.length := hs.length ▸ hcall
  have hrecord := List.getElem?_eq_getElem hlt
  have hon := hs.on _ (List.getElem_mem hlt)
  have hbodies : (s.records.modify call (·.addBody body)).map (·.bodies) =
      (s.records.map (·.bodies)).modify call (· ++ [body]) := by
    have hmapped : (s.records.map (·.bodies))[call]? = some s.records[call].bodies := by
      rw [List.getElem?_map, hrecord, Option.map_some]
    rw [modify_eq_set hrecord, modify_eq_set hmapped, List.map_set, CallRecord.addBody, if_pos hon]
  have hlength : call < (s.records.map (·.bodies)).length := by rwa [List.length_map]
  have hheard : (heard s.binding 0 ((s.records.map (·.bodies)).modify call (· ++ [body]))).Perm
      (s.invocations ++ [⟨s.binding, 0 + call, body⟩]) := heard_modify hlength
  rw [Nat.zero_add, ← hbodies] at hheard
  exact hheard

theorem invocations_note_addForwarded {target : Nat} {payload : Payload} :
    (s.note call (·.addForwarded target payload)).invocations = s.invocations := by
  have hbodies : (s.records.modify call (·.addForwarded target payload)).map (·.bodies) =
      s.records.map (·.bodies) := by
    cases hrecord : s.records[call]? with
    | none => rw [List.modify_eq_self (List.getElem?_eq_none_iff.mp hrecord)]
    | some r =>
      rw [modify_eq_set hrecord]
      exact map_set_eq hrecord (r.bodies_addForwarded target payload)
  exact congrArg (heard s.binding 0) hbodies

end Subscriber

/-! ## A message in hand -/

/-- The message that was taken in hand. -/
def Source.carried? : Source P → Option (Message P.Route)
  | .queue _ m | .handed m => some m
  | _ => none

/-- What an instruction for a message does to the broker. -/
def Source.settle (action : Action) : Source P → Network P → Network P
  | .queue q m, n => n.settle q m action
  | _, n => n

/-- A message in hand, after somebody settled it unless it was settled. -/
def Delivery.settled (d : Delivery P) (told : Option Action) : Delivery P :=
  { d with acker.settlement := d.acker.settlement.or told }

theorem Delivery.settled_none (d : Delivery P) : d.settled none = d := by
  rw [settled, Option.or_none]

namespace Engine

/-- No failure is due on the way to the broker, or with the broker itself. -/
structure Clear (e : Engine P κ) : Prop where
  fates : e.weather.fates = []
  connects : e.weather.connectFailures = 0
  settlements : e.weather.settleFailures = 0
  subscriptions : e.network.subscribeFailures = 0
  receptions : e.network.receiveFailures = 0

/-- The subscribers without their books. -/
def staff (e : Engine P κ) : List (Subscriber P κ) := e.subscribers.map (·.bare)

/-- What was heard of the calls of all subscribers. -/
def invocations (e : Engine P κ) : List (Invocation P) := e.subscribers.flatMap (·.invocations)

/-- The engine is set up with these subscribers, records all calls, and no failure is due. -/
structure Ready (staff : List (Subscriber P κ)) (e : Engine P κ) : Prop where
  staff_eq : e.staff = staff
  recording : ∀ s ∈ e.subscribers, s.Recording
  clear : e.Clear

variable {staff : List (Subscriber P κ)} {e e' : Engine P κ} {s : Subscriber P κ} {i k : Nat}
  {d : Delivery P} {m : Message P.Route} {action : Action}

theorem Ready.congr (h : e.Ready staff) (hsubscribers : e'.subscribers = e.subscribers)
    (hclear : e'.Clear) : e'.Ready staff where
  staff_eq := (congrArg _ hsubscribers).trans h.staff_eq
  recording := hsubscribers ▸ h.recording
  clear := hclear

theorem Ready.length_subscribers (h : e.Ready staff) : e.subscribers.length = staff.length := by
  rw [← h.staff_eq, Engine.staff, List.length_map]

theorem Ready.exists_subscriber (h : e.Ready staff) (hs : staff[i]? = some s) :
    ∃ s', e.subscribers[i]? = some s' ∧ s'.bare = s ∧ s'.Recording := by
  rw [← h.staff_eq, Engine.staff, List.getElem?_map] at hs
  obtain ⟨s', hs', rfl⟩ := Option.map_eq_some_iff.mp hs
  exact ⟨s', hs', rfl, h.recording s' (List.mem_of_getElem? hs')⟩

theorem Ready.exists_bare (h : e.Ready staff) {ref : SubscriberRef} (href : ref = .member i)
    (hs : staff[i]? = some s) : ∃ s', e.subscriber? ref = some s' ∧ s'.bare = s := by
  obtain ⟨s', hs', hbare, -⟩ := h.exists_subscriber hs
  exact ⟨s', href ▸ hs', hbare⟩

/-! ## Messages in hand -/

/-- Every message that was taken in hand travels under this correlation id. -/
def InHand (id : String) (e : Engine P κ) : Prop :=
  ∀ d ∈ e.deliveries, ∃ m, d.source.carried? = some m ∧ m.Under id

section
variable {id : String}

theorem InHand.congr (h : e.InHand id) (hsame : e'.deliveries = e.deliveries) : e'.InHand id := by
  unfold InHand
  rw [hsame]
  exact h

theorem InHand.add (h : e.InHand id) {a : Acker} {source : Source P} {m : Message P.Route}
    (hsource : source.carried? = some m) (hm : m.Under id) :
    (e.addDelivery ⟨a, source⟩).2.InHand id :=
  List.forall_mem_append.mpr ⟨h, List.forall_mem_singleton.mpr ⟨m, hsource, hm⟩⟩

/-- Settling a message does not change which message it is. -/
theorem InHand.settled (h : e.InHand id) (hd : e.deliveries[k]? = some d) {told : Option Action}
    (hset : e'.deliveries = e.deliveries.set k (d.settled told)) : e'.InHand id := by
  intro d' hd'
  rw [hset] at hd'
  rcases List.mem_or_eq_of_mem_set hd' with hd' | rfl
  · exact h d' hd'
  · exact h d (List.mem_of_getElem? hd)

end

/-! ## Changing a subscriber -/

section
variable {f : Subscriber P κ → Subscriber P κ} (hs : e.subscribers[i]? = some s)
include hs

theorem Ready.update (h : e.Ready staff) (hbare : (f s).bare = s.bare)
    (hrecording : (f s).Recording) : (e.updateSubscriber (.member i) f).Ready staff where
  staff_eq := by
    rw [← h.staff_eq]
    show (e.subscribers.modify i f).map (·.bare) = e.subscribers.map (·.bare)
    rw [modify_eq_set hs]
    exact map_set_eq hs hbare
  recording := by
    intro s' hs'
    replace hs' : s' ∈ e.subscribers.modify i f := hs'
    rw [modify_eq_set hs] at hs'
    rcases List.mem_or_eq_of_mem_set hs' with hs' | rfl
    · exact h.recording s' hs'
    · exact hrecording
  clear := ⟨h.clear.fates, h.clear.connects, h.clear.settlements, h.clear.subscriptions,
    h.clear.receptions⟩

theorem invocations_update {more : List (Invocation P)}
    (hmore : (f s).invocations.Perm (s.invocations ++ more)) :
    (e.updateSubscriber (.member i) f).invocations.Perm (e.invocations ++ more) := by
  have hbefore := perm_of_getElem? hs
  have hafter := perm_set_of_getElem? hs
  have hsame : (e.updateSubscriber (.member i) f).invocations =
      (e.subscribers.set i (f s)).flatMap (·.invocations) := by
    rw [← modify_eq_set hs]
    rfl
  rw [hsame]
  have hold : e.invocations.Perm
      (s.invocations ++ (e.subscribers.eraseIdx i).flatMap (·.invocations)) :=
    hbefore.flatMap_right _
  have hnew : ((e.subscribers.set i (f s)).flatMap (·.invocations)).Perm
      ((s.invocations ++ more) ++ (e.subscribers.eraseIdx i).flatMap (·.invocations)) :=
    ((hafter (f s)).flatMap_right _).trans (hmore.append_right _)
  refine hnew.trans (.trans ?_ (hold.append_right more).symm)
  rw [List.append_assoc, List.append_assoc]
  exact List.perm_append_comm.append_left _

end

/-! ## Instructing the broker -/

section
variable (htakes : e.weather.settleFailures = 0) (hd : e.deliveries[k]? = some d)
  (hm : d.source.carried? = some m)
include htakes hd hm

theorem instruct_eq (action : Action) :
    instruct k action e = (.ok (), { e with network := d.source.settle action e.network }) := by
  obtain ⟨acker, source⟩ := d
  cases source with
  | queue q m' => simp [instruct, hd, htakes, Source.settle]
  | handed m' => simp [instruct, hd, Source.settle]
  | counter => cases hm
  | nowhere => cases hm

/-- The broker is told what settles an unsettled message, and takes it. -/
theorem settle_eq (a : Acker) (action : Action) :
    a.settle (instruct k) action e =
      (.ok (), { a with settlement := a.settlement.or (some action) },
        { e with
          network :=
            (a.tells action).foldl (fun n told => d.source.settle told n) e.network }) := by
  obtain ⟨settlement, backed, redelivering⟩ := a
  cases settlement with
  | some settled => rfl
  | none =>
    cases backed with
    | false => rfl
    | true =>
      simp [Acker.settle, Acker.claim?, Acker.complete, Acker.tells, instruct_eq htakes hd hm]

/-- An attempt ends with the instruction that its outcome asks for. -/
theorem ending_eq {scope : Scope} (hk : scope.delivery = k) (id : String) (outcome : Outcome) :
    (e.ending scope id outcome).result =
        .ok (Attempt.instruction (e.watcher scope.subscriber) id outcome) ∧
      (e.ending scope id outcome).broker = { e with
        network := (((Attempt.instruction (e.watcher scope.subscriber) id outcome).map
          d.acker.tells).getD []).foldl (fun n told => d.source.settle told n) e.network } := by
  subst hk
  have hacker : e.acker scope.delivery = d.acker := by
    rw [acker, hd]
    rfl
  rw [ending, hacker, Attempt.exit]
  cases Attempt.instruction (e.watcher scope.subscriber) id outcome with
  | none => exact ⟨rfl, rfl⟩
  | some asked =>
    simp [settle_eq htakes hd hm]

end

/-! ## Operations -/

theorem updateSubscriber_keeps (ref : SubscriberRef) (f : Subscriber P κ → Subscriber P κ) :
    (e.updateSubscriber ref f).network = e.network ∧
      (e.updateSubscriber ref f).deliveries = e.deliveries := by
  cases ref <;> exact ⟨rfl, rfl⟩

theorem invocations_congr (hsubscribers : e'.subscribers = e.subscribers) :
    e'.invocations = e.invocations :=
  congrArg (·.flatMap (·.invocations)) hsubscribers

/-- What settles a message, and what publishes one, lets no failure come up. -/
theorem Clear.congr (h : e.Clear) (hweather : e'.weather = e.weather)
    (hsubscribes : e'.network.subscribeFailures = e.network.subscribeFailures)
    (hreceives : e'.network.receiveFailures = e.network.receiveFailures) : e'.Clear where
  fates := hweather ▸ h.fates
  connects := hweather ▸ h.connects
  settlements := hweather ▸ h.settlements
  subscriptions := hsubscribes.trans h.subscriptions
  receptions := hreceives.trans h.receptions

theorem failures_settle (source : Source P) (told : List Action) (n : Network P) :
    (told.foldl (fun n action => source.settle action n) n).subscribeFailures =
        n.subscribeFailures ∧
      (told.foldl (fun n action => source.settle action n) n).receiveFailures =
        n.receiveFailures := by
  induction told generalizing n with
  | nil => exact ⟨rfl, rfl⟩
  | cons action told ih =>
    obtain ⟨hsubscribes, hreceives⟩ := ih (source.settle action n)
    have hone : (source.settle action n).subscribeFailures = n.subscribeFailures ∧
        (source.settle action n).receiveFailures = n.receiveFailures := by
      cases source with
      | queue q m =>
        simp only [Source.settle, Network.settle]
        split <;> exact ⟨rfl, rfl⟩
      | _ => exact ⟨rfl, rfl⟩
    exact ⟨hsubscribes.trans hone.1, hreceives.trans hone.2⟩

theorem failures_publish (n : Network P) (m : Message P.Route) :
    (n.publish m).subscribeFailures = n.subscribeFailures ∧
      (n.publish m).receiveFailures = n.receiveFailures := by
  have hdeliver (queues : List (Queue P)) (q : Nat) (n : Network P) :
      (Network.deliver m queues q n).subscribeFailures = n.subscribeFailures ∧
        (Network.deliver m queues q n).receiveFailures = n.receiveFailures := by
    induction queues generalizing q n with
    | nil => exact ⟨rfl, rfl⟩
    | cons queue queues ih =>
      obtain ⟨hsubscribes, hreceives⟩ := ih (q + 1)
        (if P.accepts queue.binding m.route m.payload.headers then n.enqueue q m else n)
      refine ⟨hsubscribes.trans ?_, hreceives.trans ?_⟩ <;> split <;> rfl
  exact hdeliver ..

theorem clear_execPublishing (h : e.Clear) (op : Publishing.Op P.Route κ)
    (item : Option (Option String)) : (execPublishing op (e, item)).2.1.Clear := by
  cases op with
  | ambient op =>
    cases op with
    | setLocal text => cases item <;> exact h.congr rfl rfl rfl
    | _ => exact h.congr rfl rfl rfl
  | fate =>
    simp only [execPublishing, h.fates]
    exact h
  | send m =>
    obtain ⟨hsubscribes, hreceives⟩ := failures_publish e.network m
    exact h.congr rfl hsubscribes hreceives
  | _ => exact h.congr rfl rfl rfl

/-- What changes the books of one subscriber adds to what was heard what it adds to these. -/
theorem Ready.update_perm {s' : Subscriber P κ} {e' : Engine P κ} (h : e.Ready staff)
    (hs' : e.subscribers[i]? = some s') (hsubscribers : e'.subscribers = e.subscribers)
    (hclear : e'.Clear) {f : Subscriber P κ → Subscriber P κ} (hbare : (f s').bare = s'.bare)
    (hkept : (f s').Recording) {more : List (Invocation P)}
    (hmore : (f s').invocations.Perm (s'.invocations ++ more)) :
    (e'.updateSubscriber (.member i) f).Ready staff ∧
      (e'.updateSubscriber (.member i) f).invocations.Perm (e.invocations ++ more) := by
  have hs'' : e'.subscribers[i]? = some s' := hsubscribers ▸ hs'
  rw [← invocations_congr hsubscribers]
  exact ⟨(h.congr hsubscribers hclear).update hs'' hbare hkept, invocations_update hs'' hmore⟩

section
variable {scope : Scope} (h : e.Ready staff) (hd : e.deliveries[scope.delivery]? = some d)
  (hm : d.source.carried? = some m)
include h hd hm

/-- Where the source takes every settlement, settling changes the broker alone. -/
theorem Ready.clear_settle (action : Action) : (e.settle scope.delivery action).2.Clear ∧
    (e.settle scope.delivery action).2.subscribers = e.subscribers := by
  obtain ⟨hsubscribes, hreceives⟩ :=
    failures_settle d.source ((e.acker scope.delivery).tells action) e.network
  rw [Engine.settle, settle_eq h.clear.settlements hd hm (e.acker scope.delivery) action]
  exact ⟨h.clear.congr rfl hsubscribes hreceives, rfl⟩

/-- As an attempt ends, nothing but the broker has changed by the time that the books of the
subscriber are closed. -/
theorem Ready.clear_ending (id : String) (outcome : Outcome) :
    ((e.ending scope id outcome).broker.setAcker scope.delivery
        (e.ending scope id outcome).acker).Clear ∧
      ((e.ending scope id outcome).broker.setAcker scope.delivery
        (e.ending scope id outcome).acker).subscribers = e.subscribers := by
  obtain ⟨-, hbroker⟩ := ending_eq h.clear.settlements hd hm rfl id outcome
  obtain ⟨hsubscribes, hreceives⟩ := failures_settle d.source
    (((Attempt.instruction (e.watcher scope.subscriber) id outcome).map
      d.acker.tells).getD []) e.network
  have hclear : (e.ending scope id outcome).broker.Clear := by
    rw [hbroker]
    exact h.clear.congr rfl hsubscribes hreceives
  refine ⟨hclear.congr rfl rfl rfl, ?_⟩
  show (e.ending scope id outcome).broker.subscribers = _
  rw [hbroker]

end

section
variable {scope : Scope} (h : e.Ready staff) (hs : staff[i]? = some s)
  (hscope : scope.subscriber = .member i) (hd : e.deliveries[scope.delivery]? = some d)
  (hm : d.source.carried? = some m)
include h hs hscope hd hm

/-- A subscriber at work adds to what was heard of its calls by recording bodies, and leaves
everything else that stands as it is, as long as it is not closed. -/
theorem Ready.perform (op : Processing.Op P.Route κ) (hopen : op ≠ .close)
    (hknown : ∀ call body, op = .recordBody call body → call < s.calls.length) :
    (execProcessing op (e, scope)).2.1.Ready staff ∧
      (execProcessing op (e, scope)).2.1.invocations.Perm (e.invocations ++
        (Processing.recordedBodies [⟨op, (execProcessing op (e, scope)).1⟩]).map
          fun r => ⟨s.binding, r.1, r.2⟩) := by
  obtain ⟨s', hs', rfl, hrecording⟩ := h.exists_subscriber hs
  -- whatever leaves the subscribers alone
  have hidle {e' : Engine P κ} (hsubscribers : e'.subscribers = e.subscribers)
      (hclear : e'.Clear) : e'.Ready staff ∧ e'.invocations.Perm (e.invocations ++ []) :=
    ⟨h.congr hsubscribers hclear, by rw [invocations_congr hsubscribers, List.append_nil]⟩
  -- whatever changes the books of this one
  have hbooks {e' : Engine P κ} (hsubscribers : e'.subscribers = e.subscribers)
      (hclear : e'.Clear) {f : Subscriber P κ → Subscriber P κ} (hbare : (f s').bare = s'.bare)
      (hkept : (f s').Recording) {more : List (Invocation P)}
      (hmore : (f s').invocations.Perm (s'.invocations ++ more)) :
      (e'.updateSubscriber scope.subscriber f).Ready staff ∧
        (e'.updateSubscriber scope.subscriber f).invocations.Perm (e.invocations ++ more) := by
    rw [hscope]
    exact h.update_perm hs' hsubscribers hclear hbare hkept hmore
  cases op with
  | publishing op =>
    exact hidle (execPublishing_keeps op e scope.item).1
      (clear_execPublishing h.clear op scope.item)
  | settle action =>
    obtain ⟨hclear, hsubscribers⟩ := h.clear_settle hd hm action
    exact hidle hsubscribers hclear
  | exit id outcome =>
    obtain ⟨hclear, hsubscribers⟩ := h.clear_ending hd hm id outcome
    have hsame : s'.invocations.Perm (s'.invocations ++ []) := .of_eq (List.append_nil _).symm
    have hleft := hbooks hsubscribers hclear
      (f := ({ · with watcher := (e.ending scope id outcome).watcher })) rfl
      ⟨hrecording.length, hrecording.on⟩ hsame
    exact ⟨hleft.1.congr rfl (hleft.1.clear.congr rfl rfl rfl), hleft.2⟩
  | recordBody call body =>
    exact hbooks rfl h.clear (f := (·.note call (·.addBody body))) rfl
      (hrecording.note (·.recording_addBody body))
      (s'.invocations_note_addBody hrecording (hknown call body rfl))
  | recordForwarded call target payload =>
    refine hbooks rfl h.clear (f := (·.note call (·.addForwarded target payload))) rfl
      (hrecording.note (·.recording_addForwarded target payload)) ?_
    rw [Subscriber.invocations_note_addForwarded]
    exact .of_eq (List.append_nil _).symm
  | enter id =>
    exact hbooks rfl h.clear (f := fun s => { s with watcher := Attempt.enter s.watcher id }) rfl
      ⟨hrecording.length, hrecording.on⟩ (.of_eq (List.append_nil _).symm)
  | close => exact absurd rfl hopen
  | settlement | log | calls | resolve => exact hidle rfl (h.clear.congr rfl rfl rfl)

end

section
variable {scope : Scope} (htakes : e.weather.settleFailures = 0)
  (hd : e.deliveries[scope.delivery]? = some d) (hm : d.source.carried? = some m)
include htakes hd hm

/-- An operation settles its own message or leaves it as it is, and leaves all others alone. -/
theorem deliveries_execProcessing (op : Processing.Op P.Route κ) :
    (execProcessing op (e, scope)).2.1.deliveries = e.deliveries.set scope.delivery
      (d.settled (Processing.settledWith? ⟨op, (execProcessing op (e, scope)).1⟩)) := by
  have hidle (hop : op.settles = false) : e.deliveries = e.deliveries.set scope.delivery
      (d.settled (Processing.settledWith? ⟨op, (execProcessing op (e, scope)).1⟩)) := by
    rw [Processing.settledWith?_eq_none hop, Delivery.settled_none, set_self hd]
  have hacker : e.acker scope.delivery = d.acker := by
    rw [acker, hd]
    rfl
  cases op with
  | publishing op => exact (execPublishing_keeps op e scope.item).2.2.trans (hidle rfl)
  | settle action =>
    show (e.settle scope.delivery action).2.deliveries = e.deliveries.set scope.delivery
      (d.settled (Processing.settledWith? ⟨.settle action, (e.settle scope.delivery action).1⟩))
    rw [Engine.settle, hacker, settle_eq htakes hd hm]
    exact modify_eq_set hd
  | exit id outcome =>
    obtain ⟨hresult, hbroker⟩ := ending_eq htakes hd hm rfl id outcome
    let ended := e.ending scope id outcome
    have hended : ended.acker = (d.settled
        (Attempt.instruction (e.watcher scope.subscriber) id outcome)).acker := by
      have hexit := Attempt.acker_exit (instruct scope.delivery) (e.watcher scope.subscriber) id
        outcome (e.acker scope.delivery) e
      have hanswered : (Attempt.exit (instruct scope.delivery) (e.watcher scope.subscriber) id
          outcome (e.acker scope.delivery) e).result = _ := hresult
      rw [hanswered, hacker] at hexit
      show (Attempt.exit _ _ _ _ (e.acker scope.delivery) e).acker = _
      rw [hacker]
      exact hexit
    have hanswer : (execProcessing (.exit id outcome) (e, scope)).1 =
        .ok (Attempt.instruction (e.watcher scope.subscriber) id outcome) := hresult
    have hleft : (execProcessing (.exit id outcome) (e, scope)).2.1.deliveries =
        (ended.broker.setAcker scope.delivery ended.acker).deliveries :=
      (updateSubscriber_keeps ..).2
    rw [hleft, setAcker, hended, hanswer]
    show ended.broker.deliveries.modify _ _ = _
    rw [hbroker]
    exact modify_eq_set hd
  | enter | recordBody | recordForwarded | close =>
    exact (updateSubscriber_keeps ..).2.trans (hidle rfl)
  | settlement | log | calls | resolve => exact hidle rfl

theorem network_settle (action : Action) :
    (execProcessing (.settle action) (e, scope)).2.1.network =
      (d.acker.tells action).foldl (fun n told => d.source.settle told n) e.network := by
  have hacker : e.acker scope.delivery = d.acker := by
    rw [acker, hd]
    rfl
  show (e.settle scope.delivery action).2.network = _
  rw [Engine.settle, hacker, settle_eq htakes hd hm]
  rfl

theorem network_exit (id : String) (outcome : Outcome) :
    (execProcessing (.exit id outcome) (e, scope)).2.1.network =
      (((Attempt.instruction (e.watcher scope.subscriber) id outcome).map
        d.acker.tells).getD []).foldl (fun n told => d.source.settle told n) e.network := by
  obtain ⟨-, hbroker⟩ := ending_eq htakes hd hm rfl id outcome
  have hleft : (execProcessing (.exit id outcome) (e, scope)).2.1.network =
      (e.ending scope id outcome).broker.network := (updateSubscriber_keeps ..).1
  rw [hleft, hbroker]

end

theorem network_execProcessing {op : Processing.Op P.Route κ} (hsettles : op.settles = false)
    (hsend : ∀ m, op ≠ .publishing (.send m)) (e : Engine P κ) (scope : Scope) :
    (execProcessing op (e, scope)).2.1.network = e.network := by
  cases op with
  | publishing op =>
    cases op with
    | ambient op =>
      cases op with
      | setLocal text =>
        simp only [execProcessing, execPublishing]
        cases scope.item <;> rfl
      | _ => rfl
    | fate =>
      simp only [execProcessing, execPublishing]
      cases e.weather.fates <;> rfl
    | send m => exact absurd rfl (hsend m)
    | _ => rfl
  | settle => cases hsettles
  | exit => cases hsettles
  | enter | recordBody | recordForwarded | close => exact (updateSubscriber_keeps ..).1
  | settlement | log | calls | resolve => rfl

end Engine
end MessageDispatch
