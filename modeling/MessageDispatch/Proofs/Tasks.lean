import MessageDispatch.Proofs.Lists
import MessageDispatch.Proofs.ReplyDelivery

/-! The tasks of a live group. Each of them processes one message of its own, so whatever happens
in the group, one delivery of a message to the inbox hands one reply over at most. Between two of
these moments the reply table and the clients are left alone by everybody but the clients. -/
namespace MessageDispatch

/-- A reply that came to the inbox, as it was handed over. -/
structure Arrival where
  /-- The delivery that brought it. -/
  delivery : Nat
  id : String
  reply : Decoded
  /-- Did anybody wait for it? -/
  found : Bool
  /-- The handle of the registration that got it. -/
  handle : Option Nat

variable {P : Protocol} {κ α : Type}

/-! ## What operations leave alone -/

/-- The message from a queue that was delivered. -/
def Source.message? : Source P → Option (Message P.Route)
  | .queue _ m => some m
  | _ => none

namespace Engine

def message? (e : Engine P κ) (delivery : Nat) : Option (Message P.Route) :=
  (e.deliveries[delivery]?).bind (·.source.message?)

/-- What of an engine matters to those who wait for replies. -/
@[ext]
structure Outline (P : Protocol) (κ : Type) where
  replies : ReplyTable
  messages : Nat → Option (Message P.Route)
  staff : SubscriberRef → Option (List (Call P.Route κ) × (String → P.Raw → Envelope))

def outline (e : Engine P κ) : Outline P κ where
  replies := e.replies
  messages := e.message?
  staff := fun ref => (e.subscriber? ref).map fun s => (s.calls, s.parse)

variable {e e' : Engine P κ}

theorem outline_eq (hreplies : e'.replies = e.replies)
    (hmessages : ∀ k, e'.message? k = e.message? k)
    (hstaff : ∀ ref, e'.outline.staff ref = e.outline.staff ref) : e'.outline = e.outline :=
  Outline.ext hreplies (funext hmessages) (funext hstaff)

theorem message?_modify {delivery : Nat} {f : Delivery P → Delivery P}
    (hf : ∀ d, e.deliveries[delivery]? = some d → (f d).source.message? = d.source.message?)
    (k : Nat) :
    message? { e with deliveries := e.deliveries.modify delivery f } k = e.message? k := by
  unfold message?
  rw [List.getElem?_modify]
  by_cases hk : delivery = k
  · subst hk
    cases hd : e.deliveries[delivery]? with
    | none => rfl
    | some d => simpa using hf d hd
  · simp [hk]

theorem outline_instruct (delivery : Nat) (action : Action) (e : Engine P κ) :
    (instruct delivery action e).2.outline = e.outline := by
  unfold instruct
  split
  · split
    · rfl
    · rfl
  · rename_i acker acks nacks rejects heq
    refine outline_eq rfl (message?_modify ?_) fun _ => rfl
    intro d hd
    obtain rfl := Option.some.inj (heq.symm.trans hd)
    cases action <;> rfl
  · rfl

theorem outline_setAcker (e : Engine P κ) (delivery : Nat) (a : Acker) :
    (e.setAcker delivery a).outline = e.outline :=
  outline_eq rfl (message?_modify fun _ _ => rfl) fun _ => rfl

theorem outline_updateSubscriber {f : Subscriber P κ → Subscriber P κ}
    (hf : ∀ s, (f s).calls = s.calls ∧ (f s).parse = s.parse) (e : Engine P κ)
    (ref : SubscriberRef) : (e.updateSubscriber ref f).outline = e.outline := by
  refine outline_eq ?_ ?_ ?_
  · cases ref <;> rfl
  · intro k
    cases ref <;> rfl
  · intro ref'
    simp only [outline, subscriber?_updateSubscriber]
    split
    · cases e.subscriber? ref' with
      | none => rfl
      | some s => simp [hf s]
    · rfl

theorem outline_execPublishing (op : Publishing.Op P.Route κ) (e : Engine P κ)
    (item : Option (Option String)) :
    (execPublishing op (e, item)).2.1.outline = e.outline := by
  cases op with
  | ambient op =>
    cases op with
    | setLocal s => cases item <;> rfl
    | _ => rfl
  | fate =>
    simp only [execPublishing]
    cases e.weather.fates <;> rfl
  | _ => rfl

/-- Nothing but to hand a reply over changes anything for those who wait for one. -/
theorem outline_execProcessing {op : Processing.Op P.Route κ} (hop : op.handsOver = false)
    (e : Engine P κ) (scope : Scope) :
    (execProcessing op (e, scope)).2.1.outline = e.outline := by
  cases op with
  | publishing op => exact outline_execPublishing op e scope.item
  | settle action =>
    exact (outline_setAcker ..).trans
      (Acker.broker_settle outline (fun _ _ => outline_instruct ..) _ action e)
  | exit id outcome =>
    refine (outline_updateSubscriber ?_ _ scope.subscriber).trans ((outline_setAcker ..).trans ?_)
    · exact fun _ => ⟨rfl, rfl⟩
    · exact Attempt.broker_exit outline fun _ _ => outline_instruct ..
  | resolve id reply => cases hop
  | recordBody | recordForwarded | close | enter =>
    refine outline_updateSubscriber ?_ e scope.subscriber
    exact fun _ => ⟨rfl, rfl⟩
  | _ => rfl

theorem message?_isSome {k : Nat} {m : Message P.Route} (h : e.message? k = some m) :
    k < e.deliveries.length := by
  obtain ⟨d, hd, -⟩ := Option.bind_eq_some_iff.mp h
  exact (List.getElem?_eq_some_iff.mp hd).1

/-- Are all subscribers what they should be? -/
def Staffed (e : Engine P κ) : Prop := ∀ ref s, e.subscriber? ref = some s → ref.Fits s

theorem Staffed.congr (h : e.Staffed)
    (hstaff : ∀ ref, e'.outline.staff ref = e.outline.staff ref) : e'.Staffed := by
  intro ref s hs
  have hsame := hstaff ref
  simp only [outline, hs, Option.map_some] at hsame
  obtain ⟨s', hs', heq⟩ := Option.map_eq_some_iff.mp hsame.symm
  obtain ⟨hcalls, hparse⟩ := Prod.mk.inj heq
  obtain ⟨hoffers, hreads⟩ := h ref s' hs'
  exact ⟨hcalls ▸ hoffers, fun hinbox => hparse ▸ hreads hinbox⟩

theorem staffed_new (clock : UInt64) (context : κ) : (new clock context : Engine P κ).Staffed := by
  intro ref s hs
  cases ref <;> cases hs

theorem fits_addCall {config : GroupConfig P.Route κ} {i : Nat} {s : Subscriber P κ}
    (hs : (SubscriberRef.member i).Fits s) (recording : Bool) (r : Registration P κ) :
    (SubscriberRef.member i).Fits (s.addCall recording (r.call config)) where
  calls := by
    intro call hcall
    rcases List.mem_append.mp hcall with hcall | hcall
    · exact hs.calls call hcall
    · obtain rfl := List.mem_singleton.mp hcall
      exact ⟨_, _, rfl⟩
  parse := nofun

/-- Handlers are all that can be registered. -/
theorem Staffed.register {config : GroupConfig P.Route κ} {recording : Bool}
    {r : Registration P κ} {handle : CallHandle} (h : e.Staffed)
    (hr : e.register config recording r = .ok (handle, e')) : e'.Staffed := by
  unfold Engine.register at hr
  split at hr
  · rename_i i _
    split at hr
    · rename_i s hs
      split at hr
      · cases hr
      · obtain ⟨-, rfl⟩ := Prod.mk.inj (Except.ok.inj hr)
        intro ref s' hs'
        cases ref with
        | inbox => exact h .inbox s' hs'
        | member j =>
          have hs' : (e.subscribers.modify i _)[j]? = some s' := hs'
          rw [modify_eq_set hs] at hs'
          rcases (getElem?_set_iff hs).mp hs' with ⟨rfl, rfl⟩ | ⟨-, hs'⟩
          · exact fits_addCall (h (.member j) s hs) recording r
          · exact h (.member j) s' hs'
    · obtain ⟨-, rfl⟩ := Prod.mk.inj (Except.ok.inj hr)
      exact h
  · obtain ⟨-, rfl⟩ := Prod.mk.inj (Except.ok.inj hr)
    intro ref s' hs'
    cases ref with
    | inbox => exact h .inbox s' hs'
    | member j =>
      rcases getElem?_concat_iff.mp hs' with hs' | ⟨rfl, rfl⟩
      · exact h (.member j) s' hs'
      · exact fits_addCall ⟨fun _ hcall => absurd hcall List.not_mem_nil, nofun⟩ recording r

/-- Registering adds subscribers and calls, and a remark to the log. -/
theorem outside_register {config : GroupConfig P.Route κ} {recording : Bool}
    {r : Registration P κ} {handle : CallHandle}
    (hr : e.register config recording r = .ok (handle, e')) :
    e'.replies = e.replies ∧ e'.deliveries = e.deliveries := by
  unfold register at hr
  split at hr
  · split at hr
    · split at hr
      · cases hr
      · obtain ⟨-, rfl⟩ := Prod.mk.inj (Except.ok.inj hr)
        exact ⟨rfl, rfl⟩
    · obtain ⟨-, rfl⟩ := Prod.mk.inj (Except.ok.inj hr)
      exact ⟨rfl, rfl⟩
  · obtain ⟨-, rfl⟩ := Prod.mk.inj (Except.ok.inj hr)
    exact ⟨rfl, rfl⟩

theorem Staffed.registerAll {config : GroupConfig P.Route κ} {recording : Bool}
    (rs : List (Registration P κ)) (h : e.Staffed) :
    (Engine.registerAll config recording rs e).2.2.Staffed ∧
      (Engine.registerAll config recording rs e).2.2.replies = e.replies := by
  induction rs generalizing e with
  | nil => exact ⟨h, rfl⟩
  | cons r rs ih =>
    unfold Engine.registerAll
    split
    · exact ⟨h, rfl⟩
    · rename_i handle e' hr
      obtain ⟨hstaffed, hreplies⟩ := ih (h.register hr)
      exact ⟨hstaffed, hreplies.trans (outside_register hr).1⟩

end Engine

/-! ## Each task at its own message -/

/-- A task is processing the message of its delivery, and may hand over what that says unless it
has done so. -/
def ProcessingTask.Due (e : Engine P κ) (arrivals : List Arrival) (t : ProcessingTask P κ) : Prop :=
  ∃ m ready, e.message? t.scope.delivery = some m ∧
    Processing.Hands t.scope.subscriber.Offers (t.scope.subscriber.May m) ready t.program ∧
      (ready = true → ∀ a ∈ arrivals, a.delivery ≠ t.scope.delivery)

namespace Live

variable {l l' l'' : Live P κ α} {arrivals : List Arrival}

/-- The tasks of a group, after these arrivals at its inbox. -/
structure Manned (l : Live P κ α) (arrivals : List Arrival) : Prop where
  staffed : l.engine.Staffed
  apart : (l.tasks.map (·.scope.delivery)).Nodup
  due : ∀ t ∈ l.tasks, t.Due l.engine arrivals
  carried : ∀ a ∈ arrivals, ∃ m, l.engine.message? a.delivery = some m ∧ P.Carries m a.id a.reply
  once : (arrivals.map (·.delivery)).Nodup

/-- Tasks may end, and messages come in. -/
theorem Manned.mono (h : l.Manned arrivals) (hstaffed : l'.engine.Staffed)
    (hmessages : ∀ k m, l.engine.message? k = some m → l'.engine.message? k = some m)
    (htasks : l'.tasks.Sublist l.tasks) : l'.Manned arrivals where
  staffed := hstaffed
  apart := h.apart.sublist (htasks.map _)
  due := by
    intro t ht
    obtain ⟨m, ready, hm, hhands⟩ := h.due t (htasks.subset ht)
    exact ⟨m, ready, hmessages _ _ hm, hhands⟩
  carried := by
    intro a ha
    obtain ⟨m, hm, hcarries⟩ := h.carried a ha
    exact ⟨m, hmessages _ _ hm, hcarries⟩
  once := h.once

theorem Manned.add {t : ProcessingTask P κ} (h : l.Manned arrivals) (ht : t.Due l.engine arrivals)
    (hnew : ∀ t' ∈ l.tasks, t'.scope.delivery ≠ t.scope.delivery) :
    Manned { l with tasks := l.tasks ++ [t] } arrivals where
  staffed := h.staffed
  apart := by
    rw [List.map_append]
    refine nodup_concat h.apart fun hmem => ?_
    obtain ⟨t', ht', heq⟩ := List.mem_map.mp hmem
    exact hnew t' ht' heq
  due := by
    intro t' ht'
    rcases List.mem_append.mp ht' with ht' | ht'
    · exact h.due t' ht'
    · obtain rfl := List.mem_singleton.mp ht'
      exact ht
  carried := h.carried
  once := h.once

/-- A step that leaves the reply table and the clients alone, and gives each new task a message of
its own. -/
structure Calm (l l' : Live P κ α) : Prop where
  replies : l'.engine.replies = l.engine.replies
  clients : l'.clients = l.clients
  manned : ∀ arrivals, l.Manned arrivals → l'.Manned arrivals

theorem Calm.refl (l : Live P κ α) : l.Calm l := ⟨rfl, rfl, fun _ => id⟩

theorem Calm.trans (h : l.Calm l') (h' : l'.Calm l'') : l.Calm l'' :=
  ⟨h'.replies.trans h.replies, h'.clients.trans h.clients,
    fun arrivals hm => h'.manned arrivals (h.manned arrivals hm)⟩

theorem Calm.of_outline (houtline : l'.engine.outline = l.engine.outline)
    (htasks : l'.tasks.Sublist l.tasks) (hclients : l'.clients = l.clients) : l.Calm l' where
  replies := congrArg Engine.Outline.replies houtline
  clients := hclients
  manned := by
    intro arrivals hm
    refine hm.mono (hm.staffed.congr fun ref => ?_) (fun k m hk => ?_) htasks
    · rw [houtline]
    · exact (congrFun (congrArg Engine.Outline.messages houtline) k).trans hk

/-! ## Dispatchers -/

theorem calm_begin (i : Nat) (r : Receiver P) (number q : Nat) (m : Message P.Route)
    (l : Live P κ α) : l.Calm (l.begin i r number q m) := by
  unfold begin
  cases hs : l.engine.subscriber? r.subscriber with
  | none => exact .refl l
  | some s =>
    let k := l.engine.deliveries.length
    let l₁ : Live P κ α :=
      { l with engine := (l.engine.addDelivery ⟨.ofBackend true, .queue q m⟩).2.drawIds.2 }
    have hold : ∀ j m', l.engine.message? j = some m' → l₁.engine.message? j = some m' := by
      intro j m' hj
      have hlt := Engine.message?_isSome hj
      show ((l.engine.deliveries ++ [_])[j]?).bind _ = _
      rw [List.getElem?_append_left hlt]
      exact hj
    have hnew : l₁.engine.message? k = some m := by
      show ((l.engine.deliveries ++ [_])[k]?).bind _ = _
      rw [List.getElem?_concat_length]
      rfl
    refine ⟨rfl, rfl, fun arrivals hm => ?_⟩
    have hm₁ : l₁.Manned arrivals := by
      refine hm.mono (hm.staffed.congr fun ref => ?_) hold (List.Sublist.refl _)
      cases ref <;> rfl
    refine hm₁.add ⟨m, true, hnew, ?_, fun _ a ha => ?_⟩ fun t ht => ?_
    · exact (hm.staffed r.subscriber s hs).hands_process ..
    · obtain ⟨m', hm', -⟩ := hm.carried a ha
      exact Nat.ne_of_lt (Engine.message?_isSome hm')
    · obtain ⟨m', ready, hm', -⟩ := hm.due t ht
      exact Nat.ne_of_lt (Engine.message?_isSome hm')

theorem calm_effect (i : Nat) (r : Receiver P) (l : Live P κ α)
    (effect : Dispatcher.Effect (Nat × Message P.Route)) : l.Calm (Live.effect i r l effect) := by
  cases effect with
  | log line => exact .of_outline rfl (.refl _) rfl
  | unsubscribe =>
    simp only [Live.effect, unsubscribe]
    split <;> exact .of_outline rfl (.refl _) rfl
  | start number message => exact calm_begin ..

theorem calm_foldl_effect (i : Nat) (r : Receiver P)
    (effects : List (Dispatcher.Effect (Nat × Message P.Route))) (l : Live P κ α) :
    l.Calm (effects.foldl (Live.effect i r) l) := by
  induction effects generalizing l with
  | nil => exact .refl l
  | cons effect effects ih => exact (calm_effect i r l effect).trans (ih _)

theorem calm_tell {i : Nat} {r : Receiver P} {event : Dispatcher.Event (Nat × Message P.Route)}
    (h : l.tell i r event = some l') : l.Calm l' := by
  obtain ⟨⟨state, effects⟩, -, rfl⟩ := Option.map_eq_some_iff.mp h
  let r' : Receiver P := { r with state := state }
  have hset : l.Calm { l with receivers := l.receivers.set i r' } :=
    .of_outline rfl (.refl _) rfl
  exact hset.trans (calm_foldl_effect i r' effects _)

theorem calm_subscribe {i : Nat} {r : Receiver P} (h : l.subscribe i r = some l') : l.Calm l' := by
  obtain ⟨s, -, h⟩ := Option.bind_eq_some_iff.mp h
  have hopened : ∀ network,
      l.Calm { l with engine := { l.engine with network := network } } :=
    fun _ => .of_outline rfl (.refl _) rfl
  dsimp only at h
  split at h <;> exact (hopened _).trans (calm_tell h)

theorem calm_poll {i : Nat} {r : Receiver P} (h : l.poll i r = some l') : l.Calm l' := by
  unfold poll at h
  split at h
  · cases h
  · split at h
    · rename_i network _
      have hfailed : l.Calm { l with engine := { l.engine with network := network } } :=
        .of_outline rfl (.refl _) rfl
      exact hfailed.trans (calm_tell h)
    · obtain rfl := Option.some.inj h
      exact .of_outline rfl (.refl _) rfl

theorem calm_heed {i : Nat} (h : l.heed i = some l') : l.Calm l' := by
  obtain ⟨r, -, h⟩ := Option.bind_eq_some_iff.mp h
  split at h
  · split at h
    · exact calm_tell h
    · split at h
      · exact calm_tell h
      · exact calm_subscribe h
  · split at h
    · exact calm_tell h
    · split at h
      · exact calm_tell h
      · split at h
        · exact calm_tell h
        · exact calm_poll h
  · split at h
    · exact calm_tell h
    · split at h
      · exact calm_tell h
      · split at h
        · exact calm_tell h
        · cases h
  · exact calm_tell h
  · cases h
  · cases h

theorem calm_receive {i : Nat} (h : l.receive i = some l') : l.Calm l' := by
  obtain ⟨r, -, h⟩ := Option.bind_eq_some_iff.mp h
  obtain ⟨q, -, h⟩ := Option.bind_eq_some_iff.mp h
  obtain ⟨⟨m, network⟩, -, h⟩ := Option.bind_eq_some_iff.mp h
  have hpopped : l.Calm { l with engine := { l.engine with network := network } } :=
    .of_outline rfl (.refl _) rfl
  dsimp only at h
  split at h
  · obtain rfl := Option.some.inj h
    exact .of_outline rfl (.refl _) rfl
  · exact hpopped.trans (calm_tell h)

/-! ## Tasks -/

theorem calm_complete (i : Nat) (t : ProcessingTask P κ) (l : Live P κ α) :
    l.Calm (l.complete i t) := by
  have herased : l.Calm { l with tasks := l.tasks.eraseIdx i } :=
    .of_outline rfl (List.eraseIdx_sublist ..) rfl
  unfold complete
  dsimp only
  split
  · rename_i r _
    cases htold : ({ l with tasks := l.tasks.eraseIdx i }).tell t.receiver
        { r with waiting := none } (.completed t.number) with
    | none => exact herased
    | some l' => exact herased.trans (calm_tell htold)
  · exact herased

/-- The reply that the next operation of a task hands over. -/
def arrival? (l : Live P κ α) (i : Nat) : Option Arrival :=
  (l.tasks[i]?).bind fun t =>
    match t.program with
    | .call (.resolve id reply) _ =>
      some ⟨t.scope.delivery, id, reply, (l.engine.replies.resolve id reply).1,
        l.engine.replies.pending.lookup id⟩
    | _ => none

theorem met_execProcessing {e : Engine P κ} (he : e.Staffed) (op : Processing.Op P.Route κ)
    (scope : Scope) : op.Met scope.subscriber.Offers (Engine.execProcessing op (e, scope)).1 := by
  cases op with
  | calls =>
    show scope.subscriber.Offers (((e.subscriber? scope.subscriber).map (·.calls)).getD [])
    cases hs : e.subscriber? scope.subscriber with
    | none =>
      cases scope.subscriber with
      | member i => simp [SubscriberRef.Offers]
      | inbox => exact .inl rfl
    | some s => exact (he _ s hs).calls
  | _ => trivial

/-- An operation of a task, after which at most one more reply has arrived. -/
theorem Manned.perform {i : Nat} {t t' : ProcessingTask P κ} {op : Processing.Op P.Route κ}
    {next : Processing.Answer op → Program (Processing P.Route κ) ProcessingOutcome}
    {answer : Processing.Answer op} {more : List Arrival} (hm : l.Manned arrivals)
    (ht : l.tasks[i]? = some t) (hprogram : t.program = .call op next)
    (htasks : l'.tasks = l.tasks.set i t') (hmet : op.Met t.scope.subscriber.Offers answer)
    (hnext : t'.program = next answer)
    (hscope : t'.scope.subscriber = t.scope.subscriber ∧ t'.scope.delivery = t.scope.delivery)
    (hstaff : ∀ ref, l'.engine.outline.staff ref = l.engine.outline.staff ref)
    (hmessages : ∀ k, l'.engine.message? k = l.engine.message? k)
    (hmore : ∀ a ∈ more, op = .resolve a.id a.reply ∧ a.delivery = t.scope.delivery)
    (hone : more.length ≤ 1) : l'.Manned (arrivals ++ more) := by
  obtain ⟨m, ready, hmessage, hhands, hready⟩ := hm.due t (List.mem_of_getElem? ht)
  rw [hprogram] at hhands
  obtain ⟨hpermitted, hhands⟩ := hhands
  obtain ⟨hsubscriber, hdelivery⟩ := hscope
  refine ⟨hm.staffed.congr hstaff, ?_, ?_, ?_, ?_⟩
  · rw [htasks, map_set_eq ht hdelivery]
    exact hm.apart
  · intro u hu
    rw [htasks] at hu
    obtain ⟨j, hj⟩ := List.mem_iff_getElem?.mp hu
    rcases (getElem?_set_iff ht).mp hj with ⟨-, rfl⟩ | ⟨hji, hj⟩
    -- the task itself is done with handing over once it has done so
    · refine ⟨m, ready && !op.handsOver, ?_, ?_, fun hstill a ha => ?_⟩
      · rw [hmessages, hdelivery]
        exact hmessage
      · rw [hsubscriber, hnext]
        exact hhands answer hmet
      · rw [hdelivery]
        obtain ⟨hstill, hsilent⟩ := Bool.and_eq_true_iff.mp hstill
        rcases List.mem_append.mp ha with ha | ha
        · exact hready hstill a ha
        · rw [(hmore a ha).1] at hsilent
          cases hsilent
    -- another task is at another delivery
    · obtain ⟨m', ready', hm', hhands', hready'⟩ := hm.due u (List.mem_of_getElem? hj)
      refine ⟨m', ready', (hmessages _).trans hm', hhands', fun hstill a ha => ?_⟩
      rcases List.mem_append.mp ha with ha | ha
      · exact hready' hstill a ha
      · intro heq
        exact hji (eq_of_nodup_map hm.apart ht hj ((hmore a ha).2.symm.trans heq)).symm
  · intro a ha
    rcases List.mem_append.mp ha with ha | ha
    · obtain ⟨m', hm', hcarries⟩ := hm.carried a ha
      exact ⟨m', (hmessages _).trans hm', hcarries⟩
    · obtain ⟨rfl, hfrom⟩ := hmore a ha
      exact ⟨m, (hmessages _).trans (hfrom ▸ hmessage), hpermitted.2.2⟩
  · match more, hone with
    | [], _ => simpa using hm.once
    | [a], _ =>
      obtain ⟨rfl, hfrom⟩ := hmore a (List.mem_singleton_self a)
      rw [List.map_append]
      refine nodup_concat hm.once fun hmem => ?_
      obtain ⟨b, hb, heq⟩ := List.mem_map.mp hmem
      exact hready hpermitted.1 b hb (heq.trans hfrom)

/-- A task that takes a step hands a reply over, or leaves the reply table and the clients alone. -/
theorem stepTask_cases {i : Nat} (h : l.stepTask i = some l') :
    (l.arrival? i = none ∧ l.Calm l') ∨
      ∃ a, l.arrival? i = some a ∧ a.found = (l.engine.replies.resolve a.id a.reply).1 ∧
        a.handle = l.engine.replies.pending.lookup a.id ∧
          l'.engine.replies = (l.engine.replies.resolve a.id a.reply).2 ∧ l'.clients = l.clients ∧
            ∀ arrivals, l.Manned arrivals → l'.Manned (arrivals ++ [a]) := by
  obtain ⟨t, ht, h⟩ := Option.bind_eq_some_iff.mp h
  split at h
  · cases h
  · split at h
    · rename_i hprogram
      obtain rfl := Option.some.inj h
      exact .inl ⟨by simp only [arrival?, ht, Option.bind_some, hprogram], calm_complete ..⟩
    · rename_i ms next hprogram
      obtain rfl := Option.some.inj h
      refine .inl ⟨by simp only [arrival?, ht, Option.bind_some, hprogram], rfl, rfl,
        fun arrivals hm => ?_⟩
      rw [← List.append_nil arrivals]
      exact hm.perform ht hprogram rfl trivial rfl ⟨rfl, rfl⟩ (fun _ => rfl) (fun _ => rfl)
        (fun a ha => absurd ha List.not_mem_nil) (Nat.zero_le _)
    · rename_i op next _ hprogram
      obtain rfl := Option.some.inj h
      have hscope := Engine.scope_execProcessing op l.engine t.scope
      cases hop : op.handsOver with
      | false =>
        have houtline := Engine.outline_execProcessing hop l.engine t.scope
        refine .inl ⟨?_, congrArg Engine.Outline.replies houtline, rfl, fun arrivals hm => ?_⟩
        · rw [arrival?, ht, Option.bind_some, hprogram]
          cases op <;> first | rfl | cases hop
        · rw [← List.append_nil arrivals]
          exact hm.perform ht hprogram rfl (met_execProcessing hm.staffed op t.scope) rfl hscope
            (congrFun (congrArg Engine.Outline.staff houtline))
            (congrFun (congrArg Engine.Outline.messages houtline))
            (fun a ha => absurd ha List.not_mem_nil) (Nat.zero_le _)
      | true =>
        cases op with
        | resolve id reply =>
          refine .inr ⟨_, by rw [arrival?, ht, Option.bind_some, hprogram], rfl, rfl, rfl, rfl,
            fun arrivals hm => ?_⟩
          refine hm.perform ht hprogram rfl trivial rfl hscope (fun _ => rfl) (fun _ => rfl) ?_
            (Nat.le_refl _)
          intro a ha
          obtain rfl := List.mem_singleton.mp ha
          exact ⟨rfl, rfl⟩
        | _ => cases hop

end Live
end MessageDispatch
