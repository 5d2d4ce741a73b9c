import MessageDispatch.Proofs.Oversight

/-! What the users of a group can rely on when it is started and closed, in whichever order and
however often. A start gives every open subscriber a dispatcher, no dispatcher outlasts a close, and
to close a group that is idle makes no difference for whoever starts it. -/
namespace MessageDispatch

variable {P : Protocol} {κ α : Type}

/-- A dispatcher but for the time at which it was started. -/
def Receiver.timeless (r : Receiver P) : Receiver P := { r with generation := 0 }

/-- Can a client go on at that time? -/
def Client.IsAwake (c : Client P κ α) (now : Nat) : Prop := c.abandoned = false ∧ c.wakeAt ≤ now

namespace Live

variable {l l' l₀ : Live P κ α} {log more : List (Deed P κ)} {i : Nat}

open Calling (Abides Hold attempting finishing connecting)

/-! ## Closing -/

/-- How far a client has got in closing the group. -/
inductive Closing (a : α) (i : Nat) (l : Live P κ α) : Program (Calling P.Route κ) α → Prop where
  | called {p : Program (Calling P.Route κ) α} (hp : p = Calling.close.bind fun _ => .done a) :
      Closing a i l p
  | holds {p : Program (Calling P.Route κ) α} (hholder : l.holder = some i)
      (hp : p = .call .shutDown fun ds => finishing ds (.done a)) : Closing a i l p
  | waits {p : Program (Calling P.Route κ) α} {ds : List Nat} (hholder : l.holder = some i)
      (hp : p = finishing ds (.done a)) : Closing a i l p
  | waited {p : Program (Calling P.Route κ) α} (hholder : l.holder = some i)
      (hall : ∀ d, l.isFinished d = true) (hp : p = .call .release fun _ => .done a) :
      Closing a i l p
  | closed : Closing a i l (.done a)

theorem Wanes.finished (h : Wanes l l') (hall : ∀ d, l.isFinished d = true) (d : Nat) :
    l'.isFinished d = true := by
  cases hd : l'.isFinished d with
  | true => rfl
  | false => rw [← h.unfinished hd, hall d]

theorem Closing.aside {a : α} {p : Program (Calling P.Route κ) α} (h : Closing a i l p)
    (haside : Aside i l l') : Closing a i l' p := by
  cases h with
  | called hp => exact .called hp
  | holds hholder hp => exact .holds ((haside.wanes hholder).holder.trans hholder) hp
  | waits hholder hp => exact .waits ((haside.wanes hholder).holder.trans hholder) hp
  | waited hholder hall hp =>
    have hwanes := haside.wanes hholder
    exact .waited (hwanes.holder.trans hholder) (hwanes.finished hall) hp
  | closed => exact .closed

/-- No dispatcher is at work any more when whoever closes the group has waited for all of them. -/
theorem Managed.finished (h : Managed l) {c : Client P κ α}
    {next : Unit → Program (Calling P.Route κ) α} (hholder : l.holder = some i)
    (hc : l.clients[i]? = some c) (hprogram : c.program = .call .renew next) (d : Nat) :
    l.isFinished d = true := by
  obtain ⟨-, hold, hat, -, -, habides⟩ := h
  have hmine := habides i c hc
  rw [hprogram, stage_eq_hold hholder] at hmine
  obtain rfl : hold = .closing [] := by
    rcases Hold.cases_of_allows rfl hmine.1 with ⟨-, h⟩ | ⟨-, -, h⟩ | ⟨h, -⟩ | ⟨-, h⟩
    · cases h
    · exact absurd rfl h
    · exact h
    · cases h
  obtain ⟨-, -, hleft⟩ := hat
  cases hd : l.isFinished d with
  | true => rfl
  | false => exact absurd (hleft d hd) List.not_mem_nil

section
variable {c : Client P κ α} {op : Calling.Op P.Route κ}
  {next : Calling.Answer op → Program (Calling P.Route κ) α} {answer : Calling.Answer op}
  {l₁ : Live P κ α}

theorem Answered.holder_eq (h : Answered l l' i c op next answer l₁) : l'.holder = l₁.holder := by
  rw [h.rest]

theorem Answered.isFinished_eq (h : Answered l l' i c op next answer l₁) (d : Nat) :
    l'.isFinished d = l₁.isFinished d := by
  rw [isFinished, h.rest]
  rfl

/-- The next thing that is done to close the group. The last of them is to let go of it, and then no
dispatcher is at work. -/
theorem Closing.own {a : α} (hmanaged : Managed l) (h : Answered l l' i c op next answer l₁)
    (hcloses : Closing a i l (.call op next)) :
    Closing a i l' (next answer) ∧
      ∀ b, next answer = .done b → op = .release ∧ ∀ d, l'.isFinished d = true := by
  cases hcloses with
  | called hp =>
    rw [Calling.close_bind] at hp
    obtain ⟨rfl, hnext⟩ := Program.call.inj hp
    obtain rfl := eq_of_heq hnext
    have hanswer := h.eq_answer rfl
    obtain ⟨-, hl⟩ := Option.ite_none_left_eq_some.mp hanswer
    obtain ⟨-, rfl⟩ := Prod.mk.inj (Option.some.inj hl)
    exact ⟨.holds h.holder_eq rfl, nofun⟩
  | holds hholder hp =>
    obtain ⟨rfl, hnext⟩ := Program.call.inj hp
    obtain rfl := eq_of_heq hnext
    have hanswer := h.eq_answer rfl
    obtain ⟨-, rfl⟩ := Prod.mk.inj (Option.some.inj hanswer)
    refine ⟨.waits (h.holder_eq.trans hholder) rfl, fun b hb => ?_⟩
    cases answer <;> cases hb
  | @waits _ ds hholder hp =>
    cases ds with
    | nil =>
      obtain ⟨rfl, hnext⟩ := Program.call.inj hp
      obtain rfl := eq_of_heq hnext
      have hall := hmanaged.finished hholder h.found h.program
      have hanswer := h.eq_answer rfl
      obtain ⟨-, rfl⟩ := Prod.mk.inj (Option.some.inj hanswer)
      refine ⟨.waited (h.holder_eq.trans hholder) (fun d => ?_) rfl, nofun⟩
      rw [h.isFinished_eq]
      exact hall d
    | cons d ds =>
      rw [Calling.finishing_cons] at hp
      obtain ⟨rfl, hnext⟩ := Program.call.inj hp
      obtain rfl := eq_of_heq hnext
      have hholder' := h.holder_eq.trans ((h.wanes rfl).holder.trans hholder)
      refine ⟨.waits hholder' rfl, fun b hb => ?_⟩
      cases ds <;> cases hb
  | waited hholder hall hp =>
    obtain ⟨rfl, hnext⟩ := Program.call.inj hp
    obtain rfl := eq_of_heq hnext
    have hanswer := h.eq_answer rfl
    obtain ⟨-, rfl⟩ := Prod.mk.inj (Option.some.inj hanswer)
    refine ⟨.closed, fun _ _ => ⟨rfl, fun d => ?_⟩⟩
    rw [h.isFinished_eq]
    exact hall d

end

theorem followed_closing (a : α) (i : Nat) (l₀ : Live P κ α) : Followed i l₀ (Closing a i) where
  aside _ haside hcloses := hcloses.aside haside
  own hmanaged _ _ hanswered hcloses := by
    obtain ⟨hnext, hlast⟩ := hcloses.own hmanaged hanswered
    exact ⟨hnext, fun b hb => (hlast b hb).1⟩

section
variable {a b : α} {c : Client P κ α} (h : Overseen log l₀) (hc : l₀.clients[i]? = some c)
  (hprogram : c.program = Calling.close.bind fun _ => .done a) (hgoes : Goes Used l₀ more l)
include h hc hprogram hgoes

/-- When the call to close the group returns, no dispatcher is at work. -/
theorem Overseen.closed (hstep : l.step (.client i) = some l') (hresult : l'.result? i = some b)
    (d : Nat) : l'.isFinished d = true := by
  obtain ⟨c', op, next, answer, l₁, hanswered, hcloses, hdone⟩ :=
    h.follows_to_end (followed_closing a i l₀) hc (.called hprogram) hgoes hstep hresult
  exact ((hcloses.own (h.goes hgoes).managed hanswered).2 b hdone).2 d

theorem Overseen.returned_of_close (hresult : l.result? i = some b) : Returned i l₀ b l := by
  refine h.returned (followed_closing a i l₀) hc (.called hprogram) ?_ hgoes hresult
  rw [hprogram, Calling.close_bind]
  exact nofun

end

/-! ## Starting -/

/-- A dispatcher that was at work for a subscriber, and has not been told to leave since. -/
structure Given (m l : Live P κ α) (ref : SubscriberRef) (d : Nat) : Prop where
  atWork : ∃ r, m.receivers[d]? = some r ∧ r.subscriber = ref ∧ r.state.isFinished = false
  stays : ∃ r, l.receivers[d]? = some r ∧ r.subscriber = ref ∧ l.isStopped r = false

theorem given_of_open (hopen : l.Open) {ref : SubscriberRef} (hattended : Attended l ref) :
    ∃ d, Given l l ref d := by
  obtain ⟨d, r, hr, hsubscriber, hwork⟩ := hattended
  exact ⟨d, ⟨r, hr, hsubscriber, hwork⟩, r, hr, hsubscriber, hopen.isStopped hr hwork⟩

theorem Given.wanes {m : Live P κ α} {ref : SubscriberRef} {d : Nat} (h : Given m l ref d)
    (hwanes : Wanes l l') : Given m l' ref d := by
  obtain ⟨r, hr, hsubscriber, hstopped⟩ := h.stays
  have hlt : d < l'.receivers.length := hwanes.length ▸ lt_length_of_getElem? hr
  have hr' := List.getElem?_eq_getElem hlt
  obtain ⟨s, hs, hsubscriber', hgeneration, -⟩ := hwanes.receivers d _ hr'
  obtain rfl : s = r := Option.some.inj (hs.symm.trans hr)
  refine ⟨h.atWork, _, hr', hsubscriber'.trans hsubscriber, ?_⟩
  rw [isStopped, hgeneration, hwanes.stopped]
  exact hstopped

theorem Given.congr {m : Live P κ α} {ref : SubscriberRef} {d : Nat} (h : Given m l ref d)
    (hreceivers : l'.receivers = l.receivers) (hstopped : l'.stopped = l.stopped) :
    Given m l' ref d := by
  obtain ⟨r, hr, hsubscriber, hstays⟩ := h.stays
  refine ⟨h.atWork, r, hreceivers ▸ hr, hsubscriber, ?_⟩
  rw [isStopped, hstopped]
  exact hstays

theorem mem_members {ref : SubscriberRef} :
    ref ∈ l.members ↔ ∃ n s, ref = .member n ∧ l.engine.subscriber? ref = some s := by
  constructor
  · intro href
    obtain ⟨n, hn, rfl⟩ := List.mem_map.mp href
    exact ⟨n, _, rfl, List.getElem?_eq_getElem (List.mem_range.mp hn)⟩
  · rintro ⟨n, s, rfl, hs⟩
    exact List.mem_map.mpr ⟨n, List.mem_range.mpr (lt_length_of_getElem? hs), rfl⟩

/-- Whoever is registered stays registered. -/
theorem mem_members_of_persists (h : l.engine.Persists l'.engine) {ref : SubscriberRef}
    (href : ref ∈ l.members) : ref ∈ l'.members := by
  obtain ⟨n, s, rfl, hs⟩ := mem_members.mp href
  obtain ⟨closed, hstanding, -⟩ := h _ _ _ (Option.map_eq_some_iff.mpr ⟨s, hs, rfl⟩)
  obtain ⟨s', hs', -⟩ := Option.map_eq_some_iff.mp hstanding
  exact mem_members.mpr ⟨n, s', rfl, hs'⟩

/-- At some time in a call that began in one state and has come to another, every subscriber that
was registered and open then had a dispatcher, which has not been told to leave since. -/
def Equipped (l₀ l : Live P κ α) : Prop :=
  ∃ m before after, Goes Used l₀ before m ∧ Goes Used m after l ∧
    (∀ ref ∈ l₀.members, ref ∈ m.members) ∧
      ∀ ref ∈ m.members, m.isClosed ref = false → ∃ d, Given m l ref d

/-- How far a client has got in starting the group. -/
inductive Starting (g : Except TransportError Unit → α) (i : Nat) (l₀ l : Live P κ α) :
    Program (Calling P.Route κ) α → Prop where
  | called {p : Program (Calling P.Route κ) α} (hp : p = Calling.start.bind fun r => .done (g r)) :
      Starting g i l₀ l p
  | connects {p : Program (Calling P.Route κ) α} (hholder : l.holder = some i)
      (hp : p = connecting fun r => .done (g r)) : Starting g i l₀ l p
  | failed {p : Program (Calling P.Route κ) α} {e : TransportError} (hholder : l.holder = some i)
      (hp : p = .call .release fun _ => .done (g (.error e))) : Starting g i l₀ l p
  | dispatches {p : Program (Calling P.Route κ) α} (hholder : l.holder = some i)
      (hp : p = .call .dispatchAll fun ds => attempting ds (.done (g (.ok ())))) :
      Starting g i l₀ l p
  | waits {p : Program (Calling P.Route κ) α} {ds : List Nat} (hholder : l.holder = some i)
      (hequipped : Equipped l₀ l) (hp : p = attempting ds (.done (g (.ok ())))) :
      Starting g i l₀ l p
  | started {a : α} : Starting g i l₀ l (.done a)

theorem Equipped.mono (h : Equipped l₀ l) (hgoes : Goes Used l more l')
    (hgiven : ∀ m ref d, Given m l ref d → Given m l' ref d) : Equipped l₀ l' := by
  obtain ⟨m, before, after, hbefore, hafter, hmembers, hmanned⟩ := h
  refine ⟨m, before, after ++ more, hbefore, hafter.trans hgoes, hmembers, ?_⟩
  intro ref href hunclosed
  obtain ⟨d, hd⟩ := hmanned ref href hunclosed
  exact ⟨d, hgiven m ref d hd⟩

theorem Starting.aside {g : Except TransportError Unit → α} {p : Program (Calling P.Route κ) α}
    (h : Starting g i l₀ l p) (haside : Aside i l l') (hgoes : Goes Used l more l') :
    Starting g i l₀ l' p := by
  cases h with
  | called hp => exact .called hp
  | connects hholder hp => exact .connects ((haside.wanes hholder).holder.trans hholder) hp
  | failed hholder hp => exact .failed ((haside.wanes hholder).holder.trans hholder) hp
  | dispatches hholder hp => exact .dispatches ((haside.wanes hholder).holder.trans hholder) hp
  | waits hholder hequipped hp =>
    have hwanes := haside.wanes hholder
    exact .waits (hwanes.holder.trans hholder)
      (hequipped.mono hgoes fun _ _ _ hgiven => hgiven.wanes hwanes) hp
  | started => exact .started

section
variable {c : Client P κ α} {op : Calling.Op P.Route κ}
  {next : Calling.Answer op → Program (Calling P.Route κ) α} {answer : Calling.Answer op}
  {l₁ : Live P κ α}

/-- Every open subscriber has a dispatcher once dispatchers were started for those that had none. -/
theorem Answered.equipped {next : List Nat → Program (Calling P.Route κ) α} {ds : List Nat}
    (h : Answered l l' i c .dispatchAll next ds l₁) (hmanaged : Managed l)
    (hreached : Goes Used l₀ log l') (hpersists : l₀.engine.Persists l'.engine) :
    l'.holder = l.holder ∧ Equipped l₀ l' := by
  have hopen := h.opened hmanaged (.inl rfl)
  obtain ⟨hstarts, hattended⟩ := starts_dispatchEach l.members hopen hmanaged.single
  rw [Option.some.inj (h.eq_answer rfl)] at hstarts hattended
  have hwanes : Wanes l₁ l' := by
    rw [h.rest]
    exact wanes_clients ..
  have hmembers : l'.members = l.members := by
    rw [members, members, h.rest, hstarts.members]
  refine ⟨h.holder_eq.trans hstarts.holder, l', log, [], hreached, .start,
    fun _ => mem_members_of_persists hpersists, ?_⟩
  intro ref href hunclosed
  refine given_of_open (hwanes.opened hstarts.opened) ?_
  rw [hmembers] at href
  rw [isClosed, h.rest, hstarts.subscriber?] at hunclosed
  refine (hattended ref href hunclosed).mono fun _ _ hr => ?_
  rw [h.rest]
  exact hr

/-- The next thing that is done to start the group. The last of them is to let go of it, after every
open subscriber was given a dispatcher, unless there is no connection. -/
theorem Starting.own {g : Except TransportError Unit → α} (hmanaged : Managed l)
    (hreached : Goes Used l₀ log l') (hpersists : l₀.engine.Persists l'.engine)
    (hgoes : Goes Used l more l')
    (h : Answered l l' i c op next answer l₁) (hstarts : Starting g i l₀ l (.call op next)) :
    Starting g i l₀ l' (next answer) ∧ ∀ b, next answer = .done b → op = .release ∧
      ((∃ e, b = g (.error e)) ∨ b = g (.ok ()) ∧ Equipped l₀ l') := by
  cases hstarts with
  | called hp =>
    rw [Calling.start_bind] at hp
    obtain ⟨rfl, hnext⟩ := Program.call.inj hp
    obtain rfl := eq_of_heq hnext
    have hanswer := h.eq_answer rfl
    obtain ⟨-, hl⟩ := Option.ite_none_left_eq_some.mp hanswer
    obtain ⟨-, rfl⟩ := Prod.mk.inj (Option.some.inj hl)
    exact ⟨.connects h.holder_eq rfl, nofun⟩
  | connects hholder hp =>
    obtain ⟨rfl, hnext⟩ := Program.call.inj hp
    obtain rfl := eq_of_heq hnext
    have hholder' := h.holder_eq.trans ((h.wanes rfl).holder.trans hholder)
    cases answer with
    | error e => exact ⟨.failed hholder' rfl, nofun⟩
    | ok => exact ⟨.dispatches hholder' rfl, nofun⟩
  | @failed _ e hholder hp =>
    obtain ⟨rfl, hnext⟩ := Program.call.inj hp
    obtain rfl := eq_of_heq hnext
    exact ⟨.started, fun b hb => ⟨rfl, .inl ⟨e, (Program.done.inj hb).symm⟩⟩⟩
  | dispatches hholder hp =>
    obtain ⟨rfl, hnext⟩ := Program.call.inj hp
    obtain rfl := eq_of_heq hnext
    obtain ⟨hsame, hequipped⟩ := h.equipped hmanaged hreached hpersists
    refine ⟨.waits (hsame.trans hholder) hequipped rfl, fun b hb => ?_⟩
    cases answer <;> cases hb
  | @waits _ ds hholder hequipped hp =>
    cases ds with
    | nil =>
      obtain ⟨rfl, hnext⟩ := Program.call.inj hp
      obtain rfl := eq_of_heq hnext
      have hanswer := h.eq_answer rfl
      obtain ⟨-, rfl⟩ := Prod.mk.inj (Option.some.inj hanswer)
      refine ⟨.started,
        fun b hb => ⟨rfl, .inr ⟨(Program.done.inj hb).symm, hequipped.mono hgoes ?_⟩⟩⟩
      intro m ref d hgiven
      rw [h.rest]
      exact hgiven.congr rfl rfl
    | cons d ds =>
      rw [Calling.attempting_cons] at hp
      obtain ⟨rfl, hnext⟩ := Program.call.inj hp
      obtain rfl := eq_of_heq hnext
      have hwanes : Wanes l l' := by
        rw [h.rest]
        exact (h.wanes rfl).trans (wanes_clients ..)
      refine ⟨.waits (hwanes.holder.trans hholder)
        (hequipped.mono hgoes fun _ _ _ hgiven => hgiven.wanes hwanes) rfl, fun b hb => ?_⟩
      cases ds <;> cases hb

end

theorem Overseen.followed_starting (h : Overseen log l₀) (g : Except TransportError Unit → α)
    (i : Nat) : Followed i l₀ (Starting g i l₀) where
  aside hgoes haside hstarts := hstarts.aside haside hgoes
  own hmanaged hbefore hstep hanswered hstarts := by
    have hreached := hbefore.step hstep
    obtain ⟨hnext, hlast⟩ := hstarts.own hmanaged hreached (h.persists hreached)
      (Goes.start.step hstep) hanswered
    exact ⟨hnext, fun b hb => (hlast b hb).1⟩

section
variable {g : Except TransportError Unit → α} {b : α} {c : Client P κ α} (h : Overseen log l₀)
  (hc : l₀.clients[i]? = some c) (hprogram : c.program = Calling.start.bind fun r => .done (g r))
  (hgoes : Goes Used l₀ more l)
include h hc hprogram hgoes

/-- When the call to start the group returns, every subscriber that was open when it looked for them
was given a dispatcher, and no such dispatcher has been told to leave, unless there is no
connection. -/
theorem Overseen.started (hstep : l.step (.client i) = some l') (hresult : l'.result? i = some b) :
    (∃ e, b = g (.error e)) ∨ b = g (.ok ()) ∧ Equipped l₀ l' := by
  obtain ⟨c', op, next, answer, l₁, hanswered, hstarts, hdone⟩ :=
    h.follows_to_end (h.followed_starting g i) hc (.called hprogram) hgoes hstep hresult
  have hreached := hgoes.step hstep
  exact ((hstarts.own (h.goes hgoes).managed hreached (h.persists hreached)
    (Goes.start.step hstep) hanswered).2 b hdone).2

theorem Overseen.returned_of_start (hresult : l.result? i = some b) : Returned i l₀ b l := by
  refine h.returned (h.followed_starting g i) hc (.called hprogram) ?_ hgoes hresult
  rw [hprogram, Calling.start_bind]
  exact nofun

end

/-! ## Closing a group that is idle -/

theorem map_getElem?_of_timeless {β : Type}
    (h : l'.receivers.map (·.timeless) = l.receivers.map (·.timeless)) {f : Receiver P → β}
    (hf : ∀ r, f r.timeless = f r) (d : Nat) :
    (l'.receivers[d]?).map f = (l.receivers[d]?).map f := by
  have htimeless : ∀ receivers : List (Receiver P),
      (receivers[d]?).map f = ((receivers.map (·.timeless))[d]?).map f := by
    intro receivers
    rw [List.getElem?_map, Option.map_map]
    exact congrArg (Option.map · _) (funext fun r => (hf r).symm)
  rw [htimeless, htimeless l.receivers, h]

/-- What a start goes by is the same: the connection, the subscribers, and the dispatchers that are
at work. How often the groups were shut down makes no difference. -/
structure Interchangeable (l l' : Live P κ α) : Prop where
  config : l'.config = l.config
  engine : l'.engine = l.engine
  connected : l'.connected = l.connected
  receivers : l'.receivers.map (·.timeless) = l.receivers.map (·.timeless)
  running : l'.running.filter (fun d => !l'.isFinished d) =
    l.running.filter fun d => !l.isFinished d

namespace Interchangeable

theorem length (h : Interchangeable l l') : l'.receivers.length = l.receivers.length := by
  rw [← List.length_map (f := (·.timeless)), h.receivers, List.length_map]

theorem of_running (hconfig : l'.config = l.config) (hengine : l'.engine = l.engine)
    (hconnected : l'.connected = l.connected)
    (hreceivers : l'.receivers.map (·.timeless) = l.receivers.map (·.timeless))
    (hrunning : l'.running = l.running) : Interchangeable l l' := by
  refine ⟨hconfig, hengine, hconnected, hreceivers, ?_⟩
  rw [hrunning]
  refine List.filter_congr fun d _ => ?_
  rw [isFinished, isFinished, map_getElem?_of_timeless hreceivers (f := (·.state.isFinished))]
  exact fun _ => rfl

/-- The same dispatcher is started, or none. -/
theorem dispatch (h : Interchangeable l l') (ref : SubscriberRef) :
    (l'.dispatch ref).1 = (l.dispatch ref).1 ∧
      Interchangeable (l.dispatch ref).2 (l'.dispatch ref).2 := by
  have htaken : (fun d : Nat => ((l'.receivers[d]?).map (·.subscriber)) == some ref) =
      fun d : Nat => ((l.receivers[d]?).map (·.subscriber)) == some ref := by
    funext d
    rw [map_getElem?_of_timeless h.receivers (f := (·.subscriber)) fun _ => rfl]
  unfold Live.dispatch
  dsimp only
  rw [h.running, htaken, h.engine, h.length]
  split
  · split
    · exact ⟨rfl, of_running h.config rfl h.connected h.receivers rfl⟩
    · refine ⟨rfl, of_running h.config rfl h.connected ?_ rfl⟩
      show (l'.receivers ++ [_]).map _ = (l.receivers ++ [_]).map _
      rw [List.map_append, List.map_append, h.receivers]
      rfl
  · exact ⟨rfl, of_running h.config rfl h.connected h.receivers rfl⟩

theorem dispatchEach (h : Interchangeable l l') (refs : List SubscriberRef) :
    (Live.dispatchEach refs l').1 = (Live.dispatchEach refs l).1 ∧
      Interchangeable (Live.dispatchEach refs l).2 (Live.dispatchEach refs l').2 := by
  induction refs generalizing l l' with
  | nil => exact ⟨rfl, h⟩
  | cons ref refs ih =>
    obtain ⟨hstarted, hnext⟩ := h.dispatch ref
    obtain ⟨hmore, hlast⟩ := ih hnext
    exact ⟨congrArg₂ (·.toList ++ ·) hstarted hmore, hlast⟩

theorem connect (h : Interchangeable l l') :
    l'.connect.1 = l.connect.1 ∧ Interchangeable l.connect.2 l'.connect.2 := by
  unfold Live.connect
  dsimp only
  rw [h.connected, h.engine]
  split
  · exact ⟨rfl, h⟩
  · split
    · exact ⟨rfl, h.config, rfl, rfl, h.receivers, h.running⟩
    · exact ⟨rfl, h.config, rfl, rfl, h.receivers, h.running⟩

theorem openInbox (h : Interchangeable l l') :
    l'.openInbox.1 = l.openInbox.1 ∧ Interchangeable l.openInbox.2 l'.openInbox.2 := by
  unfold Live.openInbox
  rw [h.engine, h.config]
  split
  · exact ⟨rfl, h⟩
  · exact ⟨rfl, rfl, rfl, h.connected, h.receivers, h.running⟩

/-- Whatever a client does to have dispatchers started, it gets the same answer. -/
theorem answer (h : Interchangeable l l') (j : Nat) {op : Calling.Op P.Route κ}
    (hop : op = .connect ∨ op = .dispatchAll ∨ op = .dispatchInbox) :
    ∃ answer m m', l.answer j op = some (answer, m) ∧ l'.answer j op = some (answer, m') ∧
      Interchangeable m m' := by
  rcases hop with rfl | rfl | rfl
  · obtain ⟨hsame, hnext⟩ := h.connect
    exact ⟨l.connect.1, l.connect.2, l'.connect.2, rfl, congrArg some (Prod.ext hsame rfl), hnext⟩
  · have hmembers : l'.members = l.members := by rw [members, members, h.engine]
    obtain ⟨hsame, hnext⟩ := h.dispatchEach l.members
    refine ⟨(Live.dispatchEach l.members l).1, (Live.dispatchEach l.members l).2,
      (Live.dispatchEach l.members l').2, rfl, ?_, hnext⟩
    show some (Live.dispatchEach l'.members l') = _
    rw [hmembers]
    exact congrArg some (Prod.ext hsame rfl)
  · obtain ⟨hopened, hinbox⟩ := h.openInbox
    obtain ⟨hsame, hnext⟩ := hinbox.dispatch .inbox
    exact ⟨(l.openInbox.1, (l.openInbox.2.dispatch .inbox).1), (l.openInbox.2.dispatch .inbox).2,
      (l'.openInbox.2.dispatch .inbox).2, rfl,
      congrArg some (Prod.ext (Prod.ext hopened hsame) rfl), hnext⟩

end Interchangeable

section
variable {a : α} {c : Client P κ α}

theorem proceed_client {evs : List LiveStep} (hstep : l.step (.client i) = some l') :
    proceed (.client i :: evs) l = proceed evs l' := by
  show (l.step (.client i)).bind _ = _
  rw [hstep, Option.bind_some]
  exact Option.map_id'

/-- What is left of the program of a client. -/
theorem getElem?_set_program {c' : Client P κ α} (hc : l.clients[i]? = some c) :
    (l.clients.set i c')[i]? = some c' :=
  (getElem?_set_iff hc).mpr (.inl ⟨rfl, rfl⟩)

/-- A client that is awake takes the answer to its operation, and goes on. -/
theorem step_of_answer {op : Calling.Op P.Route κ}
    {next : Calling.Answer op → Program (Calling P.Route κ) α} {answer : Calling.Answer op}
    {l₁ : Live P κ α} (hc : l.clients[i]? = some c) (hawake : c.IsAwake l.now)
    (hprogram : c.program = .call op next) (hop : op.isOfHolder = true ∨ ∃ d, op = .finished d)
    (hanswer : l.answer i op = some (answer, l₁)) (hclients : l₁.clients = l.clients) :
    l.step (.client i) =
      some { l₁ with clients := l.clients.set i { c with program := next answer } } := by
  have hset : l₁.clients[i]? = some c := hclients ▸ hc
  have hstep : l.step (.client i) = (l.answer i op).map fun (answer, l) =>
      { l with clients := l.clients.modify i ({ · with program := next answer }) } := by
    show (l.clients[i]?).bind _ = _
    simp only [hc, Option.bind_some, hawake.1, hawake.2, hprogram, Bool.false_or,
      decide_eq_true_eq, Nat.not_lt.mpr, if_false]
    split
    · rename_i hcall
      cases hcall
    · rename_i ms next' hcall
      obtain ⟨rfl, -⟩ := Program.call.inj hcall
      rcases hop with hop | ⟨d, hop⟩ <;> cases hop
    · rename_i hcall
      obtain ⟨rfl, hnext⟩ := Program.call.inj hcall
      obtain rfl := eq_of_heq hnext
      rfl
  rw [hstep, hanswer, Option.map_some]
  dsimp only
  rw [modify_eq_set hset, hclients]

/-- The dispatchers that are waited for have come to their end, so that the group is renewed and let
go of at once. -/
theorem proceed_finishing (ds : List Nat) (hc : l.clients[i]? = some c) (hawake : c.IsAwake l.now)
    (hprogram : c.program = finishing ds (.done a)) (hidle : ∀ d, l.isFinished d = true) :
    proceed (List.replicate (ds.length + 2) (.client i)) l =
      some ([], { l with
        holder := none, generation := l.generation + 1,
        clients := l.clients.set i { c with program := .done a } }) := by
  induction ds generalizing l c with
  | nil =>
    let l₁ : Live P κ α := { l with
      generation := l.generation + 1
      clients := l.clients.set i { c with program := .call .release fun _ => .done a } }
    have hrenewed : l.step (.client i) = some l₁ :=
      step_of_answer hc hawake hprogram (.inl rfl) rfl rfl
    have hreleased :=
      step_of_answer (l := l₁) (getElem?_set_program hc) hawake rfl (.inl rfl) rfl rfl
    show proceed [.client i, .client i] l = _
    rw [proceed_client hrenewed, proceed_client hreleased]
    simp only [l₁, List.set_set, proceed]
  | cons d ds ih =>
    let l₁ : Live P κ α := { l with
      clients := l.clients.set i { c with program := finishing ds (.done a) } }
    have hanswer : l.answer i (.finished d) = some ((), l) := if_pos (hidle d)
    have hwaited : l.step (.client i) = some l₁ :=
      step_of_answer hc hawake hprogram (.inr ⟨d, rfl⟩) hanswer rfl
    show proceed (.client i :: List.replicate (ds.length + 2) (.client i)) l = _
    rw [proceed_client hwaited, ih (l := l₁) (getElem?_set_program hc) hawake rfl hidle]
    simp only [l₁, List.set_set]

/-- To close a group that has no dispatcher at work takes nobody else, and leaves a group that is as
good as it was for whoever starts it. -/
theorem proceed_close (hc : l.clients[i]? = some c) (hawake : c.IsAwake l.now)
    (hprogram : c.program = Calling.close.bind fun _ => .done a) (hfree : l.holder = none)
    (hidle : ∀ d, l.isFinished d = true) :
    ∃ l', proceed (List.replicate (l.running.length + 4) (.client i)) l = some ([], l') ∧
      l'.result? i = some a ∧ l'.holder = none ∧ Interchangeable l l' := by
  rw [Calling.close_bind] at hprogram
  have hanswer : l.answer i .acquire = some ((), { l with holder := some i }) := by
    show (if l.holder.isSome then none else _) = _
    rw [hfree]
    rfl
  let l₁ : Live P κ α := { l with
    holder := some i
    clients := l.clients.set i
      { c with program := .call .shutDown fun ds => finishing ds (.done a) } }
  let l₂ : Live P κ α := { l₁ with
    stopped := l.generation + 1, running := []
    clients := l₁.clients.set i { c with program := finishing l.running (.done a) } }
  have hc₁ : l₁.clients[i]? = some _ := getElem?_set_program hc
  have hc₂ : l₂.clients[i]? = some _ := getElem?_set_program hc₁
  have hheld : l.step (.client i) = some l₁ :=
    step_of_answer hc hawake hprogram (.inl rfl) hanswer rfl
  have hshut : l₁.step (.client i) = some l₂ := step_of_answer hc₁ hawake rfl (.inl rfl) rfl rfl
  have hclosed := proceed_finishing l.running hc₂ hawake rfl hidle
  rw [← proceed_client hshut, ← proceed_client hheld] at hclosed
  refine ⟨_, hclosed, ?_, rfl, rfl, rfl, rfl, rfl, ?_⟩
  · have hdone : (l₂.clients.set i { c with program := .done a })[i]? = some _ :=
      getElem?_set_program hc₂
    show ((l₂.clients.set i { c with program := .done a })[i]?).bind _ = _
    rw [hdone, Option.bind_some]
    refine (if_neg ?_).trans rfl
    rw [hawake.1, Bool.false_or, decide_eq_true_eq]
    exact Nat.not_lt.mpr hawake.2
  · refine (List.filter_eq_nil_iff.mpr fun d hd => ?_).symm
    rw [hidle d]
    exact Bool.false_ne_true

end

/-! ## A group that is started and closed -/

/-- What the users of a group can rely on at any time. -/
structure Reliable (l : Live P κ α) : Prop where
  single : l.Single
  tracked : ∀ d, l.isFinished d = false → Tracked l d
  /-- No dispatcher is started for a subscriber that is closed, or that has one at work. -/
  spawned : ∀ ev l', l.step ev = some l' → ∀ (d : Nat) (r : Receiver P), l.receivers.length ≤ d →
    l'.receivers[d]? = some r → l'.isClosed r.subscriber = false ∧ ¬ Attended l r.subscriber
  /-- When somebody who closes the group has done so, no dispatcher is at work. -/
  closed : ∀ i c a, l.clients[i]? = some c → c.program = Calling.close.bind (fun _ => .done a) →
    ∀ more m l' b, Goes Used l more m → m.step (.client i) = some l' → l'.result? i = some b →
      ∀ d, l'.isFinished d = true
  /-- When somebody who starts the group has done so, each open subscriber was given a dispatcher
  that is not told to leave. -/
  started : ∀ i c (g : Except TransportError Unit → α), l.clients[i]? = some c →
    c.program = Calling.start.bind (fun result => .done (g result)) →
      ∀ more m l' b, Goes Used l more m → m.step (.client i) = some l' → l'.result? i = some b →
        (∃ e, b = g (.error e)) ∨ b = g (.ok ()) ∧ Equipped l l'
  /-- Whoever has closed or started the group has done so with such a step. -/
  returned : ∀ i c, l.clients[i]? = some c →
    ((∃ a, c.program = Calling.close.bind fun _ => .done a) ∨
      ∃ g : Except TransportError Unit → α, c.program = Calling.start.bind fun r => .done (g r)) →
      ∀ more l' b, Goes Used l more l' → l'.result? i = some b → Returned i l b l'
  /-- To close a group with no dispatcher at work makes no difference for a start. -/
  idle : l.holder = none → (∀ d, l.isFinished d = true) → ∀ i c a, l.clients[i]? = some c →
    c.IsAwake l.now → c.program = Calling.close.bind (fun _ => .done a) →
      ∃ l', proceed (List.replicate (l.running.length + 4) (.client i)) l = some ([], l') ∧
        l'.result? i = some a ∧ l'.holder = none ∧ Interchangeable l l' ∧
          ∀ j op, op = .connect ∨ op = .dispatchAll ∨ op = .dispatchInbox →
            ∃ answer m m', l.answer j op = some (answer, m) ∧ l'.answer j op = some (answer, m') ∧
              Interchangeable m m'

/-- However a group is started, closed and used, its dispatchers do not escape it, and no subscriber
gets two of them. -/
theorem Goes.reliable {config : GroupConfig P.Route κ} {engine : Engine P κ}
    (h : Goes Used (Live.new config engine : Live P κ α) log l) : Reliable l := by
  have hoverseen : Overseen log l := (overseen_new config engine).goes h
  refine ⟨hoverseen.managed.single, fun d => hoverseen.managed.tracked, ?_, ?_, ?_, ?_, ?_⟩
  · intro ev l' hstep d r hd hr
    exact hoverseen.spawned hstep hd hr
  · intro i c a hc hprogram more m l' b hgoes hstep hresult
    exact hoverseen.closed hc hprogram hgoes hstep hresult
  · intro i c g hc hprogram more m l' b hgoes hstep hresult
    exact hoverseen.started hc hprogram hgoes hstep hresult
  · rintro i c hc (⟨a, hprogram⟩ | ⟨g, hprogram⟩) more l' b hgoes hresult
    · exact hoverseen.returned_of_close hc hprogram hgoes hresult
    · exact hoverseen.returned_of_start hc hprogram hgoes hresult
  · intro hfree hidle i c a hc hawake hprogram
    obtain ⟨l', hproceed, hresult, hholder, hsame⟩ :=
      proceed_close hc hawake hprogram hfree hidle
    exact ⟨l', hproceed, hresult, hholder, hsame, fun j op hop => hsame.answer j hop⟩

/-! ## A group that is opened again -/

namespace Orders

def opening : Program (Calling Nats.protocol.Route Unit) (Except TransportError Unit) :=
  Calling.start.bind fun result => .done result

def closing : Program (Calling Nats.protocol.Route Unit) (Except TransportError Unit) :=
  Calling.close.bind fun _ => .done (.ok ())

/-- A handler is registered. -/
def offered : Live Nats.protocol Unit (Except TransportError Unit) := .new config start.engine

/-- Three clients come. -/
def staffed : Live Nats.protocol Unit (Except TransportError Unit) :=
  (((offered.addClient opening).2.addClient closing).2.addClient opening).2

/-- The first client starts the group, the second closes it, and the third starts it again. -/
def reopening : List LiveStep :=
  List.replicate 3 (.client 0) ++ [.heed 0] ++ List.replicate 2 (.client 0) ++
    List.replicate 2 (.client 1) ++ [.heed 0] ++ List.replicate 3 (.client 1) ++
      List.replicate 3 (.client 2) ++ [.heed 1] ++ List.replicate 2 (.client 2)

/-- Has the first dispatcher come to its end, is another at work, and were all calls successful? -/
def isReopened (l : Live Nats.protocol Unit (Except TransportError Unit)) : Bool :=
  l.isFinished 0 && !l.isFinished 1 && [0, 1, 2].all fun i => l.result? i == some (.ok ())

theorem exists_reopened : ∃ log l, Live.proceed reopening staffed = some (log, l) ∧
    l.isFinished 0 = true ∧ l.isFinished 1 = false ∧
      ∀ i < 3, l.result? i = some (.ok ()) := by
  have hrun : (Live.proceed reopening staffed).any (fun run => isReopened run.2) = true := by
    decide +kernel
  obtain ⟨⟨log, l⟩, hproceed, hends⟩ := (Option.any_eq_true ..).mp hrun
  simp only [isReopened, Bool.and_eq_true, Bool.not_eq_true', List.all_eq_true, beq_iff_eq] at hends
  refine ⟨log, l, hproceed, hends.1.1, hends.1.2, fun i hi => hends.2 i ?_⟩
  simp only [List.mem_cons, List.not_mem_nil]
  omega

end Orders

/-- The orders have a new dispatcher, and the old one is gone. In between the group was closed, with
no dispatcher at work, and after that the one who started it again had given them the new one. -/
theorem reliable_orders : ∃ log l, Goes Used (Live.new Orders.config (.new 0 ())) log l ∧
    l.isFinished 0 = true ∧ l.isFinished 1 = false ∧ l.result? 2 = some (.ok ()) ∧ Reliable l ∧
      (∃ m after, (∀ d, m.isFinished d = true) ∧ Goes Used m after l) ∧
        ∃ m after, Equipped Orders.staffed m ∧ Goes Used m after l := by
  obtain ⟨log, l, hproceed, hold, hnew, hresults⟩ := Orders.exists_reopened
  have hregister : (Engine.new 0 ()).register Orders.config false Orders.handler =
      .ok (⟨0, 0⟩, Orders.start.engine) := rfl
  have hregistered : Goes Used (Live.new Orders.config (.new 0 ())) [] Orders.offered :=
    .others .start (.around (around_register hregister))
  have hopening : Abides .free Orders.opening := Calling.abides_start fun _ => rfl
  have hclosing : Abides .free Orders.closing := Calling.abides_close fun _ => rfl
  have hstaffed : Goes Used (Live.new Orders.config (.new 0 ())) [] Orders.staffed :=
    ((hregistered.others (.called _ hopening)).others (.called _ hclosing)).others
      (.called _ hopening)
  have hgoes : Goes Used Orders.staffed log l := Goes.start.proceed hproceed
  have hreliable := Goes.reliable hstaffed
  refine ⟨log, l, hstaffed.trans hgoes, hold, hnew, hresults 2 (by decide),
    Goes.reliable (hstaffed.trans hgoes), ?_, ?_⟩
  · obtain ⟨before, m, m', after, hbefore, hstep, hresult, hafter⟩ :=
      hreliable.returned 1 _ rfl (.inl ⟨.ok (), rfl⟩) log l _ hgoes (hresults 1 (by decide))
    exact ⟨m', after, hreliable.closed 1 _ _ rfl rfl before m m' _ hbefore hstep hresult, hafter⟩
  · obtain ⟨before, m, m', after, hbefore, hstep, hresult, hafter⟩ :=
      hreliable.returned 2 _ rfl (.inr ⟨id, rfl⟩) log l _ hgoes (hresults 2 (by decide))
    obtain ⟨e, he⟩ | ⟨-, hequipped⟩ :=
      hreliable.started 2 _ id rfl rfl before m m' _ hbefore hstep hresult
    · cases he
    · exact ⟨m', after, hequipped, hafter⟩

end Live
end MessageDispatch
