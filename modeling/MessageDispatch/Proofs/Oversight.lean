import MessageDispatch.Proofs.Tracking

/-! A group among its users. Handlers are registered, subscribers are closed and subscriptions end
whenever that may be, and clients come and go. All along the group, or whoever closes it, knows of
each dispatcher that is at work, and none is started that should not be. What a client does in one
call can be followed from its program, as nobody else gets at the dispatchers meanwhile. -/
namespace MessageDispatch

variable {P : Protocol} {κ α : Type}

/-- What of a dispatcher nobody outside can change. -/
def Receiver.post (r : Receiver P) :
    (SubscriberRef × Dispatcher.State (Nat × Message P.Route)) × Nat :=
  (r.core, r.generation)

namespace Live

variable {l l' l₀ : Live P κ α} {log more : List (Deed P κ)} {i : Nat}

open Calling (Abides Hold)

/-! ## What goes on around a group -/

/-- Something is done around a group that is not a call: handlers are registered, a subscriber is
closed, the broker ends a subscription, or is out of reach. -/
structure Around (l l' : Live P κ α) : Prop where
  tasks : l'.tasks = l.tasks
  receivers : l'.receivers.map (·.post) = l.receivers.map (·.post)
  clients : l'.clients = l.clients
  running : l'.running = l.running
  generation : l'.generation = l.generation
  stopped : l'.stopped = l.stopped
  holder : l'.holder = l.holder
  persists : l.engine.Persists l'.engine

theorem Around.of_persists {engine : Engine P κ} (h : l.engine.Persists engine) :
    Around l { l with engine := engine } :=
  ⟨rfl, rfl, rfl, rfl, rfl, rfl, rfl, h⟩

/-- A subscriber that is there keeps its workers when another handler joins it. -/
theorem around_register {config : GroupConfig P.Route κ} {recording : Bool}
    {registration : Registration P κ} {handle : CallHandle} {engine : Engine P κ}
    (h : l.engine.register config recording registration = .ok (handle, engine)) :
    Around l { l with engine := engine } := by
  refine .of_persists fun ref workers closed hs => ⟨closed, ?_, id⟩
  unfold Engine.register at h
  split at h
  · split at h
    · split at h
      · cases h
      · obtain ⟨-, rfl⟩ := Prod.mk.inj (Except.ok.inj h)
        refine (Engine.standing?_updateSubscriber (e := l.engine.log registration.remarks) ?_
          (.member _) ref).trans hs
        exact fun _ => rfl
    · obtain ⟨-, rfl⟩ := Prod.mk.inj (Except.ok.inj h)
      exact hs
  · obtain ⟨-, rfl⟩ := Prod.mk.inj (Except.ok.inj h)
    cases ref with
    | inbox => exact hs
    | member n =>
      obtain ⟨s, hs, hstanding⟩ := Option.map_eq_some_iff.mp hs
      have hs' : l.engine.subscribers[n]? = some s := hs
      refine Option.map_eq_some_iff.mpr ⟨s, ?_, hstanding⟩
      exact getElem?_concat_iff.mpr (.inl hs')

theorem around_close (l : Live P κ α) (ref : SubscriberRef) :
    Around l { l with engine := l.engine.updateSubscriber ref .close } :=
  .of_persists (beside_close l ref).persists

theorem around_endSubscriptions (l : Live P κ α) : Around l l.endSubscriptions := by
  refine ⟨rfl, ?_, rfl, rfl, rfl, rfl, rfl, .refl _⟩
  rw [endSubscriptions, List.map_map]
  refine List.map_congr_left fun r _ => ?_
  show Receiver.post (if r.queue.isSome then { r with ended := true } else r) = r.post
  split <;> rfl

theorem Around.beside (h : Around l l') : Beside l l' := by
  refine ⟨h.tasks, ?_, h.persists⟩
  have hcore : ∀ receivers : List (Receiver P),
      receivers.map (·.core) = (receivers.map (·.post)).map (·.1) := by
    intro receivers
    rw [List.map_map]
    rfl
  rw [hcore, hcore, h.receivers]

theorem Around.wanes (h : Around l l') : Wanes l l' where
  receivers := by
    intro d r' hr'
    have hsame : (l.receivers.map (·.post))[d]? = some r'.post := by
      rw [← h.receivers, List.getElem?_map, hr', Option.map_some]
    rw [List.getElem?_map] at hsame
    obtain ⟨r, hr, hpost⟩ := Option.map_eq_some_iff.mp hsame
    obtain ⟨hcore, hgeneration⟩ := Prod.mk.inj hpost
    obtain ⟨hsubscriber, hstate⟩ := Prod.mk.inj hcore
    exact ⟨r, hr, hsubscriber.symm, hgeneration.symm, fun hfinished => hstate ▸ hfinished⟩
  length := by
    rw [← List.length_map (f := (·.post)), h.receivers, List.length_map]
  running := h.running
  generation := h.generation
  stopped := h.stopped
  holder := h.holder
  persists := h.persists

/-- How a group is used: things happen around it, and clients come that go by the rules. -/
inductive Used : Live P κ α → Live P κ α → Prop where
  | around {l l' : Live P κ α} (h : Around l l') : Used l l'
  | called (l : Live P κ α) {p : Program (Calling P.Route κ) α} (hp : Abides .free p) :
      Used l (l.addClient p).2

theorem Used.beside (h : Used l l') : Beside l l' := by
  cases h with
  | around h => exact h.beside
  | called => exact beside_addClient ..

theorem Used.wanes (h : Used l l') : Wanes l l' := by
  cases h with
  | around h => exact h.wanes
  | called => exact wanes_clients ..

theorem Used.client {c : Client P κ α} (h : Used l l') (hc : l.clients[i]? = some c) :
    l'.clients[i]? = some c := by
  cases h with
  | around h => exact h.clients ▸ hc
  | called => exact getElem?_concat_iff.mpr (.inl hc)

theorem Goes.trans {others : Live P κ α → Live P κ α → Prop} (h : Goes others l₀ log l)
    (h' : Goes others l more l') : Goes others l₀ (log ++ more) l' := by
  induction h' with
  | start =>
    rw [List.append_nil]
    exact h
  | step _ hstep ih =>
    rw [← List.append_assoc]
    exact ih.step hstep
  | others _ hothers ih => exact ih.others hothers

/-! ## A group that is used by the rules -/

/-- What is known of a group at any time. -/
structure Overseen (log : List (Deed P κ)) (l : Live P κ α) : Prop where
  kept : Kept log l
  managed : Managed l

theorem overseen_new (config : GroupConfig P.Route κ) (engine : Engine P κ) :
    Overseen [] (Live.new config engine : Live P κ α) :=
  ⟨kept_new config engine, managed_new config engine⟩

theorem Overseen.step {ev : LiveStep} (h : Overseen log l) (hstep : l.step ev = some l') :
    Overseen (log ++ l.deeds ev l') l' := by
  refine ⟨h.kept.step hstep, ?_⟩
  by_cases hclient : ∃ j, ev = .client j
  · obtain ⟨j, rfl⟩ := hclient
    exact h.managed.client hstep
  · obtain ⟨hwanes, hclients⟩ := wanes_of_step h.kept hstep fun j hj => hclient ⟨j, hj⟩
    exact h.managed.wanes hwanes hclients

theorem Overseen.used (h : Overseen log l) (hused : Used l l') : Overseen log l' := by
  refine ⟨h.kept.beside hused.beside, ?_⟩
  cases hused with
  | around haround => exact h.managed.wanes haround.wanes haround.clients
  | called hp => exact h.managed.addClient hp

theorem Overseen.goes (h : Overseen log l) (hgoes : Goes Used l more l') :
    Overseen (log ++ more) l' := by
  induction hgoes with
  | start =>
    rw [List.append_nil]
    exact h
  | step _ hstep ih =>
    rw [← List.append_assoc]
    exact ih.step hstep
  | others _ hothers ih => exact ih.used hothers

theorem persists_of_step {ev : LiveStep} (h : Overseen log l) (hstep : l.step ev = some l') :
    l.engine.Persists l'.engine := by
  by_cases hclient : ∃ j, ev = .client j
  · obtain ⟨j, rfl⟩ := hclient
    exact (enlists_stepClient hstep).persists
  · exact (wanes_of_step h.kept hstep fun j hj => hclient ⟨j, hj⟩).1.persists

theorem Overseen.persists (h : Overseen log l) (hgoes : Goes Used l more l') :
    l.engine.Persists l'.engine := by
  induction hgoes with
  | start => exact .refl _
  | step hbefore hstep ih => exact ih.trans (persists_of_step (h.goes hbefore) hstep)
  | others _ hothers ih => exact ih.trans hothers.beside.persists

/-! ## Who keeps track of the dispatchers -/

/-- Either the group knows of a dispatcher, or the client that closes the group waits for it. -/
def Tracked (l : Live P κ α) (d : Nat) : Prop :=
  d ∈ l.running ∨ ∃ j c, l.holder = some j ∧ l.clients[j]? = some c ∧ Calling.Awaits d c.program

theorem Managed.tracked (h : Managed l) {d : Nat} (hd : l.isFinished d = false) : Tracked l d := by
  obtain ⟨hsingle, hold, hat, hfree, hlength, habides⟩ := h
  have hrunning : l.Open → Tracked l d := by
    intro hopen
    obtain ⟨r, hr, hwork⟩ := exists_of_unfinished hd
    exact .inl (hopen.running d r hr hwork)
  cases hold with
  | free | held => exact hrunning hat
  | closing ds =>
    obtain ⟨-, -, hleft⟩ := hat
    cases hholder : l.holder with
    | none => cases hfree hholder
    | some j =>
      obtain ⟨c, hc⟩ : ∃ c, l.clients[j]? = some c :=
        ⟨_, List.getElem?_eq_getElem (hlength j hholder)⟩
      have hcloses := habides j c hc
      rw [stage_eq_hold hholder] at hcloses
      exact .inr ⟨j, c, hholder, hc, hcloses.awaits (hleft d hd)⟩
  | closed =>
    rw [hat.2 d] at hd
    cases hd

/-- Dispatchers are started by one who holds the group while it is open. -/
theorem Answered.opened {c : Client P κ α} {op : Calling.Op P.Route κ}
    {next : Calling.Answer op → Program (Calling P.Route κ) α} {answer : Calling.Answer op}
    {l₁ : Live P κ α} (h : Answered l l' i c op next answer l₁) (hmanaged : Managed l)
    (hop : op = .dispatchAll ∨ op = .dispatchInbox) : l.Open := by
  obtain ⟨-, hold, hat, -, -, habides⟩ := hmanaged
  obtain rfl : hold = .held := by
    rcases hop with rfl | rfl
    · exact (h.eq_held rfl nofun nofun nofun habides).2
    · exact (h.eq_held rfl nofun nofun nofun habides).2
  exact hat

/-- A dispatcher is started only for a subscriber that is open and has none at work. -/
theorem Overseen.spawned {ev : LiveStep} (h : Overseen log l) (hstep : l.step ev = some l')
    {d : Nat} {r : Receiver P} (hd : l.receivers.length ≤ d) (hr : l'.receivers[d]? = some r) :
    l'.isClosed r.subscriber = false ∧ ¬ Attended l r.subscriber := by
  -- nothing is new where there are no more dispatchers than before
  have hnone : l'.receivers.length = l.receivers.length →
      l'.isClosed r.subscriber = false ∧ ¬ Attended l r.subscriber := fun hlength =>
    absurd (lt_length_of_getElem? hr) (Nat.not_lt.mpr (hlength ▸ hd))
  by_cases hclient : ∃ j, ev = .client j
  · obtain ⟨j, rfl⟩ := hclient
    obtain ⟨c, op, next, answer, l₁, hanswered⟩ := client_cases hstep
    have hreceivers : l'.receivers = l₁.receivers := by rw [hanswered.rest]
    have hengine : l'.engine = l₁.engine := by rw [hanswered.rest]
    rw [isClosed, hengine]
    rw [isClosed, hengine, hreceivers] at hnone
    rw [hreceivers] at hr
    cases hop : op.isOfHolder with
    | false => exact hnone (hanswered.wanes hop).length
    | true =>
      have hanswer := hanswered.eq_answer hop
      cases op with
      | acquire =>
        obtain ⟨-, hl⟩ := Option.ite_none_left_eq_some.mp hanswer
        obtain ⟨-, rfl⟩ := Prod.mk.inj (Option.some.inj hl)
        exact hnone rfl
      | release | shutDown | renew =>
        obtain ⟨-, rfl⟩ := Prod.mk.inj (Option.some.inj hanswer)
        exact hnone rfl
      | dispatchAll =>
        have hopen := hanswered.opened h.managed (.inl rfl)
        obtain ⟨hstarts, -⟩ := starts_dispatchEach l.members hopen h.managed.single
        rw [Option.some.inj hanswer] at hstarts
        exact hstarts.new d r hd hr
      | dispatchInbox =>
        obtain ⟨-, rfl⟩ := Prod.mk.inj (Option.some.inj hanswer)
        have hopen := hanswered.opened h.managed (.inr rfl)
        have hopened := wanes_openInbox l
        obtain ⟨hstarts, -⟩ := starts_dispatch (hopened.opened hopen)
          (hopened.single h.managed.single) .inbox
        have hsame : l.openInbox.2.receivers = l.receivers := by
          unfold openInbox
          split <;> rfl
        rw [← hsame] at hd
        obtain ⟨hunclosed, hfree⟩ := hstarts.new d r hd hr
        refine ⟨hunclosed, fun hattended => hfree (hattended.mono ?_)⟩
        exact fun _ _ hr => hsame ▸ hr
      | _ => cases hop
  · exact hnone (wanes_of_step h.kept hstep fun j hj => hclient ⟨j, hj⟩).1.length

/-! ## Following a call -/

/-- Something is done that the client does not do itself. Nothing then happens to the dispatchers of
a group that it holds, but that they come to their end. -/
structure Aside (i : Nat) (l l' : Live P κ α) : Prop where
  wanes : l.holder = some i → Wanes l l'
  client : ∀ c, l.clients[i]? = some c → ∃ c', l'.clients[i]? = some c' ∧ c'.program = c.program

/-- Whoever does not hold the group can do nothing about its dispatchers, nor about who holds it as
long as somebody does. -/
theorem Overseen.aside {ev : LiveStep} (h : Overseen log l) (hstep : l.step ev = some l')
    (hev : ev ≠ .client i) : Aside i l l' := by
  by_cases hclient : ∃ j, ev = .client j
  · obtain ⟨j, rfl⟩ := hclient
    have hji : j ≠ i := fun hji => hev (hji ▸ rfl)
    obtain ⟨c, op, next, answer, l₁, hanswered⟩ := client_cases hstep
    refine ⟨fun hholder => ?_, fun d hd => ⟨d, ?_, rfl⟩⟩
    · -- the group is held by another, so the operation is one for anybody
      obtain ⟨-, hold, -, -, -, habides⟩ := h.managed
      have hallows := hanswered.allows habides
      rw [stage_eq_free (ne_holder hholder hji)] at hallows
      rcases hallows with rfl | hop
      · have hanswer := hanswered.eq_answer rfl
        simp [Live.answer, hholder] at hanswer
      · have hwanes := hanswered.wanes hop
        rw [hanswered.rest]
        exact hwanes.trans (wanes_clients ..)
    · obtain ⟨c', hclients, -⟩ := hanswered.clients
      rw [hclients]
      exact (getElem?_set_iff hanswered.found).mpr (.inr ⟨hji.symm, hd⟩)
  · obtain ⟨hwanes, hclients⟩ := wanes_of_step h.kept hstep fun j hj => hclient ⟨j, hj⟩
    exact ⟨fun _ => hwanes, fun c hc => ⟨c, hclients ▸ hc, rfl⟩⟩

theorem Used.aside (h : Used l l') : Aside i l l' :=
  ⟨fun _ => h.wanes, fun c hc => ⟨c, h.client hc, rfl⟩⟩

/-- Something that is said of a call in terms of the program that is left of it, and that neither
what others do nor what the client does makes false. The last thing that the call does is to let go
of the group. -/
structure Followed (i : Nat) (l₀ : Live P κ α)
    (At : Live P κ α → Program (Calling P.Route κ) α → Prop) : Prop where
  aside : ∀ {m m' : Live P κ α} {p : Program (Calling P.Route κ) α} {more : List (Deed P κ)},
    Goes Used m more m' → Aside i m m' → At m p → At m' p
  own : ∀ {m m' m₁ : Live P κ α} {c : Client P κ α} {op : Calling.Op P.Route κ}
    {next : Calling.Answer op → Program (Calling P.Route κ) α} {answer : Calling.Answer op}
    {before : List (Deed P κ)}, Managed m → Goes Used l₀ before m →
      m.step (.client i) = some m' → Answered m m' i c op next answer m₁ →
        At m (.call op next) → At m' (next answer) ∧ ∀ a, next answer = .done a → op = .release

variable {At : Live P κ α → Program (Calling P.Route κ) α → Prop} {c : Client P κ α}

/-- It holds throughout the call. -/
theorem Overseen.follows (h : Overseen log l₀) (hat : Followed i l₀ At)
    (hc : l₀.clients[i]? = some c) (hstart : At l₀ c.program) (hgoes : Goes Used l₀ more l) :
    ∃ c', l.clients[i]? = some c' ∧ At l c'.program := by
  -- nobody but the client itself takes anything of its program
  have hkeep : ∀ {m m' : Live P κ α} {more : List (Deed P κ)}, Goes Used m more m' → Aside i m m' →
      (∃ c', m.clients[i]? = some c' ∧ At m c'.program) →
        ∃ c', m'.clients[i]? = some c' ∧ At m' c'.program := by
    rintro m m' more hgoes haside ⟨c', hc', hat'⟩
    obtain ⟨c'', hc'', hprogram⟩ := haside.client c' hc'
    exact ⟨c'', hc'', hprogram ▸ hat.aside hgoes haside hat'⟩
  induction hgoes with
  | start => exact ⟨c, hc, hstart⟩
  | @step more m m' ev hbefore hstep ih =>
    by_cases hev : ev = .client i
    · subst hev
      obtain ⟨c', op, next, answer, m₁, hanswered⟩ := client_cases hstep
      obtain ⟨d, hd, hat'⟩ := ih
      obtain rfl : d = c' := Option.some.inj (hd.symm.trans hanswered.found)
      rw [hanswered.program] at hat'
      obtain ⟨c'', hclients, hprogram⟩ := hanswered.clients
      refine ⟨c'', ?_, ?_⟩
      · rw [hclients]
        exact (getElem?_set_iff hanswered.found).mpr (.inl ⟨rfl, rfl⟩)
      · rw [hprogram]
        exact (hat.own (h.goes hbefore).managed hbefore hstep hanswered hat').1
    · exact hkeep (Goes.start.step hstep) ((h.goes hbefore).aside hstep hev) ih
  | others hbefore hothers' ih => exact hkeep (Goes.start.others hothers') hothers'.aside ih

/-- So it holds just before the step with which the client gets its result. -/
theorem Overseen.follows_to_end {a : α} (h : Overseen log l₀) (hat : Followed i l₀ At)
    (hc : l₀.clients[i]? = some c) (hstart : At l₀ c.program) (hgoes : Goes Used l₀ more l)
    (hstep : l.step (.client i) = some l') (hresult : l'.result? i = some a) :
    ∃ c op next answer l₁, Answered l l' i c op next answer l₁ ∧ At l (.call op next) ∧
      next answer = .done a := by
  obtain ⟨c', hc', hat'⟩ := h.follows hat hc hstart hgoes
  obtain ⟨d, op, next, answer, l₁, hanswered⟩ := client_cases hstep
  obtain rfl : c' = d := Option.some.inj (hc'.symm.trans hanswered.found)
  rw [hanswered.program] at hat'
  refine ⟨c', op, next, answer, l₁, hanswered, hat', ?_⟩
  obtain ⟨c₁, hclients, hprogram⟩ := hanswered.clients
  obtain ⟨c₂, hc₂, -, hdone⟩ := of_result? hresult
  rw [hclients] at hc₂
  obtain ⟨-, rfl⟩ := ((getElem?_set_iff hanswered.found).mp hc₂).resolve_right fun h => h.1 rfl
  rw [← hprogram, hdone]

/-- Whoever lets go of the group last has its result at once. -/
theorem Answered.result?_of_release {next : Unit → Program (Calling P.Route κ) α}
    {l₁ : Live P κ α} {a : α} (h : Answered l l' i c .release next () l₁)
    (hstep : l.step (.client i) = some l') (hdone : next () = .done a) :
    l'.result? i = some a := by
  have hprogram := h.program
  have hstep : (l.clients[i]?).bind _ = some l' := hstep
  rw [h.found, Option.bind_some] at hstep
  obtain ⟨hawake, hstep⟩ := Option.ite_none_left_eq_some.mp hstep
  rw [hprogram] at hstep
  obtain rfl := Option.some.inj hstep
  show ((l.clients.modify i _)[i]?).bind _ = _
  rw [List.getElem?_modify_eq, h.found]
  refine (if_neg hawake).trans ?_
  dsimp only
  rw [hdone]

/-- A client has got its result with a step of its own, and others have gone on since. -/
def Returned (i : Nat) (l₀ : Live P κ α) (a : α) (l : Live P κ α) : Prop :=
  ∃ before m m' after, Goes Used l₀ before m ∧ m.step (.client i) = some m' ∧
    m'.result? i = some a ∧ Goes Used m' after l

theorem Returned.goes {a : α} (h : Returned i l₀ a l) (hgoes : Goes Used l more l') :
    Returned i l₀ a l' := by
  obtain ⟨before, m, m', after, hbefore, hstep, hresult, hafter⟩ := h
  exact ⟨before, m, m', after ++ more, hbefore, hstep, hresult, hafter.trans hgoes⟩

/-- There is such a step in every call that has come to its end: nobody else does anything to the
program of the client, and it does not sleep in the end. -/
theorem Overseen.returned {a : α} (h : Overseen log l₀) (hat : Followed i l₀ At)
    (hc : l₀.clients[i]? = some c) (hstart : At l₀ c.program) (hcall : ∀ b, c.program ≠ .done b)
    (hgoes : Goes Used l₀ more l) (hresult : l.result? i = some a) : Returned i l₀ a l := by
  -- the call goes on, or it has come to its end
  let Past (m : Live P κ α) (p : Program (Calling P.Route κ) α) : Prop :=
    (At m p ∧ ∀ b, p ≠ .done b) ∨ ∃ b, p = .done b ∧ Returned i l₀ b m
  have hpast : Followed i l₀ Past := by
    constructor
    · rintro m m' p more hgoes haside (⟨hat', hcall⟩ | ⟨b, hb, hreturned⟩)
      · exact .inl ⟨hat.aside hgoes haside hat', hcall⟩
      · exact .inr ⟨b, hb, hreturned.goes hgoes⟩
    · rintro m m' m₁ c op next answer before hmanaged hbefore hstep hanswered
        (⟨hat', -⟩ | ⟨b, hb, -⟩)
      · obtain ⟨hnext, hlast⟩ := hat.own hmanaged hbefore hstep hanswered hat'
        refine ⟨?_, hlast⟩
        by_cases hdone : ∃ b, next answer = .done b
        · obtain ⟨b, hb⟩ := hdone
          obtain rfl := hlast b hb
          have hresult := hanswered.result?_of_release hstep hb
          exact .inr ⟨b, hb, before, m, m', [], hbefore, hstep, hresult, .start⟩
        · exact .inl ⟨hnext, not_exists.mp hdone⟩
      · cases hb
  obtain ⟨c', hc', hends⟩ := h.follows hpast hc (.inl ⟨hstart, hcall⟩) hgoes
  obtain ⟨c'', hc'', -, hdone⟩ := of_result? hresult
  obtain rfl : c' = c'' := Option.some.inj (hc'.symm.trans hc'')
  obtain ⟨-, hcall⟩ | ⟨b, hb, hreturned⟩ := hends
  · exact absurd hdone (hcall a)
  · obtain rfl : a = b := Program.done.inj (hdone.symm.trans hb)
    exact hreturned

end Live
end MessageDispatch
