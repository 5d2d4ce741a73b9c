import MessageDispatch.Proofs.Asking
import MessageDispatch.Proofs.GroupLock
import MessageDispatch.Proofs.Workers

/-! A group keeps track of its dispatchers. No subscriber has two that are at work, the group knows
of each that is, closing waits for all of them, and the next start gives every open subscriber one
that is not told to leave its loop. -/
namespace MessageDispatch

variable {P : Protocol} {κ α : Type}

namespace Live

variable {l l' l'' l₀ : Live P κ α}

/-! ## Dispatchers at work -/

theorem isFinished_of_found {i : Nat} {r : Receiver P} (hr : l.receivers[i]? = some r) :
    l.isFinished i = r.state.isFinished := by
  rw [isFinished, hr, Option.map_some, Option.getD_some]

theorem exists_of_unfinished {i : Nat} (h : l.isFinished i = false) :
    ∃ r, l.receivers[i]? = some r ∧ r.state.isFinished = false := by
  cases hr : l.receivers[i]? with
  | none => simp [isFinished, hr] at h
  | some r => exact ⟨r, rfl, (isFinished_of_found hr).symm.trans h⟩

/-- No subscriber has two dispatchers at work. -/
def Single (l : Live P κ α) : Prop :=
  ∀ (i j : Nat) (r r' : Receiver P), l.receivers[i]? = some r → l.receivers[j]? = some r' →
    r.state.isFinished = false → r'.state.isFinished = false → r.subscriber = r'.subscriber → i = j

/-- Dispatchers may be started, and all that are at work are known and have not been told to
leave. -/
structure Open (l : Live P κ α) : Prop where
  allowed : l.stopped ≤ l.generation
  running : ∀ (i : Nat) (r : Receiver P), l.receivers[i]? = some r →
    r.state.isFinished = false → i ∈ l.running
  generation : ∀ (i : Nat) (r : Receiver P), l.receivers[i]? = some r → r.state.isFinished = false →
    r.generation = l.generation

theorem Open.isStopped (h : Open l) {i : Nat} {r : Receiver P} (hr : l.receivers[i]? = some r)
    (hunfinished : r.state.isFinished = false) : l.isStopped r = false := by
  rw [Live.isStopped, h.generation i r hr hunfinished]
  exact decide_eq_false (Nat.not_lt.mpr h.allowed)

/-- Some dispatcher is at work for a subscriber. -/
def Attended (l : Live P κ α) (ref : SubscriberRef) : Prop :=
  ∃ (i : Nat) (r : Receiver P),
    l.receivers[i]? = some r ∧ r.subscriber = ref ∧ r.state.isFinished = false

/-! ## Dispatchers come to their end -/

/-- Nothing happens to the dispatchers but that some of them come to their end. -/
structure Wanes (l l' : Live P κ α) : Prop where
  receivers : ∀ (i : Nat) (r' : Receiver P), l'.receivers[i]? = some r' →
    ∃ r : Receiver P, l.receivers[i]? = some r ∧ r'.subscriber = r.subscriber ∧
      r'.generation = r.generation ∧ (r.state.isFinished = true → r'.state.isFinished = true)
  length : l'.receivers.length = l.receivers.length
  running : l'.running = l.running
  generation : l'.generation = l.generation
  stopped : l'.stopped = l.stopped
  holder : l'.holder = l.holder
  persists : l.engine.Persists l'.engine

theorem Wanes.of_receivers (hreceivers : l'.receivers = l.receivers)
    (hrunning : l'.running = l.running) (hgeneration : l'.generation = l.generation)
    (hstopped : l'.stopped = l.stopped) (hholder : l'.holder = l.holder)
    (hpersists : l.engine.Persists l'.engine) : Wanes l l' :=
  ⟨fun i r' hr' => ⟨r', hreceivers ▸ hr', rfl, rfl, id⟩, by rw [hreceivers], hrunning, hgeneration,
    hstopped, hholder, hpersists⟩

theorem Wanes.refl (l : Live P κ α) : Wanes l l := .of_receivers rfl rfl rfl rfl rfl (.refl _)

theorem Wanes.trans (h : Wanes l l') (h' : Wanes l' l'') : Wanes l l'' where
  receivers := by
    intro i r'' hr''
    obtain ⟨r', hr', hsubscriber', hgeneration', hfinished'⟩ := h'.receivers i r'' hr''
    obtain ⟨r, hr, hsubscriber, hgeneration, hfinished⟩ := h.receivers i r' hr'
    exact ⟨r, hr, hsubscriber'.trans hsubscriber, hgeneration'.trans hgeneration,
      hfinished' ∘ hfinished⟩
  length := h'.length.trans h.length
  running := h'.running.trans h.running
  generation := h'.generation.trans h.generation
  stopped := h'.stopped.trans h.stopped
  holder := h'.holder.trans h.holder
  persists := h.persists.trans h'.persists

theorem Wanes.unfinished (h : Wanes l l') {i : Nat} (hi : l'.isFinished i = false) :
    l.isFinished i = false := by
  obtain ⟨r', hr', hunfinished⟩ := exists_of_unfinished hi
  obtain ⟨r, hr, -, -, hfinished⟩ := h.receivers i r' hr'
  rw [isFinished_of_found hr]
  exact Bool.eq_false_iff.mpr fun hdone => by simp [hfinished hdone] at hunfinished

/-- A dispatcher that is at work was at work before. -/
theorem Wanes.exists_before (h : Wanes l l') {i : Nat} {r' : Receiver P}
    (hr' : l'.receivers[i]? = some r') (hunfinished : r'.state.isFinished = false) :
    ∃ r : Receiver P, l.receivers[i]? = some r ∧ r'.subscriber = r.subscriber ∧
      r'.generation = r.generation ∧ r.state.isFinished = false := by
  obtain ⟨r, hr, hsubscriber, hgeneration, hfinished⟩ := h.receivers i r' hr'
  refine ⟨r, hr, hsubscriber, hgeneration, ?_⟩
  exact Bool.eq_false_iff.mpr fun hdone => by simp [hfinished hdone] at hunfinished

theorem Wanes.single (h : Wanes l l') (hsingle : Single l) : Single l' := by
  intro i j r r' hr hr' hunfinished hunfinished' hsame
  obtain ⟨s, hs, hsubscriber, -, hwork⟩ := h.exists_before hr hunfinished
  obtain ⟨s', hs', hsubscriber', -, hwork'⟩ := h.exists_before hr' hunfinished'
  exact hsingle i j s s' hs hs' hwork hwork' (hsubscriber.symm.trans (hsame.trans hsubscriber'))

theorem Wanes.opened (h : Wanes l l') (hopen : Open l) : Open l' where
  allowed := by rw [h.stopped, h.generation]; exact hopen.allowed
  running := by
    intro i r' hr' hunfinished
    obtain ⟨r, hr, -, -, hwork⟩ := h.exists_before hr' hunfinished
    exact h.running ▸ hopen.running i r hr hwork
  generation := by
    intro i r' hr' hunfinished
    obtain ⟨r, hr, -, hgeneration, hwork⟩ := h.exists_before hr' hunfinished
    rw [hgeneration, h.generation]
    exact hopen.generation i r hr hwork

theorem Advances.wanes {i : Nat} {r r' : Receiver P} (h : Advances l l' i r r')
    (hfinished : r.state.isFinished = true → r'.state.isFinished = true) : Wanes l l' where
  receivers := by
    intro j s' hs'
    rw [h.receivers] at hs'
    rcases (getElem?_set_iff h.found).mp hs' with ⟨rfl, rfl⟩ | ⟨-, hs'⟩
    · exact ⟨r, h.found, h.subscriber, h.generation, hfinished⟩
    · exact ⟨s', hs', rfl, rfl, id⟩
  length := by rw [h.receivers, List.length_set]
  running := h.backdrop.running
  generation := h.backdrop.generation
  stopped := h.backdrop.stopped
  holder := h.backdrop.holder
  persists := h.backdrop.persists

theorem Hears.wanes {i : Nat} {r r' : Receiver P}
    {event : Dispatcher.Event (Nat × Message P.Route)} (h : Hears l l' i r r' event) :
    Wanes l l' := by
  refine h.toAdvances.wanes fun hfinished => ?_
  obtain ⟨effects, new, hstep, -⟩ := h.step
  rw [Dispatcher.State.step_of_isFinished hfinished] at hstep
  cases hstep

theorem Readied.wanes {i : Nat} {r r' : Receiver P} (h : Readied l l' i r r') : Wanes l l' :=
  h.toAdvances.wanes fun hfinished => h.state ▸ hfinished

/-- Whatever is not a step of a client. -/
theorem wanes_of_step {log : List (Deed P κ)} (hkept : Kept log l) {ev : LiveStep}
    (hstep : l.step ev = some l') (hev : ∀ i, ev ≠ .client i) :
    Wanes l l' ∧ l'.clients = l.clients := by
  cases ev with
  | task j =>
    obtain ⟨t, hends | ⟨t', op, hperforms⟩⟩ := task_cases hstep
    · obtain ⟨r, hr⟩ : ∃ r, l.receivers[t.receiver]? = some r :=
        ⟨_, List.getElem?_eq_getElem (hkept.known t (List.mem_of_getElem? hends.found))⟩
      obtain ⟨s, hs⟩ := hkept.staffed hr
      have hhears := hends.hears hr hs (hkept.inFlight hr hends.found)
      have herased : Wanes l { l with tasks := l.tasks.eraseIdx j } :=
        .of_receivers rfl rfl rfl rfl rfl (.refl _)
      exact ⟨herased.trans hhears.wanes, hhears.backdrop.clients⟩
    · have hrest := hperforms.rest
      refine ⟨.of_receivers ?_ ?_ ?_ ?_ ?_ hperforms.persists, ?_⟩ <;> rw [hrest]
  | client i => exact absurd rfl (hev i)
  | heed i =>
    obtain ⟨r, r', hreadied | ⟨event, -, hhears⟩⟩ := heed_cases (fun _ => hkept.staffed) hstep
    · exact ⟨hreadied.wanes, hreadied.backdrop.clients⟩
    · exact ⟨hhears.wanes, hhears.backdrop.clients⟩
  | receive i =>
    obtain ⟨r, r', ⟨-, hreadied⟩ | ⟨message, -, hhears⟩⟩ :=
      receive_cases (fun _ => hkept.staffed) hstep
    · exact ⟨hreadied.wanes, hreadied.backdrop.clients⟩
    · exact ⟨hhears.wanes, hhears.backdrop.clients⟩
  | elapse ms =>
    obtain rfl := Option.some.inj hstep
    refine ⟨.of_receivers rfl rfl rfl rfl rfl (.of_standing fun ref => ?_), rfl⟩
    cases ref <;> rfl

/-! ## Dispatchers are started -/

/-- Dispatchers have been started, none for a subscriber that is closed or has one at work. -/
structure Starts (l l' : Live P κ α) : Prop where
  opened : Open l'
  single : Single l'
  keeps : ∀ (i : Nat) (r : Receiver P), l.receivers[i]? = some r → l'.receivers[i]? = some r
  new : ∀ (i : Nat) (r : Receiver P), l.receivers.length ≤ i → l'.receivers[i]? = some r →
    l'.isClosed r.subscriber = false ∧ ¬ Attended l r.subscriber
  subscriber? : ∀ ref, l'.engine.subscriber? ref = l.engine.subscriber? ref
  members : l'.engine.subscribers = l.engine.subscribers
  generation : l'.generation = l.generation
  stopped : l'.stopped = l.stopped
  holder : l'.holder = l.holder
  clients : l'.clients = l.clients

theorem Attended.mono {ref : SubscriberRef} (h : Attended l ref)
    (hkeeps : ∀ (i : Nat) (r : Receiver P), l.receivers[i]? = some r → l'.receivers[i]? = some r) :
    Attended l' ref := by
  obtain ⟨i, r, hr, hsubscriber, hwork⟩ := h
  exact ⟨i, r, hkeeps i r hr, hsubscriber, hwork⟩

theorem Starts.refl (hopen : Open l) (hsingle : Single l) : Starts l l :=
  ⟨hopen, hsingle, fun _ _ => id,
    fun _ _ hi hr => absurd (lt_length_of_getElem? hr) (Nat.not_lt.mpr hi),
    fun _ => rfl, rfl, rfl, rfl, rfl, rfl⟩

theorem Starts.trans (h : Starts l l') (h' : Starts l' l'') : Starts l l'' where
  opened := h'.opened
  single := h'.single
  keeps := fun i r hr => h'.keeps i r (h.keeps i r hr)
  new := by
    intro i r hi hr
    by_cases hlt : i < l'.receivers.length
    · have hr' : l'.receivers[i]? = some r := by
        rw [List.getElem?_eq_getElem hlt, ← h'.keeps i _ (List.getElem?_eq_getElem hlt), hr]
      obtain ⟨hclosed, hnone⟩ := h.new i r hi hr'
      refine ⟨?_, hnone⟩
      rw [isClosed, h'.subscriber?]
      exact hclosed
    · obtain ⟨hclosed, hnone⟩ := h'.new i r (Nat.le_of_not_lt hlt) hr
      exact ⟨hclosed, fun hattended => hnone (hattended.mono h.keeps)⟩
  subscriber? := fun ref => (h'.subscriber? ref).trans (h.subscriber? ref)
  members := h'.members.trans h.members
  generation := h'.generation.trans h.generation
  stopped := h'.stopped.trans h.stopped
  holder := h'.holder.trans h.holder
  clients := h'.clients.trans h.clients

/-- Those that have come to their end are forgotten. -/
theorem starts_forget (hopen : Open l) (hsingle : Single l) :
    Starts l { l with running := l.running.filter fun i => !l.isFinished i } := by
  have hkept : ∀ (i : Nat) (r : Receiver P), l.receivers[i]? = some r →
      r.state.isFinished = false → i ∈ l.running.filter fun i => !l.isFinished i := by
    intro i r hr hwork
    refine List.mem_filter.mpr ⟨hopen.running i r hr hwork, ?_⟩
    rw [isFinished_of_found hr, hwork]
    rfl
  exact ⟨⟨hopen.allowed, hkept, hopen.generation⟩, hsingle, fun _ _ => id,
    fun _ _ hi hr => absurd (lt_length_of_getElem? hr) (Nat.not_lt.mpr hi),
    fun _ => rfl, rfl, rfl, rfl, rfl, rfl⟩

/-- One is started for an open subscriber that has none. -/
theorem starts_concat (hopen : Open l) (hsingle : Single l) {r : Receiver P}
    (hgeneration : r.generation = l.generation) (hunclosed : l.isClosed r.subscriber = false)
    (hnone : ¬ Attended l r.subscriber) :
    Starts l { l with
      receivers := l.receivers ++ [r], running := l.running ++ [l.receivers.length] } := by
  refine ⟨⟨hopen.allowed, ?_, ?_⟩, ?_, ?_, ?_, fun _ => rfl, rfl, rfl, rfl, rfl, rfl⟩
  · intro i r' hr' hwork
    rcases getElem?_concat_iff.mp hr' with hr' | ⟨rfl, -⟩
    · exact List.mem_append_left _ (hopen.running i r' hr' hwork)
    · exact List.mem_append_right _ (List.mem_singleton_self _)
  · intro i r' hr' hwork
    rcases getElem?_concat_iff.mp hr' with hr' | ⟨-, rfl⟩
    · exact hopen.generation i r' hr' hwork
    · exact hgeneration
  · intro i j r₁ r₂ hr₁ hr₂ hwork₁ hwork₂ hsame
    rcases getElem?_concat_iff.mp hr₁ with hold₁ | ⟨rfl, rfl⟩ <;>
      rcases getElem?_concat_iff.mp hr₂ with hold₂ | ⟨rfl, rfl⟩
    · exact hsingle i j r₁ r₂ hold₁ hold₂ hwork₁ hwork₂ hsame
    · exact absurd ⟨i, r₁, hold₁, hsame, hwork₁⟩ hnone
    · exact absurd ⟨j, r₂, hold₂, hsame.symm, hwork₂⟩ hnone
    · rfl
  · exact fun i r' hr' => getElem?_concat_iff.mpr (.inl hr')
  · intro i r' hi hr'
    rcases getElem?_concat_iff.mp hr' with hr' | ⟨rfl, rfl⟩
    · exact absurd (lt_length_of_getElem? hr') (Nat.not_lt.mpr hi)
    · exact ⟨hunclosed, hnone⟩

/-- Whoever is running and not at its end is at work. -/
theorem attended_of_running {ref : SubscriberRef} {i : Nat}
    (hi : i ∈ l.running.filter fun i => !l.isFinished i)
    (hsame : ((l.receivers[i]?).map (·.subscriber)) = some ref) : Attended l ref := by
  obtain ⟨r, hr, hsubscriber⟩ := Option.map_eq_some_iff.mp hsame
  refine ⟨i, r, hr, hsubscriber, ?_⟩
  have hwork := (List.mem_filter.mp hi).2
  rw [isFinished_of_found hr] at hwork
  simpa using hwork

/-- What dispatching a subscriber comes to: it forgets those that have come to their end, and starts
one unless one is at work or the subscriber is closed. -/
theorem starts_dispatch (hopen : Open l) (hsingle : Single l) (ref : SubscriberRef) :
    Starts l (l.dispatch ref).2 ∧
      (l.isClosed ref = false → Attended (l.dispatch ref).2 ref) := by
  have hforgets := starts_forget hopen hsingle
  unfold dispatch
  dsimp only
  split
  · rename_i s hs
    have hs : l.engine.subscriber? ref = some s := hs
    have hclosed : l.isClosed ref = s.closed := by
      rw [isClosed, hs, Option.map_some, Option.getD_some]
    split
    · rename_i hbusy
      refine ⟨hforgets, fun hunclosed => ?_⟩
      rw [← hclosed, hunclosed, Bool.or_false] at hbusy
      obtain ⟨i, hi, hsame⟩ := List.any_eq_true.mp hbusy
      have hattended : Attended l ref := attended_of_running hi (eq_of_beq hsame)
      exact hattended.mono hforgets.keeps
    · rename_i hfree
      obtain ⟨htaken, hunclosed⟩ := Bool.or_eq_false_iff.mp (Bool.not_eq_true _ ▸ hfree)
      -- whoever is at work for the subscriber would be running, and so have been found
      have hnone : ¬ Attended l ref := by
        rintro ⟨i, r, hr, hsubscriber, hwork⟩
        refine List.any_eq_false.mp htaken i (hforgets.opened.running i r hr hwork) ?_
        rw [hr, Option.map_some, hsubscriber]
        exact beq_self_eq_true _
      refine ⟨hforgets.trans ?_, fun _ => ?_⟩
      · exact starts_concat hforgets.opened hsingle rfl (hclosed.trans hunclosed) hnone
      · exact ⟨l.receivers.length, _, List.getElem?_concat_length, rfl, rfl⟩
  · rename_i hs
    have hs : l.engine.subscriber? ref = none := hs
    refine ⟨hforgets, fun hunclosed => ?_⟩
    simp [isClosed, hs] at hunclosed

theorem starts_dispatchEach (refs : List SubscriberRef) (hopen : Open l) (hsingle : Single l) :
    Starts l (dispatchEach refs l).2 ∧
      ∀ ref ∈ refs, l.isClosed ref = false → Attended (dispatchEach refs l).2 ref := by
  induction refs generalizing l with
  | nil => exact ⟨.refl hopen hsingle, List.forall_mem_nil _⟩
  | cons ref refs ih =>
    obtain ⟨hstarts, hfirst⟩ := starts_dispatch hopen hsingle ref
    obtain ⟨hmore, hrest⟩ := ih hstarts.opened hstarts.single
    refine ⟨hstarts.trans hmore, List.forall_mem_cons.mpr ⟨fun hunclosed => ?_, ?_⟩⟩
    · exact (hfirst hunclosed).mono hmore.keeps
    · intro ref' href' hunclosed
      refine hrest ref' href' ?_
      rw [isClosed, hstarts.subscriber?]
      exact hunclosed

/-! ## Clients -/

/-- What the step of a client comes to: an answer to its operation, or sleep. -/
structure Answered (l l' : Live P κ α) (i : Nat) (c : Client P κ α) (op : Calling.Op P.Route κ)
    (next : Calling.Answer op → Program (Calling P.Route κ) α) (answer : Calling.Answer op)
    (l₁ : Live P κ α) : Prop where
  found : l.clients[i]? = some c
  program : c.program = .call op next
  clients : ∃ c', l'.clients = l.clients.set i c' ∧ c'.program = next answer
  rest : l' = { l₁ with clients := l'.clients }
  answered : l.answer i op = some (answer, l₁) ∨
    l₁ = l ∧ ∃ ms, op = .publishing (.ambient (.sleep ms))

theorem client_cases {i : Nat} (h : l.stepClient i = some l') :
    ∃ c op next answer l₁, Answered l l' i c op next answer l₁ := by
  obtain ⟨c, hc, h⟩ := Option.bind_eq_some_iff.mp h
  split at h
  · cases h
  · split at h
    · cases h
    · rename_i ms next hprogram
      obtain rfl := Option.some.inj h
      exact ⟨c, .publishing (.ambient (.sleep ms)), next, (), l, hc, hprogram,
        ⟨{ c with wakeAt := l.now + ms, program := next () }, rfl, rfl⟩, rfl,
        .inr ⟨rfl, ms, rfl⟩⟩
    · rename_i op next _ hprogram
      obtain ⟨⟨answer, l₁⟩, hanswer, rfl⟩ := Option.map_eq_some_iff.mp h
      obtain ⟨registered, -, hclients, -⟩ := answer_cases hc hanswer
      have hset : l₁.clients[i]? = some { c with registered := registered } := by
        rw [hclients]
        exact (getElem?_set_iff hc).mpr (.inl ⟨rfl, rfl⟩)
      refine ⟨c, op, next, answer, l₁, hc, hprogram,
        ⟨{ c with registered := registered, program := next answer }, ?_, rfl⟩, rfl, .inl hanswer⟩
      show l₁.clients.modify i _ = _
      rw [modify_eq_set hset, hclients, List.set_set]

theorem wanes_connect (l : Live P κ α) : Wanes l l.connect.2 := by
  unfold connect
  split
  · exact .refl l
  · dsimp only
    split
    · refine .of_receivers rfl rfl rfl rfl rfl
        (.of_standing fun ref => Engine.standing?_congr ?_)
      cases ref <;> rfl
    · exact .of_receivers rfl rfl rfl rfl rfl (.refl _)

/-- Only those who hold the group do anything to its dispatchers. -/
theorem wanes_answer {i : Nat} {op : Calling.Op P.Route κ} {answer : Calling.Answer op}
    (hop : op.isOfHolder = false) (h : l.answer i op = some (answer, l')) : Wanes l l' := by
  have henlists := enlists_answer h
  cases op with
  | acquire | release | dispatchAll | dispatchInbox | shutDown | renew => cases hop
  | publishing op =>
    obtain ⟨-, rfl⟩ := Prod.mk.inj (Option.some.inj h)
    exact .of_receivers rfl rfl rfl rfl rfl henlists.persists
  | connect =>
    have hconnect := wanes_connect l
    rw [Option.some.inj h] at hconnect
    exact hconnect
  | attempted d =>
    simp only [Live.answer] at h
    split at h
    · obtain ⟨-, rfl⟩ := Prod.mk.inj (Option.some.inj h)
      exact .refl l
    · split at h <;> first | cases h; done | skip
      all_goals
        obtain ⟨-, rfl⟩ := Prod.mk.inj (Option.some.inj h)
        exact .refl l
  | finished | awaitFlag =>
    obtain ⟨-, h⟩ := Option.ite_none_right_eq_some.mp h
    obtain ⟨-, rfl⟩ := Prod.mk.inj (Option.some.inj h)
    exact .refl l
  | register id =>
    obtain ⟨-, rfl⟩ := Prod.mk.inj (Option.some.inj h)
    split at henlists <;> split <;>
      exact .of_receivers rfl rfl rfl rfl rfl henlists.persists
  | awaitReply handle deadline =>
    simp only [Live.answer] at h
    split at h
    · obtain ⟨-, h⟩ := Option.ite_none_right_eq_some.mp h
      obtain ⟨-, rfl⟩ := Prod.mk.inj (Option.some.inj h)
      exact .refl l
    · obtain ⟨-, rfl⟩ := Prod.mk.inj (Option.some.inj h)
      exact .refl l
  | withdraw id handle =>
    obtain ⟨-, rfl⟩ := Prod.mk.inj (Option.some.inj h)
    exact .of_receivers rfl rfl rfl rfl rfl henlists.persists
  | raiseFlag flag =>
    obtain ⟨-, rfl⟩ := Prod.mk.inj (Option.some.inj h)
    exact .of_receivers rfl rfl rfl rfl rfl henlists.persists

theorem wanes_openInbox (l : Live P κ α) : Wanes l l.openInbox.2 := by
  have henlists := enlists_openInbox l
  unfold openInbox at henlists ⊢
  split
  · exact .refl l
  · rename_i hnone
    simp only [hnone] at henlists
    exact .of_receivers rfl rfl rfl rfl rfl henlists.persists

/-! ## The group and its holder -/

open Calling (Abides Hold)

/-- What holds of a group while its holder has got that far. -/
def AtHold (l : Live P κ α) : Hold → Prop
  | .free | .held => l.Open
  | .closing ds =>
    l.stopped = l.generation + 1 ∧ l.running = [] ∧ ∀ i, l.isFinished i = false → i ∈ ds
  | .closed => l.Open ∧ ∀ i, l.isFinished i = true

/-- Where a client is, given where the holder is. -/
def stage (l : Live P κ α) (hold : Hold) (i : Nat) : Hold :=
  if l.holder = some i then hold else .free

theorem stage_eq_free {hold : Hold} {i : Nat} (h : l.holder ≠ some i) : l.stage hold i = .free :=
  if_neg h

theorem stage_eq_hold {hold : Hold} {i : Nat} (h : l.holder = some i) : l.stage hold i = hold :=
  if_pos h

/-- A group whose clients all go by the rules. -/
structure Managed (l : Live P κ α) : Prop where
  single : l.Single
  hold : ∃ hold, l.AtHold hold ∧ (l.holder = none → hold = .free) ∧
    (∀ i, l.holder = some i → i < l.clients.length) ∧
      ∀ i c, l.clients[i]? = some c → Abides (l.stage hold i) c.program

theorem managed_new (config : GroupConfig P.Route κ) (engine : Engine P κ) :
    Managed (Live.new config engine : Live P κ α) where
  single := fun _ _ _ _ hr => by simp [Live.new] at hr
  hold := ⟨.free, ⟨Nat.le_refl _, fun _ _ hr => by simp [Live.new] at hr,
    fun _ _ hr => by simp [Live.new] at hr⟩, fun _ => rfl, nofun,
    fun _ _ hc => by simp [Live.new] at hc⟩

theorem AtHold.wanes {hold : Hold} (h : l.AtHold hold) (hwanes : Wanes l l') : l'.AtHold hold := by
  cases hold with
  | free | held => exact hwanes.opened h
  | closing ds =>
    obtain ⟨hstopped, hrunning, hleft⟩ := h
    refine ⟨?_, hwanes.running.trans hrunning, fun i hi => hleft i (hwanes.unfinished hi)⟩
    rw [hwanes.stopped, hwanes.generation, hstopped]
  | closed =>
    refine ⟨hwanes.opened h.1, fun i => ?_⟩
    cases hi : l'.isFinished i with
    | true => rfl
    | false => rw [← hwanes.unfinished hi, h.2 i]

/-- Once a dispatcher was waited for, the others are left. -/
theorem AtHold.finished {d : Nat} {ds : List Nat} (h : l.AtHold (.closing (d :: ds)))
    (hd : l.isFinished d = true) : l.AtHold (.closing ds) := by
  obtain ⟨hstopped, hrunning, hleft⟩ := h
  refine ⟨hstopped, hrunning, fun i hi => ?_⟩
  rcases List.mem_cons.mp (hleft i hi) with rfl | hi'
  · rw [hd] at hi
    cases hi
  · exact hi'

/-- When all were waited for, dispatchers may be started again. -/
theorem AtHold.renewed (h : l.AtHold (.closing [])) :
    AtHold { l with generation := l.generation + 1 } .closed := by
  obtain ⟨hstopped, -, hleft⟩ := h
  have hall : ∀ d, l.isFinished d = true := by
    intro d
    cases hd : l.isFinished d with
    | true => rfl
    | false => exact absurd (hleft d hd) List.not_mem_nil
  have hnone : ∀ (d : Nat) (r : Receiver P), l.receivers[d]? = some r →
      r.state.isFinished ≠ false := by
    intro d r hr hwork
    rw [← isFinished_of_found hr, hall d] at hwork
    cases hwork
  exact ⟨⟨Nat.le_of_eq hstopped, fun d r hr hwork => absurd hwork (hnone d r hr),
    fun d r hr hwork => absurd hwork (hnone d r hr)⟩, hall⟩

/-- Nothing but the clients has changed. -/
theorem wanes_clients (l : Live P κ α) (clients : List (Client P κ α)) :
    Wanes l { l with clients := clients } :=
  .of_receivers rfl rfl rfl rfl rfl (.refl _)

theorem Managed.wanes (h : Managed l) (hwanes : Wanes l l') (hclients : l'.clients = l.clients) :
    Managed l' := by
  obtain ⟨hsingle, hold, hat, hfree, hlength, habides⟩ := h
  refine ⟨hwanes.single hsingle, hold, hat.wanes hwanes, ?_, ?_, ?_⟩
  · rw [hwanes.holder]
    exact hfree
  · rw [hwanes.holder, hclients]
    exact hlength
  · intro i c hc
    rw [stage, hwanes.holder]
    exact habides i c (hclients ▸ hc)

theorem Managed.addClient (h : Managed l) {p : Program (Calling P.Route κ) α}
    (hp : Abides .free p) : Managed (l.addClient p).2 := by
  obtain ⟨hsingle, hold, hat, hfree, hlength, habides⟩ := h
  refine ⟨hsingle, hold, hat.wanes (wanes_clients ..), hfree, fun i hi => ?_, fun i c hc => ?_⟩
  · show i < (l.clients ++ [_]).length
    rw [List.length_append]
    exact Nat.lt_add_right _ (hlength i hi)
  · rcases getElem?_concat_iff.mp hc with hc | ⟨rfl, rfl⟩
    · exact habides i c hc
    · have hnew : (l.addClient p).2.stage hold l.clients.length = .free :=
        stage_eq_free fun hi => Nat.lt_irrefl _ (hlength _ hi)
      rw [hnew]
      exact hp

section
variable {i : Nat} {c : Client P κ α} {op : Calling.Op P.Route κ}
  {next : Calling.Answer op → Program (Calling P.Route κ) α} {answer : Calling.Answer op}
  {l₁ : Live P κ α}

/-- A client has taken its step, and the others are where they were. -/
theorem Answered.managed (h : Answered l l' i c op next answer l₁) {hold : Hold} (hold' : Hold)
    (habides : ∀ i c, l.clients[i]? = some c → Abides (l.stage hold i) c.program)
    (hsingle : l₁.Single) (hat : l₁.AtHold hold') (hfree : l₁.holder = none → hold' = .free)
    (hlength : ∀ j, l₁.holder = some j → j < l.clients.length)
    (hmine : l₁.stage hold' i = (l.stage hold i).after op answer)
    (hothers : ∀ j, j ≠ i → l₁.stage hold' j = l.stage hold j) : Managed l' := by
  obtain ⟨c', hclients, hprogram⟩ := h.clients
  have habides₁ : ∀ j d, l'.clients[j]? = some d → Abides (l₁.stage hold' j) d.program := by
    intro j d hd
    rw [hclients] at hd
    rcases (getElem?_set_iff h.found).mp hd with ⟨rfl, rfl⟩ | ⟨hji, hd⟩
    · have hnext := habides j c h.found
      rw [h.program] at hnext
      rw [hprogram, hmine]
      exact hnext.2 answer
    · rw [hothers j hji]
      exact habides j d hd
  have hlength₁ : ∀ j, l₁.holder = some j → j < l'.clients.length := by
    rw [hclients, List.length_set]
    exact hlength
  rw [h.rest]
  exact ⟨hsingle, hold', hat.wanes (wanes_clients ..), hfree, hlength₁, habides₁⟩

theorem Answered.wanes (h : Answered l l' i c op next answer l₁) (hop : op.isOfHolder = false) :
    Wanes l l₁ := by
  rcases h.answered with hanswer | ⟨rfl, -⟩
  · exact wanes_answer hop hanswer
  · exact .refl _

theorem Answered.eq_answer (h : Answered l l' i c op next answer l₁) (hop : op.isOfHolder = true) :
    l.answer i op = some (answer, l₁) := by
  rcases h.answered with hanswer | ⟨-, ms, rfl⟩
  · exact hanswer
  · cases hop

theorem Answered.allows (h : Answered l l' i c op next answer l₁) {hold : Hold}
    (habides : ∀ i c, l.clients[i]? = some c → Abides (l.stage hold i) c.program) :
    (l.stage hold i).Allows op := by
  have hmine := habides i c h.found
  rw [h.program] at hmine
  exact hmine.1

theorem ne_holder {j : Nat} (hi : l.holder = some i) (hji : j ≠ i) : l.holder ≠ some j :=
  fun hj => hji (Option.some.inj (hj.symm.trans hi))

/-- The holder has taken its step, and keeps hold of the group. -/
theorem Answered.managed_holding (h : Answered l l' i c op next answer l₁) {hold : Hold}
    (hold' : Hold)
    (habides : ∀ i c, l.clients[i]? = some c → Abides (l.stage hold i) c.program)
    (hlength : ∀ j, l.holder = some j → j < l.clients.length) (hi : l.holder = some i)
    (hsingle : l₁.Single) (hat : l₁.AtHold hold') (hholder : l₁.holder = l.holder)
    (hafter : hold.after op answer = hold') : Managed l' := by
  have hi₁ : l₁.holder = some i := hholder.trans hi
  refine h.managed hold' habides hsingle hat ?_ ?_ ?_ fun j hji => ?_
  · rw [hi₁]
    nofun
  · rw [hholder]
    exact hlength
  · rw [stage_eq_hold hi₁, stage_eq_hold hi, hafter]
  · rw [stage_eq_free (ne_holder hi hji), stage_eq_free (ne_holder hi₁ hji)]

/-- What the holder may do just as anybody else leaves it where it is, unless it has waited for a
dispatcher. -/
theorem Answered.atHold_after (h : Answered l l' i c op next answer l₁)
    (hop : op.isOfHolder = false) {hold : Hold} (hallows : hold.Allows op)
    (hat : l₁.AtHold hold) : l₁.AtHold (hold.after op answer) := by
  match hold, hallows with
  | .free, _ =>
    rw [Hold.after_of_not_isOfHolder (.inl rfl) hop]
    exact hat
  | .held, _ =>
    rw [Hold.after_of_not_isOfHolder (.inr rfl) hop]
    exact hat
  | .closing (d :: ds), hallows =>
    obtain rfl : op = .finished d := hallows
    refine hat.finished ?_
    rcases h.answered with hanswer | ⟨-, ms, hsleep⟩
    · obtain ⟨hd, hl⟩ := Option.ite_none_right_eq_some.mp hanswer
      rw [← (Prod.mk.inj (Option.some.inj hl)).2]
      exact hd
    · cases hsleep
  | .closing [], hallows =>
    obtain rfl : op = .renew := hallows
    cases hop
  | .closed, hallows =>
    obtain rfl : op = .release := hallows
    cases hop

/-- An operation that is open to anybody. -/
theorem Answered.managed_unheld (h : Answered l l' i c op next answer l₁)
    (hop : op.isOfHolder = false) (hmanaged : Managed l) : Managed l' := by
  obtain ⟨hsingle, hold, hat, hfree, hlength, habides⟩ := hmanaged
  have hwanes := h.wanes hop
  have hallows := h.allows habides
  by_cases hi : l.holder = some i
  · rw [stage_eq_hold hi] at hallows
    exact h.managed_holding _ habides hlength hi (hwanes.single hsingle)
      (h.atHold_after hop hallows (hat.wanes hwanes)) hwanes.holder rfl
  · refine h.managed _ habides (hwanes.single hsingle) (hat.wanes hwanes) ?_ ?_ ?_ ?_
    · rw [hwanes.holder]
      exact hfree
    · rw [hwanes.holder]
      exact hlength
    · rw [stage_eq_free hi, stage_eq_free (hwanes.holder ▸ hi),
        Hold.after_of_not_isOfHolder (.inl rfl) hop]
    · intro j _
      rw [stage, stage, hwanes.holder]

/-- Everything for a holder but to acquire the group is for the one who holds it, where the holder
has come to that. -/
theorem Answered.hold_cases (h : Answered l l' i c op next answer l₁) (hop : op.isOfHolder = true)
    (hne : op ≠ .acquire) {hold : Hold}
    (habides : ∀ i c, l.clients[i]? = some c → Abides (l.stage hold i) c.program) :
    l.holder = some i ∧ ((hold = .held ∧ op ≠ .acquire ∧ op ≠ .renew) ∨
      (hold = .closing [] ∧ op = .renew) ∨ (hold = .closed ∧ op = .release)) := by
  have hallows := h.allows habides
  have hi : l.holder = some i := by
    by_contra hi
    rw [stage_eq_free hi] at hallows
    rcases hallows with heq | hother
    · exact hne heq
    · rw [hop] at hother
      cases hother
  rw [stage_eq_hold hi] at hallows
  exact ⟨hi, (Hold.cases_of_allows hop hallows).resolve_left fun h => hne h.2⟩

/-- Whoever is neither to release the group nor to renew it has not begun to close it. -/
theorem Answered.eq_held (h : Answered l l' i c op next answer l₁) (hop : op.isOfHolder = true)
    (hacquire : op ≠ .acquire) (hrelease : op ≠ .release) (hrenew : op ≠ .renew) {hold : Hold}
    (habides : ∀ i c, l.clients[i]? = some c → Abides (l.stage hold i) c.program) :
    l.holder = some i ∧ hold = .held := by
  obtain ⟨hi, ⟨hheld, -⟩ | ⟨-, h'⟩ | ⟨-, h'⟩⟩ := h.hold_cases hop hacquire habides
  · exact ⟨hi, hheld⟩
  · exact absurd h' hrenew
  · exact absurd h' hrelease

/-- Whoever acquires the group finds it open. -/
theorem Answered.managed_acquire {next : Unit → Program (Calling P.Route κ) α} {answer : Unit}
    (h : Answered l l' i c .acquire next answer l₁) (hmanaged : Managed l) : Managed l' := by
  obtain ⟨hsingle, hold, hat, hfree, -, habides⟩ := hmanaged
  have hanswer := h.eq_answer rfl
  obtain ⟨hnone, hl⟩ := Option.ite_none_left_eq_some.mp hanswer
  obtain ⟨-, rfl⟩ := Prod.mk.inj (Option.some.inj hl)
  obtain rfl := hfree (by simpa using hnone)
  have hopen : l.Open := hat
  have hstage : ∀ j, l.stage .free j = .free := fun j => ite_self _
  refine h.managed .held habides hsingle
    ⟨hopen.allowed, hopen.running, hopen.generation⟩ nofun ?_ ?_ fun j hji => ?_
  · rintro j hj
    exact Option.some.inj hj ▸ lt_length_of_getElem? h.found
  · rw [hstage]
    exact if_pos rfl
  · rw [hstage]
    exact if_neg fun hj => hji (Option.some.inj hj).symm

/-- Whoever releases the group leaves it open. -/
theorem Answered.managed_release {next : Unit → Program (Calling P.Route κ) α} {answer : Unit}
    (h : Answered l l' i c .release next answer l₁) (hmanaged : Managed l) : Managed l' := by
  obtain ⟨hsingle, hold, hat, -, -, habides⟩ := hmanaged
  obtain ⟨hi, hwhere⟩ := h.hold_cases rfl nofun habides
  have hanswer := h.eq_answer rfl
  obtain ⟨-, rfl⟩ := Prod.mk.inj (Option.some.inj hanswer)
  have hopen : l.Open ∧ hold.after (Calling.Op.release : Calling.Op P.Route κ) () = .free := by
    rcases hwhere with ⟨rfl, -⟩ | ⟨-, h⟩ | ⟨rfl, -⟩
    · exact ⟨hat, rfl⟩
    · cases h
    · exact ⟨hat.1, rfl⟩
  refine h.managed .free habides hsingle
    ⟨hopen.1.allowed, hopen.1.running, hopen.1.generation⟩ (fun _ => rfl) nofun ?_ fun j hji => ?_
  · rw [stage_eq_hold hi, stage_eq_free (Option.some_ne_none i).symm]
    exact hopen.2.symm
  · rw [stage_eq_free (ne_holder hi hji), stage_eq_free (Option.some_ne_none j).symm]

/-- Once all were waited for, the group is renewed. -/
theorem Answered.managed_renew {next : Unit → Program (Calling P.Route κ) α} {answer : Unit}
    (h : Answered l l' i c .renew next answer l₁) (hmanaged : Managed l) : Managed l' := by
  obtain ⟨hsingle, hold, hat, -, hlength, habides⟩ := hmanaged
  obtain ⟨hi, ⟨-, -, hne⟩ | ⟨rfl, -⟩ | ⟨-, hrelease⟩⟩ := h.hold_cases rfl nofun habides
  · exact absurd rfl hne
  · have hanswer := h.eq_answer rfl
    obtain ⟨-, rfl⟩ := Prod.mk.inj (Option.some.inj hanswer)
    exact h.managed_holding .closed habides hlength hi hsingle hat.renewed rfl rfl
  · cases hrelease

/-- What the operations of a holder come to. -/
theorem Answered.managed_held (h : Answered l l' i c op next answer l₁) (hop : op.isOfHolder = true)
    (hmanaged : Managed l) : Managed l' := by
  have hanswer := h.eq_answer hop
  obtain ⟨hsingle, hold, hat, -, hlength, habides⟩ := id hmanaged
  cases op with
  | acquire => exact h.managed_acquire hmanaged
  | release => exact h.managed_release hmanaged
  | renew => exact h.managed_renew hmanaged
  | dispatchAll =>
    obtain ⟨hi, rfl⟩ := h.eq_held hop nofun nofun nofun habides
    obtain ⟨hstarts, -⟩ := starts_dispatchEach l.members hat hsingle
    rw [Option.some.inj hanswer] at hstarts
    exact h.managed_holding .held habides hlength hi hstarts.single hstarts.opened
      hstarts.holder rfl
  | dispatchInbox =>
    obtain ⟨hi, rfl⟩ := h.eq_held hop nofun nofun nofun habides
    obtain ⟨-, rfl⟩ := Prod.mk.inj (Option.some.inj hanswer)
    have hopened := wanes_openInbox l
    obtain ⟨hstarts, -⟩ := starts_dispatch (hopened.opened hat) (hopened.single hsingle) .inbox
    exact h.managed_holding .held habides hlength hi hstarts.single hstarts.opened
      (hstarts.holder.trans hopened.holder) rfl
  | shutDown =>
    obtain ⟨hi, rfl⟩ := h.eq_held hop nofun nofun nofun habides
    obtain ⟨rfl, rfl⟩ := Prod.mk.inj (Option.some.inj hanswer)
    have hopen : l.Open := hat
    refine h.managed_holding (.closing l.running) habides hlength hi hsingle
      ⟨rfl, rfl, fun d hd => ?_⟩ rfl rfl
    obtain ⟨r, hr, hwork⟩ := exists_of_unfinished hd
    exact hopen.running d r hr hwork
  | _ => cases hop

theorem Managed.client (h : Managed l) (hstep : l.stepClient i = some l') : Managed l' := by
  obtain ⟨c, op, next, answer, l₁, hanswered⟩ := client_cases hstep
  cases hop : op.isOfHolder with
  | false => exact hanswered.managed_unheld hop h
  | true => exact hanswered.managed_held hop h

end

end Live
end MessageDispatch
