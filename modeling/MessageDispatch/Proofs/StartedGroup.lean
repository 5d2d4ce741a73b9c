import MessageDispatch.Proofs.Confluence

/-! A group that is started, after which one message is published. Starting ends when every
dispatcher has subscribed, so that everybody who takes the message has a queue by then. -/
namespace MessageDispatch

namespace Calling

variable {ρ κ : Type}

/-- Start the group, and then publish a message. -/
def startAndPublish (publisher : Publisher ρ κ) (m : Message ρ) :
    Program (Calling ρ κ) (Except PublisherError Unit) :=
  start.bind fun
    | .ok () => publish publisher m
    | .error e => .done (.error (.transport e))

/-- What follows when these dispatchers were started. -/
def awaiting (publisher : Publisher ρ κ) (m : Message ρ) (ds : List Nat) :
    Program (Calling ρ κ) (Except PublisherError Unit) :=
  (each (fun d => perform (.attempted d)) ds).bind fun _ =>
    .call .release fun _ => publish publisher m

/-- What follows when the broker was connected to. -/
def connected (publisher : Publisher ρ κ) (m : Message ρ) :
    Except TransportError Unit → Program (Calling ρ κ) (Except PublisherError Unit)
  | .error e => .call .release fun _ => .done (.error (.transport e))
  | .ok () => .call .dispatchAll (awaiting publisher m)

theorem startAndPublish_eq (publisher : Publisher ρ κ) (m : Message ρ) :
    startAndPublish publisher m =
      .call .acquire fun _ => .call .connect (connected publisher m) := by
  refine congrArg (Program.call (S := Calling ρ κ) Calling.Op.acquire) (funext fun _ => ?_)
  refine congrArg (Program.call (S := Calling ρ κ) Calling.Op.connect) (funext fun result => ?_)
  cases (result : Except TransportError Unit) with
  | error e => rfl
  | ok _ =>
    refine congrArg (Program.call (S := Calling ρ κ) Calling.Op.dispatchAll) (funext fun ds => ?_)
    show Program.bind _ ((each (fun d => perform (.attempted d)) ds).bind fun _ =>
      Program.bind (fun _ => .done (Except.ok () : Except TransportError Unit))
        (perform .release)) = _
    exact Program.bind_assoc ..

/-- All that is left is to hand this message to the broker, if the broker takes it. -/
def Fated (m : Message ρ) (p : Program (Calling ρ κ) (Except PublisherError Unit)) : Prop :=
  ∃ next : Fate → Program (Calling ρ κ) (Except PublisherError Unit),
    p = .call (.publishing .fate) next ∧
      next .delivered = .call (.publishing (.send m)) fun _ => .done (.ok ())

theorem publish_eq {publisher : Publisher ρ κ} (hplain : publisher.middlewares = [])
    (m : Message ρ) : ∃ next : String → Program (Calling ρ κ) (Except PublisherError Unit),
      publish publisher m = .call (.publishing .freshId) next ∧
        ∀ fresh, ∃ next' : UInt64 → Program (Calling ρ κ) (Except PublisherError Unit),
          next fresh = .call (.publishing .wallClock) next' ∧
            ∀ now, Fated (m.complete fresh now) (next' now) := by
  obtain ⟨middlewares, timeoutMs⟩ := publisher
  obtain rfl : middlewares = [] := hplain
  exact ⟨_, rfl, fun fresh => ⟨_, rfl, fun now => ⟨_, rfl, rfl⟩⟩⟩

end Calling

/-! ## Dispatchers are started -/

namespace Live

variable {P : Protocol} {κ α : Type} {staff : List (Subscriber P κ)} {id : String}
  {total : List (Invocation P)} {extra extra' : List (Job P)} {l l' : Live P κ α}
  {charges : List (Charge P κ)} {m : Message P.Route}

/-- Every member of the staff has a dispatcher, and all but these dispatchers have tried to
subscribe. -/
def Served (n : Nat) (ds : List Nat) (l : Live P κ α) : Prop :=
  ∀ i < n, ∃ d r, l.receivers[d]? = some r ∧ r.subscriber = .member i ∧
    (d ∈ ds ∨ r.attempted = true)

theorem Served.mono {n : Nat} {ds : List Nat} (h : l.Served n ds)
    (hreceivers : ∀ (d : Nat) (r : Receiver P), l.receivers[d]? = some r →
      ∃ r' : Receiver P, l'.receivers[d]? = some r' ∧ r'.subscriber = r.subscriber ∧
        (r.attempted = true → r'.attempted = true)) : l'.Served n ds := by
  intro i hi
  obtain ⟨d, r, hr, hsubscriber, hready⟩ := h i hi
  obtain ⟨r', hr', hsame, hattempted⟩ := hreceivers d r hr
  exact ⟨d, r', hr', hsame.trans hsubscriber, hready.imp_right hattempted⟩

/-- Who has tried to subscribe has got a queue. -/
theorem Accounted.open_of_served (h : l.Accounted staff id total extra charges)
    (hserved : l.Served staff.length []) : l.engine.network.Open (staff.map (·.binding)) := by
  intro b hb
  obtain ⟨s, hs, rfl⟩ := List.mem_map.mp hb
  obtain ⟨i, hi⟩ := List.mem_iff_getElem?.mp hs
  obtain ⟨d, r, hr, hsubscriber, hready⟩ := hserved i (lt_length_of_getElem? hi)
  obtain ⟨-, j, s', hsubscriber', hs', hwhere⟩ := h.posted r (List.mem_of_getElem? hr)
  obtain rfl := SubscriberRef.member.inj (hsubscriber.symm.trans hsubscriber')
  obtain rfl := Option.some.inj (hi.symm.trans hs')
  rcases hready with hd | hattempted
  · cases hd
  · rcases hwhere with ⟨hnot, -⟩ | ⟨-, ⟨q, -, hq⟩, -⟩
    · rw [hattempted] at hnot
      cases hnot
    · exact ⟨q, hq⟩

/-- What a dispatcher is like when it is started. -/
theorem Accounted.dispatch (hcrew : Crew staff id) (h : l.Accounted staff id total extra charges)
    {j : Nat} {s : Subscriber P κ} (hs : staff[j]? = some s)
    (hfree : ∀ d ∈ l.running, ∀ r, l.receivers[d]? = some r → r.subscriber ≠ .member j) :
    ∃ r : Receiver P, ∃ l' : Live P κ α, l.dispatch (.member j) = (some l.receivers.length, l') ∧
      l'.Accounted staff id total extra charges ∧ l'.clients = l.clients ∧
      l'.receivers = l.receivers ++ [r] ∧ r.subscriber = .member j ∧
      ∀ d ∈ l'.running, d ∈ l.running ∨ d = l.receivers.length := by
  obtain ⟨s', hfound, rfl⟩ := h.ready.exists_bare rfl hs
  have hclosed : s'.closed = false := hcrew.unclosed s'.bare (List.mem_of_getElem? hs)
  have htaken : ((l.running.filter fun i => !l.isFinished i).any fun i =>
      ((l.receivers[i]?).map (·.subscriber)) == some (.member j)) = false := by
    refine List.any_eq_false.mpr fun d hd hsame => ?_
    have hd := (List.mem_filter.mp hd).1
    obtain ⟨r, hr, hsubscriber⟩ := Option.map_eq_some_iff.mp (eq_of_beq hsame)
    exact hfree d hd r hr hsubscriber
  let r : Receiver P :=
    { subscriber := .member j, generation := l.generation, attempted := false, queue := none,
      waiting := none, ended := false, resumeAt := 0, state := .new (.ofMax s'.maxWorkers) }
  let l' : Live P κ α :=
    { l with
      receivers := l.receivers ++ [r]
      running := (l.running.filter fun i => !l.isFinished i) ++ [l.receivers.length] }
  refine ⟨r, l', ?_, ?_, rfl, rfl, rfl, ?_⟩
  · simp only [Live.dispatch, hfound, htaken, hclosed]
    rfl
  · refine h.moved h.ready h.inHand h.orderly (fun _ _ hq => hq) ?_ rfl rfl (.of_eq ?_) rfl rfl rfl
    · exact List.forall_mem_append.mpr ⟨h.posted, List.forall_mem_singleton.mpr
        ⟨rfl, j, _, rfl, hs, .inl ⟨rfl, rfl⟩⟩⟩
    · have hnone : r.jobs staff = [] := rfl
      show (l.engine.network.jobs ++ (l.receivers ++ [r]).flatMap (·.jobs staff)) ++ extra = _
      rw [List.flatMap_append, List.flatMap_singleton, hnone, List.append_nil]
      rfl
  · intro d hd
    rcases List.mem_append.mp hd with hd | hd
    · exact .inl (List.mem_filter.mp hd).1
    · exact .inr (List.mem_singleton.mp hd)

/-- Dispatchers are started for some members of the staff. -/
theorem Accounted.dispatchEach (hcrew : Crew staff id) {js : List Nat} (hjs : js.Nodup)
    (hknown : ∀ j ∈ js, j < staff.length) (h : l.Accounted staff id total extra charges)
    (hfree : ∀ d ∈ l.running, ∀ r, l.receivers[d]? = some r → ∀ j ∈ js, r.subscriber ≠ .member j) :
    ∃ ds, ∃ l' : Live P κ α, Live.dispatchEach (js.map .member) l = (ds, l') ∧
      l'.Accounted staff id total extra charges ∧ l'.clients = l.clients ∧
      (∀ (d : Nat) (r : Receiver P), l.receivers[d]? = some r → l'.receivers[d]? = some r) ∧
      ∀ j ∈ js, ∃ d, ∃ r : Receiver P,
        l'.receivers[d]? = some r ∧ r.subscriber = .member j ∧ d ∈ ds := by
  induction js generalizing l with
  | nil => exact ⟨[], l, rfl, h, rfl, fun _ _ hr => hr, List.forall_mem_nil _⟩
  | cons j js ih =>
    obtain ⟨hj, hjs⟩ := List.nodup_cons.mp hjs
    obtain ⟨hlt, hknown⟩ := List.forall_mem_cons.mp hknown
    obtain ⟨r, l₁, hdispatched, h₁, hclients, hreceivers, hsubscriber, hrunning⟩ :=
      h.dispatch hcrew (List.getElem?_eq_getElem hlt) fun d hd r hr =>
        hfree d hd r hr j List.mem_cons_self
    -- the dispatcher that was just started is for none of the others
    have hfree₁ : ∀ d ∈ l₁.running, ∀ r', l₁.receivers[d]? = some r' → ∀ j' ∈ js,
        r'.subscriber ≠ .member j' := by
      intro d hd r' hr' j' hj'
      rw [hreceivers] at hr'
      rcases getElem?_concat_iff.mp hr' with hold | ⟨rfl, rfl⟩
      · rcases hrunning d hd with hd | rfl
        · exact hfree d hd r' hold j' (List.mem_cons_of_mem _ hj')
        · exact absurd (lt_length_of_getElem? hold) (Nat.lt_irrefl _)
      · rw [hsubscriber]
        intro hsame
        exact hj (SubscriberRef.member.inj hsame ▸ hj')
    obtain ⟨ds, l₂, hrest, h₂, hclients', hkept, hserved⟩ := ih hjs hknown h₁ hfree₁
    refine ⟨l.receivers.length :: ds, l₂, ?_, h₂, hclients'.trans hclients, fun d r hr => ?_, ?_⟩
    · simp only [List.map_cons, Live.dispatchEach, hdispatched, hrest]
      rfl
    · refine hkept d r ?_
      rw [hreceivers]
      exact getElem?_concat_iff.mpr (.inl hr)
    · refine List.forall_mem_cons.mpr ⟨⟨l.receivers.length, r, hkept _ _ ?_, hsubscriber,
        List.mem_cons_self⟩, fun j' hj' => ?_⟩
      · rw [hreceivers]
        exact List.getElem?_concat_length
      · obtain ⟨d, r', hr', hsubscriber', hd⟩ := hserved j' hj'
        exact ⟨d, r', hr', hsubscriber', List.mem_cons_of_mem _ hd⟩

/-! ## The client -/

/-- How far a client has got that starts the group and publishes a message, and which letters it is
still going to send. -/
inductive Stage (publisher : Publisher P.Route κ) (m : Message P.Route) (n : Nat) (id : String)
    (l : Live P κ α) :
    Program (Calling P.Route κ) (Except PublisherError Unit) → List (Letter P.Route) → Prop
  | acquire (hreceivers : l.receivers = []) (hrunning : l.running = []) :
    Stage publisher m n id l
      (.call .acquire fun _ => .call .connect (Calling.connected publisher m)) [m.letter]
  | connect (hreceivers : l.receivers = []) (hrunning : l.running = []) :
    Stage publisher m n id l (.call .connect (Calling.connected publisher m)) [m.letter]
  | dispatch (hreceivers : l.receivers = []) (hrunning : l.running = []) :
    Stage publisher m n id l (.call .dispatchAll (Calling.awaiting publisher m)) [m.letter]
  | await {d : Nat} {ds : List Nat} (hserved : l.Served n (d :: ds)) :
    Stage publisher m n id l (.call (.attempted d) fun _ => Calling.awaiting publisher m ds)
      [m.letter]
  | release (hserved : l.Served n []) :
    Stage publisher m n id l (.call .release fun _ => Calling.publish publisher m) [m.letter]
  | draw {next : String → Program (Calling P.Route κ) (Except PublisherError Unit)}
    (hserved : l.Served n [])
    (hnext : ∀ fresh, ∃ next' : UInt64 → Program (Calling P.Route κ) (Except PublisherError Unit),
      next fresh = .call (.publishing .wallClock) next' ∧
        ∀ now, Calling.Fated (m.complete fresh now) (next' now)) :
    Stage publisher m n id l (.call (.publishing .freshId) next) [m.letter]
  | date {next : UInt64 → Program (Calling P.Route κ) (Except PublisherError Unit)}
    {fresh : String} (hserved : l.Served n []) (hfresh : ∀ now, (m.complete fresh now).Under id)
    (hnext : ∀ now, Calling.Fated (m.complete fresh now) (next now)) :
    Stage publisher m n id l (.call (.publishing .wallClock) next) [m.letter]
  | fate {m' : Message P.Route} {p : Program (Calling P.Route κ) (Except PublisherError Unit)}
    (hserved : l.Served n []) (hm' : m'.Under id) (hletter : m'.letter = m.letter)
    (hp : Calling.Fated m' p) : Stage publisher m n id l p [m.letter]
  | send {m' : Message P.Route} (hserved : l.Served n []) (hm' : m'.Under id)
    (hletter : m'.letter = m.letter) :
    Stage publisher m n id l (.call (.publishing (.send m')) fun _ => .done (.ok ())) [m.letter]
  | sent : Stage publisher m n id l (.done (.ok ())) []

variable {publisher : Publisher P.Route κ} {n : Nat}
  {p : Program (Calling P.Route κ) (Except PublisherError Unit)} {letters : List (Letter P.Route)}

theorem Stage.mono (h : Stage publisher m n id l p letters) (hrunning : l'.running = l.running)
    (hlength : l'.receivers.length = l.receivers.length)
    (hreceivers : ∀ (d : Nat) (r : Receiver P), l.receivers[d]? = some r →
      ∃ r' : Receiver P, l'.receivers[d]? = some r' ∧ r'.subscriber = r.subscriber ∧
        (r.attempted = true → r'.attempted = true)) : Stage publisher m n id l' p letters := by
  have hnone (hnone : l.receivers = []) : l'.receivers = [] :=
    List.eq_nil_of_length_eq_zero (hlength.trans (by rw [hnone, List.length_nil]))
  cases h with
  | acquire hempty hidle => exact .acquire (hnone hempty) (hrunning.trans hidle)
  | connect hempty hidle => exact .connect (hnone hempty) (hrunning.trans hidle)
  | dispatch hempty hidle => exact .dispatch (hnone hempty) (hrunning.trans hidle)
  | await hserved => exact .await (hserved.mono hreceivers)
  | release hserved => exact .release (hserved.mono hreceivers)
  | draw hserved hnext => exact .draw (hserved.mono hreceivers) hnext
  | date hserved hfresh hnext => exact .date (hserved.mono hreceivers) hfresh hnext
  | fate hserved hm' hletter hp => exact .fate (hserved.mono hreceivers) hm' hletter hp
  | send hserved hm' hletter => exact .send (hserved.mono hreceivers) hm' hletter
  | sent => exact .sent

/-- A client that is done has sent the letter. -/
theorem Stage.letters_eq_nil {a : Except PublisherError Unit}
    (h : Stage publisher m n id l p letters) (hdone : p = .done a) : letters = [] := by
  cases h with
  | sent => rfl
  | fate _ _ _ hp =>
    obtain ⟨next, hprogram, -⟩ := hp
    rw [hprogram] at hdone
    cases hdone
  | _ => cases hdone

theorem Served.awaiting {ds : List Nat} (h : l.Served n ds) :
    Stage publisher m n id l (Calling.awaiting publisher m ds) [m.letter] := by
  cases ds with
  | nil => exact .release h
  | cons d ds => exact .await h

/-- Whoever has tried to subscribe need not be waited for. -/
theorem Served.attempted {d : Nat} {ds : List Nat} (h : l.Served n (d :: ds))
    (hattempted : ∀ r, l.receivers[d]? = some r → r.attempted = true) : l.Served n ds := by
  intro i hi
  obtain ⟨d', r, hr, hsubscriber, hd | hready⟩ := h i hi
  · rcases List.mem_cons.mp hd with rfl | hd
    · exact ⟨d', r, hr, hsubscriber, .inr (hattempted r hr)⟩
    · exact ⟨d', r, hr, hsubscriber, .inl hd⟩
  · exact ⟨d', r, hr, hsubscriber, .inr hready⟩

/-- To connect makes no difference but that the group is connected. -/
theorem Accounted.connect (h : l.Accounted staff id total extra charges) {i : Nat}
    {answer : Except TransportError Unit} (hanswer : l.answer i .connect = some (answer, l')) :
    answer = .ok () ∧ l'.Accounted staff id total extra charges ∧ l'.clients = l.clients ∧
      l'.receivers = l.receivers ∧ l'.running = l.running := by
  simp only [Live.answer, Live.connect, h.ready.clear.connects, gt_iff_lt, Nat.lt_irrefl,
    if_false] at hanswer
  split at hanswer <;> cases hanswer
  · exact ⟨rfl, h, rfl, rfl, rfl⟩
  · exact ⟨rfl, h.congr rfl rfl rfl rfl rfl, rfl, rfl, rfl⟩

/-- While no failure is due a message gets to the broker. -/
theorem Accounted.fate (h : l.Accounted staff id total extra charges) {i : Nat} {fate : Fate}
    (hanswer : l.answer i (.publishing .fate) = some (fate, l')) : fate = .delivered ∧ l' = l := by
  simp only [Live.answer, Engine.execPublishing, h.ready.clear.fates] at hanswer
  cases hanswer
  exact ⟨rfl, rfl⟩

/-- An id that is drawn is put into the message that is to be sent. -/
theorem Accounted.draw (h : l.Accounted staff id total extra charges) {i : Nat} {fresh : String}
    (hanswer : l.answer i (.publishing .freshId) = some (fresh, l')) :
    Genuine fresh ∧ l'.Accounted staff id total extra charges ∧ l'.clients = l.clients ∧
      l'.receivers = l.receivers := by
  cases hanswer
  have hready : l.engine.drawId.2.Ready staff :=
    h.ready.congr rfl (h.ready.clear.congr rfl rfl rfl)
  exact ⟨genuine_freshIdText _, h.idle hready rfl rfl rfl, rfl, rfl⟩

/-- A dispatcher is waited for until it has tried to subscribe. -/
theorem Accounted.attempted (h : l.Accounted staff id total extra charges) {i d : Nat}
    {answer : Unit} (hanswer : l.answer i (.attempted d) = some (answer, l')) :
    l' = l ∧ ∀ r, l.receivers[d]? = some r → r.attempted = true := by
  simp only [Live.answer] at hanswer
  cases hr : l.receivers[d]? with
  | none =>
    rw [hr] at hanswer
    cases hanswer
    exact ⟨rfl, fun r hr => by cases hr⟩
  | some r =>
    rw [hr] at hanswer
    obtain ⟨-, j, s, -, -, hwhere⟩ := h.posted r (List.mem_of_getElem? hr)
    rcases hwhere with ⟨hnot, hphase⟩ | ⟨hattempted, -⟩
    · simp only [hnot, hphase] at hanswer
      cases hanswer
    · simp only [hattempted] at hanswer
      cases hanswer
      exact ⟨rfl, fun r' hr' => Option.some.inj hr' ▸ hattempted⟩

/-- All members of the staff get a dispatcher. -/
theorem Accounted.dispatchAll (hcrew : Crew staff id) (h : l.Accounted staff id total extra charges)
    (hrunning : l.running = []) {i : Nat} {ds : List Nat}
    (hanswer : l.answer i .dispatchAll = some (ds, l')) :
    l'.Accounted staff id total extra charges ∧ l'.clients = l.clients ∧
      l'.Served staff.length ds := by
  obtain ⟨ds', l'', hdispatched, h', hsame, -, hserved⟩ := h.dispatchEach hcrew List.nodup_range
    (fun j => List.mem_range.mp) fun d hd => by
      rw [hrunning] at hd
      cases hd
  have hboth : some (ds', l'') = some (ds, l') := by
    rw [← hanswer, ← hdispatched, ← h.ready.length_subscribers]
    rfl
  cases hboth
  refine ⟨h', hsame, fun i hi => ?_⟩
  obtain ⟨d, r, hr, hsubscriber, hd⟩ := hserved i (List.mem_range.mpr hi)
  exact ⟨d, r, hr, hsubscriber, .inl hd⟩

/-- A message is published when everybody has a queue. -/
theorem Accounted.publish (hcrew : Crew staff id) {letter : Letter P.Route}
    (h : l.Accounted staff id total (.send letter :: extra) charges) (hm : m.Under id)
    (hletter : m.letter = letter)
    (hopen : l.engine.network.Open (staff.map (·.binding))) :
    { l with engine := { l.engine with network := l.engine.network.publish m } }.Accounted staff id
      total extra charges := by
  subst hletter
  have hgains := Network.gains_publish h.orderly hopen hcrew.distinct hm
  obtain ⟨hsubscribes, hreceives⟩ := Engine.failures_publish l.engine.network m
  exact
    { plain := h.plain
      stopped := h.stopped
      ready := h.ready.congr rfl (h.ready.clear.congr rfl hsubscribes hreceives)
      inHand := h.inHand.congr rfl
      orderly := hgains.orderly
      posted := fun r hr => (h.posted r hr).mono hgains.has
      tasks := h.tasks
      valid := fun c hc => (h.valid c hc).mono rfl hgains.has
      apart := h.apart
      underway := .inl (hopen.mono hgains.has)
      balanced := by
        classical
        have hpaired : Balanced staff id (l.engine.invocations ++ charges.flatMap (·.invocations))
            (.send m.letter :: ((l.jobs staff ++ extra) ++ charges.flatMap (·.jobs))) total :=
          h.balanced.perm (.refl _) (List.perm_middle.append_right _)
        refine hpaired.send.perm (.refl _) (List.perm_iff_count.mpr fun y => ?_)
        have hjobs := hgains.jobs.count_eq y
        simp only [Live.jobs, List.count_append] at hjobs ⊢
        omega }

/-! ## The whole run -/

section
variable {l l' : Live P κ (Except PublisherError Unit)}

/-- One client starts the group and publishes a message, and everything that is to be done is
accounted for. -/
structure Underway (publisher : Publisher P.Route κ) (staff : List (Subscriber P κ)) (id : String)
    (total : List (Invocation P)) (m : Message P.Route)
    (l : Live P κ (Except PublisherError Unit)) : Prop where
  client : ∃ c letters charges, l.clients = [c] ∧
    Stage publisher m staff.length id l c.program letters ∧
    l.Accounted staff id total (letters.map .send) charges

/-- The client goes on as its program says. -/
theorem Accounted.goesOn {c : Client P κ (Except PublisherError Unit)}
    {q : Program (Calling P.Route κ) (Except PublisherError Unit)}
    (h : l.Accounted staff id total (letters.map .send) charges) (hclients : l.clients = [c])
    (hstage : Stage publisher m staff.length id l q letters) :
    { l with clients := l.clients.modify 0 ({ · with program := q }) }.Underway publisher staff id
      total m := by
  refine ⟨⟨{ c with program := q }, letters, charges, ?_, ?_, h.congr rfl rfl rfl rfl rfl⟩⟩
  · show l.clients.modify 0 _ = _
    rw [hclients]
    rfl
  · exact hstage.mono rfl rfl fun d r hr => ⟨r, hr, rfl, fun h => h⟩

theorem exists_answer_of_stepClient {c : Client P κ (Except PublisherError Unit)}
    (hclients : l.clients = [c])
    {op : Calling.Op P.Route κ}
    {next : Calling.Answer op → Program (Calling P.Route κ) (Except PublisherError Unit)}
    (hprogram : c.program = .call op next)
    (hawake : ∀ ms, op ≠ .publishing (.ambient (.sleep ms))) {i : Nat}
    (hstep : l.stepClient i = some l') :
    ∃ answer l₁, l.answer 0 op = some (answer, l₁) ∧ l' = { l₁ with
      clients := l₁.clients.modify 0 ({ · with program := next answer }) } := by
  obtain ⟨c', hc', hstep⟩ := Option.bind_eq_some_iff.mp hstep
  rw [hclients] at hc'
  obtain ⟨rfl, rfl⟩ : i = 0 ∧ c' = c := by
    cases i with
    | zero => exact ⟨rfl, (Option.some.inj hc').symm⟩
    | succ i => cases hc'
  split at hstep
  · cases hstep
  · split at hstep
    · rename_i hdone
      rw [hprogram] at hdone
      cases hdone
    · rename_i ms next' hsleeping
      rw [hprogram] at hsleeping
      cases hsleeping
      exact absurd rfl (hawake ms)
    · rename_i op' next' _ hcalled
      rw [hprogram] at hcalled
      cases hcalled
      obtain ⟨⟨answer, l₁⟩, hanswer, rfl⟩ := Option.map_eq_some_iff.mp hstep
      exact ⟨answer, l₁, hanswer, rfl⟩

/-- Whatever the client does next. -/
theorem Underway.stepClient (hcrew : Crew staff id) (hplain : publisher.middlewares = [])
    (hm : m.Under id) (h : l.Underway publisher staff id total m) {i : Nat}
    (hstep : l.stepClient i = some l') : l'.Underway publisher staff id total m := by
  obtain ⟨⟨wakeAt, p, registered, abandoned⟩, letters, charges, hclients, hstage, h⟩ := h
  have hgoes {l₁ : Live P κ (Except PublisherError Unit)} {letters : List (Letter P.Route)}
      {q : Program (Calling P.Route κ) (Except PublisherError Unit)}
      (hsame : l₁.clients = l.clients)
      (hstage : Stage publisher m staff.length id l₁ q letters)
      (h : l₁.Accounted staff id total (letters.map .send) charges) :=
    h.goesOn (hsame.trans hclients) hstage
  have hcases {op : Calling.Op P.Route κ}
      {next : Calling.Answer op → Program (Calling P.Route κ) (Except PublisherError Unit)}
      (hprogram : p = .call op next) (hawake : ∀ ms, op ≠ .publishing (.ambient (.sleep ms))) :=
    exists_answer_of_stepClient hclients hprogram hawake hstep
  cases hstage with
  | acquire hreceivers hrunning =>
    obtain ⟨answer, l₁, hanswer, rfl⟩ := hcases rfl (by simp)
    simp only [Live.answer] at hanswer
    split at hanswer
    · cases hanswer
    · cases hanswer
      exact hgoes rfl (.connect hreceivers hrunning) (h.congr rfl rfl rfl rfl rfl)
  | connect hreceivers hrunning =>
    obtain ⟨answer, l₁, hanswer, rfl⟩ := hcases rfl (by simp)
    obtain ⟨rfl, h₁, hsame, hkept, hstill⟩ := h.connect hanswer
    exact hgoes hsame (.dispatch (hkept.trans hreceivers) (hstill.trans hrunning)) h₁
  | dispatch hreceivers hrunning =>
    obtain ⟨answer, l₁, hanswer, rfl⟩ := hcases rfl (by simp)
    obtain ⟨h₁, hsame, hserved⟩ := h.dispatchAll hcrew hrunning hanswer
    exact hgoes hsame hserved.awaiting h₁
  | @await d ds hserved =>
    obtain ⟨answer, l₁, hanswer, rfl⟩ := hcases rfl (by simp)
    obtain ⟨rfl, hattempted⟩ := h.attempted hanswer
    exact hgoes rfl (hserved.attempted hattempted).awaiting h
  | release hserved =>
    obtain ⟨answer, l₁, hanswer, rfl⟩ := hcases rfl (by simp)
    cases hanswer
    obtain ⟨next, hpublish, hnext⟩ := Calling.publish_eq hplain m
    rw [hpublish]
    exact hgoes rfl (.draw hserved hnext) (h.congr rfl rfl rfl rfl rfl)
  | draw hserved hnext =>
    obtain ⟨answer, l₁, hanswer, rfl⟩ := hcases rfl (by simp)
    obtain ⟨hgenuine, h₁, hsame, hkept⟩ := h.draw hanswer
    obtain ⟨next', hdated, hfated⟩ := hnext answer
    have hserved₁ : l₁.Served staff.length [] :=
      hserved.mono fun d r hr => ⟨r, hkept ▸ hr, rfl, fun h => h⟩
    rw [hdated]
    exact hgoes hsame (.date hserved₁ (fun now => hm.complete hgenuine now) hfated) h₁
  | date hserved hfresh hnext =>
    obtain ⟨answer, l₁, hanswer, rfl⟩ := hcases rfl (by simp)
    cases hanswer
    exact hgoes rfl (.fate hserved (hfresh _) rfl (hnext _)) h
  | fate hserved hm' hletter hp =>
    obtain ⟨next, hprogram, hdelivered⟩ := hp
    obtain ⟨answer, l₁, hanswer, rfl⟩ := hcases hprogram (by simp)
    obtain ⟨rfl, rfl⟩ := h.fate hanswer
    rw [hdelivered]
    exact hgoes rfl (.send hserved hm' hletter) h
  | send hserved hm' hletter =>
    obtain ⟨answer, l₁, hanswer, rfl⟩ := hcases rfl (by simp)
    cases hanswer
    have hleft : l.Accounted staff id total (.send m.letter :: []) charges := h
    exact hgoes rfl .sent (hleft.publish hcrew hm' hletter (h.open_of_served hserved))
  | sent =>
    obtain ⟨c, hc, hstep⟩ := Option.bind_eq_some_iff.mp hstep
    rw [hclients] at hc
    cases i with
    | zero =>
      cases hc
      split at hstep <;> cases hstep
    | succ i => cases hc

end

end Live
end MessageDispatch
