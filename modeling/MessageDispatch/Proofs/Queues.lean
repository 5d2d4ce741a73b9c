import MessageDispatch.Network
import MessageDispatch.Proofs.Lists

/-! What the operations of the in-memory broker do to its queues. Queues grow at the end, by
messages whose arrivals are counted on, and shrink at the front; so in every queue the messages
stand in the order of their arrivals. -/
namespace MessageDispatch

/-! ## Growing -/

/-- One queue after another with messages added at its end, whose arrivals lie in a range. -/
structure Queue.Grows {P : Protocol} (low high : Nat) (added : List (Message P.Route))
    (queue queue' : Queue P) : Prop where
  binding : queue'.binding = queue.binding
  waiting : ∃ fresh, queue'.waiting = queue.waiting ++ fresh ∧ fresh.map (·.message) = added ∧
    fresh.Pairwise (·.arrival < ·.arrival) ∧ ∀ w ∈ fresh, low ≤ w.arrival ∧ w.arrival < high

/-- Nothing changes but that messages are added to queues, which ones depending on the number of
the queue and its binding. -/
structure Network.Grows {P : Protocol} (added : Nat → P.Binding → List (Message P.Route))
    (n n' : Network P) : Prop where
  published : n'.published = n.published
  settlements : n'.settlements = n.settlements
  length : n'.queues.length = n.queues.length
  arrivals : n.arrivals ≤ n'.arrivals
  queues : ∀ {q : Nat} {queue : Queue P}, n.queues[q]? = some queue →
    ∃ queue', n'.queues[q]? = some queue' ∧
      queue.Grows n.arrivals n'.arrivals (added q queue.binding) queue'

section
variable {P : Protocol} {low mid high : Nat} {added more : List (Message P.Route)}
  {queue queue' queue'' : Queue P}

theorem Queue.Grows.refl (low high : Nat) (queue : Queue P) : queue.Grows low high [] queue :=
  ⟨rfl, [], by simp⟩

theorem Queue.Grows.trans (h : queue.Grows low mid added queue')
    (h' : queue'.Grows mid high more queue'') (hlow : low ≤ mid) (hhigh : mid ≤ high) :
    queue.Grows low high (added ++ more) queue'' := by
  obtain ⟨hbinding, fresh, hwaiting, hadded, hpairwise, hrange⟩ := h
  obtain ⟨hbinding', fresh', hwaiting', hmore, hpairwise', hrange'⟩ := h'
  refine ⟨hbinding'.trans hbinding, fresh ++ fresh', ?_, ?_, ?_, ?_⟩
  · rw [hwaiting', hwaiting, List.append_assoc]
  · rw [List.map_append, hadded, hmore]
  · refine List.pairwise_append.mpr ⟨hpairwise, hpairwise', fun v hv w hw => ?_⟩
    exact Nat.lt_of_lt_of_le (hrange v hv).2 (hrange' w hw).1
  · refine List.forall_mem_append.mpr ⟨fun w hw => ?_, fun w hw => ?_⟩
    · exact ⟨(hrange w hw).1, Nat.lt_of_lt_of_le (hrange w hw).2 hhigh⟩
    · exact ⟨Nat.le_trans hlow (hrange' w hw).1, (hrange' w hw).2⟩

end

/-- The messages of a queue stand in the order of their arrivals, which lie below `high`. -/
structure Queue.Ordered {P : Protocol} (high : Nat) (queue : Queue P) : Prop where
  pairwise : queue.waiting.Pairwise (·.arrival < ·.arrival)
  bounded : ∀ w ∈ queue.waiting, w.arrival < high

theorem Queue.Grows.ordered {P : Protocol} {low high : Nat} {added : List (Message P.Route)}
    {queue queue' : Queue P} (h : queue.Grows low high added queue') (hqueue : queue.Ordered low)
    (hle : low ≤ high) : queue'.Ordered high := by
  obtain ⟨-, fresh, hwaiting, -, hpairwise, hrange⟩ := h
  refine ⟨?_, ?_⟩
  · rw [hwaiting]
    refine List.pairwise_append.mpr ⟨hqueue.pairwise, hpairwise, fun v hv w hw => ?_⟩
    exact Nat.lt_of_lt_of_le (hqueue.bounded v hv) (hrange w hw).1
  · rw [hwaiting]
    refine List.forall_mem_append.mpr ⟨fun w hw => ?_, fun w hw => (hrange w hw).2⟩
    exact Nat.lt_of_lt_of_le (hqueue.bounded w hw) hle

namespace Network

variable {P : Protocol} {n n' n'' : Network P} {q : Nat} {m : Message P.Route}
  {added more : Nat → P.Binding → List (Message P.Route)}

theorem Grows.refl (n : Network P) : n.Grows (fun _ _ => []) n :=
  ⟨rfl, rfl, rfl, Nat.le_refl _, fun h => ⟨_, h, .refl ..⟩⟩

theorem Grows.trans (h : n.Grows added n') (h' : n'.Grows more n'') :
    n.Grows (fun q b => added q b ++ more q b) n'' where
  published := h'.published.trans h.published
  settlements := h'.settlements.trans h.settlements
  length := h'.length.trans h.length
  arrivals := Nat.le_trans h.arrivals h'.arrivals
  queues := by
    intro q queue hqueue
    obtain ⟨queue', hqueue', hgrows⟩ := h.queues hqueue
    obtain ⟨queue'', hqueue'', hgrows'⟩ := h'.queues hqueue'
    rw [hgrows.binding] at hgrows'
    exact ⟨queue'', hqueue'', hgrows.trans hgrows' h.arrivals h'.arrivals⟩

/-- What is added matters for the queues that there are. -/
theorem Grows.congr (h : n.Grows added n')
    (hsame : ∀ {q : Nat} {queue : Queue P}, n.queues[q]? = some queue →
      added q queue.binding = more q queue.binding) : n.Grows more n' := by
  refine { h with queues := fun hqueue => ?_ }
  rw [← hsame hqueue]
  exact h.queues hqueue

/-- The bindings of the queues stay what they are. -/
theorem Grows.bindings (h : n.Grows added n') :
    n'.queues.map (·.binding) = n.queues.map (·.binding) := by
  refine List.ext_getElem? fun q => ?_
  rw [List.getElem?_map, List.getElem?_map]
  cases hqueue : n.queues[q]? with
  | none =>
    have hend : n'.queues.length ≤ q := h.length ▸ List.getElem?_eq_none_iff.mp hqueue
    rw [List.getElem?_eq_none hend]
  | some queue =>
    obtain ⟨queue', hqueue', hgrows⟩ := h.queues hqueue
    rw [hqueue', Option.map_some, Option.map_some, hgrows.binding]

theorem grows_enqueue (n : Network P) (q : Nat) (m : Message P.Route) :
    n.Grows (fun q' _ => if q' = q then [m] else []) (n.enqueue q m) where
  published := rfl
  settlements := rfl
  length := List.length_modify ..
  arrivals := Nat.le_succ _
  queues := by
    intro q' queue hqueue
    by_cases hq : q' = q
    · subst hq
      refine ⟨{ queue with waiting := queue.waiting ++ [⟨m, n.arrivals⟩] }, ?_, rfl,
        [⟨m, n.arrivals⟩], rfl, ?_, List.pairwise_singleton .., ?_⟩
      · simp [enqueue, hqueue]
      · rw [if_pos rfl]
        rfl
      · simp [enqueue]
    · refine ⟨queue, ?_, ?_⟩
      · simp [enqueue, hqueue, Ne.symm hq]
      · rw [if_neg hq]
        exact .refl ..

/-- A message that is delivered comes to the end of each of the queues that take it. -/
theorem grows_deliver (m : Message P.Route) {queues : List (Queue P)} {i : Nat}
    (hqueues : queues.map (·.binding) = (n.queues.map (·.binding)).drop i) :
    n.Grows (fun q b => if i ≤ q ∧ P.accepts b m.route m.payload.headers then [m] else [])
      (deliver m queues i n) := by
  induction queues generalizing i n with
  | nil =>
    have hend : n.queues.length ≤ i := by simpa using hqueues.symm
    refine (Grows.refl n).congr fun {q queue} hqueue => (if_neg fun hq => ?_).symm
    exact absurd hq.1 (Nat.not_le_of_lt (Nat.lt_of_lt_of_le (lt_length_of_getElem? hqueue) hend))
  | cons queue queues ih =>
    have hi : i < n.queues.length := by
      have hlength := congrArg List.length hqueues
      simp only [List.length_map, List.length_cons, List.length_drop] at hlength
      omega
    rw [List.drop_eq_getElem_cons (by simpa using hi)] at hqueues
    obtain ⟨hhead, hrest⟩ := List.cons.inj hqueues
    have hbinding {queue' : Queue P} (hqueue' : n.queues[i]? = some queue') :
        queue'.binding = queue.binding := by
      rw [List.getElem?_eq_getElem hi] at hqueue'
      rw [← Option.some.inj hqueue']
      exact (hhead.trans (List.getElem_map _)).symm
    -- the queue at `i` takes the message or not, and what is left is for the queues after it
    have hfirst : n.Grows
        (fun q b => if q = i ∧ P.accepts b m.route m.payload.headers then [m] else [])
        (if P.accepts queue.binding m.route m.payload.headers then n.enqueue i m else n) := by
      split
      · rename_i haccepts
        refine (grows_enqueue n i m).congr fun {q queue'} hqueue' => ?_
        by_cases hq : q = i
        · subst hq
          simp [hbinding hqueue', haccepts]
        · simp [hq]
      · rename_i hrefuses
        refine (Grows.refl n).congr fun {q queue'} hqueue' => (if_neg fun h => ?_).symm
        obtain ⟨rfl, haccepts⟩ := h
        exact hrefuses (hbinding hqueue' ▸ haccepts)
    refine (hfirst.trans (ih ?_)).congr fun {q queue'} _ => ?_
    · rw [hrest, hfirst.bindings]
    · rcases Nat.lt_trichotomy q i with hlt | rfl | hgt
      · simp [Nat.not_le_of_lt hlt, Nat.ne_of_lt hlt, Nat.not_le_of_lt (Nat.lt_succ_of_lt hlt)]
      · have hpast : ¬ (q + 1 ≤ q ∧ P.accepts queue'.binding m.route m.payload.headers) :=
          fun h => Nat.not_succ_le_self q h.1
        rw [if_neg hpast, List.append_nil]
        simp
      · simp [Nat.ne_of_gt hgt, Nat.le_of_lt hgt, Nat.succ_le_of_lt hgt]

theorem grows_publish (n : Network P) (m : Message P.Route) :
    { n with published := n.published ++ [m] }.Grows
      (fun _ b => if P.accepts b m.route m.payload.headers then [m] else []) (n.publish m) :=
  (grows_deliver m (List.drop_zero ..).symm).congr fun _ => by simp

/-- Whoever is waiting gets a placeholder to look at. -/
theorem grows_failReceives (n : Network P) (count : Nat) :
    { n with receiveFailures := n.receiveFailures + count }.Grows (fun _ _ => [wakeup])
      (n.failReceives count) := by
  have hfirst (k : Nat) : { n with receiveFailures := n.receiveFailures + count }.Grows
      (fun q _ => if q < k then [wakeup] else [])
      ((List.range k).foldl (fun n q => n.enqueue q wakeup)
        { n with receiveFailures := n.receiveFailures + count }) := by
    induction k with
    | zero => exact (Grows.refl _).congr fun _ => by simp
    | succ k ih =>
      rw [List.range_succ, List.foldl_append]
      refine (ih.trans (grows_enqueue _ k wakeup)).congr fun {q queue} _ => ?_
      rcases Nat.lt_trichotomy q k with hlt | rfl | hgt
      · simp [hlt, Nat.ne_of_lt hlt, Nat.lt_succ_of_lt hlt]
      · simp
      · simp [Nat.ne_of_gt hgt, Nat.not_lt_of_gt hgt, Nat.not_lt_of_le (Nat.succ_le_of_lt hgt)]
  exact (hfirst n.queues.length).congr fun hqueue => if_pos (lt_length_of_getElem? hqueue)

/-- A nacked message comes back to the end of its queue. -/
theorem grows_settle (n : Network P) (q : Nat) (m : Message P.Route) (action : Action) :
    Grows (fun q' _ => if action = .nack ∧ q' = q then [m] else [])
      { n with settlements := n.settlements ++ [⟨m.idText, action⟩] } (n.settle q m action) := by
  unfold settle
  dsimp only
  split
  · rename_i hnack
    exact (grows_enqueue _ q m).congr fun _ => by simp [hnack]
  · rename_i hnack
    exact (Grows.refl _).congr fun _ => by simp [hnack]

/-! ## Taking -/

theorem pop_eq_some_iff :
    n.pop q = some (m, n') ↔ ∃ queue w rest, n.queues[q]? = some queue ∧ queue.waiting = w :: rest ∧
      w.message = m ∧ n' = { n with queues := n.queues.set q { queue with waiting := rest } } := by
  unfold pop front?
  cases hqueue : n.queues[q]? with
  | none => simp
  | some queue =>
    cases hwaiting : queue.waiting with
    | nil => simp [hwaiting]
    | cons w rest =>
      rw [modify_eq_set hqueue]
      simp only [Option.bind_some, hwaiting, List.head?_cons, Option.map_some, List.tail_cons,
        Option.some.injEq, Prod.mk.injEq]
      constructor
      · rintro ⟨rfl, rfl⟩
        exact ⟨queue, w, rest, rfl, hwaiting, rfl, rfl⟩
      · rintro ⟨_, v, rest', rfl, hwaiting', rfl, rfl⟩
        obtain ⟨rfl, rfl⟩ := List.cons.inj (hwaiting.symm.trans hwaiting')
        exact ⟨rfl, rfl⟩

/-! ## Subscribing -/

/-- A subscription that is opened is one to the queue of its binding, which is made if there was
none. -/
theorem subscribe_cases (n : Network P) (b : P.Binding) :
    (∃ err, n.subscribe b = (.error err, { n with subscribeFailures := n.subscribeFailures - 1 })) ∨
    (∃ q queue, n.queues[q]? = some queue ∧ queue.binding = b ∧
      n.subscribe b = (.ok q, { n with subscriptions := n.subscriptions + 1 })) ∨
    ((∀ queue ∈ n.queues, queue.binding ≠ b) ∧
      n.subscribe b = (.ok n.queues.length,
        { n with subscriptions := n.subscriptions + 1, queues := n.queues ++ [⟨b, []⟩] })) := by
  unfold subscribe
  split
  · exact .inl ⟨_, rfl⟩
  · right
    dsimp only
    cases hfind : find? { n with subscriptions := n.subscriptions + 1 } b with
    | some q =>
      obtain ⟨hq, hbinding, -⟩ := List.findIdx?_eq_some_iff_getElem.mp hfind
      exact .inl ⟨q, n.queues[q], List.getElem?_eq_getElem hq, by simpa using hbinding, rfl⟩
    | none =>
      refine .inr ⟨fun queue hqueue => ?_, rfl⟩
      simpa using List.findIdx?_eq_none_iff.mp hfind queue hqueue

/-! ## Order -/

/-- There is one queue for a binding, its messages stand in the order of their arrivals, and those
with the id of a placeholder are placeholders. -/
structure Tidy (n : Network P) : Prop where
  distinct : (n.queues.map (·.binding)).Nodup
  ordered : ∀ queue ∈ n.queues, queue.Ordered n.arrivals
  placeholders : ∀ queue ∈ n.queues, ∀ w ∈ queue.waiting, isWakeup w.message = true →
    w.message = wakeup

theorem tidy_empty : (empty : Network P).Tidy :=
  ⟨.nil, nofun, nofun⟩

theorem Tidy.congr (h : n.Tidy) (hqueues : n'.queues = n.queues)
    (harrivals : n'.arrivals = n.arrivals) : n'.Tidy := by
  refine ⟨?_, ?_, ?_⟩ <;> rw [hqueues]
  · exact h.distinct
  · rw [harrivals]
    exact h.ordered
  · exact h.placeholders

theorem Grows.tidy (h : n.Grows added n') (hn : n.Tidy)
    (hadded : ∀ q b, ∀ m ∈ added q b, isWakeup m = true → m = wakeup) : n'.Tidy := by
  -- every queue has grown from one that was there before
  have hold : ∀ queue' ∈ n'.queues, ∃ (q : Nat) (queue : Queue P), queue ∈ n.queues ∧
      queue.Grows n.arrivals n'.arrivals (added q queue.binding) queue' := by
    intro queue' hqueue'
    obtain ⟨q, hq⟩ := List.mem_iff_getElem?.mp hqueue'
    have hlt : q < n.queues.length := h.length ▸ lt_length_of_getElem? hq
    obtain ⟨queue'', hqueue'', hgrows⟩ := h.queues (List.getElem?_eq_getElem hlt)
    obtain rfl := Option.some.inj (hq.symm.trans hqueue'')
    exact ⟨q, _, List.getElem_mem hlt, hgrows⟩
  refine ⟨h.bindings ▸ hn.distinct, fun queue' hqueue' => ?_, fun queue' hqueue' w hw hwakeup => ?_⟩
  · obtain ⟨q, queue, hqueue, hgrows⟩ := hold queue' hqueue'
    exact hgrows.ordered (hn.ordered queue hqueue) h.arrivals
  · obtain ⟨q, queue, hqueue, -, fresh, hwaiting, hfresh, -⟩ := hold queue' hqueue'
    rw [hwaiting] at hw
    rcases List.mem_append.mp hw with hw | hw
    · exact hn.placeholders queue hqueue w hw hwakeup
    · exact hadded q queue.binding _ (hfresh ▸ List.mem_map_of_mem hw) hwakeup

theorem tidy_pop (h : n.pop q = some (m, n')) (hn : n.Tidy) : n'.Tidy := by
  obtain ⟨queue, w, rest, hqueue, hwaiting, -, rfl⟩ := pop_eq_some_iff.mp h
  have hmem := List.mem_of_getElem? hqueue
  refine ⟨?_, fun queue' hqueue' => ?_, fun queue' hqueue' v hv => ?_⟩
  · have hsame : (n.queues.set q { queue with waiting := rest }).map (·.binding) =
        n.queues.map (·.binding) := map_set_eq hqueue rfl
    exact hsame.symm ▸ hn.distinct
  · rcases List.mem_or_eq_of_mem_set hqueue' with hqueue' | rfl
    · exact hn.ordered queue' hqueue'
    · obtain ⟨hpairwise, hbounded⟩ := hn.ordered queue hmem
      rw [hwaiting] at hpairwise hbounded
      exact ⟨(List.pairwise_cons.mp hpairwise).2, (List.forall_mem_cons.mp hbounded).2⟩
  · rcases List.mem_or_eq_of_mem_set hqueue' with hqueue' | rfl
    · exact hn.placeholders queue' hqueue' v hv
    · exact hn.placeholders queue hmem v (hwaiting ▸ List.mem_cons_of_mem w hv)

theorem tidy_subscribe (hn : n.Tidy) (b : P.Binding) : (n.subscribe b).2.Tidy := by
  obtain ⟨err, h⟩ | ⟨q, queue, -, -, h⟩ | ⟨hnew, h⟩ := n.subscribe_cases b
  · rw [h]
    exact hn.congr rfl rfl
  · rw [h]
    exact hn.congr rfl rfl
  · rw [h]
    refine ⟨?_, ?_, ?_⟩
    · rw [List.map_append]
      refine nodup_concat hn.distinct fun hmem => ?_
      obtain ⟨queue, hqueue, hb⟩ := List.mem_map.mp hmem
      exact hnew queue hqueue hb
    · refine List.forall_mem_append.mpr ⟨hn.ordered, ?_⟩
      exact List.forall_mem_singleton.mpr ⟨.nil, nofun⟩
    · refine List.forall_mem_append.mpr ⟨hn.placeholders, ?_⟩
      exact List.forall_mem_singleton.mpr nofun

end Network
end MessageDispatch
