import MessageDispatch.Proofs.Queues
import MessageDispatch.Proofs.Unrolling

/-! The in-memory broker as a list of jobs: each message in a queue is to be handled by whoever has
the binding of that queue. -/
namespace MessageDispatch

section
variable {β γ : Type}

/-- Lists whose entries grow one by one. -/
theorem perm_flatMap_grown {l l' : List β} {f g : β → List γ} (hlength : l'.length = l.length)
    (h : ∀ (i : Nat) (c : β), l[i]? = some c → ∃ c', l'[i]? = some c' ∧ f c' = f c ++ g c) :
    (l'.flatMap f).Perm (l.flatMap f ++ l.flatMap g) := by
  induction l generalizing l' with
  | nil =>
    obtain rfl := List.eq_nil_of_length_eq_zero hlength
    exact .refl _
  | cons c l ih =>
    cases l' with
    | nil => cases hlength
    | cons c' l' =>
      obtain ⟨found, hfound, hgrown⟩ := h 0 c rfl
      obtain rfl := Option.some.inj hfound
      have hrest := ih (Nat.succ.inj hlength) fun i c hc => h (i + 1) c hc
      rw [List.flatMap_cons, List.flatMap_cons, List.flatMap_cons, hgrown, List.append_assoc,
        List.append_assoc]
      refine .append_left _ ((hrest.append_left _).trans ?_)
      rw [← List.append_assoc, ← List.append_assoc]
      exact List.perm_append_comm.append_right _

end

variable {P : Protocol}

/-- Messages in a queue, for whoever has its binding. -/
def Queue.jobs (queue : Queue P) : List (Job P) :=
  queue.waiting.map fun w => .handle queue.binding w.message.letter

theorem Queue.Grows.jobs {low high : Nat} {added : List (Message P.Route)} {queue queue' : Queue P}
    (h : queue.Grows low high added queue') :
    queue'.jobs = queue.jobs ++ added.map fun m => .handle queue.binding m.letter := by
  obtain ⟨hbinding, fresh, hwaiting, rfl, -⟩ := h
  simp [Queue.jobs, hbinding, hwaiting, Function.comp_def]

namespace Network

/-- Messages that wait in queues. -/
def jobs (n : Network P) : List (Job P) := n.queues.flatMap (·.jobs)

/-- There is one queue for a binding, for some of these, and all that waits travels under this
correlation id. -/
structure Orderly (id : String) (bindings : List P.Binding) (n : Network P) : Prop where
  waiting : ∀ queue ∈ n.queues, ∀ w ∈ queue.waiting, w.message.Under id
  known : ∀ queue ∈ n.queues, queue.binding ∈ bindings
  distinct : (n.queues.map (·.binding)).Nodup

/-- A queue of this binding. -/
def Has (n : Network P) (q : Nat) (b : P.Binding) : Prop :=
  ∃ queue, n.queues[q]? = some queue ∧ queue.binding = b

/-- Every one of these bindings has a queue. -/
def Open (bindings : List P.Binding) (n : Network P) : Prop := ∀ b ∈ bindings, ∃ q, n.Has q b

theorem Open.mono {bindings : List P.Binding} {n n' : Network P} (h : n.Open bindings)
    (hhas : ∀ q b, n.Has q b → n'.Has q b) : n'.Open bindings := by
  intro b hb
  obtain ⟨q, hq⟩ := h b hb
  exact ⟨q, hhas q b hq⟩

variable {n n' : Network P} {id : String} {bindings : List P.Binding} {m : Message P.Route}
  {q q' : Nat} {b b' : P.Binding} {added : Nat → P.Binding → List (Message P.Route)}

theorem Orderly.perm_bindings (h : n.Orderly id bindings) (hopen : n.Open bindings)
    (hdistinct : bindings.Nodup) : (n.queues.map (·.binding)).Perm bindings := by
  refine (List.perm_ext_iff_of_nodup h.distinct hdistinct).mpr fun b => ?_
  constructor
  · intro hb
    obtain ⟨queue, hqueue, rfl⟩ := List.mem_map.mp hb
    exact h.known queue hqueue
  · intro hb
    obtain ⟨q, queue, hqueue, rfl⟩ := hopen b hb
    exact List.mem_map_of_mem (List.mem_of_getElem? hqueue)

/-! ## Growing -/

theorem Grows.has (h : n.Grows added n') (hq : n.Has q b) : n'.Has q b := by
  obtain ⟨queue, hqueue, rfl⟩ := hq
  obtain ⟨queue', hqueue', hgrown⟩ := h.queues hqueue
  exact ⟨queue', hqueue', hgrown.binding⟩

theorem Grows.orderly (h : n.Grows added n') (hn : n.Orderly id bindings)
    (hadded : ∀ q b, ∀ m ∈ added q b, m.Under id) : n'.Orderly id bindings where
  waiting := by
    intro queue' hqueue' w hw
    obtain ⟨q, hq⟩ := List.mem_iff_getElem?.mp hqueue'
    have hlt : q < n.queues.length := h.length ▸ lt_length_of_getElem? hq
    obtain ⟨queue'', hqueue'', hgrown⟩ := h.queues (List.getElem?_eq_getElem hlt)
    obtain rfl := Option.some.inj (hq.symm.trans hqueue'')
    obtain ⟨-, fresh, hwaiting, hfresh, -⟩ := hgrown
    rw [hwaiting] at hw
    rcases List.mem_append.mp hw with hw | hw
    · exact hn.waiting _ (List.getElem_mem hlt) w hw
    · exact hadded q _ _ (hfresh ▸ List.mem_map_of_mem hw)
  known := by
    intro queue' hqueue'
    have hmem : queue'.binding ∈ n.queues.map (·.binding) :=
      h.bindings ▸ List.mem_map_of_mem hqueue'
    obtain ⟨queue, hqueue, hbinding⟩ := List.mem_map.mp hmem
    exact hbinding ▸ hn.known queue hqueue
  distinct := h.bindings ▸ hn.distinct

/-- A message that is published is to be handled by everybody whose queue takes it. -/
theorem jobs_publish (n : Network P) (m : Message P.Route) :
    (n.publish m).jobs.Perm (m.letter.jobs (n.queues.map (·.binding)) ++ n.jobs) := by
  have hgrows := n.grows_publish m
  have hgrown := perm_flatMap_grown (f := Queue.jobs)
    (g := fun queue : Queue P => (if P.accepts queue.binding m.route m.payload.headers then [m]
      else []).map fun m => .handle queue.binding m.letter) hgrows.length
    fun q queue hqueue => by
      obtain ⟨queue', hqueue', hgrown⟩ := hgrows.queues hqueue
      exact ⟨queue', hqueue', hgrown.jobs⟩
  refine hgrown.trans (List.perm_append_comm.trans (.append_right _ (.of_eq ?_)))
  induction n.queues with
  | nil => rfl
  | cons queue queues ih =>
    rw [List.flatMap_cons, ih, List.map_cons]
    by_cases haccepts : P.accepts queue.binding m.route m.payload.headers = true <;>
      simp [Letter.jobs, Message.letter, haccepts]

/-- A message that is handed back is to be handled once more. -/
theorem jobs_settle_nack (hq : n.Has q b) :
    (n.settle q m .nack).jobs.Perm (.handle b m.letter :: n.jobs) := by
  obtain ⟨queue, hqueue, rfl⟩ := hq
  have hbefore := perm_of_getElem? hqueue
  have hafter := perm_set_of_getElem? hqueue
  let grown : Queue P := { queue with waiting := queue.waiting ++ [⟨m, n.arrivals⟩] }
  have hjobs : (n.settle q m .nack).jobs = (n.queues.set q grown).flatMap (·.jobs) :=
    congrArg (List.flatMap Queue.jobs) (modify_eq_set hqueue)
  have hgrown : grown.jobs = queue.jobs ++ [.handle queue.binding m.letter] := List.map_append
  rw [hjobs]
  refine ((hafter grown).flatMap_right _).trans ?_
  refine .trans ?_ ((hbefore.flatMap_right Queue.jobs).symm.cons _)
  rw [List.flatMap_cons, List.flatMap_cons, hgrown]
  have hlast : (queue.jobs ++ [Job.handle queue.binding m.letter]).Perm
      ([Job.handle queue.binding m.letter] ++ queue.jobs) := List.perm_append_comm
  exact hlast.append_right _

theorem settle_eq_of_ne_nack {action : Action} (h : action ≠ .nack) :
    (n.settle q m action).queues = n.queues := by
  simp [settle, h]

/-- More jobs wait, and whatever was there is there. -/
structure Gains (id : String) (bindings : List P.Binding) (more : List (Job P))
    (n n' : Network P) : Prop where
  orderly : n'.Orderly id bindings
  has : ∀ q b, n.Has q b → n'.Has q b
  jobs : n'.jobs.Perm (more ++ n.jobs)

theorem gains_nothing (h : n.Orderly id bindings) (hqueues : n'.queues = n.queues) :
    Gains id bindings [] n n' := by
  refine ⟨⟨?_, ?_, ?_⟩, ?_, ?_⟩
  · rw [hqueues]
    exact h.waiting
  · rw [hqueues]
    exact h.known
  · rw [hqueues]
    exact h.distinct
  · intro q b hq
    rw [Has, hqueues]
    exact hq
  · rw [Network.jobs, hqueues]
    exact .refl _

theorem gains_publish (h : n.Orderly id bindings) (hopen : n.Open bindings)
    (hdistinct : bindings.Nodup) (hm : m.Under id) :
    Gains id bindings (m.letter.jobs bindings) n (n.publish m) where
  orderly := by
    refine (n.grows_publish m).orderly ⟨h.waiting, h.known, h.distinct⟩ fun q b m' hm' => ?_
    split at hm'
    · obtain rfl := List.mem_singleton.mp hm'
      exact hm
    · cases hm'
  has := fun _ _ hq => (n.grows_publish m).has hq
  jobs := (n.jobs_publish m).trans
    ((((h.perm_bindings hopen hdistinct).filter _).map _).append_right _)

theorem gains_settle (h : n.Orderly id bindings) (hq : n.Has q b) (hm : m.Under id)
    (action : Action) :
    Gains id bindings (if action = .nack then [.handle b m.letter] else []) n
      (n.settle q m action) := by
  by_cases hnack : action = .nack
  · subst hnack
    rw [if_pos rfl]
    refine ⟨(n.grows_settle q m .nack).orderly ⟨h.waiting, h.known, h.distinct⟩ ?_,
      fun _ _ hq => (n.grows_settle q m .nack).has hq, jobs_settle_nack hq⟩
    intro q' b' m' hm'
    split at hm'
    · obtain rfl := List.mem_singleton.mp hm'
      exact hm
    · cases hm'
  · rw [if_neg hnack]
    exact gains_nothing h (settle_eq_of_ne_nack hnack)

/-! ## Taking and subscribing -/

theorem of_pop (h : n.pop q = some (m, n')) (hn : n.Orderly id bindings) :
    n'.Orderly id bindings ∧ m.Under id ∧ (∀ q' b, n.Has q' b → n'.Has q' b) ∧
      n'.subscribeFailures = n.subscribeFailures ∧ n'.receiveFailures = n.receiveFailures ∧
      ∀ b, n.Has q b → n.jobs.Perm (.handle b m.letter :: n'.jobs) := by
  obtain ⟨queue, w, rest, hqueue, hwaiting, rfl, rfl⟩ := pop_eq_some_iff.mp h
  have hmem := List.mem_of_getElem? hqueue
  let shrunk : Queue P := { queue with waiting := rest }
  have hbindings : (n.queues.set q shrunk).map (·.binding) = n.queues.map (·.binding) :=
    map_set_eq hqueue rfl
  refine ⟨⟨fun queue' hqueue' v hv => ?_, fun queue' hqueue' => ?_, ?_⟩, ?_, ?_, rfl, rfl, ?_⟩
  · rcases List.mem_or_eq_of_mem_set hqueue' with hqueue' | rfl
    · exact hn.waiting queue' hqueue' v hv
    · exact hn.waiting queue hmem v (hwaiting ▸ List.mem_cons_of_mem w hv)
  · rcases List.mem_or_eq_of_mem_set hqueue' with hqueue' | rfl
    · exact hn.known queue' hqueue'
    · exact hn.known queue hmem
  · exact hbindings.symm ▸ hn.distinct
  · exact hn.waiting queue hmem w (hwaiting ▸ List.mem_cons_self)
  · rintro q' b ⟨found, hfound, rfl⟩
    by_cases hsame : q' = q
    · subst hsame
      obtain rfl := Option.some.inj (hqueue.symm.trans hfound)
      exact ⟨shrunk, (getElem?_set_iff hqueue).mpr (.inl ⟨rfl, rfl⟩), rfl⟩
    · exact ⟨found, (getElem?_set_iff hqueue).mpr (.inr ⟨hsame, hfound⟩), rfl⟩
  · rintro b ⟨found, hfound, rfl⟩
    obtain rfl := Option.some.inj (hqueue.symm.trans hfound)
    have hbefore := perm_of_getElem? hqueue
    have hafter := perm_set_of_getElem? hqueue
    have hjobs : queue.jobs = .handle queue.binding w.message.letter :: shrunk.jobs := by
      simp [Queue.jobs, shrunk, hwaiting]
    refine (hbefore.flatMap_right Queue.jobs).trans ?_
    rw [List.flatMap_cons, hjobs]
    exact ((hafter shrunk).flatMap_right Queue.jobs).symm.cons _

/-- A subscription is opened to the queue of its binding, in which nothing changes. -/
theorem of_subscribe (hclear : n.subscribeFailures = 0) (hb : b ∈ bindings)
    (hn : n.Orderly id bindings) :
    ∃ q n', n.subscribe b = (.ok q, n') ∧ n'.Orderly id bindings ∧ n'.Has q b ∧
      (∀ q' b', n.Has q' b' → n'.Has q' b') ∧
      n'.jobs = n.jobs ∧ n'.subscribeFailures = 0 ∧ n'.receiveFailures = n.receiveFailures := by
  obtain ⟨err, hopened⟩ | ⟨q, queue, hqueue, hbinding, hopened⟩ | ⟨hnew, hopened⟩ :=
    n.subscribe_cases b
  · simp only [subscribe, hclear, Nat.lt_irrefl, gt_iff_lt, if_false] at hopened
    split at hopened <;> cases hopened
  · exact ⟨q, _, hopened, ⟨hn.waiting, hn.known, hn.distinct⟩, ⟨queue, hqueue, hbinding⟩,
      fun _ _ h => h, rfl, hclear, rfl⟩
  · refine ⟨_, _, hopened, ⟨?_, ?_, ?_⟩, ⟨⟨b, []⟩, List.getElem?_concat_length, rfl⟩, ?_, ?_,
      hclear, rfl⟩
    · exact List.forall_mem_append.mpr ⟨hn.waiting, List.forall_mem_singleton.mpr (by simp)⟩
    · exact List.forall_mem_append.mpr ⟨hn.known, List.forall_mem_singleton.mpr hb⟩
    · rw [List.map_append]
      refine nodup_concat hn.distinct fun hmem => ?_
      obtain ⟨queue, hqueue, hbinding⟩ := List.mem_map.mp hmem
      exact hnew queue hqueue hbinding
    · rintro q' b' ⟨queue, hqueue, hbinding⟩
      exact ⟨queue, getElem?_concat_iff.mpr (.inl hqueue), hbinding⟩
    · simp [jobs, Queue.jobs]

end Network
end MessageDispatch
