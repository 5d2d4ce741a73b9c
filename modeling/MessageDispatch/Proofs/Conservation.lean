import MessageDispatch.Proofs.Queues
import MessageDispatch.Protocol.Nats

/-! The in-memory broker with all who use it at the same time: subscriptions that receive from its
queues, several of them from one queue and each to be given up while it waits, and ackers of which
everyone has a clone. What a queue was sent is always in the queue, in somebody's hands, acked or
rejected; nothing gets lost on the way, and nothing is there twice. -/
namespace MessageDispatch

/-! ## The broker and its users -/

/-- How far a subscription has got with receiving. -/
inductive Reader.Stage where
  | idle
  /-- It is yet to look for a failure. -/
  | begun
  | waiting

/-- A subscription that was opened. -/
structure Reader where
  queue : Nat
  stage : Reader.Stage

/-- A message that was received. All clones of its acker share one state. -/
structure Handout (P : Protocol) where
  queue : Nat
  message : Message P.Route
  acker : Acker
  /-- What the broker was told about it. -/
  told : Option Action

structure Traffic (P : Protocol) where
  network : Network P
  readers : List Reader
  handouts : List (Handout P)
  /-- How many messages had been published when each of the queues was made. -/
  births : List Nat

inductive Traffic.Event (P : Protocol) where
  | subscribe (b : P.Binding)
  | publish (m : Message P.Route)
  | failSubscriptions (count : Nat)
  | failReceives (count : Nat)
  /-- A subscription is asked for a message. -/
  | begin (reader : Nat)
  /-- It looks for a failure before it waits. -/
  | check (reader : Nat)
  /-- It takes the next message of its queue, and goes on if that is a placeholder. -/
  | take (reader : Nat)
  /-- A reception is given up. -/
  | cancel (reader : Nat)
  /-- One of the clones of an acker is told to settle the message. -/
  | claim (handout : Nat) (action : Action)
  /-- The clone that has claimed the message tells the broker. -/
  | tell (handout : Nat)

/-- A message that is published does not have the id that placeholders have. -/
def Traffic.Event.Genuine {P : Protocol} : Event P → Prop
  | .publish m => Network.isWakeup m = false
  | _ => True

namespace Traffic

variable {P : Protocol}

def start : Traffic P := ⟨.empty, [], [], []⟩

/-- A subscription gets to a stage. -/
def put (s : Traffic P) (i : Nat) (r : Reader) (stage : Reader.Stage) : Traffic P :=
  { s with readers := s.readers.set i { r with stage := stage } }

def subscribe (s : Traffic P) (b : P.Binding) : Traffic P :=
  let (opened, network) := s.network.subscribe b
  { s with
    network := network
    readers :=
      match opened with
      | .ok q => s.readers ++ [⟨q, .idle⟩]
      | .error _ => s.readers
    births :=
      if s.births.length < network.queues.length then s.births ++ [s.network.published.length]
      else s.births }

def check (s : Traffic P) (i : Nat) (r : Reader) : Traffic P :=
  match s.network.takeFailure with
  | some network => { s with network := network }.put i r .idle
  | none => s.put i r .waiting

def take (s : Traffic P) (i : Nat) (r : Reader) : Option (Traffic P) :=
  (s.network.pop r.queue).map fun (m, network) =>
    let s := { s with network := network }
    if Network.isWakeup m then s.put i r .begun
    else { s.put i r .idle with handouts := s.handouts ++ [⟨r.queue, m, .ofBackend true, none⟩] }

def claim (s : Traffic P) (i : Nat) (h : Handout P) (action : Action) : Traffic P :=
  match h.acker.claim? action with
  | some acker => { s with handouts := s.handouts.set i { h with acker := acker } }
  | none => s

def tell (s : Traffic P) (i : Nat) (h : Handout P) : Option (Traffic P) :=
  match h.acker.settlement, h.told with
  | some action, none =>
    some { s with
      network := s.network.settle h.queue h.message action
      handouts := s.handouts.set i { h with told := some action } }
  | _, _ => none

def step (s : Traffic P) : Event P → Option (Traffic P)
  | .subscribe b => some (s.subscribe b)
  | .publish m => some { s with network := s.network.publish m }
  | .failSubscriptions count =>
    some { s with network.subscribeFailures := s.network.subscribeFailures + count }
  | .failReceives count => some { s with network := s.network.failReceives count }
  | .begin i =>
    (s.readers[i]?).bind fun r =>
      match r.stage with
      | .idle => some (s.put i r .begun)
      | _ => none
  | .check i =>
    (s.readers[i]?).bind fun r =>
      match r.stage with
      | .begun => some (s.check i r)
      | _ => none
  | .take i =>
    (s.readers[i]?).bind fun r =>
      match r.stage with
      | .waiting => s.take i r
      | _ => none
  | .cancel i => (s.readers[i]?).map fun r => s.put i r .idle
  | .claim i action => (s.handouts[i]?).map fun h => s.claim i h action
  | .tell i => (s.handouts[i]?).bind fun h => s.tell i h

def run (s : Traffic P) : List (Event P) → Option (Traffic P)
  | [] => some s
  | ev :: rest => (s.step ev).bind (·.run rest)

/-- What any use of a broker has come to so far. -/
def Reachable (s : Traffic P) : Prop :=
  ∃ evs, (∀ ev ∈ evs, Event.Genuine ev) ∧ start.run evs = some s

end Traffic

/-! ## Where messages are -/

namespace Queue

variable {P : Protocol} (queue : Queue P)

/-- The messages waiting in a queue, placeholders left out. -/
def genuine : List (Message P.Route) :=
  (queue.waiting.map (·.message)).filter fun m => !Network.isWakeup m

/-- Those of some messages that belong into a queue. -/
def due (ms : List (Message P.Route)) : List (Message P.Route) :=
  ms.filter fun m => P.accepts queue.binding m.route m.payload.headers

variable {queue}

theorem Grows.genuine {queue' : Queue P} {low high : Nat} {added : List (Message P.Route)}
    (h : queue.Grows low high added queue') :
    queue'.genuine = queue.genuine ++ added.filter fun m => !Network.isWakeup m := by
  obtain ⟨-, fresh, hwaiting, hadded, -⟩ := h
  rw [Queue.genuine, hwaiting, List.map_append, List.filter_append, hadded, Queue.genuine]

theorem due_congr {queue' : Queue P} (h : queue'.binding = queue.binding)
    (ms : List (Message P.Route)) : queue'.due ms = queue.due ms := by
  rw [due, due, h]

end Queue

namespace Handout

variable {P : Protocol}

/-- The message, if it came from this queue and did not go back to it. -/
def kept? (q : Nat) (h : Handout P) : Option (Message P.Route) :=
  if h.queue = q ∧ h.told ≠ some .nack then some h.message else none

/-- What is on record about it. -/
def record? (h : Handout P) : Option Settlement :=
  h.told.map (⟨h.message.idText, ·⟩)

/-- The messages received from a queue about which the broker was told this, if anything. -/
def received (handouts : List (Handout P)) (q : Nat) (told : Option Action) :
    List (Message P.Route) :=
  (handouts.filter fun h => h.queue == q && h.told == told).map (·.message)

end Handout

namespace Traffic

variable {P : Protocol}

/-- Nothing of what a queue was sent is lost, and nothing is there twice. -/
def Balanced (s : Traffic P) : Prop :=
  ∀ {q : Nat} {queue : Queue P} {born : Nat}, s.network.queues[q]? = some queue →
    s.births[q]? = some born →
    (queue.due (s.network.published.drop born)).Perm
      (queue.genuine ++ s.handouts.filterMap (Handout.kept? q))

/-- What holds whatever the broker is used for. -/
structure Sound (s : Traffic P) : Prop where
  tidy : s.network.Tidy
  born : s.births.length = s.network.queues.length
  born_le : ∀ born ∈ s.births, born ≤ s.network.published.length
  from_queue : ∀ h ∈ s.handouts, h.queue < s.network.queues.length
  genuine : ∀ h ∈ s.handouts, Network.isWakeup h.message = false
  claimed : ∀ h ∈ s.handouts, ∀ action, h.told = some action → h.acker.settlement = some action
  balanced : s.Balanced
  recorded : s.network.settlements.Perm (s.handouts.filterMap Handout.record?)

variable {s s' : Traffic P} {q i : Nat} {h : Handout P} {m : Message P.Route} {r : Reader}
  {added : Nat → P.Binding → List (Message P.Route)} {n : Network P}

theorem sound_start : (start : Traffic P).Sound where
  tidy := Network.tidy_empty
  born := rfl
  born_le := List.forall_mem_nil _
  from_queue := List.forall_mem_nil _
  genuine := List.forall_mem_nil _
  claimed := List.forall_mem_nil _
  balanced := by simp [Balanced, start, Network.empty]
  recorded := .nil

/-! ## One step -/

/-- Nothing changes but subscriptions, and failures that are still to come. -/
structure Still (s s' : Traffic P) : Prop where
  queues : s'.network.queues = s.network.queues
  arrivals : s'.network.arrivals = s.network.arrivals
  published : s'.network.published = s.network.published
  settlements : s'.network.settlements = s.network.settlements
  births : s'.births = s.births
  handouts : s'.handouts = s.handouts

theorem Sound.still (hs : s.Sound) (h : s.Still s') : s'.Sound where
  tidy := hs.tidy.congr h.queues h.arrivals
  born := by
    rw [h.births, h.queues]
    exact hs.born
  born_le := by
    rw [h.births, h.published]
    exact hs.born_le
  from_queue := by
    rw [h.handouts, h.queues]
    exact hs.from_queue
  genuine := h.handouts ▸ hs.genuine
  claimed := h.handouts ▸ hs.claimed
  balanced := by
    intro q queue born hqueue hborn
    rw [h.queues] at hqueue
    rw [h.births] at hborn
    rw [h.published, h.handouts]
    exact hs.balanced hqueue hborn
  recorded := by
    rw [h.settlements, h.handouts]
    exact hs.recorded

theorem still_put (s : Traffic P) (i : Nat) (r : Reader) (stage : Reader.Stage) :
    s.Still (s.put i r stage) :=
  ⟨rfl, rfl, rfl, rfl, rfl, rfl⟩

theorem still_check (s : Traffic P) (i : Nat) (r : Reader) : s.Still (s.check i r) := by
  unfold check Network.takeFailure
  split
  · rename_i network hfailure
    split at hfailure
    · obtain rfl := Option.some.inj hfailure
      exact ⟨rfl, rfl, rfl, rfl, rfl, rfl⟩
    · cases hfailure
  · exact s.still_put i r .waiting

theorem Sound.subscribe (hs : s.Sound) (b : P.Binding) : (s.subscribe b).Sound := by
  have hborn : ¬s.births.length < s.network.queues.length := by
    rw [hs.born]
    exact Nat.lt_irrefl _
  obtain ⟨err, hopened⟩ | ⟨q, queue, -, -, hopened⟩ | ⟨hnew, hopened⟩ := s.network.subscribe_cases b
  · simp only [Traffic.subscribe, hopened, if_neg hborn]
    exact hs.still ⟨rfl, rfl, rfl, rfl, rfl, rfl⟩
  · simp only [Traffic.subscribe, hopened, if_neg hborn]
    exact hs.still ⟨rfl, rfl, rfl, rfl, rfl, rfl⟩
  · have htidy := Network.tidy_subscribe hs.tidy b
    have hlength : s.births.length < (s.network.queues ++ [(⟨b, []⟩ : Queue P)]).length := by
      rw [hs.born, List.length_append]
      exact Nat.lt_succ_self _
    rw [hopened] at htidy
    simp only [Traffic.subscribe, hopened, if_pos hlength]
    refine {
      tidy := htidy
      born := by simp [hs.born]
      born_le := List.forall_mem_append.mpr ⟨hs.born_le, by simp⟩
      from_queue := fun h hh => Nat.lt_of_lt_of_le (hs.from_queue h hh) (by simp)
      genuine := hs.genuine
      claimed := hs.claimed
      balanced := ?_
      recorded := hs.recorded }
    intro q queue born hqueue hborn
    dsimp only at hqueue hborn ⊢
    rcases getElem?_concat_iff.mp hqueue with hold | ⟨rfl, rfl⟩
    · rw [List.getElem?_append_left (hs.born ▸ lt_length_of_getElem? hold)] at hborn
      exact hs.balanced hold hborn
    · -- nothing was sent to a new queue, and nothing came from it
      rw [← hs.born, List.getElem?_concat_length] at hborn
      obtain rfl := Option.some.inj hborn
      have hnone : s.handouts.filterMap (Handout.kept? s.network.queues.length) = [] := by
        refine List.filterMap_eq_nil_iff.mpr fun h hh => if_neg fun hkept => ?_
        exact Nat.lt_irrefl _ (hkept.1 ▸ hs.from_queue h hh)
      simp [hnone, Queue.due, Queue.genuine]

/-- Messages are published, and queues grow by what is due to them or comes back to them. -/
structure Flow (n : Network P) (sent : List (Message P.Route))
    (added : Nat → P.Binding → List (Message P.Route)) (s s' : Traffic P) : Prop where
  queues : n.queues = s.network.queues
  arrivals : n.arrivals = s.network.arrivals
  published : n.published = s.network.published ++ sent
  grows : Network.Grows added n s'.network
  births : s'.births = s.births
  handouts : ∀ h' ∈ s'.handouts, ∃ h ∈ s.handouts, h'.queue = h.queue ∧ h'.message = h.message
  placeholders : ∀ q b, ∀ m ∈ added q b, Network.isWakeup m = true → m = Network.wakeup
  balance : ∀ q b, ((sent.filter fun m => P.accepts b m.route m.payload.headers) ++
      s.handouts.filterMap (Handout.kept? q)).Perm
    (((added q b).filter fun m => !Network.isWakeup m) ++ s'.handouts.filterMap (Handout.kept? q))

theorem Sound.flow (hs : s.Sound) {sent : List (Message P.Route)} (h : Flow n sent added s s')
    (hclaimed : ∀ h ∈ s'.handouts, ∀ action, h.told = some action →
      h.acker.settlement = some action)
    (hrecorded : s'.network.settlements.Perm (s'.handouts.filterMap Handout.record?)) :
    s'.Sound where
  tidy := h.grows.tidy (hs.tidy.congr h.queues h.arrivals) h.placeholders
  born := by rw [h.births, hs.born, h.grows.length, h.queues]
  born_le := by
    intro born hborn
    rw [h.grows.published, h.published, List.length_append]
    exact Nat.le_add_right_of_le (hs.born_le born (h.births ▸ hborn))
  from_queue := by
    intro d' hd'
    obtain ⟨d, hd, hqueue, -⟩ := h.handouts d' hd'
    rw [hqueue, h.grows.length, h.queues]
    exact hs.from_queue d hd
  genuine := by
    intro d' hd'
    obtain ⟨d, hd, -, hmessage⟩ := h.handouts d' hd'
    exact hmessage ▸ hs.genuine d hd
  claimed := hclaimed
  balanced := by
    intro q queue' born hqueue' hborn
    have hq : q < n.queues.length := h.grows.length ▸ lt_length_of_getElem? hqueue'
    obtain ⟨queue'', hqueue'', hgrown⟩ := h.grows.queues (List.getElem?_eq_getElem hq)
    obtain rfl := Option.some.inj (hqueue'.symm.trans hqueue'')
    have hqueue : s.network.queues[q]? = some n.queues[q] := by
      rw [← h.queues]
      exact List.getElem?_eq_getElem hq
    rw [h.births] at hborn
    have hle := hs.born_le born (List.mem_of_getElem? hborn)
    rw [h.grows.published, h.published, List.drop_append_of_le_length hle,
      Queue.due_congr hgrown.binding, Queue.due, List.filter_append, hgrown.genuine,
      List.append_assoc]
    refine ((hs.balanced hqueue hborn).append_right _).trans ?_
    rw [List.append_assoc]
    exact (List.perm_append_comm.trans (h.balance q _)).append_left _
  recorded := hrecorded

theorem Sound.publish (hs : s.Sound) (hm : Network.isWakeup m = false) :
    { s with network := s.network.publish m }.Sound := by
  have hgrows := s.network.grows_publish m
  have hflow : Flow { s.network with published := s.network.published ++ [m] } [m]
      (fun _ b => if P.accepts b m.route m.payload.headers then [m] else []) s
      { s with network := s.network.publish m } := {
    queues := rfl
    arrivals := rfl
    published := rfl
    grows := hgrows
    births := rfl
    handouts := fun h hh => ⟨h, hh, rfl, rfl⟩
    placeholders := by
      intro q b m' hm' hwakeup
      split at hm'
      · obtain rfl := List.mem_singleton.mp hm'
        exact absurd hwakeup (by simp [hm])
      · cases hm'
    balance := by
      intro q b
      refine .of_eq (congrArg (· ++ _) ?_)
      cases haccepts : P.accepts b m.route m.payload.headers <;> simp [haccepts, hm] }
  refine hs.flow hflow hs.claimed ?_
  rw [hgrows.settlements]
  exact hs.recorded

theorem Sound.failReceives (hs : s.Sound) (count : Nat) :
    { s with network := s.network.failReceives count }.Sound := by
  have hgrows := s.network.grows_failReceives count
  have hflow : Flow { s.network with receiveFailures := s.network.receiveFailures + count } []
      (fun _ _ => [Network.wakeup]) s { s with network := s.network.failReceives count } := {
    queues := rfl
    arrivals := rfl
    published := (List.append_nil _).symm
    grows := hgrows
    births := rfl
    handouts := fun h hh => ⟨h, hh, rfl, rfl⟩
    placeholders := by simp
    balance := fun q b => .of_eq (by simp [Network.isWakeup, Network.wakeup]) }
  refine hs.flow hflow hs.claimed ?_
  rw [hgrows.settlements]
  exact hs.recorded

/-- The broker is told what the message was claimed for, once. -/
theorem tell_eq_some_iff : s.tell i h = some s' ↔ ∃ action, h.acker.settlement = some action ∧
    h.told = none ∧ s' = { s with
      network := s.network.settle h.queue h.message action
      handouts := s.handouts.set i { h with told := some action } } := by
  unfold tell
  cases h.acker.settlement <;> cases h.told <;> simp [eq_comm]

/-- A message that is handed back goes to the end of its queue, and any other is kept. -/
theorem Sound.tell (hs : s.Sound) (hh : s.handouts[i]? = some h) (htell : s.tell i h = some s') :
    s'.Sound := by
  obtain ⟨action, hclaim, htold, rfl⟩ := tell_eq_some_iff.mp htell
  have hgrows := s.network.grows_settle h.queue h.message action
  have hmem := List.mem_of_getElem? hh
  have hgenuine := hs.genuine h hmem
  have hbefore := perm_of_getElem? hh
  have hafter := perm_set_of_getElem? hh
  have hset := hafter { h with told := some action }
  have hflow : Flow
      { s.network with settlements := s.network.settlements ++ [⟨h.message.idText, action⟩] } []
      (fun q' _ => if action = .nack ∧ q' = h.queue then [h.message] else []) s
      { s with
        network := s.network.settle h.queue h.message action
        handouts := s.handouts.set i { h with told := some action } } := {
    queues := rfl
    arrivals := rfl
    published := (List.append_nil _).symm
    grows := hgrows
    births := rfl
    handouts := by
      intro d hd
      rcases List.mem_or_eq_of_mem_set hd with hd | rfl
      · exact ⟨d, hd, rfl, rfl⟩
      · exact ⟨h, hmem, rfl, rfl⟩
    placeholders := by
      intro q b m' hm' hwakeup
      split at hm'
      · obtain rfl := List.mem_singleton.mp hm'
        exact absurd hwakeup (by simp [hgenuine])
      · cases hm'
    -- what is handed back waits again and is kept no longer, and anything else is kept
    balance := by
      intro q b
      refine ((hbefore.filterMap _).append_left _).trans ?_
      refine .trans (.of_eq ?_) ((hset.filterMap _).append_left _).symm
      by_cases hq : h.queue = q
      · subst hq
        cases action <;> simp [Handout.kept?, htold, hgenuine]
      · simp [Handout.kept?, hq, Ne.symm hq] }
  refine hs.flow hflow ?_ ?_
  · intro d hd action' htold'
    rcases List.mem_or_eq_of_mem_set hd with hd | rfl
    · exact hs.claimed d hd action' htold'
    · exact hclaim.trans htold'
  · rw [hgrows.settlements]
    refine List.Perm.trans ?_ (hset.filterMap _).symm
    have hrecorded := hs.recorded.trans (hbefore.filterMap _)
    simp only [List.filterMap_cons, Handout.record?, htold, Option.map_none, Option.map_some]
      at hrecorded ⊢
    exact (hrecorded.append_right _).trans List.perm_append_comm

/-- Of a message that could still be claimed the broker was told nothing. -/
theorem Sound.told_of_claim? (hs : s.Sound) (hmem : h ∈ s.handouts) {action : Action}
    {acker : Acker} (hclaim : h.acker.claim? action = some acker) : h.told = none := by
  cases htold : h.told with
  | none => rfl
  | some told => simp [Acker.claim?, hs.claimed h hmem told htold] at hclaim

/-- A message that is claimed stays with whoever has it. -/
theorem Sound.claim (hs : s.Sound) (hh : s.handouts[i]? = some h) (action : Action) :
    (s.claim i h action).Sound := by
  unfold Traffic.claim
  cases hclaim : h.acker.claim? action with
  | none => exact hs
  | some acker =>
    have hmem := List.mem_of_getElem? hh
    have htold := hs.told_of_claim? hmem hclaim
    have hbefore := perm_of_getElem? hh
    have hafter := perm_set_of_getElem? hh
    have hset := hafter { h with acker := acker }
    -- of a message it only matters what the broker was told
    have hsame {β : Type} (f : Handout P → Option β) (hf : f { h with acker := acker } = f h) :
        (s.handouts.filterMap f).Perm
          ((s.handouts.set i { h with acker := acker }).filterMap f) := by
      refine (hbefore.filterMap f).trans (.trans (.of_eq ?_) (hset.filterMap f).symm)
      rw [List.filterMap_cons, List.filterMap_cons, hf]
    have hflow : Flow s.network [] (fun _ _ => []) s
        { s with handouts := s.handouts.set i { h with acker := acker } } := {
      queues := rfl
      arrivals := rfl
      published := (List.append_nil _).symm
      grows := .refl _
      births := rfl
      handouts := by
        intro d hd
        rcases List.mem_or_eq_of_mem_set hd with hd | rfl
        · exact ⟨d, hd, rfl, rfl⟩
        · exact ⟨h, hmem, rfl, rfl⟩
      placeholders := by simp
      balance := fun q b => hsame (Handout.kept? q) rfl }
    refine hs.flow hflow ?_ (hs.recorded.trans (hsame Handout.record? rfl))
    intro d hd told hd_told
    rcases List.mem_or_eq_of_mem_set hd with hd | rfl
    · exact hs.claimed d hd told hd_told
    · cases htold.symm.trans hd_told

/-- What a subscription takes is the message that stands first in its queue; it keeps it unless it
is a placeholder. -/
theorem take_eq_some_iff : s.take i r = some s' ↔ ∃ queue w rest,
    s.network.queues[r.queue]? = some queue ∧ queue.waiting = w :: rest ∧ s' =
      let s := { s with network := { s.network with
        queues := s.network.queues.set r.queue { queue with waiting := rest } } }
      if Network.isWakeup w.message then s.put i r .begun
      else { s.put i r .idle with
        handouts := s.handouts ++ [⟨r.queue, w.message, .ofBackend true, none⟩] } := by
  unfold take
  rw [Option.map_eq_some_iff]
  constructor
  · rintro ⟨⟨m, network⟩, hpop, rfl⟩
    obtain ⟨queue, w, rest, hqueue, hwaiting, rfl, rfl⟩ := Network.pop_eq_some_iff.mp hpop
    exact ⟨queue, w, rest, hqueue, hwaiting, rfl⟩
  · rintro ⟨queue, w, rest, hqueue, hwaiting, rfl⟩
    exact ⟨(w.message, _), Network.pop_eq_some_iff.mpr ⟨queue, w, rest, hqueue, hwaiting, rfl, rfl⟩,
      rfl⟩

theorem Sound.take (hs : s.Sound) (htake : s.take i r = some s') : s'.Sound := by
  obtain ⟨queue, w, rest, hqueue, hwaiting, rfl⟩ := take_eq_some_iff.mp htake
  have hpop := Network.pop_eq_some_iff.mpr ⟨queue, w, rest, hqueue, hwaiting, rfl, rfl⟩
  have htidy := Network.tidy_pop hpop hs.tidy
  -- whoever gets the message, the queue has one less
  have hdue {q : Nat} {queue' : Queue P} {born : Nat}
      (hqueue' : (s.network.queues.set r.queue { queue with waiting := rest })[q]? = some queue')
      (hborn : s.births[q]? = some born) :
      (queue'.due (s.network.published.drop born)).Perm
        ((if q = r.queue then [w.message].filter fun m => !Network.isWakeup m else []) ++
          (queue'.genuine ++ s.handouts.filterMap (Handout.kept? q))) := by
    rcases (getElem?_set_iff hqueue).mp hqueue' with ⟨rfl, rfl⟩ | ⟨hne, hold⟩
    · rw [if_pos rfl, ← List.append_assoc]
      refine (hs.balanced hqueue hborn).trans (.of_eq (congrArg (· ++ _) ?_))
      simp only [Queue.genuine, hwaiting, List.map_cons]
      rw [← List.filter_append]
      rfl
    · rw [if_neg hne]
      exact hs.balanced hold hborn
  dsimp only
  split
  · rename_i hwakeup
    exact {
      tidy := htidy
      born := hs.born.trans (List.length_set ..).symm
      born_le := hs.born_le
      from_queue := fun h hh => (List.length_set ..).symm ▸ hs.from_queue h hh
      genuine := hs.genuine
      claimed := hs.claimed
      balanced := by
        intro q queue' born hqueue' hborn
        refine (hdue hqueue' hborn).trans (.of_eq ?_)
        simp [hwakeup, Traffic.put]
      recorded := hs.recorded }
  · rename_i hgenuine
    exact {
      tidy := htidy
      born := hs.born.trans (List.length_set ..).symm
      born_le := hs.born_le
      from_queue := by
        refine List.forall_mem_append.mpr ⟨fun h hh => ?_, List.forall_mem_singleton.mpr ?_⟩
        · exact (List.length_set ..).symm ▸ hs.from_queue h hh
        · exact (List.length_set ..).symm ▸ lt_length_of_getElem? hqueue
      genuine := List.forall_mem_append.mpr ⟨hs.genuine, by simpa using hgenuine⟩
      claimed := List.forall_mem_append.mpr ⟨hs.claimed, by simp⟩
      balanced := by
        intro q queue' born hqueue' hborn
        refine (hdue hqueue' hborn).trans ?_
        rw [List.filterMap_append]
        refine .trans ?_ (.of_eq (List.append_assoc ..))
        by_cases hq : q = r.queue
        · subst hq
          rw [if_pos rfl]
          refine List.perm_append_comm.trans (.of_eq ?_)
          simp [hgenuine, Handout.kept?]
        · simp [hq, Ne.symm hq, Handout.kept?]
      recorded := by
        rw [List.filterMap_append]
        exact hs.recorded.trans (.of_eq (List.append_nil _).symm) }

theorem Sound.step (hs : s.Sound) {ev : Event P} (hev : ev.Genuine) (h : s.step ev = some s') :
    s'.Sound := by
  cases ev with
  | subscribe b =>
    obtain rfl := Option.some.inj h
    exact hs.subscribe b
  | publish m =>
    obtain rfl := Option.some.inj h
    exact hs.publish hev
  | failSubscriptions count =>
    obtain rfl := Option.some.inj h
    exact hs.still ⟨rfl, rfl, rfl, rfl, rfl, rfl⟩
  | failReceives count =>
    obtain rfl := Option.some.inj h
    exact hs.failReceives count
  | begin i =>
    obtain ⟨r, -, h⟩ := Option.bind_eq_some_iff.mp h
    split at h
    · obtain rfl := Option.some.inj h
      exact hs.still (s.still_put i r .begun)
    · cases h
  | check i =>
    obtain ⟨r, -, h⟩ := Option.bind_eq_some_iff.mp h
    split at h
    · obtain rfl := Option.some.inj h
      exact hs.still (s.still_check i r)
    · cases h
  | take i =>
    obtain ⟨r, -, h⟩ := Option.bind_eq_some_iff.mp h
    split at h
    · exact hs.take h
    · cases h
  | cancel i =>
    obtain ⟨r, -, rfl⟩ := Option.map_eq_some_iff.mp h
    exact hs.still (s.still_put i r .idle)
  | claim i action =>
    obtain ⟨d, hd, rfl⟩ := Option.map_eq_some_iff.mp h
    exact hs.claim hd action
  | tell i =>
    obtain ⟨d, hd, h⟩ := Option.bind_eq_some_iff.mp h
    exact hs.tell hd h

theorem Sound.run (hs : s.Sound) {evs : List (Event P)} (hevs : ∀ ev ∈ evs, ev.Genuine)
    (h : s.run evs = some s') : s'.Sound := by
  induction evs generalizing s with
  | nil =>
    obtain rfl := Option.some.inj h
    exact hs
  | cons ev evs ih =>
    obtain ⟨hev, hrest⟩ := List.forall_mem_cons.mp hevs
    obtain ⟨s₁, hstep, hrun⟩ := Option.bind_eq_some_iff.mp h
    exact ih (hs.step hev hstep) hrest hrun

theorem Reachable.sound (h : s.Reachable) : s.Sound := by
  obtain ⟨evs, hevs, hrun⟩ := h
  exact sound_start.run hevs hrun

/-! ## Whole operations as runs of steps -/

/-- Steps can lead from one to the other. -/
def Leads (s s' : Traffic P) : Prop :=
  ∃ evs, (∀ ev ∈ evs, Event.Genuine ev) ∧ s.run evs = some s'

theorem Leads.refl (s : Traffic P) : s.Leads s :=
  ⟨[], List.forall_mem_nil _, rfl⟩

theorem Leads.cons {s₁ : Traffic P} {ev : Event P} (hstep : s.step ev = some s₁)
    (hev : ev.Genuine) (h : s₁.Leads s') : s.Leads s' := by
  obtain ⟨evs, hevs, hrun⟩ := h
  exact ⟨ev :: evs, List.forall_mem_cons.mpr ⟨hev, hevs⟩,
    Option.bind_eq_some_iff.mpr ⟨s₁, hstep, hrun⟩⟩

theorem run_append (evs more : List (Event P)) :
    s.run (evs ++ more) = (s.run evs).bind (·.run more) := by
  induction evs generalizing s with
  | nil => rfl
  | cons ev evs ih =>
    rw [List.cons_append, run, run, Option.bind_assoc]
    exact congrArg _ (funext fun s₁ => ih)

theorem Leads.trans {s₁ : Traffic P} (h : s.Leads s₁) (h' : s₁.Leads s') : s.Leads s' := by
  obtain ⟨evs, hevs, hrun⟩ := h
  obtain ⟨more, hmore, hlater⟩ := h'
  exact ⟨evs ++ more, List.forall_mem_append.mpr ⟨hevs, hmore⟩,
    by rw [run_append, hrun, Option.bind_some, hlater]⟩

theorem Reachable.leads (h : s.Reachable) (hleads : s.Leads s') : s'.Reachable :=
  Leads.trans h hleads

/-- A reception that nothing comes between is one of the things that a subscription can do. -/
theorem leads_receiveUpTo (fuel : Nat) (hr : s.readers[i]? = some ⟨q, .begun⟩) :
    ∃ s', s.Leads s' ∧ s'.network = (s.network.receiveUpTo q fuel).2 ∧
      s'.handouts = s.handouts ++
        match (s.network.receiveUpTo q fuel).1 with
        | .message m => [⟨q, m, .ofBackend true, none⟩]
        | _ => [] := by
  induction fuel generalizing s with
  | zero => exact ⟨s, .refl s, rfl, (List.append_nil _).symm⟩
  | succ fuel ih =>
    have hi := lt_length_of_getElem? hr
    have hcheck : s.step (.check i) = some (s.check i ⟨q, .begun⟩) := by
      simp [step, hr]
    unfold check at hcheck
    unfold Network.receiveUpTo
    cases hfailure : s.network.takeFailure with
    | some network =>
      simp only [hfailure] at hcheck
      exact ⟨_, .cons hcheck trivial (.refl _), rfl, (List.append_nil _).symm⟩
    | none =>
      simp only [hfailure] at hcheck
      cases hpop : s.network.pop q with
      | none => exact ⟨_, .cons hcheck trivial (.refl _), rfl, (List.append_nil _).symm⟩
      | some popped =>
        obtain ⟨m, network⟩ := popped
        have htake : (s.put i ⟨q, .begun⟩ .waiting).step (.take i) =
            (s.put i ⟨q, .begun⟩ .waiting).take i ⟨q, .waiting⟩ := by
          simp [step, put, hi]
        have hpop' : (s.put i ⟨q, .begun⟩ .waiting).network.pop q = some (m, network) := hpop
        unfold take at htake
        rw [hpop', Option.map_some] at htake
        dsimp only at htake ⊢
        cases hwakeup : Network.isWakeup m with
        | true =>
          -- a wakeup is thrown away, and the reader begins anew
          rw [hwakeup, if_pos rfl] at htake
          obtain ⟨s', hleads, hnetwork, hhandouts⟩ := ih (s :=
            { s.put i ⟨q, .begun⟩ .waiting with network := network }.put i ⟨q, .waiting⟩ .begun)
            (by simp [put, hi])
          exact ⟨s', .cons hcheck trivial (.cons htake trivial hleads), hnetwork, hhandouts⟩
        | false =>
          rw [hwakeup, if_neg Bool.false_ne_true] at htake
          rw [if_neg Bool.false_ne_true]
          exact ⟨_, .cons hcheck trivial (.cons htake trivial (.refl _)), rfl, rfl⟩

/-- To settle a message through one clone of its acker is to claim it, and then to tell the
broker. -/
theorem leads_settle (hh : s.handouts[i]? = some h) (hbacked : h.acker.backed = true)
    (htold : h.told = h.acker.settlement) (action : Action) :
    let settled := h.acker.settle
      (fun action n => (.ok (), n.settle h.queue h.message action)) action s.network
    settled.1 = .ok () ∧ ∃ s', s.Leads s' ∧ s'.network = settled.2.2 ∧
      s'.handouts[i]? = some ⟨h.queue, h.message, settled.2.1, settled.2.1.settlement⟩ := by
  have hi := lt_length_of_getElem? hh
  intro settled
  cases hsettlement : h.acker.settlement with
  | some settlement =>
    have hsettled : settled = (.ok (), h.acker, s.network) := by
      simp [settled, Acker.settle, Acker.claim?, hsettlement]
    rw [hsettled]
    refine ⟨rfl, s, .refl s, rfl, ?_⟩
    rw [hh, ← htold]
  | none =>
    have hsettled : settled = (.ok (), { h.acker with settlement := some action },
        s.network.settle h.queue h.message action) := by
      simp [settled, Acker.settle, Acker.claim?, Acker.complete, hsettlement, hbacked]
    rw [hsettled]
    let claimed : Handout P := { h with acker := { h.acker with settlement := some action } }
    have hclaim : s.step (.claim i action) =
        some { s with handouts := s.handouts.set i claimed } := by
      simp [step, hh, claim, Acker.claim?, hsettlement, claimed]
    have hclaimed : (s.handouts.set i claimed)[i]? = some claimed := List.getElem?_set_self hi
    have htell : { s with handouts := s.handouts.set i claimed }.step (.tell i) = some { s with
        network := s.network.settle h.queue h.message action
        handouts := (s.handouts.set i claimed).set i { claimed with told := some action } } := by
      rw [step, hclaimed, Option.bind_some]
      exact tell_eq_some_iff.mpr ⟨action, rfl, htold.trans hsettlement, rfl⟩
    refine ⟨rfl, _, .cons hclaim trivial (.cons htell trivial (.refl _)), rfl, ?_⟩
    simp [claimed, hi]

/-! ## What holds of every use -/

/-- What did not go back to its queue is in somebody's hands, acked or rejected. -/
theorem kept_perm (handouts : List (Handout P)) (q : Nat) :
    (handouts.filterMap (Handout.kept? q)).Perm
      (Handout.received handouts q none ++ (Handout.received handouts q (some .ack) ++
        Handout.received handouts q (some .reject))) := by
  induction handouts with
  | nil => exact .nil
  | cons h handouts ih =>
    obtain ⟨queue, m, acker, told⟩ := h
    simp only [Handout.received] at ih ⊢
    by_cases hq : queue = q
    · subst hq
      rcases told with _ | _ | _ | _
      · simpa [Handout.kept?] using ih
      · simpa [Handout.kept?] using (ih.cons m).trans List.perm_middle.symm
      · simpa [Handout.kept?] using ih
      · simpa [Handout.kept?] using (ih.cons m).trans
          (List.perm_middle.symm.trans (List.perm_middle.symm.append_left _))
    · simpa [Handout.kept?, hq] using ih

/-- What is so at any time, and what the next step can do. -/
structure Conserving (s : Traffic P) : Prop where
  born : s.births.length = s.network.queues.length
  /-- Subscriptions to one binding share a queue. -/
  shared : (s.network.queues.map (·.binding)).Nodup
  /-- Each message that was published since a queue was made, and belongs into it, is exactly once
  among those that wait in it, that are with whoever received them, that are acked or rejected. -/
  balanced : ∀ {q : Nat} {queue : Queue P} {born : Nat}, s.network.queues[q]? = some queue →
    s.births[q]? = some born →
    (queue.due (s.network.published.drop born)).Perm (queue.genuine ++
      (Handout.received s.handouts q none ++ (Handout.received s.handouts q (some .ack) ++
        Handout.received s.handouts q (some .reject))))
  /-- A queue never has a message that does not belong there, but for placeholders. -/
  fitting : ∀ queue ∈ s.network.queues, ∀ w ∈ queue.waiting, w.message = Network.wakeup ∨
    P.accepts queue.binding w.message.route w.message.payload.headers = true
  /-- Whoever takes a message from a queue takes the oldest there is, and has received it unless
  it is a placeholder. -/
  oldest : ∀ {i : Nat} {s' : Traffic P}, s.step (.take i) = some s' → ∃ r queue w rest,
    s.readers[i]? = some r ∧ s.network.queues[r.queue]? = some queue ∧ queue.waiting = w :: rest ∧
      (∀ v ∈ rest, w.arrival < v.arrival) ∧
      s'.network.queues = s.network.queues.set r.queue { queue with waiting := rest } ∧
      s'.handouts = s.handouts ++
        if Network.isWakeup w.message then [] else [⟨r.queue, w.message, .ofBackend true, none⟩]
  /-- Nothing but that hands a message out. -/
  received : ∀ {ev : Event P} {s' : Traffic P}, s.step ev = some s' →
    s'.handouts.length ≠ s.handouts.length → ∃ i, ev = .take i
  /-- A nacked message comes back to the end of its queue, and all other queues stay as they are. -/
  returned : ∀ {i : Nat} {h : Handout P} {s' : Traffic P}, s.handouts[i]? = some h →
    h.acker.settlement = some .nack → s.step (.tell i) = some s' → ∃ queue arrival,
      s.network.queues[h.queue]? = some queue ∧ (∀ w ∈ queue.waiting, w.arrival < arrival) ∧
      s'.network.queues = s.network.queues.set h.queue
        { queue with waiting := queue.waiting ++ [⟨h.message, arrival⟩] }
  /-- What the broker was told about a message stays, and it is not told again. -/
  once : ∀ {i : Nat} {h : Handout P} {action : Action}, s.handouts[i]? = some h →
    h.told = some action → s.step (.tell i) = none ∧ ∀ {ev : Event P} {s' : Traffic P},
      s.step ev = some s' → s'.handouts[i]? = some h
  /-- Of each message that was received there is one settlement on record at most, with what its
  acker was settled with. -/
  recorded : s.network.settlements.Perm (s.handouts.filterMap Handout.record?) ∧
    ∀ h ∈ s.handouts, ∀ action, h.told = some action → h.acker.settlement = some action

/-- A step leaves what was received alone, adds to it, or changes one message that the broker was
not told about. -/
theorem Sound.handouts_cases (hs : s.Sound) {ev : Event P} (h : s.step ev = some s') :
    s'.handouts = s.handouts ∨ (∃ i d, ev = .take i ∧ s'.handouts = s.handouts ++ [d]) ∨
      ∃ i d d', s.handouts[i]? = some d ∧ d.told = none ∧ s'.handouts = s.handouts.set i d' := by
  cases ev with
  | subscribe b | publish m | failSubscriptions count | failReceives count =>
    obtain rfl := Option.some.inj h
    exact .inl rfl
  | begin i =>
    obtain ⟨r, -, h⟩ := Option.bind_eq_some_iff.mp h
    split at h
    · obtain rfl := Option.some.inj h
      exact .inl rfl
    · cases h
  | check i =>
    obtain ⟨r, -, h⟩ := Option.bind_eq_some_iff.mp h
    split at h
    · obtain rfl := Option.some.inj h
      exact .inl (s.still_check i r).handouts
    · cases h
  | take i =>
    obtain ⟨r, -, h⟩ := Option.bind_eq_some_iff.mp h
    split at h
    · obtain ⟨queue, w, rest, -, -, rfl⟩ := take_eq_some_iff.mp h
      dsimp only
      split
      · exact .inl rfl
      · exact .inr (.inl ⟨i, _, rfl, rfl⟩)
    · cases h
  | cancel i =>
    obtain ⟨r, -, rfl⟩ := Option.map_eq_some_iff.mp h
    exact .inl rfl
  | claim i action =>
    obtain ⟨d, hd, rfl⟩ := Option.map_eq_some_iff.mp h
    unfold Traffic.claim
    cases hclaim : d.acker.claim? action with
    | none => exact .inl rfl
    | some acker =>
      refine .inr (.inr ⟨i, d, _, hd, ?_, rfl⟩)
      exact hs.told_of_claim? (List.mem_of_getElem? hd) hclaim
  | tell i =>
    obtain ⟨d, hd, h⟩ := Option.bind_eq_some_iff.mp h
    obtain ⟨action, -, htold, rfl⟩ := tell_eq_some_iff.mp h
    exact .inr (.inr ⟨i, d, _, hd, htold, rfl⟩)

theorem Sound.conserves (hs : s.Sound) : s.Conserving where
  born := hs.born
  shared := hs.tidy.distinct
  balanced := fun hqueue hborn =>
    (hs.balanced hqueue hborn).trans ((kept_perm _ _).append_left _)
  fitting := by
    intro queue hqueue w hw
    cases hwakeup : Network.isWakeup w.message with
    | true => exact .inl (hs.tidy.placeholders queue hqueue w hw hwakeup)
    | false =>
      right
      obtain ⟨q, hq⟩ := List.mem_iff_getElem?.mp hqueue
      have hlt : q < s.births.length := hs.born ▸ lt_length_of_getElem? hq
      have hgenuine : w.message ∈ queue.genuine :=
        List.mem_filter.mpr ⟨List.mem_map_of_mem hw, by simp [hwakeup]⟩
      -- what waits is a part of what has been due to the queue since it was made
      have hdue := (hs.balanced hq (List.getElem?_eq_getElem hlt)).mem_iff.mpr
        (List.mem_append_left _ hgenuine)
      exact (List.mem_filter.mp hdue).2
  oldest := by
    intro i s' h
    obtain ⟨r, hr, h⟩ := Option.bind_eq_some_iff.mp h
    split at h
    · obtain ⟨queue, w, rest, hqueue, hwaiting, rfl⟩ := take_eq_some_iff.mp h
      have hordered := (hs.tidy.ordered queue (List.mem_of_getElem? hqueue)).pairwise
      rw [hwaiting] at hordered
      refine ⟨r, queue, w, rest, hr, hqueue, hwaiting, (List.pairwise_cons.mp hordered).1, ?_⟩
      dsimp only
      split
      · exact ⟨rfl, (List.append_nil _).symm⟩
      · exact ⟨rfl, rfl⟩
    · cases h
  received := by
    intro ev s' h hlength
    obtain heq | ⟨i, d, rfl, -⟩ | ⟨i, d, d', -, -, heq⟩ := hs.handouts_cases h
    · exact absurd (congrArg List.length heq) hlength
    · exact ⟨i, rfl⟩
    · rw [heq, List.length_set] at hlength
      exact absurd rfl hlength
  returned := by
    intro i d s' hd hclaim h
    obtain ⟨d', hd', h⟩ := Option.bind_eq_some_iff.mp h
    obtain rfl := Option.some.inj (hd.symm.trans hd')
    obtain ⟨action, hclaim', -, rfl⟩ := tell_eq_some_iff.mp h
    obtain rfl := Option.some.inj (hclaim.symm.trans hclaim')
    have hlt := hs.from_queue d (List.mem_of_getElem? hd)
    have hqueue := List.getElem?_eq_getElem hlt
    refine ⟨_, s.network.arrivals, hqueue,
      (hs.tidy.ordered _ (List.mem_of_getElem? hqueue)).bounded, ?_⟩
    exact modify_eq_set hqueue
  once := by
    intro i d action hd htold
    refine ⟨?_, fun {ev s'} h => ?_⟩
    · refine Option.eq_none_iff_forall_ne_some.mpr fun s' h => ?_
      obtain ⟨d', hd', h⟩ := Option.bind_eq_some_iff.mp h
      obtain rfl := Option.some.inj (hd.symm.trans hd')
      obtain ⟨-, -, hnone, -⟩ := tell_eq_some_iff.mp h
      cases htold.symm.trans hnone
    · obtain heq | ⟨j, e, rfl, heq⟩ | ⟨j, e, e', he, hnone, heq⟩ := hs.handouts_cases h
      · rw [heq, hd]
      · rw [heq, List.getElem?_append_left (lt_length_of_getElem? hd), hd]
      · have hne : j ≠ i := by
          rintro rfl
          obtain rfl := Option.some.inj (hd.symm.trans he)
          cases htold.symm.trans hnone
        rw [heq, List.getElem?_set_ne hne, hd]
  recorded := ⟨hs.recorded, hs.claimed⟩

/-- The broker neither loses nor duplicates messages, in whatever order everyone takes their
steps. -/
theorem Reachable.conserving (h : s.Reachable) : s.Conserving :=
  h.sound.conserves

def job (id : String) : Message Nats.protocol.Route :=
  { Message.new (⟨"jobs"⟩ : Nats.Route) (.text id) with messageId := some id }

/-- Two subscriptions to one queue, of which one gives up. The first of two messages is handed
back behind a placeholder, the second is acked through one clone of its acker and then rejected
through another. -/
def exchanges : List (Event Nats.protocol) :=
  let jobs : Nats.protocol.Binding := (⟨"jobs", none⟩ : Nats.Binding)
  [.subscribe jobs, .subscribe jobs, .publish (job "m-1"), .publish (job "m-2"), .begin 0, .check 0,
    .begin 1, .check 1, .failReceives 1, .take 1, .cancel 0, .claim 0 .nack, .tell 0, .begin 0,
    .check 0, .begin 0, .check 0, .take 0, .claim 1 .ack, .claim 1 .reject, .tell 1, .begin 1]

def exchanged : Traffic Nats.protocol := (start.run exchanges).getD start

/-- After that the first message is received again, and rejected. -/
theorem conserving_exchanges :
    (∀ ev ∈ exchanges, ev.Genuine) ∧ start.run exchanges = some exchanged ∧
      exchanged.Conserving ∧ exchanged.network.settlements = [⟨"m-1", .nack⟩, ⟨"m-2", .ack⟩] ∧
      ∃ s : Traffic Nats.protocol, exchanged.Leads s ∧ s.Conserving ∧
        s.network.settlements = [⟨"m-1", .nack⟩, ⟨"m-2", .ack⟩, ⟨"m-1", .reject⟩] := by
  have hgenuine : ∀ ev ∈ exchanges, ev.Genuine := by
    simp [exchanges, job, Event.Genuine, Network.isWakeup, Network.wakeupId]
  have hrun : start.run exchanges = some exchanged := rfl
  have hreachable : exchanged.Reachable := ⟨exchanges, hgenuine, hrun⟩
  obtain ⟨s₁, hreceives, hnetwork, hhandouts⟩ :=
    leads_receiveUpTo (s := exchanged) (i := 1) (q := 0) 2 rfl
  have hreceived : s₁.handouts[2]? = some ⟨0, job "m-1", .ofBackend true, none⟩ := by
    rw [hhandouts]
    rfl
  obtain ⟨-, s₂, hsettles, hsettled, -⟩ := leads_settle hreceived rfl rfl .reject
  refine ⟨hgenuine, hrun, Reachable.conserving hreachable, rfl, s₂, hreceives.trans hsettles,
    Reachable.conserving ((hreachable.leads hreceives).leads hsettles), ?_⟩
  rw [hsettled, hnetwork]
  rfl

end Traffic
end MessageDispatch
