import MessageDispatch.Proofs.Asking

/-! Requests and their replies, whatever else goes on in the group. What the requests and the inbox
do is put down in a log, in the order in which it happens; the tasks, the dispatchers and the other
clients may come in between at any time. A reply belongs to the request that it was handed to by the
handle of the registration, and no handle is given out twice. -/
namespace MessageDispatch

/-- A request that waits for its reply, by its entry in the reply table. -/
structure Waiter where
  client : Nat
  id : String
  handle : Nat

/-- What is put down of a group at work. -/
inductive Happening (P : Protocol) where
  | asked (client : Nat) (m : Message P.Route)
  | registered (r : Waiter)
  | arrived (a : Arrival)

namespace Happening

variable {P : Protocol}

def arrival? : Happening P → Option Arrival
  | .arrived a => some a
  | _ => none

def waiter? : Happening P → Option Waiter
  | .registered r => some r
  | _ => none

/-- Is it something that this client did? -/
def Of (i : Nat) : Happening P → Prop
  | .asked client _ => client = i
  | .registered r => r.client = i
  | .arrived _ => False

def arrivals (log : List (Happening P)) : List Arrival := log.filterMap arrival?

def waiters (log : List (Happening P)) : List Waiter := log.filterMap waiter?

theorem mem_arrivals {log : List (Happening P)} {a : Arrival} :
    a ∈ arrivals log ↔ .arrived a ∈ log := by
  simp only [arrivals, List.mem_filterMap]
  constructor
  · rintro ⟨x, hx, hxa⟩
    cases x with
    | arrived b => exact Option.some.inj hxa ▸ hx
    | _ => cases hxa
  · exact fun h => ⟨_, h, rfl⟩

theorem mem_waiters {log : List (Happening P)} {r : Waiter} :
    r ∈ waiters log ↔ .registered r ∈ log := by
  simp only [waiters, List.mem_filterMap]
  constructor
  · rintro ⟨x, hx, hxr⟩
    cases x with
    | registered s => exact Option.some.inj hxr ▸ hx
    | _ => cases hxr
  · exact fun h => ⟨_, h, rfl⟩

section
variable {log : List (Happening P)} {r : Waiter} {a : Arrival}

theorem arrivals_concat_arrived : arrivals (log ++ [.arrived a]) = arrivals log ++ [a] :=
  List.filterMap_append

theorem waiters_concat_arrived : waiters (log ++ [.arrived a]) = waiters log :=
  List.filterMap_append.trans (List.append_nil _)

theorem arrivals_concat_registered : arrivals (log ++ [.registered r]) = arrivals log :=
  List.filterMap_append.trans (List.append_nil _)

theorem waiters_concat_registered : waiters (log ++ [.registered r]) = waiters log ++ [r] :=
  List.filterMap_append

theorem registered_mem_concat :
    Happening.registered r ∈ log ++ [.arrived a] ↔ .registered r ∈ log := by
  simp

theorem arrived_mem_concat :
    Happening.arrived a ∈ log ++ [.registered r] ↔ .arrived a ∈ log := by
  simp

theorem forall_arrived_concat {p : Arrival → Prop} :
    (∀ b, Happening.arrived b ∈ log ++ [.arrived a] → p b) ↔
      (∀ b, .arrived b ∈ log → p b) ∧ p a := by
  simp only [List.mem_append, List.mem_singleton, Happening.arrived.injEq]
  exact ⟨fun h => ⟨fun b hb => h b (.inl hb), h a (.inr rfl)⟩,
    fun h b hb => hb.elim (h.1 b) fun heq => heq ▸ h.2⟩

end

/-- A reply arrived after a registration, for its correlation id, and was handed to it. -/
structure Answers (log : List (Happening P)) (r : Waiter) (a : Arrival) : Prop where
  ordered : [.registered r, .arrived a].Sublist log
  id : a.id = r.id
  handle : a.handle = some r.handle

variable {log more : List (Happening P)} {r : Waiter} {a : Arrival}

theorem Answers.mono (h : Answers log r a) : Answers (log ++ more) r a :=
  ⟨h.ordered.trans (List.sublist_append_left ..), h.id, h.handle⟩

theorem Answers.registered (h : Answers log r a) : .registered r ∈ log :=
  h.ordered.subset (List.mem_cons_self ..)

theorem Answers.arrived (h : Answers log r a) : .arrived a ∈ log :=
  h.ordered.subset (List.mem_cons_of_mem _ (List.mem_singleton_self _))

theorem answers_concat (hr : .registered r ∈ log) (hid : a.id = r.id)
    (hhandle : a.handle = some r.handle) : Answers (log ++ [.arrived a]) r a :=
  ⟨(List.singleton_sublist.mpr hr).append (.refl _), hid, hhandle⟩

end Happening

open Happening (Answers arrivals waiters)
open Calling (Asks Own Phase Plain Replied)

variable {P : Protocol} {κ : Type}

/-! ## A group at work, put down in a log -/

namespace Live

section
variable {α : Type}

/-- The entry that the next operation of a client is granted. -/
def waiter? (l : Live P κ α) (i : Nat) : Option Waiter :=
  (l.clients[i]?).bind fun c =>
    match c.program with
    | .call (.register id) _ => (l.engine.replies.register id).1.map fun handle => ⟨i, id, handle⟩
    | _ => none

/-- What is put down of a step. -/
def seen (l : Live P κ α) : LiveStep → List (Happening P)
  | .task i => (l.arrival? i).toList.map .arrived
  | .client i => (l.waiter? i).toList.map .registered
  | _ => []

/-- Whatever others change, it is not the reply table, the clients or the tasks; there may be more
handlers, more messages, other failures ahead. -/
structure Others (l l' : Live P κ α) : Prop where
  replies : l'.engine.replies = l.engine.replies
  clients : l'.clients = l.clients
  tasks : l'.tasks = l.tasks
  staffed : l'.engine.Staffed
  messages : ∀ k m, l.engine.message? k = some m → l'.engine.message? k = some m

/-- A client is done, or has walked away. -/
def Over (l : Live P κ α) (i : Nat) : Prop :=
  ∃ c, l.clients[i]? = some c ∧ (c.abandoned = true ∨ ∃ result, c.program = .done result)

/-- Nobody has done anything yet. -/
structure Untouched (l : Live P κ α) : Prop where
  replies : l.engine.replies = .empty
  clients : l.clients = []
  tasks : l.tasks = []
  staffed : l.engine.Staffed

/-- A group that has been set up with handlers. -/
theorem untouched_new (config : GroupConfig P.Route κ) (recording : Bool) (clock : UInt64)
    (context : κ) (rs : List (Registration P κ)) :
    (Live.new config (Engine.registerAll config recording rs (.new clock context)).2.2 :
      Live P κ α).Untouched := by
  have hnew : (Engine.new clock context : Engine P κ).Staffed := Engine.staffed_new clock context
  obtain ⟨hstaffed, hreplies⟩ := hnew.registerAll rs
  exact ⟨hreplies, rfl, rfl, hstaffed⟩

/-- A handler is registered while the group is at work. -/
theorem others_register {l : Live P κ α} {config : GroupConfig P.Route κ} {recording : Bool}
    {r : Registration P κ} {handle : CallHandle} {e : Engine P κ} (h : l.engine.Staffed)
    (hr : l.engine.register config recording r = .ok (handle, e)) :
    l.Others { l with engine := e } where
  replies := (Engine.outside_register hr).1
  clients := rfl
  tasks := rfl
  staffed := h.register hr
  messages := by
    intro k m hm
    unfold Engine.message? at hm ⊢
    rwa [(Engine.outside_register hr).2]

end

/-- How a group can go on, and what is put down of it: it takes its steps, clients come to make a
request or to do something else, clients walk away, and others do what is theirs. -/
inductive Unfolds (l₀ : Live P κ Replied) : List (Happening P) → Live P κ Replied → Prop where
  | start : Unfolds l₀ [] l₀
  | step {log : List (Happening P)} {l l' : Live P κ Replied} {ev : LiveStep}
      (h : Unfolds l₀ log l) (hstep : l.step ev = some l') : Unfolds l₀ (log ++ l.seen ev) l'
  | ask {log : List (Happening P)} {l : Live P κ Replied} (h : Unfolds l₀ log l)
      (publisher : Publisher P.Route κ) (options : RequestOptions) (m : Message P.Route) :
      Unfolds l₀ (log ++ [.asked l.clients.length m])
        (l.addClient (Calling.request publisher options m)).2
  | join {log : List (Happening P)} {l : Live P κ Replied} (h : Unfolds l₀ log l)
      {p : Program (Calling P.Route κ) Replied} (hp : Plain p) : Unfolds l₀ log (l.addClient p).2
  | abandon {log : List (Happening P)} {l : Live P κ Replied} (h : Unfolds l₀ log l) (i : Nat) :
      Unfolds l₀ log (l.abandon i)
  | others {log : List (Happening P)} {l l' : Live P κ Replied} (h : Unfolds l₀ log l)
      (hothers : l.Others l') : Unfolds l₀ log l'

end Live

/-! ## What holds of a client -/

variable {log more : List (Happening P)} {i : Nat} {own : String → Prop}
  {registered : Option (String × Nat)} {phase : Phase}

/-- What is known of a request by how far it has got. -/
def Calling.Phase.Stands (log : List (Happening P)) (i : Nat) (own : String → Prop)
    (registered : Option (String × Nat)) : Phase → Prop
  | .asking | .refused _ => registered = none ∧ ∀ r, .registered r ∈ log → r.client ≠ i
  | .holding id handle =>
    registered = some (id, handle) ∧ own id ∧ .registered ⟨i, id, handle⟩ ∈ log
  | .told id handle status =>
    registered = some (id, handle) ∧ own id ∧ .registered ⟨i, id, handle⟩ ∈ log ∧
      ∀ reply, status = .answered reply → ∃ a, Answers log ⟨i, id, handle⟩ a ∧ a.reply = reply
  | .withdrawn status =>
    registered = none ∧ ∀ reply, status = some (.answered reply) →
      ∃ r a, r.client = i ∧ own r.id ∧ Answers log r a ∧ a.reply = reply

theorem Calling.Phase.Stands.mono (h : phase.Stands log i own registered)
    (hmore : ∀ x ∈ more, ¬ x.Of i) : phase.Stands (log ++ more) i own registered := by
  have hnobody : (∀ r, .registered r ∈ log → r.client ≠ i) →
      ∀ r, .registered r ∈ log ++ more → r.client ≠ i := by
    intro hnone r hr
    rcases List.mem_append.mp hr with hr | hr
    · exact hnone r hr
    · exact hmore _ hr
  cases phase with
  | asking | refused id => exact ⟨h.1, hnobody h.2⟩
  | holding id handle => exact ⟨h.1, h.2.1, List.mem_append_left _ h.2.2⟩
  | told id handle status =>
    obtain ⟨hregistered, hown, hlog, htold⟩ := h
    refine ⟨hregistered, hown, List.mem_append_left _ hlog, fun reply hreply => ?_⟩
    obtain ⟨a, ha, hsame⟩ := htold reply hreply
    exact ⟨a, ha.mono, hsame⟩
  | withdrawn status =>
    obtain ⟨hregistered, htold⟩ := h
    refine ⟨hregistered, fun reply hreply => ?_⟩
    obtain ⟨r, a, hclient, hown, ha, hsame⟩ := htold reply hreply
    exact ⟨r, a, hclient, hown, ha.mono, hsame⟩

/-- What is known of the `i`-th client. -/
structure Client.Sound (log : List (Happening P)) (i : Nat) (c : Client P κ Replied) : Prop where
  registered : ∀ id handle, c.registered = some (id, handle) → .registered ⟨i, id, handle⟩ ∈ log
  abandoned : c.abandoned = true → c.registered = none
  asks : ∀ m, .asked i m ∈ log → c.abandoned = false →
    ∃ phase, Asks (Own m) phase c.program ∧ phase.Stands log i (Own m) c.registered
  plain : (∀ m, .asked i m ∉ log) →
    Plain c.program ∧ c.registered = none ∧ ∀ r, .registered r ∈ log → r.client ≠ i

theorem Client.Sound.mono {c : Client P κ Replied} (h : c.Sound log i)
    (hmore : ∀ x ∈ more, ¬ x.Of i) : c.Sound (log ++ more) i where
  registered := fun id handle hr => List.mem_append_left _ (h.registered id handle hr)
  abandoned := h.abandoned
  asks := by
    intro m hm hhere
    have hm : .asked i m ∈ log :=
      (List.mem_append.mp hm).resolve_right fun hm => hmore _ hm rfl
    obtain ⟨phase, hasks, hstands⟩ := h.asks m hm hhere
    exact ⟨phase, hasks, hstands.mono hmore⟩
  plain := by
    intro hnone
    obtain ⟨hplain, hr, hnobody⟩ := h.plain fun m hm => hnone m (List.mem_append_left _ hm)
    refine ⟨hplain, hr, fun r hr => ?_⟩
    rcases List.mem_append.mp hr with hr | hr
    · exact hnobody r hr
    · exact hmore _ hr

/-- A client goes on with the answer to an operation: a request gets further, and all others keep
away from the reply table. -/
theorem Client.Sound.go {c : Client P κ Replied} {op : Calling.Op P.Route κ}
    {next : Calling.Answer op → Program (Calling P.Route κ) Replied} {log' : List (Happening P)}
    (hs : c.Sound log i) (hhere : c.abandoned = false) (hprogram : c.program = .call op next)
    (answer : Calling.Answer op) (wakeAt : Nat)
    (hasked : ∀ m, .asked i m ∈ log' ↔ .asked i m ∈ log)
    (hregistered : ∀ id handle, registered = some (id, handle) →
      .registered ⟨i, id, handle⟩ ∈ log')
    (hplain : op.isOfTable = false → registered = c.registered ∧ log' = log)
    (hphase : ∀ own (phase : Phase), phase.Allows own op → phase.Stands log i own c.registered →
      (phase.after op answer).Stands log' i own registered) :
    Client.Sound log' i ⟨wakeAt, next answer, registered, false⟩ where
  registered := hregistered
  abandoned := nofun
  asks := by
    intro m hm _
    obtain ⟨phase, hasks, hstands⟩ := hs.asks m ((hasked m).mp hm) hhere
    rw [hprogram] at hasks
    obtain ⟨hallows, hnext⟩ := hasks
    exact ⟨_, hnext answer, hphase _ phase hallows hstands⟩
  plain := by
    intro hnone
    obtain ⟨hp, hr, hnobody⟩ := hs.plain fun m hm => hnone m ((hasked m).mpr hm)
    rw [hprogram] at hp
    obtain ⟨hop, hnext⟩ := hp
    obtain ⟨rfl, rfl⟩ := hplain hop
    exact ⟨hnext answer, hr, hnobody⟩

/-- Only a request does anything to the reply table. -/
theorem Client.Sound.exists_asked {c : Client P κ Replied} {op : Calling.Op P.Route κ}
    {next : Calling.Answer op → Program (Calling P.Route κ) Replied} (hs : c.Sound log i)
    (hhere : c.abandoned = false) (hprogram : c.program = .call op next)
    (hop : op.isOfTable = true) :
    ∃ (own : String → Prop) (phase : Phase),
      phase.Allows own op ∧ phase.Stands log i own c.registered := by
  by_cases hasked : ∃ m, .asked i m ∈ log
  · obtain ⟨m, hm⟩ := hasked
    obtain ⟨phase, hasks, hstands⟩ := hs.asks m hm hhere
    rw [hprogram] at hasks
    exact ⟨_, phase, hasks.1, hstands⟩
  · obtain ⟨hp, -, -⟩ := hs.plain (not_exists.mp hasked)
    rw [hprogram] at hp
    exact absurd (hop.symm.trans hp.1) nofun

/-! ## What holds at any time -/

namespace Live

variable {l l' : Live P κ Replied} {c c' : Client P κ Replied} {id : String} {handle : Nat}

/-- The log, the reply table and the clients at one moment. -/
structure Valid (log : List (Happening P)) (l : Live P κ Replied) : Prop where
  manned : l.Manned (arrivals log)
  sound : ∀ i (c : Client P κ Replied), l.clients[i]? = some c → c.Sound log i
  known : ∀ x ∈ log, ∀ i, x.Of i → i < l.clients.length
  clients_once : ((waiters log).map (·.client)).Nodup
  handles_once : ((waiters log).map (·.handle)).Nodup
  handles_lt : ∀ r, .registered r ∈ log → r.handle < l.engine.replies.handles
  ids_distinct : l.engine.replies.pending.Pairwise (·.1 ≠ ·.1)
  held : ∀ id handle, (id, handle) ∈ l.engine.replies.pending →
    ∃ (i : Nat) (c : Client P κ Replied),
      l.clients[i]? = some c ∧ c.registered = some (id, handle)
  unanswered : ∀ id handle, (id, handle) ∈ l.engine.replies.pending →
    ∀ a, .arrived a ∈ log → a.handle ≠ some handle
  answered : ∀ handle reply, (handle, reply) ∈ l.engine.replies.answered →
    ∃ r a, Answers log r a ∧ r.handle = handle ∧ a.reply = reply
  arrived : ∀ a, .arrived a ∈ log → a.found = a.handle.isSome ∧
    ∀ handle, a.handle = some handle → ∃ r, Answers log r a ∧ r.handle = handle
  handed_once : ((arrivals log).filterMap (·.handle)).Nodup

/-- A handle belongs to one request. -/
theorem Valid.eq_of_handle (hv : Valid log l) {r r' : Waiter} (hr : .registered r ∈ log)
    (hr' : .registered r' ∈ log) (h : r.handle = r'.handle) : r = r' := by
  obtain ⟨i, hi⟩ := List.mem_iff_getElem?.mp (Happening.mem_waiters.mpr hr)
  obtain ⟨j, hj⟩ := List.mem_iff_getElem?.mp (Happening.mem_waiters.mpr hr')
  obtain rfl := eq_of_nodup_map hv.handles_once hi hj h
  exact Option.some.inj (hi.symm.trans hj)

/-- A client makes one request. -/
theorem Valid.eq_of_client (hv : Valid log l) {r r' : Waiter} (hr : .registered r ∈ log)
    (hr' : .registered r' ∈ log) (h : r.client = r'.client) : r = r' := by
  obtain ⟨i, hi⟩ := List.mem_iff_getElem?.mp (Happening.mem_waiters.mpr hr)
  obtain ⟨j, hj⟩ := List.mem_iff_getElem?.mp (Happening.mem_waiters.mpr hr')
  obtain rfl := eq_of_nodup_map hv.clients_once hi hj h
  exact Option.some.inj (hi.symm.trans hj)

/-- What is pending has been put down for the client that holds it. -/
theorem Valid.registered_of_pending (hv : Valid log l)
    (h : (id, handle) ∈ l.engine.replies.pending) :
    ∃ (i : Nat) (c : Client P κ Replied), l.clients[i]? = some c ∧
      c.registered = some (id, handle) ∧ .registered ⟨i, id, handle⟩ ∈ log := by
  obtain ⟨i, c, hc, hregistered⟩ := hv.held id handle h
  exact ⟨i, c, hc, hregistered, (hv.sound i c hc).registered id handle hregistered⟩

theorem Valid.answered_append (hv : Valid log l) (more : List (Happening P)) {reply : Decoded}
    (h : (handle, reply) ∈ l.engine.replies.answered) :
    ∃ r a, Answers (log ++ more) r a ∧ r.handle = handle ∧ a.reply = reply := by
  obtain ⟨r, a, ha, hsame⟩ := hv.answered handle reply h
  exact ⟨r, a, ha.mono, hsame⟩

theorem Valid.arrived_append (hv : Valid log l) (more : List (Happening P)) {a : Arrival}
    (h : .arrived a ∈ log) : a.found = a.handle.isSome ∧
      ∀ handle, a.handle = some handle → ∃ r, Answers (log ++ more) r a ∧ r.handle = handle := by
  obtain ⟨hfound, hto⟩ := hv.arrived a h
  refine ⟨hfound, fun handle hhandle => ?_⟩
  obtain ⟨r, hr, hsame⟩ := hto handle hhandle
  exact ⟨r, hr.mono, hsame⟩

theorem Valid.start (h : l.Untouched) : Valid [] l where
  manned :=
    { staffed := h.staffed
      apart := by simp [h.tasks]
      due := by simp [h.tasks]
      carried := by simp [arrivals]
      once := by simp [arrivals] }
  sound := by simp [h.clients]
  known := by simp
  clients_once := List.nodup_nil
  handles_once := List.nodup_nil
  handles_lt := by simp
  ids_distinct := by simp [h.replies, ReplyTable.empty]
  held := by simp [h.replies, ReplyTable.empty]
  unanswered := by simp
  answered := by simp [h.replies, ReplyTable.empty]
  arrived := by simp
  handed_once := List.nodup_nil

/-! ### Steps of others -/

/-- What holds, holds as long as the reply table and the clients are left alone. -/
theorem Valid.calm (hv : Valid log l) (h : l.Calm l') : Valid log l' where
  manned := h.manned _ hv.manned
  sound := h.clients ▸ hv.sound
  known := h.clients ▸ hv.known
  clients_once := hv.clients_once
  handles_once := hv.handles_once
  handles_lt := h.replies ▸ hv.handles_lt
  ids_distinct := h.replies ▸ hv.ids_distinct
  held := h.replies ▸ h.clients ▸ hv.held
  unanswered := h.replies ▸ hv.unanswered
  answered := h.replies ▸ hv.answered
  arrived := hv.arrived
  handed_once := hv.handed_once

theorem Others.calm (h : l.Others l') : l.Calm l' :=
  ⟨h.replies, h.clients,
    fun _ hm => hm.mono h.staffed h.messages (h.tasks ▸ List.Sublist.refl _)⟩

/-! ### A reply arrives -/

/-- An arrival is nothing that a client did. -/
theorem Valid.sound_arrived (hv : Valid log l) (a : Arrival) (i : Nat) (c : Client P κ Replied)
    (hc : l.clients[i]? = some c) : c.Sound (log ++ [.arrived a]) i := by
  refine (hv.sound i c hc).mono fun x hx => ?_
  obtain rfl := List.mem_singleton.mp hx
  exact id

theorem Valid.known_arrived (hv : Valid log l) (a : Arrival) (x : Happening P)
    (hx : x ∈ log ++ [.arrived a]) (i : Nat) (hof : x.Of i) : i < l.clients.length := by
  rcases List.mem_append.mp hx with hx | hx
  · exact hv.known x hx i hof
  · obtain rfl := List.mem_singleton.mp hx
    exact hof.elim

section
variable {a : Arrival} (hv : Valid log l) (hclients : l'.clients = l.clients)
  (hmanned : l'.Manned (arrivals log ++ [a]))
include hv hclients hmanned

/-- Nobody waits for it. -/
theorem Valid.miss (hfound : a.found = false) (hhandle : a.handle = none)
    (hreplies : l'.engine.replies = l.engine.replies) : Valid (log ++ [.arrived a]) l' where
  manned := Happening.arrivals_concat_arrived ▸ hmanned
  sound := hclients ▸ hv.sound_arrived a
  known := hclients ▸ hv.known_arrived a
  clients_once := by
    rw [Happening.waiters_concat_arrived]
    exact hv.clients_once
  handles_once := by
    rw [Happening.waiters_concat_arrived]
    exact hv.handles_once
  handles_lt := fun r hr => hreplies ▸ hv.handles_lt r (Happening.registered_mem_concat.mp hr)
  ids_distinct := hreplies ▸ hv.ids_distinct
  held := hreplies ▸ hclients ▸ hv.held
  unanswered := by
    intro id handle hp
    have hbefore := hv.unanswered id handle (hreplies ▸ hp)
    exact Happening.forall_arrived_concat.mpr ⟨hbefore, by simp [hhandle]⟩
  answered := fun handle reply h => hv.answered_append _ (hreplies ▸ h)
  arrived := Happening.forall_arrived_concat.mpr
    ⟨fun _ hb => hv.arrived_append _ hb, by simp [hfound, hhandle]⟩
  handed_once := by
    rw [Happening.arrivals_concat_arrived, List.filterMap_append,
      List.filterMap_cons_none hhandle]
    simpa using hv.handed_once

/-- Somebody waits for it, and has not been answered before. -/
theorem Valid.hit (hfound : a.found = true) (hhandle : a.handle = some handle)
    (hentry : (a.id, handle) ∈ l.engine.replies.pending)
    (hreplies : l'.engine.replies =
      { l.engine.replies.cancel a.id with
        answered := (handle, a.reply) :: l.engine.replies.answered }) :
    Valid (log ++ [.arrived a]) l' := by
  obtain ⟨i, c, hc, -, hregistered⟩ := hv.registered_of_pending hentry
  have hanswers : Answers (log ++ [.arrived a]) ⟨i, a.id, handle⟩ a :=
    Happening.answers_concat hregistered rfl hhandle
  have hpending : ∀ p ∈ l'.engine.replies.pending,
      p ∈ l.engine.replies.pending ∧ a.id ≠ p.1 := by
    intro p hp
    rw [hreplies] at hp
    exact ReplyTable.mem_cancel.mp hp
  exact
    { manned := Happening.arrivals_concat_arrived ▸ hmanned
      sound := hclients ▸ hv.sound_arrived a
      known := hclients ▸ hv.known_arrived a
      clients_once := by
        rw [Happening.waiters_concat_arrived]
        exact hv.clients_once
      handles_once := by
        rw [Happening.waiters_concat_arrived]
        exact hv.handles_once
      handles_lt := by
        intro r hr
        rw [hreplies]
        exact hv.handles_lt r (Happening.registered_mem_concat.mp hr)
      ids_distinct := by
        rw [hreplies]
        exact hv.ids_distinct.filter _
      held := fun id' handle' hp => hclients ▸ hv.held id' handle' (hpending _ hp).1
      unanswered := by
        intro id' handle' hp
        obtain ⟨hp, hid⟩ := hpending _ hp
        refine Happening.forall_arrived_concat.mpr ⟨hv.unanswered id' handle' hp, ?_⟩
        -- no other entry has the handle of the one that was found
        rw [hhandle]
        rintro ⟨⟩
        obtain ⟨j, d, -, -, hregistered'⟩ := hv.registered_of_pending hp
        have heq := hv.eq_of_handle hregistered hregistered' rfl
        exact hid (congrArg Waiter.id heq)
      answered := by
        intro handle' reply hreply
        rw [hreplies] at hreply
        rcases List.mem_cons.mp hreply with heq | hreply
        · obtain ⟨rfl, rfl⟩ := Prod.mk.inj heq
          exact ⟨_, a, hanswers, rfl, rfl⟩
        · exact hv.answered_append _ hreply
      arrived := by
        refine Happening.forall_arrived_concat.mpr ⟨fun _ hb => hv.arrived_append _ hb, ?_⟩
        refine ⟨by rw [hfound, hhandle]; rfl, fun handle' h => ?_⟩
        obtain rfl := Option.some.inj (hhandle.symm.trans h)
        exact ⟨_, hanswers, rfl⟩
      handed_once := by
        rw [Happening.arrivals_concat_arrived, List.filterMap_append,
          List.filterMap_cons_some hhandle]
        refine nodup_concat hv.handed_once fun hmem => ?_
        obtain ⟨b, hb, hsame⟩ := List.mem_filterMap.mp hmem
        exact hv.unanswered _ _ hentry b (Happening.mem_arrivals.mp hb) hsame }

theorem Valid.hand (hfound : a.found = (l.engine.replies.resolve a.id a.reply).1)
    (hhandle : a.handle = l.engine.replies.pending.lookup a.id)
    (hreplies : l'.engine.replies = (l.engine.replies.resolve a.id a.reply).2) :
    Valid (log ++ [.arrived a]) l' := by
  rcases ReplyTable.resolve_cases l.engine.replies a.id a.reply with
    ⟨hnone, hresolve⟩ | ⟨handle, hsome, hresolve⟩ <;> rw [hresolve] at hfound hreplies
  · exact hv.miss hclients hmanned hfound (hhandle.trans hnone) hreplies
  · exact hv.hit hclients hmanned hfound (hhandle.trans hsome) (mem_of_lookup hsome) hreplies

end

/-! ### A client goes on -/

theorem Valid.known_set (hv : Valid log l) (hclients : l'.clients = l.clients.set i c')
    (x : Happening P) (hx : x ∈ log) (j : Nat) (hof : x.Of j) : j < l'.clients.length := by
  rw [hclients, List.length_set]
  exact hv.known x hx j hof

section
variable (hv : Valid log l) (hc : l.clients[i]? = some c)
  (hclients : l'.clients = l.clients.set i c')
include hv hc hclients

theorem Valid.sound_set (hsound : c'.Sound (log ++ more) i)
    (hmore : ∀ x ∈ more, ∀ j, x.Of j → j = i) (j : Nat) (d : Client P κ Replied)
    (hd : l'.clients[j]? = some d) : d.Sound (log ++ more) j := by
  rw [hclients] at hd
  rcases (getElem?_set_iff hc).mp hd with ⟨rfl, rfl⟩ | ⟨hji, hd⟩
  · exact hsound
  · exact (hv.sound j d hd).mono fun x hx hof => hji (hmore x hx j hof)

theorem Valid.sound_keep (hsound : c'.Sound log i) (j : Nat) (d : Client P κ Replied)
    (hd : l'.clients[j]? = some d) : d.Sound log j := by
  rw [← List.append_nil log] at hsound ⊢
  exact hv.sound_set hc hclients hsound (by simp) j d hd

theorem Valid.held_set (hp : (id, handle) ∈ l.engine.replies.pending)
    (hkeeps : c.registered = some (id, handle) → c'.registered = some (id, handle)) :
    ∃ (j : Nat) (d : Client P κ Replied),
      l'.clients[j]? = some d ∧ d.registered = some (id, handle) := by
  obtain ⟨j, d, hd, hregistered⟩ := hv.held id handle hp
  rw [hclients]
  by_cases hji : j = i
  · subst hji
    obtain rfl := Option.some.inj (hc.symm.trans hd)
    exact ⟨j, c', (getElem?_set_iff hc).mpr (.inl ⟨rfl, rfl⟩), hkeeps hregistered⟩
  · exact ⟨j, d, (getElem?_set_iff hc).mpr (.inr ⟨hji, hd⟩), hregistered⟩

/-- It does nothing to the reply table. -/
theorem Valid.goOn (hsame : c'.registered = c.registered) (hsound : c'.Sound log i)
    (hreplies : l'.engine.replies = l.engine.replies) (hmanned : l'.Manned (arrivals log)) :
    Valid log l' where
  manned := hmanned
  sound := hv.sound_keep hc hclients hsound
  known := hv.known_set hclients
  clients_once := hv.clients_once
  handles_once := hv.handles_once
  handles_lt := hreplies ▸ hv.handles_lt
  ids_distinct := hreplies ▸ hv.ids_distinct
  held := fun _ _ hp => hv.held_set hc hclients (hreplies ▸ hp) (hsame ▸ ·)
  unanswered := hreplies ▸ hv.unanswered
  answered := hreplies ▸ hv.answered
  arrived := hv.arrived
  handed_once := hv.handed_once

/-- It gives up its entry in the reply table. -/
theorem Valid.letGo (hregistered : c.registered = some (id, handle)) (hsound : c'.Sound log i)
    (hreplies : l'.engine.replies = l.engine.replies.drop id handle)
    (hmanned : l'.Manned (arrivals log)) : Valid log l' := by
  have hpending : ∀ p ∈ l'.engine.replies.pending, p ∈ l.engine.replies.pending ∧ id ≠ p.1 := by
    intro p hp
    rw [hreplies] at hp
    exact ReplyTable.mem_drop.mp hp
  exact
    { manned := hmanned
      sound := hv.sound_keep hc hclients hsound
      known := hv.known_set hclients
      clients_once := hv.clients_once
      handles_once := hv.handles_once
      handles_lt := hreplies ▸ hv.handles_lt
      ids_distinct := by
        rw [hreplies]
        exact hv.ids_distinct.filter _
      held := by
        intro id' handle' hp
        obtain ⟨hp, hid⟩ := hpending _ hp
        refine hv.held_set hc hclients hp fun hmine => ?_
        have heq := Option.some.inj (hregistered.symm.trans hmine)
        exact absurd (congrArg Prod.fst heq) hid
      unanswered := fun id' handle' hp => hv.unanswered id' handle' (hpending _ hp).1
      answered := by
        intro handle' reply h
        rw [hreplies] at h
        exact hv.answered handle' reply (List.mem_filter.mp h).1
      arrived := hv.arrived
      handed_once := hv.handed_once }

/-- It is entered into the reply table, under a handle that nobody has had before. -/
theorem Valid.enter (hfree : ∀ p ∈ l.engine.replies.pending, id ≠ p.1)
    (hreplies : l'.engine.replies = { l.engine.replies with
      pending := (id, l.engine.replies.handles) :: l.engine.replies.pending
      handles := l.engine.replies.handles + 1 })
    (hnone : c.registered = none) (hsome : c'.registered = some (id, l.engine.replies.handles))
    (hfirst : ∀ r, .registered r ∈ log → r.client ≠ i)
    (hsound : c'.Sound (log ++ [.registered ⟨i, id, l.engine.replies.handles⟩]) i)
    (hmanned : l'.Manned (arrivals log)) :
    Valid (log ++ [.registered ⟨i, id, l.engine.replies.handles⟩]) l' where
  manned := by
    rw [Happening.arrivals_concat_registered]
    exact hmanned
  sound := by
    refine hv.sound_set hc hclients hsound fun x hx j hof => ?_
    obtain rfl := List.mem_singleton.mp hx
    exact hof.symm
  known := by
    intro x hx j hof
    rcases List.mem_append.mp hx with hx | hx
    · exact hv.known_set hclients x hx j hof
    · obtain rfl := List.mem_singleton.mp hx
      obtain rfl : i = j := hof
      rw [hclients, List.length_set]
      exact lt_length_of_getElem? hc
  clients_once := by
    rw [Happening.waiters_concat_registered, List.map_append]
    refine nodup_concat hv.clients_once fun hmem => ?_
    obtain ⟨r, hr, hsame⟩ := List.mem_map.mp hmem
    exact hfirst r (Happening.mem_waiters.mp hr) hsame
  handles_once := by
    rw [Happening.waiters_concat_registered, List.map_append]
    refine nodup_concat hv.handles_once fun hmem => ?_
    obtain ⟨r, hr, hsame⟩ := List.mem_map.mp hmem
    exact Nat.ne_of_lt (hv.handles_lt r (Happening.mem_waiters.mp hr)) hsame
  handles_lt := by
    intro r hr
    rw [hreplies]
    rcases List.mem_append.mp hr with hr | hr
    · exact Nat.lt_succ_of_lt (hv.handles_lt r hr)
    · obtain rfl := Happening.registered.inj (List.mem_singleton.mp hr)
      exact Nat.lt_succ_self _
  ids_distinct := by
    rw [hreplies]
    exact List.pairwise_cons.mpr ⟨hfree, hv.ids_distinct⟩
  held := by
    intro id' handle' hp
    rw [hreplies] at hp
    rcases List.mem_cons.mp hp with heq | hp
    · obtain ⟨rfl, rfl⟩ := Prod.mk.inj heq
      rw [hclients]
      exact ⟨i, c', (getElem?_set_iff hc).mpr (.inl ⟨rfl, rfl⟩), hsome⟩
    · exact hv.held_set hc hclients hp fun hmine => by simp [hnone] at hmine
  unanswered := by
    intro id' handle' hp a ha hto
    replace ha := Happening.arrived_mem_concat.mp ha
    rw [hreplies] at hp
    rcases List.mem_cons.mp hp with heq | hp
    -- what has arrived went to handles given out before
    · obtain ⟨rfl, rfl⟩ := Prod.mk.inj heq
      obtain ⟨r, hr, hsame⟩ := (hv.arrived a ha).2 _ hto
      exact Nat.ne_of_lt (hv.handles_lt r hr.registered) hsame
    · exact hv.unanswered id' handle' hp a ha hto
  answered := by
    intro handle' reply h
    rw [hreplies] at h
    exact hv.answered_append _ h
  arrived := fun a ha => hv.arrived_append _ (Happening.arrived_mem_concat.mp ha)
  handed_once := by
    rw [Happening.arrivals_concat_registered]
    exact hv.handed_once

end

/-! ### What an operation of a client comes to -/

section
variable {op : Calling.Op P.Route κ} {answer : Calling.Answer op}
  {next : Calling.Answer op → Program (Calling P.Route κ) Replied} {wakeAt : Nat}

/-- A request that waits is told what has come for it, and nothing else. -/
theorem Valid.told (hv : Valid log l) (hregistered : .registered ⟨i, id, handle⟩ ∈ log)
    {reply : Decoded} (h : l.engine.replies.status handle = .answered reply) :
    ∃ a, Answers log ⟨i, id, handle⟩ a ∧ a.reply = reply := by
  have hreply : (handle, reply) ∈ l.engine.replies.answered := by
    unfold ReplyTable.status at h
    split at h
    · rename_i reply' hlookup
      obtain rfl := ReplyStatus.answered.inj h
      exact mem_of_lookup hlookup
    · split at h <;> cases h
  obtain ⟨r, a, ha, hsame, hcame⟩ := hv.answered handle reply hreply
  obtain rfl := hv.eq_of_handle ha.registered hregistered hsame
  exact ⟨a, ha, hcame⟩

section
variable (hv : Valid log l) (hc : l.clients[i]? = some c) (hhere : c.abandoned = false)
  (hmanned : l'.Manned (arrivals log))
include hv hc hhere hmanned

theorem Valid.turn_plain (hprogram : c.program = .call op next) (hop : op.isOfTable = false)
    (hreplies : l'.engine.replies = l.engine.replies)
    (hclients : l'.clients = l.clients.set i ⟨wakeAt, next answer, c.registered, false⟩) :
    Valid log l' := by
  have hs := hv.sound i c hc
  refine hv.goOn hc hclients rfl ?_ hreplies hmanned
  refine hs.go hhere hprogram answer wakeAt (fun _ => .rfl) hs.registered (fun _ => ⟨rfl, rfl⟩) ?_
  intro own phase hallows hstands
  rw [Phase.after_plain hop]
  exact hstands

section
variable {next : Option Nat → Program (Calling P.Route κ) Replied}
  (hprogram : c.program = .call (.register id) next)
include hprogram

/-- Only a request that has not registered yet is granted an entry. -/
theorem Valid.turn_granted
    (hgranted : l.engine.replies.register id = (some handle, l'.engine.replies))
    (hclients :
      l'.clients = l.clients.set i ⟨wakeAt, next (some handle), some (id, handle), false⟩) :
    Valid (log ++ [.registered ⟨i, id, handle⟩]) l' := by
  have hs := hv.sound i c hc
  obtain hrefused | ⟨hfree, hentered⟩ := ReplyTable.register_cases l.engine.replies id
  · cases hrefused.symm.trans hgranted
  obtain ⟨hhandle, hreplies⟩ := Prod.mk.inj (hentered.symm.trans hgranted)
  obtain rfl := Option.some.inj hhandle
  -- whoever may register has not done so before
  obtain ⟨own, phase, hallows, hstands⟩ := hs.exists_asked hhere hprogram rfl
  obtain ⟨hnone, hfirst⟩ : c.registered = none ∧ ∀ r, .registered r ∈ log → r.client ≠ i := by
    cases phase <;> first | exact hstands | cases hallows
  refine hv.enter hc hclients hfree hreplies.symm hnone rfl hfirst ?_ hmanned
  refine hs.go hhere hprogram (some _) wakeAt (by simp) ?_ nofun ?_
  · rintro _ _ ⟨⟩
    exact List.mem_concat_self
  · intro own phase hallows hstands
    cases phase with
    | asking => exact ⟨rfl, hallows, List.mem_concat_self⟩
    | _ => cases hallows

theorem Valid.turn_refused (hreplies : l'.engine.replies = l.engine.replies)
    (hclients : l'.clients = l.clients.set i ⟨wakeAt, next none, c.registered, false⟩) :
    Valid log l' := by
  have hs := hv.sound i c hc
  refine hv.goOn hc hclients rfl ?_ hreplies hmanned
  refine hs.go hhere hprogram none wakeAt (fun _ => .rfl) hs.registered nofun ?_
  intro own phase hallows hstands
  cases phase with
  | asking => exact hstands
  | _ => cases hallows

end

theorem Valid.turn_told {deadline : Nat}
    {next : ReplyStatus → Program (Calling P.Route κ) Replied}
    (hprogram : c.program = .call (.awaitReply handle deadline) next)
    (hreplies : l'.engine.replies = l.engine.replies)
    (hclients : l'.clients =
      l.clients.set i ⟨wakeAt, next (l.engine.replies.status handle), c.registered, false⟩) :
    Valid log l' := by
  have hs := hv.sound i c hc
  refine hv.goOn hc hclients rfl ?_ hreplies hmanned
  refine hs.go hhere hprogram (l.engine.replies.status handle) wakeAt (fun _ => .rfl)
    hs.registered nofun ?_
  intro own phase hallows hstands
  cases phase with
  | holding id handle =>
    obtain rfl := hallows
    obtain ⟨hregistered, hown, hlog⟩ := hstands
    exact ⟨hregistered, hown, hlog, fun reply h => hv.told hlog h⟩
  | _ => cases hallows

/-- Only a request that is registered withdraws, and it withdraws its own registration. -/
theorem Valid.turn_withdrawn {next : Unit → Program (Calling P.Route κ) Replied}
    (hprogram : c.program = .call (.withdraw id handle) next)
    (hreplies : l'.engine.replies = l.engine.replies.drop id handle)
    (hclients : l'.clients = l.clients.set i ⟨wakeAt, next (), none, false⟩) : Valid log l' := by
  have hs := hv.sound i c hc
  obtain ⟨own, phase, hallows, hstands⟩ := hs.exists_asked hhere hprogram rfl
  have hregistered : c.registered = some (id, handle) := by
    cases phase with
    | holding | told =>
      obtain ⟨rfl, rfl⟩ := hallows
      exact hstands.1
    | _ => cases hallows
  refine hv.letGo hc hclients hregistered ?_ hreplies hmanned
  refine hs.go hhere hprogram () wakeAt (fun _ => .rfl) nofun nofun ?_
  intro own phase hallows hstands
  cases phase with
  | holding => exact ⟨rfl, nofun⟩
  | told id' handle' status =>
    obtain ⟨-, hown, -, htold⟩ := hstands
    refine ⟨rfl, fun reply h => ?_⟩
    obtain ⟨a, ha, hsame⟩ := htold reply (Option.some.inj h)
    exact ⟨_, a, rfl, hown, ha, hsame⟩
  | _ => cases hallows

theorem Valid.turn (hprogram : c.program = .call op next)
    (hturn : Turn l.engine.replies c.registered op answer l'.engine.replies registered)
    (hclients : l'.clients = l.clients.set i ⟨wakeAt, next answer, registered, false⟩) :
    Valid (log ++ l.seen (.client i)) l' := by
  have hquiet : (∀ id, op = .register id → (l.engine.replies.register id).1 = none) →
      log ++ l.seen (.client i) = log := by
    intro hop
    cases op <;> simp_all [seen, waiter?]
  -- one lemma for each turn, all of them on what the client's phase allows
  generalize hreplies : l'.engine.replies = t at hturn
  cases hturn with
  | plain hop =>
    rw [hquiet (by rintro id rfl; cases hop)]
    exact hv.turn_plain hc hhere hmanned hprogram hop hreplies hclients
  | @granted id handle _ hgranted =>
    have hseen : l.seen (.client i) = [.registered ⟨i, id, handle⟩] := by
      simp [seen, waiter?, hc, hprogram, hgranted]
    rw [hseen]
    exact hv.turn_granted hc hhere hmanned hprogram (hreplies ▸ hgranted) hclients
  | refused hrefused =>
    rw [hquiet (by rintro _ ⟨⟩; rw [hrefused])]
    exact hv.turn_refused hc hhere hmanned hprogram hreplies hclients
  | told =>
    rw [hquiet nofun]
    exact hv.turn_told hc hhere hmanned hprogram hreplies hclients
  | withdrawn =>
    rw [hquiet nofun]
    exact hv.turn_withdrawn hc hhere hmanned hprogram hreplies hclients

end
end

/-! ### Clients come and go -/

theorem Valid.fresh (hv : Valid log l) (x : Happening P) (hx : x ∈ log) :
    ¬ x.Of l.clients.length :=
  fun hof => Nat.lt_irrefl _ (hv.known x hx _ hof)

/-- A new client is not registered yet. -/
theorem Valid.come (hv : Valid log l) {p : Program (Calling P.Route κ) Replied}
    (hmore : ∀ x ∈ more, ∃ m, x = .asked l.clients.length m)
    (hsound : Client.Sound (log ++ more) l.clients.length ⟨l.now, p, none, false⟩) :
    Valid (log ++ more) (l.addClient p).2 := by
  -- to ask is neither to be registered nor to be answered
  have hquiet : ∀ x ∈ more, x.arrival? = none ∧ x.waiter? = none := by
    intro x hx
    obtain ⟨m, rfl⟩ := hmore x hx
    exact ⟨rfl, rfl⟩
  have harrivals : arrivals (log ++ more) = arrivals log := by
    simpa [arrivals] using fun x hx => (hquiet x hx).1
  have hwaiters : waiters (log ++ more) = waiters log := by
    simpa [waiters] using fun x hx => (hquiet x hx).2
  have harrived : ∀ a, .arrived a ∈ log ++ more → .arrived a ∈ log := by
    intro a ha
    rw [← Happening.mem_arrivals, harrivals] at ha
    exact Happening.mem_arrivals.mp ha
  have hregistered : ∀ r, .registered r ∈ log ++ more → .registered r ∈ log := by
    intro r hr
    rw [← Happening.mem_waiters, hwaiters] at hr
    exact Happening.mem_waiters.mp hr
  exact
    { manned := by
        rw [harrivals]
        exact hv.manned.mono hv.manned.staffed (fun _ _ => id) (.refl _)
      sound := by
        intro i c hc
        rcases getElem?_concat_iff.mp hc with hc | ⟨rfl, rfl⟩
        · refine (hv.sound i c hc).mono fun x hx hof => ?_
          obtain ⟨m, rfl⟩ := hmore x hx
          exact absurd hof.symm (Nat.ne_of_lt (lt_length_of_getElem? hc))
        · exact hsound
      known := by
        intro x hx i hof
        show i < (l.clients ++ [_]).length
        rw [List.length_append]
        rcases List.mem_append.mp hx with hx | hx
        · exact Nat.lt_succ_of_lt (hv.known x hx i hof)
        · obtain ⟨m, rfl⟩ := hmore x hx
          exact hof ▸ Nat.lt_succ_self _
      clients_once := hwaiters ▸ hv.clients_once
      handles_once := hwaiters ▸ hv.handles_once
      handles_lt := fun r hr => hv.handles_lt r (hregistered r hr)
      ids_distinct := hv.ids_distinct
      held := by
        intro id handle hp
        obtain ⟨i, c, hc, hheld⟩ := hv.held id handle hp
        exact ⟨i, c, getElem?_concat_iff.mpr (.inl hc), hheld⟩
      unanswered := fun id handle hp a ha => hv.unanswered id handle hp a (harrived a ha)
      answered := fun handle reply h => hv.answered_append _ h
      arrived := fun a ha => hv.arrived_append _ (harrived a ha)
      handed_once := harrivals ▸ hv.handed_once }

theorem Valid.ask (hv : Valid log l) (publisher : Publisher P.Route κ) (options : RequestOptions)
    (m : Message P.Route) :
    Valid (log ++ [.asked l.clients.length m])
      (l.addClient (Calling.request publisher options m)).2 := by
  refine hv.come (fun x hx => ⟨m, List.mem_singleton.mp hx⟩) ⟨nofun, nofun, ?_, ?_⟩
  · intro m' hm' _
    rcases List.mem_append.mp hm' with hm' | hm'
    · exact absurd rfl (hv.fresh _ hm')
    · obtain ⟨-, rfl⟩ := Happening.asked.inj (List.mem_singleton.mp hm')
      refine ⟨.asking, Calling.asks_request publisher options m', rfl, fun r hr => ?_⟩
      rcases List.mem_append.mp hr with hr | hr
      · exact hv.fresh _ hr
      · cases List.mem_singleton.mp hr
  · exact fun hnone => absurd List.mem_concat_self (hnone m)

theorem Valid.join (hv : Valid log l) {p : Program (Calling P.Route κ) Replied} (hp : Plain p) :
    Valid log (l.addClient p).2 := by
  rw [← List.append_nil log]
  refine hv.come (fun x hx => absurd hx List.not_mem_nil) ⟨nofun, nofun, ?_, ?_⟩
  · intro m hm
    rw [List.append_nil] at hm
    exact absurd rfl (hv.fresh _ hm)
  · rw [List.append_nil]
    exact fun _ => ⟨hp, rfl, fun r hr => hv.fresh _ hr⟩

theorem Valid.abandon (hv : Valid log l) (i : Nat) : Valid log (l.abandon i) := by
  unfold Live.abandon
  cases hc : l.clients[i]? with
  | none => exact hv
  | some c =>
    have hs := hv.sound i c hc
    have hsound : Client.Sound log i { c with abandoned := true, registered := none } :=
      ⟨nofun, fun _ => rfl, nofun, fun hnone => ⟨(hs.plain hnone).1, rfl, (hs.plain hnone).2.2⟩⟩
    have hmanned : ∀ replies holder (clients : List (Client P κ Replied)),
        Manned { l with
          engine := { l.engine with replies := replies }
          holder := holder
          clients := clients } (arrivals log) := by
      intro replies holder clients
      exact hv.manned.mono (hv.manned.staffed.congr fun _ => rfl) (fun _ _ => id) (.refl _)
    cases hregistered : c.registered with
    | none =>
      exact hv.goOn hc rfl hregistered.symm hsound (by simp only [hregistered]) (hmanned ..)
    | some entry =>
      exact hv.letGo hc rfl hregistered hsound (by simp only [hregistered]) (hmanned ..)

/-! ### Whatever happens -/

theorem Valid.step (hv : Valid log l) {ev : LiveStep} (h : l.step ev = some l') :
    Valid (log ++ l.seen ev) l' := by
  cases ev with
  | task i =>
    rcases stepTask_cases h with ⟨hnone, hcalm⟩ |
      ⟨a, hsome, hfound, hhandle, hreplies, hclients, hmanned⟩
    · rw [seen, hnone]
      simpa using hv.calm hcalm
    · rw [seen, hsome]
      exact hv.hand hclients (hmanned _ hv.manned) hfound hhandle hreplies
  | client i =>
    obtain ⟨c, op, next, answer, wakeAt, registered, hc, hhere, hprogram, hturn, hclients,
      hmanned⟩ := stepClient_cases h
    exact hv.turn hc hhere (hmanned _ hv.manned) hprogram hturn hclients
  | heed i => simpa [seen] using hv.calm (calm_heed h)
  | receive i => simpa [seen] using hv.calm (calm_receive h)
  | elapse ms =>
    obtain rfl := Option.some.inj h
    show Valid (log ++ []) _
    rw [List.append_nil]
    exact hv.calm (.of_outline rfl (.refl _) rfl)

theorem Valid.unfolds (hv : Valid log l) (h : l.Unfolds more l') : Valid (log ++ more) l' := by
  induction h with
  | start => simpa using hv
  | step h hstep ih =>
    rw [← List.append_assoc]
    exact ih.step hstep
  | ask h publisher options m ih =>
    rw [← List.append_assoc]
    exact ih.ask publisher options m
  | join h hp ih => exact ih.join hp
  | abandon h i ih => exact ih.abandon i
  | others h hothers ih => exact ih.calm hothers.calm

end Live
end MessageDispatch
