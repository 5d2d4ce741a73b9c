import MessageDispatch.Proofs.Conversations

/-! Requests get their own replies. A request that is over holds no entry in the reply table, so a
reply that comes late finds nobody, or somebody else who has registered the correlation id since. -/
namespace MessageDispatch

open Happening (Answers arrivals)
open Calling (Asks Own Phase Plain Replied)

variable {P : Protocol} {κ : Type}

/-! ## Requests that are over -/

theorem Calling.Phase.Stands.released {log : List (Happening P)} {i : Nat} {own : String → Prop}
    {registered : Option (String × Nat)} {phase : Phase} {result : Replied}
    (h : phase.Stands log i own registered) (hends : phase.Ends result) : registered = none := by
  cases phase with
  | asking | refused | withdrawn => exact h.1
  | holding | told => cases hends

namespace Live

variable {log more : List (Happening P)} {l l' : Live P κ Replied} {i : Nat}

/-- Who is done, or has walked away, is registered under nothing. -/
theorem Valid.released (hv : Valid log l) {c : Client P κ Replied} (hc : l.clients[i]? = some c)
    (hover : c.abandoned = true ∨ ∃ result, c.program = .done result) : c.registered = none := by
  have hs := hv.sound i c hc
  by_cases hasked : ∃ m, .asked i m ∈ log
  · obtain ⟨m, hm⟩ := hasked
    cases habandoned : c.abandoned with
    | true => exact hs.abandoned habandoned
    | false =>
      obtain ⟨result, hprogram⟩ := hover.resolve_left (by simp [habandoned])
      obtain ⟨phase, hasks, hstands⟩ := hs.asks m hm habandoned
      rw [hprogram] at hasks
      exact hstands.released hasks
  · exact (hs.plain (not_exists.mp hasked)).2.1

theorem Over.ne_of_stepClient (hover : l.Over i) {j : Nat} (h : l.stepClient j = some l') :
    i ≠ j := by
  rintro rfl
  obtain ⟨c, hc, hdone⟩ := hover
  obtain ⟨d, _, _, _, _, _, hd, hhere, hprogram, -⟩ := stepClient_cases h
  obtain rfl := Option.some.inj (hc.symm.trans hd)
  rcases hdone with habandoned | ⟨result, hdone⟩
  · exact absurd (habandoned.symm.trans hhere) nofun
  · exact absurd (hdone.symm.trans hprogram) nofun

/-- It is over for good. -/
theorem Over.step (hover : l.Over i) {ev : LiveStep} (h : l.step ev = some l') : l'.Over i := by
  have hother : ∀ j, l.stepClient j = some l' → i ≠ j := fun _ => hover.ne_of_stepClient
  obtain ⟨c, hc, hdone⟩ := hover
  cases ev with
  | task j =>
    rcases stepTask_cases h with ⟨-, hcalm⟩ | ⟨a, -, -, -, -, hclients, -⟩
    · exact ⟨c, hcalm.clients ▸ hc, hdone⟩
    · exact ⟨c, hclients ▸ hc, hdone⟩
  | client j =>
    obtain ⟨d, _, _, _, _, _, hd, -, -, -, hclients, -⟩ := stepClient_cases h
    refine ⟨c, ?_, hdone⟩
    rw [hclients]
    exact (getElem?_set_iff hd).mpr (.inr ⟨hother j h, hc⟩)
  | heed j => exact ⟨c, (calm_heed h).clients ▸ hc, hdone⟩
  | receive j => exact ⟨c, (calm_receive h).clients ▸ hc, hdone⟩
  | elapse ms =>
    obtain rfl := Option.some.inj h
    exact ⟨c, hc, hdone⟩

theorem Over.addClient (hover : l.Over i) (p : Program (Calling P.Route κ) Replied) :
    (l.addClient p).2.Over i := by
  obtain ⟨c, hc, hdone⟩ := hover
  exact ⟨c, getElem?_concat_iff.mpr (.inl hc), hdone⟩

theorem Over.abandon (hover : l.Over i) (j : Nat) : (l.abandon j).Over i := by
  obtain ⟨c, hc, hdone⟩ := hover
  unfold Live.abandon
  cases hd : l.clients[j]? with
  | none => exact ⟨c, hc, hdone⟩
  | some d =>
    by_cases hij : i = j
    · exact ⟨_, (getElem?_set_iff hd).mpr (.inl ⟨hij, rfl⟩), .inl rfl⟩
    · exact ⟨c, (getElem?_set_iff hd).mpr (.inr ⟨hij, hc⟩), hdone⟩

/-- No reply is handed to a request that is over. -/
theorem Valid.late_step (hv : Valid log l) (hover : l.Over i) {r : Waiter}
    (hr : .registered r ∈ log) (hclient : r.client = i) {ev : LiveStep} {a : Arrival}
    (ha : .arrived a ∈ l.seen ev) (hstep : l.step ev = some l') : a.handle ≠ some r.handle := by
  intro hhandle
  cases ev with
  | task j =>
    rcases stepTask_cases hstep with ⟨hnone, -⟩ | ⟨b, hsome, -, hb, -⟩
    · simp [seen, hnone] at ha
    · rw [seen, hsome] at ha
      obtain rfl := Happening.arrived.inj (List.mem_singleton.mp ha)
      -- the entry that the reply found is still held, and by this very request
      have hpending := mem_of_lookup (hb.symm.trans hhandle)
      obtain ⟨k, c, hc, hheld, hregistered⟩ := hv.registered_of_pending hpending
      have heq := hv.eq_of_handle hr hregistered rfl
      obtain rfl : k = i := (congrArg Waiter.client heq).symm.trans hclient
      obtain ⟨d, hd, hdone⟩ := hover
      obtain rfl := Option.some.inj (hc.symm.trans hd)
      exact absurd (hheld.symm.trans (hv.released hc hdone)) (Option.some_ne_none _)
  | client j => simp [seen] at ha
  | heed | receive | elapse => cases ha

/-- What a client did is put down when the client takes a step. -/
theorem eq_of_mem_seen {ev : LiveStep} {x : Happening P} (hx : x ∈ l.seen ev) (hof : x.Of i) :
    ev = .client i := by
  cases ev with
  | task j =>
    obtain ⟨a, -, rfl⟩ := List.mem_map.mp hx
    cases hof
  | client j =>
    obtain ⟨r, hr, rfl⟩ := List.mem_map.mp hx
    obtain ⟨c, -, hr⟩ := Option.bind_eq_some_iff.mp (Option.mem_toList.mp hr)
    split at hr
    · obtain ⟨handle, -, rfl⟩ := Option.map_eq_some_iff.mp hr
      exact congrArg LiveStep.client hof
    · cases hr
  | heed | receive | elapse => cases hx

theorem Over.quiet (hover : l.Over i) (h : l.Unfolds more l') :
    l'.Over i ∧ ∀ x ∈ more, ¬ x.Of i := by
  induction h with
  | start => exact ⟨hover, fun x hx => absurd hx List.not_mem_nil⟩
  | @step log l l' ev h hstep ih =>
    obtain ⟨hover, hquiet⟩ := ih
    refine ⟨hover.step hstep, fun x hx hof => ?_⟩
    rcases List.mem_append.mp hx with hx | hx
    · exact hquiet x hx hof
    · obtain rfl := eq_of_mem_seen hx hof
      exact hover.ne_of_stepClient hstep rfl
  | @ask log l h publisher options m ih =>
    obtain ⟨hover, hquiet⟩ := ih
    refine ⟨hover.addClient _, fun x hx hof => ?_⟩
    rcases List.mem_append.mp hx with hx | hx
    · exact hquiet x hx hof
    · obtain rfl := List.mem_singleton.mp hx
      obtain ⟨c, hc, -⟩ := hover
      exact absurd hof.symm (Nat.ne_of_lt (lt_length_of_getElem? hc))
  | join h hp ih => exact ⟨ih.1.addClient _, ih.2⟩
  | abandon h j ih => exact ⟨ih.1.abandon j, ih.2⟩
  | others h hothers ih =>
    obtain ⟨⟨c, hc, hdone⟩, hquiet⟩ := ih
    exact ⟨⟨c, hothers.clients ▸ hc, hdone⟩, hquiet⟩

theorem Valid.late (hv : Valid log l) (hover : l.Over i) (h : l.Unfolds more l') (a : Arrival)
    (ha : .arrived a ∈ more) (r : Waiter) (hr : .registered r ∈ log ++ more)
    (hclient : r.client = i) : a.handle ≠ some r.handle := by
  -- it was registered, if at all, before it was over
  replace hr : .registered r ∈ log :=
    (List.mem_append.mp hr).resolve_right fun hr => (hover.quiet h).2 _ hr hclient
  induction h with
  | start => exact absurd ha List.not_mem_nil
  | step h hstep ih =>
    rcases List.mem_append.mp ha with ha | ha
    · exact ih ha
    · exact (hv.unfolds h).late_step (hover.quiet h).1 (List.mem_append_left _ hr) hclient ha hstep
  | ask h publisher options m ih =>
    exact ih ((List.mem_append.mp ha).resolve_right fun h => by simp at h)
  | join h hp ih => exact ih ha
  | abandon h j ih => exact ih ha
  | others h hothers ih => exact ih ha

/-! ## What a request comes to -/

theorem Valid.replied (hv : Valid log l) {m : Message P.Route} {reply : Decoded}
    (hm : .asked i m ∈ log) (h : l.result? i = some (.ok (some reply))) :
    ∃ r a, r.client = i ∧ Own m r.id ∧ Answers log r a ∧ a.reply = reply := by
  obtain ⟨c, hc, hhere, hprogram⟩ := of_result? h
  obtain ⟨phase, hasks, hstands⟩ := (hv.sound i c hc).asks m hm hhere
  rw [hprogram] at hasks
  cases phase with
  | asking => exact absurd rfl (hasks _)
  | refused id => cases hasks
  | holding | told => cases hasks
  | withdrawn status => exact hstands.2 reply (hasks reply rfl)

/-- A reply that answers two requests is one reply to one request. -/
theorem Valid.apart (hv : Valid log l) {r r' : Waiter} {a a' : Arrival} (h : Answers log r a)
    (h' : Answers log r' a') (hsame : a.delivery = a'.delivery ∨ r.client = r'.client) :
    r = r' ∧ a = a' := by
  have harrived := Happening.mem_arrivals.mpr h.arrived
  have harrived' := Happening.mem_arrivals.mpr h'.arrived
  rcases hsame with hdelivery | hclient
  · obtain ⟨j, hj⟩ := List.mem_iff_getElem?.mp harrived
    obtain ⟨k, hk⟩ := List.mem_iff_getElem?.mp harrived'
    obtain rfl := eq_of_nodup_map hv.manned.once hj hk hdelivery
    obtain rfl := Option.some.inj (hj.symm.trans hk)
    have hhandle := Option.some.inj (h.handle.symm.trans h'.handle)
    exact ⟨hv.eq_of_handle h.registered h'.registered hhandle, rfl⟩
  · obtain rfl := hv.eq_of_client h.registered h'.registered hclient
    exact ⟨rfl, eq_of_nodup_filterMap hv.handed_once harrived harrived' h.handle h'.handle⟩

theorem Valid.found_iff (hv : Valid log l) {a : Arrival} (ha : .arrived a ∈ log) :
    a.found = true ↔ ∃ r, Answers log r a := by
  obtain ⟨hfound, hto⟩ := hv.arrived a ha
  rw [hfound]
  constructor
  · intro h
    obtain ⟨handle, hhandle⟩ := Option.isSome_iff_exists.mp h
    obtain ⟨r, hr, -⟩ := hto handle hhandle
    exact ⟨r, hr⟩
  · rintro ⟨r, hr⟩
    rw [hr.handle]
    rfl

/-- A request for a correlation id that is waited for comes to an error at once. -/
theorem Valid.refused (hv : Valid log l) {m : Message P.Route} {c : Client P κ Replied}
    {id : String} {next : Option Nat → Program (Calling P.Route κ) Replied} {handle : Nat}
    (hm : .asked i m ∈ log) (hc : l.clients[i]? = some c) (hhere : c.abandoned = false)
    (hawake : c.wakeAt ≤ l.now) (hprogram : c.program = .call (.register id) next)
    (htaken : (id, handle) ∈ l.engine.replies.pending) :
    ∃ l', l.step (.client i) = some l' ∧ l'.engine.replies = l.engine.replies ∧
      l'.result? i = some (.error (.generic (ReplyTable.duplicateText id))) := by
  have hregister : l.engine.replies.register id = (none, l.engine.replies) := by
    rw [ReplyTable.register, ReplyTable.lookup_of_mem hv.ids_distinct htaken]
  have hnext : next none = .done (.error (.generic (ReplyTable.duplicateText id))) := by
    obtain ⟨phase, hasks, -⟩ := (hv.sound i c hc).asks m hm hhere
    rw [hprogram] at hasks
    obtain ⟨hallows, hnext⟩ := hasks
    cases phase with
    | asking => exact Calling.eq_of_asks_refused (hnext none)
    | _ => cases hallows
  have hawake : ¬ l.now < c.wakeAt := Nat.not_lt.mpr hawake
  refine ⟨{ l with clients := l.clients.modify i ({ · with program := next none }) }, ?_, rfl, ?_⟩
  · show l.stepClient i = _
    simp [stepClient, hc, hhere, hawake, hprogram, Live.answer, hregister]
  · have hawake : ¬ l.engine.now < c.wakeAt := hawake
    simp [result?, now, hc, hhere, hnext, hawake]

/-- Whoever waits for a reply is not done yet. -/
theorem Valid.size_eq_zero (hv : Valid log l) (hover : ∀ i m, .asked i m ∈ log → l.Over i) :
    l.engine.replies.size = 0 := by
  refine List.length_eq_zero_iff.mpr (List.eq_nil_iff_forall_not_mem.mpr ?_)
  rintro ⟨id, handle⟩ hp
  obtain ⟨i, c, hc, hheld, -⟩ := hv.registered_of_pending hp
  have hnone : c.registered = none := by
    by_cases hasked : ∃ m, .asked i m ∈ log
    · obtain ⟨m, hm⟩ := hasked
      obtain ⟨d, hd, hdone⟩ := hover i m hm
      obtain rfl := Option.some.inj (hc.symm.trans hd)
      exact hv.released hc hdone
    · exact ((hv.sound i c hc).plain (not_exists.mp hasked)).2.1
  exact absurd (hheld.symm.trans hnone) nofun

/-! ## The matching -/

/-- What is right about the requests and replies of a group that has come this far. -/
structure Matched (log : List (Happening P)) (l : Live P κ Replied) : Prop where
  /-- What a request returns as its reply came, after its registration, in a message that carries
  it under the request's own correlation id. -/
  replied : ∀ i m reply, .asked i m ∈ log → l.result? i = some (.ok (some reply)) →
    ∃ r a carrier, r.client = i ∧ Own m r.id ∧ Answers log r a ∧ a.reply = reply ∧
      l.engine.message? a.delivery = some carrier ∧ P.Carries carrier r.id reply
  /-- No message is handed over twice. -/
  once : ((arrivals log).map (·.delivery)).Nodup
  /-- No message answers two requests, and no request has two answers. -/
  apart : ∀ r a r' a', Answers log r a → Answers log r' a' →
    a.delivery = a'.delivery ∨ r.client = r'.client → r = r' ∧ a = a'
  /-- A reply finds somebody who waits for it exactly if it answers a request. -/
  found_iff : ∀ a, .arrived a ∈ log → (a.found = true ↔ ∃ r, Answers log r a)
  /-- What comes after a request was over is not for it, and finds nobody unless another request
  has registered the correlation id. -/
  late : ∀ i, l.Over i → ∀ more l', l.Unfolds more l' → ∀ a, .arrived a ∈ more →
    (∀ r, r.client = i → ¬ Answers (log ++ more) r a) ∧
      (a.found = true → ∃ r, r.client ≠ i ∧ Answers (log ++ more) r a)
  /-- Who asks for a correlation id that is waited for is refused, and the entry stays. -/
  refused : ∀ i m (c : Client P κ Replied) id next handle, .asked i m ∈ log →
    l.clients[i]? = some c → c.abandoned = false → c.wakeAt ≤ l.now →
      c.program = .call (.register id) next → (id, handle) ∈ l.engine.replies.pending →
        ∃ l', l.step (.client i) = some l' ∧ l'.engine.replies = l.engine.replies ∧
          l'.result? i = some (.error (.generic (ReplyTable.duplicateText id)))
  /-- Nothing is pending when no request is in progress. -/
  quiet : (∀ i m, .asked i m ∈ log → l.Over i) → l.engine.replies.size = 0

/-- Requests and replies are matched however a group goes on. -/
theorem Unfolds.matched {l₀ : Live P κ Replied} (h₀ : l₀.Untouched) (h : l₀.Unfolds log l) :
    Matched log l := by
  have hv : Valid log l := (Valid.start h₀).unfolds h
  refine ⟨?_, hv.manned.once, fun _ _ _ _ => hv.apart, fun _ => hv.found_iff, ?_,
    fun _ _ _ _ _ _ => hv.refused, hv.size_eq_zero⟩
  · intro i m reply hm hresult
    obtain ⟨r, a, hclient, hown, hanswers, rfl⟩ := hv.replied hm hresult
    obtain ⟨carrier, hcarrier, hcarries⟩ :=
      hv.manned.carried a (Happening.mem_arrivals.mpr hanswers.arrived)
    exact ⟨r, a, carrier, hclient, hown, hanswers, rfl, hcarrier, hanswers.id ▸ hcarries⟩
  · intro i hover more l' hmore a ha
    have hnot : ∀ r, r.client = i → ¬ Answers (log ++ more) r a :=
      fun r hclient hr => hv.late hover hmore a ha r hr.registered hclient hr.handle
    refine ⟨hnot, fun hfound => ?_⟩
    obtain ⟨r, hr⟩ := ((hv.unfolds hmore).found_iff (List.mem_append_right _ ha)).mp hfound
    exact ⟨r, fun hclient => hnot r hclient hr, hr⟩

/-! ## A reply that comes twice -/

section
variable {α : Type}

/-- Take steps one after another, and put down what is seen of them. -/
def play : List LiveStep → Live P κ α → Option (List (Happening P) × Live P κ α)
  | [], l => some ([], l)
  | ev :: evs, l =>
    (l.step ev).bind fun l' => (play evs l').map fun (more, l'') => (l.seen ev ++ more, l'')

end

theorem Unfolds.of_play {l₀ : Live P κ Replied} {evs : List LiveStep} (h : l₀.Unfolds log l)
    (hplay : play evs l = some (more, l')) : l₀.Unfolds (log ++ more) l' := by
  induction evs generalizing log l more with
  | nil =>
    obtain ⟨rfl, rfl⟩ := Prod.mk.inj (Option.some.inj hplay)
    rwa [List.append_nil]
  | cons ev evs ih =>
    obtain ⟨l₁, hstep, hplay⟩ := Option.bind_eq_some_iff.mp hplay
    obtain ⟨⟨rest, l₂⟩, hrest, hsame⟩ := Option.map_eq_some_iff.mp hplay
    obtain ⟨rfl, rfl⟩ := Prod.mk.inj hsame
    rw [← List.append_assoc]
    exact ih (h.step hstep) hrest

namespace Twice

def config : GroupConfig Nats.protocol.Route Unit :=
  { settings := .default, replyInbox := some "inbox", processing := [], telemetry := [],
    publisherMiddlewares := [] }

def start : Live Nats.protocol Unit Replied := .new config (.new 0 ())

def question : Message Nats.protocol.Route :=
  (Message.new (Nats.Route.mk "questions") default).withCorrelationId "c-1"

def answer : Message Nats.protocol.Route :=
  (Message.new (Nats.Route.mk "inbox") default).withCorrelationId "c-1"

/-- Somebody who answers twice. -/
def answerer : Program (Calling Nats.protocol.Route Unit) Replied :=
  (Calling.publishAll config.publisher [answer, answer]).bind fun _ => .done (.ok none)

def asked : Live Nats.protocol Unit Replied :=
  (start.addClient (Calling.request config.publisher ⟨1000, false⟩ question)).2

/-- The request is registered and published, both answers are taken in, and the second of them is
handed over when the request has returned. -/
def steps : List LiveStep :=
  List.replicate 3 (.client 0) ++ [.heed 0] ++ List.replicate 10 (.client 0) ++
    List.replicate 8 (.client 1) ++ [.heed 0, .receive 0, .heed 0, .receive 0] ++
      List.replicate 5 (.task 0) ++ List.replicate 2 (.client 0) ++ List.replicate 5 (.task 1)

def met : Live Nats.protocol Unit Replied := (asked.addClient answerer).2

/-- Is the reply of the request empty, and did an answer find nobody? -/
def ends : List (Happening Nats.protocol) × Live Nats.protocol Unit Replied → Bool
  | (more, l) =>
    match l.result? 0 with
    | some (.ok (some .empty)) => (arrivals more).map (·.found) == [true, false]
    | _ => false

theorem untouched : start.Untouched := untouched_new config false 0 () []

theorem unfolds_met : start.Unfolds [.asked 0 question] met := by
  have hanswerer : Plain answerer :=
    Program.within_bind (Calling.plain_publishAll ..) fun _ => trivial
  exact (Unfolds.ask .start config.publisher ⟨1000, false⟩ question).join hanswerer

theorem exists_ends : ∃ more l, play steps met = some (more, l) ∧
    l.result? 0 = some (.ok (some .empty)) ∧ (arrivals more).map (·.found) = [true, false] := by
  have hrun : (play steps met).any ends = true := by decide +kernel
  obtain ⟨⟨more, l⟩, hplay, hends⟩ := (Option.any_eq_true ..).mp hrun
  dsimp only [ends] at hends
  split at hends
  · rename_i hresult
    exact ⟨more, l, hplay, hresult, eq_of_beq hends⟩
  · cases hends

end Twice

/-- The request has the answer that came first. -/
theorem matched_twice : Twice.start.Untouched ∧ ∃ log l, Twice.start.Unfolds log l ∧
    l.result? 0 = some (.ok (some .empty)) ∧ (arrivals log).map (·.found) = [true, false] ∧
      ∃ r a, r.client = 0 ∧ r.id = "c-1" ∧ Answers log r a ∧ a.reply = .empty := by
  obtain ⟨more, l, hplay, hresult, hfound⟩ := Twice.exists_ends
  have hunfolds := Twice.unfolds_met.of_play hplay
  have hmatched := Unfolds.matched Twice.untouched hunfolds
  refine ⟨Twice.untouched, _, l, hunfolds, hresult, hfound, ?_⟩
  obtain ⟨r, a, -, hclient, hown, hanswers, hreply, -⟩ :=
    hmatched.replied 0 Twice.question .empty (List.mem_cons_self ..) hresult
  exact ⟨r, a, hclient, hown.eq_of_correlationId rfl (by decide), hanswers, hreply⟩

end Live
end MessageDispatch
