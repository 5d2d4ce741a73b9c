import Mathlib.Data.List.Induction
import MessageDispatch.Proofs.Workers

/-! What a dispatcher says about its subscription. A loss is announced once, however often it then
fails to subscribe or to receive, and the recovery once as well, with the first message that comes
again. So losses and recoveries take turns in all that a dispatcher announces. -/
namespace MessageDispatch

namespace Dispatcher

variable {μ : Type}

/-! ## Announcements -/

/-- Does the event say that subscribing or receiving failed? -/
def Event.fails : Event μ → Bool
  | .subscribeFailed | .receiveFailed => true
  | _ => false

/-- The line that an effect logs. -/
def Effect.line? : Effect μ → Option LogLine
  | .log line => some line
  | _ => none

/-- The lines among the effects that are about a lost subscription or a restored one. -/
def announcements (effects : List (Effect μ)) : List LogLine :=
  (effects.filterMap Effect.line?).filter fun line => line == lostLine || line == restoredLine

theorem announcements_append (effects more : List (Effect μ)) :
    announcements (effects ++ more) = announcements effects ++ announcements more := by
  simp [announcements]

/-- What there is to announce about an event, if the subscription was lost before or was not. -/
def due (lost : Bool) (event : Event μ) : List LogLine :=
  if event.fails && !lost then [lostLine]
  else if event.message?.isSome && lost then [restoredLine] else []

/-- An event that a dispatcher was told of, and what it did about it. -/
structure Entry (μ : Type) where
  event : Event μ
  effects : List (Effect μ)

/-- Everything that is announced in a history. -/
def announced (history : List (Entry μ)) : List LogLine :=
  history.flatMap fun e => announcements e.effects

theorem announced_concat (history : List (Entry μ)) (e : Entry μ) :
    announced (history ++ [e]) = announced history ++ announcements e.effects := by
  simp [announced]

theorem message?_of_fails {event : Event μ} (h : event.fails = true) : event.message? = none := by
  cases event <;> first | rfl | cases h

theorem fails_of_message? {event : Event μ} (h : event.message?.isSome) : event.fails = false := by
  cases event <;> first | rfl | cases h

namespace State

variable {s s' s₀ : State μ} {event : Event μ} {effects : List (Effect μ)}

/-! ## One step -/

theorem announcements_lose (s : State μ) :
    s.lose.1.lost = true ∧ announcements s.lose.2 = if s.lost then [] else [lostLine] := by
  unfold lose
  cases s.lost <;> exact ⟨rfl, rfl⟩

theorem announcements_receive (s : State μ) (m : μ) :
    (s.receive m).1.lost = false ∧
      announcements (s.receive m).2 = if s.lost then [restoredLine] else [] := by
  unfold receive assign
  cases s.lost <;> dsimp only <;> split <;> exact ⟨rfl, rfl⟩

theorem lost_complete (s : State μ) (task : Nat) : (s.complete task).lost = s.lost := by
  unfold complete
  cases s.phase <;> rfl

/-- An event is a failure, or brings a message, or changes nothing about the subscription. -/
theorem subscription_cases (h : s.step event = some (s', effects)) :
    (event.fails = true ∧ s' = s.lose.1 ∧ effects = s.lose.2) ∨
      (∃ m, event = .received m ∧ s' = (s.receive m).1 ∧ effects = (s.receive m).2) ∨
        (event.fails = false ∧ event.message? = none ∧ s'.lost = s.lost ∧
          announcements effects = []) := by
  have hgoes : ∀ (phase : Phase μ) (said : List (Effect μ)), announcements said = [] →
      some (s.goto phase, said) = some (s', effects) →
        s'.lost = s.lost ∧ announcements effects = [] := by
    rintro phase said hsaid h
    obtain ⟨rfl, rfl⟩ := Prod.mk.inj (Option.some.inj h)
    exact ⟨rfl, hsaid⟩
  cases event with
  | subscribeFailed | receiveFailed =>
    refine .inl ⟨rfl, ?_⟩
    cases hphase : s.phase <;> simp [step, hphase] at h
    exact Prod.mk.inj h.symm
  | received m =>
    refine .inr (.inl ⟨m, rfl, ?_⟩)
    cases hphase : s.phase <;> simp [step, hphase] at h
    exact Prod.mk.inj h.symm
  | completed task =>
    have hcompletes : (if s.inFlight.contains task then some (s.complete task, []) else none) =
        some (s', effects) := by
      cases hphase : s.phase <;> simpa only [step, hphase] using h
    obtain ⟨-, h⟩ := Option.ite_none_right_eq_some.mp hcompletes
    obtain ⟨rfl, rfl⟩ := Prod.mk.inj (Option.some.inj h)
    exact .inr (.inr ⟨rfl, rfl, lost_complete s task, rfl⟩)
  | workerFree =>
    cases hphase : s.phase <;> simp only [step, hphase] at h
    case holding m =>
      obtain ⟨-, h⟩ := Option.ite_none_right_eq_some.mp h
      obtain ⟨rfl, rfl⟩ := Prod.mk.inj (Option.some.inj h)
      exact .inr (.inr ⟨rfl, rfl, rfl, rfl⟩)
    all_goals cases h
  | shutdown | closed | subscribed | ended | resumed =>
    refine .inr (.inr ⟨rfl, rfl, ?_⟩)
    cases hphase : s.phase <;> simp only [step, hphase] at h <;>
      first | exact hgoes _ _ rfl h | cases h

/-- A step announces what is due, and the subscription is lost from a failure to a message. -/
theorem announces_step (h : s.step event = some (s', effects)) :
    announcements effects = due s.lost event ∧
      s'.lost = (event.fails || (s.lost && event.message?.isNone)) := by
  rcases subscription_cases h with ⟨hfails, rfl, rfl⟩ | ⟨m, rfl, rfl, rfl⟩ |
    ⟨hfails, hmessage, hlost, hsilent⟩
  · obtain ⟨hlost, hsaid⟩ := announcements_lose s
    cases hs : s.lost <;> simp [due, hfails, hlost, hsaid, hs, message?_of_fails hfails]
  · obtain ⟨hlost, hsaid⟩ := announcements_receive s m
    simp [due, Event.fails, Event.message?, hlost, hsaid]
  · simp [due, hfails, hmessage, hlost, hsilent]

/-- An announcement goes with every change between a lost subscription and a restored one. -/
theorem switches_step (h : s.step event = some (s', effects)) :
    (s'.lost = s.lost ∧ announcements effects = []) ∨
      (s'.lost = !s.lost ∧
        announcements effects = [if s.lost then restoredLine else lostLine]) := by
  obtain ⟨hsaid, hlost⟩ := announces_step h
  rw [hsaid, hlost, due]
  cases hfails : event.fails with
  | true => cases s.lost <;> simp [message?_of_fails hfails]
  | false => cases s.lost <;> cases event.message? <;> simp

/-! ## A run -/

/-- How a dispatcher can go on from a state, put down in a history. -/
inductive Run (s₀ : State μ) : List (Entry μ) → State μ → Prop where
  | start : Run s₀ [] s₀
  | step {history : List (Entry μ)} {s s' : State μ} {event : Event μ}
      {effects : List (Effect μ)} (h : Run s₀ history s)
      (hstep : s.step event = some (s', effects)) : Run s₀ (history ++ [⟨event, effects⟩]) s'

variable {history before during after : List (Entry μ)} {e : Entry μ} {workers : Workers}

theorem run_concat (h : Run s₀ (history ++ [e]) s') :
    ∃ s, Run s₀ history s ∧ s.step e.event = some (s', e.effects) := by
  generalize hall : history ++ [e] = all at h
  cases h with
  | start => simp at hall
  | step hrun hstep =>
    obtain ⟨rfl, rfl⟩ := List.append_singleton_inj.mp hall
    exact ⟨_, hrun, hstep⟩

/-- What comes first in a run is a run. -/
theorem Run.first (h : Run s₀ (before ++ after) s) : ∃ s', Run s₀ before s' := by
  induction after using List.reverseRecOn generalizing s with
  | nil => exact ⟨s, by simpa using h⟩
  | append_singleton after e ih =>
    rw [← List.append_assoc] at h
    obtain ⟨s', hrun, -⟩ := run_concat h
    exact ih hrun

/-- That many announcements, a loss and a recovery in turn. -/
def turns (n : Nat) : List LogLine :=
  (List.range n).map fun k => if k % 2 = 0 then lostLine else restoredLine

theorem turns_succ (n : Nat) :
    turns (n + 1) = turns n ++ [if n % 2 = 0 then lostLine else restoredLine] := by
  rw [turns, List.range_succ, List.map_append]
  rfl

/-- The last announcement was a loss if the subscription is lost. -/
theorem Run.turns (h : Run (.new workers) history s) :
    ∃ n, announced history = turns n ∧ s.lost = decide (n % 2 = 1) := by
  -- the flag is the parity of the announcements: both change together or not at all
  induction h with
  | start => exact ⟨0, rfl, rfl⟩
  | step h hstep ih =>
    obtain ⟨n, hturns, hlost⟩ := ih
    rw [announced_concat, hturns]
    rcases switches_step hstep with ⟨hsame, hsaid⟩ | ⟨hswitched, hsaid⟩
    · exact ⟨n, by rw [hsaid, List.append_nil], hsame.trans hlost⟩
    · rw [hlost] at hswitched hsaid
      refine ⟨n + 1, ?_, ?_⟩
      · rw [turns_succ, hsaid]
        rcases Nat.mod_two_eq_zero_or_one n with hn | hn <;> simp [hn]
      · rw [hswitched, ← decide_not]
        exact decide_eq_decide.mpr (by omega)

/-- A part of a history that begins at the start or after a message, and in which none comes. -/
structure Gap (before during : List (Entry μ)) : Prop where
  opens : ∀ e ∈ before.getLast?, e.event.message?.isSome
  silent : ∀ e ∈ during, e.event.message? = none

theorem Gap.first (h : Gap before (during ++ after)) : Gap before during :=
  ⟨h.opens, fun e he => h.silent e (List.mem_append_left _ he)⟩

/-- A history ends with a gap, if maybe an empty one. -/
theorem exists_gap (history : List (Entry μ)) :
    ∃ before during, history = before ++ during ∧ Gap before during := by
  induction history using List.reverseRecOn with
  | nil => exact ⟨[], [], rfl, nofun, List.forall_mem_nil _⟩
  | append_singleton history e ih =>
    cases hmessage : e.event.message? with
    | some m =>
      refine ⟨history ++ [e], [], (List.append_nil _).symm, ?_, List.forall_mem_nil _⟩
      intro e' he'
      rw [List.getLast?_concat, Option.mem_some_iff] at he'
      rw [← he', hmessage]
      rfl
    | none =>
      obtain ⟨before, during, rfl, hgap⟩ := ih
      exact ⟨before, during ++ [e], List.append_assoc .., hgap.opens,
        List.forall_mem_append.mpr ⟨hgap.silent, List.forall_mem_singleton.mpr hmessage⟩⟩

/-- Nothing is lost where a gap begins. -/
theorem Gap.restored (hgap : Gap before during) (h : Run (.new workers) before s) :
    s.lost = false := by
  cases h with
  | start => rfl
  | @step _ _ _ event _ _ hstep =>
    have hmessage : event.message?.isSome := hgap.opens _ (List.getLast?_concat ..)
    obtain ⟨m, hm⟩ := Option.isSome_iff_exists.mp hmessage
    rw [(announces_step hstep).2, fails_of_message? hmessage, hm]
    simp

/-- Does anything fail in this part of a history? -/
def broken (during : List (Entry μ)) : Bool := during.any (·.event.fails)

theorem Run.gap (h : Run (.new workers) (before ++ during) s) (hgap : Gap before during) :
    announced during = (if broken during then [lostLine] else []) ∧ s.lost = broken during := by
  -- from its end, as the flag before an event says whether anything has failed in the gap so far
  induction during using List.reverseRecOn generalizing s with
  | nil =>
    rw [List.append_nil] at h
    exact ⟨rfl, hgap.restored h⟩
  | append_singleton during e ih =>
    rw [← List.append_assoc] at h
    obtain ⟨s₁, hrun, hstep⟩ := run_concat h
    obtain ⟨hsaid, hlost⟩ := ih hrun hgap.first
    obtain ⟨hsaid', hlost'⟩ := announces_step hstep
    have hmessage : e.event.message? = none := hgap.silent e (by simp)
    rw [announced_concat, hsaid, hsaid', hlost', hlost, due, hmessage]
    cases hb : broken during <;> cases hf : e.event.fails <;> simp_all [broken]

/-- Tell a dispatcher of events one after another, and put down what it does. -/
def proceed : List (Event μ) → State μ → Option (List (Entry μ) × State μ)
  | [], s => some ([], s)
  | event :: events, s =>
    (s.step event).bind fun (s', effects) =>
      (proceed events s').map fun (more, s'') => (⟨event, effects⟩ :: more, s'')

theorem Run.proceed {events : List (Event μ)} {more : List (Entry μ)} (h : Run s₀ history s)
    (hproceed : State.proceed events s = some (more, s')) : Run s₀ (history ++ more) s' := by
  induction events generalizing history s more with
  | nil =>
    obtain ⟨rfl, rfl⟩ := Prod.mk.inj (Option.some.inj hproceed)
    rwa [List.append_nil]
  | cons event events ih =>
    obtain ⟨⟨s₁, effects⟩, hstep, hproceed⟩ := Option.bind_eq_some_iff.mp hproceed
    obtain ⟨⟨rest, s₂⟩, hrest, hsame⟩ := Option.map_eq_some_iff.mp hproceed
    obtain ⟨rfl, rfl⟩ := Prod.mk.inj hsame
    have hgoes := ih (h.step hstep) hrest
    rwa [List.append_assoc] at hgoes

/-- A dispatcher that cannot subscribe at first, and then loses its subscription before and after
it has received a message. -/
def mishaps : List (Event String) :=
  [.subscribeFailed, .resumed, .subscribed, .receiveFailed, .resumed, .subscribed, .received "one",
    .completed 0, .receiveFailed, .resumed, .subscribeFailed, .resumed, .subscribed,
    .received "two", .completed 1, .shutdown]

/-- It announces two losses and two recoveries. -/
theorem exists_mishaps : ∃ (history : List (Entry String)) (s : State String),
    Run (.new .one) history s ∧ history.map (·.event.fails) = mishaps.map Event.fails ∧
      announced history = turns 4 := by
  have hrun : (State.proceed mishaps (.new .one)).any (fun (history, _) =>
      history.map (·.event.fails) == mishaps.map Event.fails &&
        announced history == turns 4) = true := by decide
  obtain ⟨⟨history, s⟩, hproceed, hhistory⟩ := (Option.any_eq_true ..).mp hrun
  simp only [Bool.and_eq_true, beq_iff_eq] at hhistory
  exact ⟨history, s, Run.start.proceed hproceed, hhistory.1, hhistory.2⟩

end State
end Dispatcher

/-! ## The dispatchers of a group -/

namespace Live

open Dispatcher (announcements announcements_append)
open Dispatcher.State (Run)

variable {P : Protocol} {κ α : Type} {l l' l₀ : Live P κ α} {log : List (Deed P κ)}

/-- The lines about subscriptions in the log of a group. -/
def subscriptionLines (l : Live P κ α) : List LogLine :=
  l.engine.logged.filter fun line =>
    line == Dispatcher.lostLine || line == Dispatcher.restoredLine

theorem subscriptionLines_unsubscribe (l : Live P κ α) :
    l.unsubscribe.subscriptionLines = l.subscriptionLines := by
  unfold unsubscribe
  dsimp only
  split
  · simp [subscriptionLines, Engine.log, unsubscribeFailedLine, Dispatcher.lostLine,
      Dispatcher.restoredLine]
  · rfl

theorem subscriptionLines_begin (l : Live P κ α) (i : Nat) (r : Receiver P) (number q : Nat)
    (m : Message P.Route) : (l.begin i r number q m).subscriptionLines = l.subscriptionLines := by
  unfold begin
  split <;> rfl

theorem subscriptionLines_effects (i : Nat) (r : Receiver P)
    (effects : List (Dispatcher.Effect (Nat × Message P.Route))) (l : Live P κ α) :
    (effects.foldl (Live.effect i r) l).subscriptionLines =
      l.subscriptionLines ++ announcements effects := by
  induction effects generalizing l with
  | nil => exact (List.append_nil _).symm
  | cons effect effects ih =>
    have hfirst : (Live.effect i r l effect).subscriptionLines =
        l.subscriptionLines ++ announcements [effect] := by
      cases effect with
      | log line => exact List.filter_append ..
      | unsubscribe => exact (subscriptionLines_unsubscribe l).trans (List.append_nil _).symm
      | start number message =>
        exact (subscriptionLines_begin l i r number ..).trans (List.append_nil _).symm
    rw [List.foldl_cons, ih, hfirst, List.append_assoc, ← announcements_append]
    rfl

/-- What a dispatcher announces is what its group logs. -/
theorem subscriptionLines_tell {i : Nat} {r : Receiver P}
    {event : Dispatcher.Event (Nat × Message P.Route)} (h : l.tell i r event = some l') :
    ∃ s effects, r.state.step event = some (s, effects) ∧
      l'.subscriptionLines = l.subscriptionLines ++ announcements effects := by
  obtain ⟨⟨state, effects⟩, hstep, rfl⟩ := Option.map_eq_some_iff.mp h
  exact ⟨state, effects, hstep, subscriptionLines_effects ..⟩

/-- All that happened to each dispatcher of a group makes a run. -/
def Lived (l : Live P κ α) : Prop :=
  ∀ r ∈ l.receivers, ∃ workers history, Run (.new workers) history r.state

theorem Lived.congr (h : Lived l)
    (hreceivers : l'.receivers.map (·.core) = l.receivers.map (·.core)) : Lived l' := by
  intro r' hr'
  have hcore : r'.core ∈ l.receivers.map (·.core) :=
    hreceivers ▸ List.mem_map_of_mem (f := (·.core)) hr'
  obtain ⟨r, hr, hsame⟩ := List.mem_map.mp hcore
  obtain ⟨-, hstate⟩ := Prod.mk.inj hsame
  exact hstate ▸ h r hr

theorem Lived.hears (h : Lived l) (tasks : List (ProcessingTask P κ)) {i : Nat}
    {r r' : Receiver P} {event : Dispatcher.Event (Nat × Message P.Route)}
    (hhears : Hears { l with tasks := tasks } l' i r r' event) : Lived l' := by
  intro r'' hr''
  have hreceivers : l'.receivers = l.receivers.set i r' := hhears.receivers
  rw [hreceivers] at hr''
  rcases List.mem_or_eq_of_mem_set hr'' with hr'' | rfl
  · exact h r'' hr''
  · obtain ⟨workers, history, hrun⟩ := h r (List.mem_of_getElem? hhears.found)
    obtain ⟨effects, new, hstep, -⟩ := hhears.step
    exact ⟨workers, _, hrun.step hstep⟩

theorem Lived.step (h : Lived l) (hkept : Kept log l) {ev : LiveStep}
    (hstep : l.step ev = some l') : Lived l' := by
  have hreadied : ∀ {i r r'}, Readied l l' i r r' → Lived l' := fun hreadied =>
    h.congr (hreadied.receivers ▸ map_set_eq hreadied.found
      (Prod.ext hreadied.subscriber hreadied.state))
  cases ev with
  | task j =>
    obtain ⟨t, hends | ⟨t', op, hperforms⟩⟩ := task_cases hstep
    · have hmem : t ∈ l.tasks := List.mem_of_getElem? hends.found
      obtain ⟨r, hr⟩ : ∃ r, l.receivers[t.receiver]? = some r :=
        ⟨_, List.getElem?_eq_getElem (hkept.known t hmem)⟩
      obtain ⟨s, hs⟩ := hkept.staffed hr
      exact h.hears _ (hends.hears hr hs (hkept.inFlight hr hends.found))
    · exact h.congr (by rw [hperforms.rest])
  | client j =>
    obtain ⟨new, hreceivers, hnew⟩ := (enlists_stepClient hstep).receivers
    intro r hr
    rw [hreceivers] at hr
    rcases List.mem_append.mp hr with hr | hr
    · exact h r hr
    · obtain ⟨workers, -, -, hstate⟩ := hnew r hr
      exact ⟨.ofMax workers, [], hstate ▸ .start⟩
  | heed i =>
    obtain ⟨r, r', hready | ⟨event, -, hhears⟩⟩ := heed_cases (fun _ => hkept.staffed) hstep
    · exact hreadied hready
    · exact h.hears l.tasks hhears
  | receive i =>
    obtain ⟨r, r', ⟨-, hready⟩ | ⟨message, -, hhears⟩⟩ :=
      receive_cases (fun _ => hkept.staffed) hstep
    · exact hreadied hready
    · exact h.hears l.tasks hhears
  | elapse ms =>
    obtain rfl := Option.some.inj hstep
    exact h

/-- However a group goes on, whatever its dispatchers announce they announce in such a run. -/
theorem Goes.lived {config : GroupConfig P.Route κ} {engine : Engine P κ}
    (h : Goes Beside (Live.new config engine : Live P κ α) log l) : Lived l := by
  induction h with
  | start => exact fun r hr => absurd hr List.not_mem_nil
  | step hgoes hstep ih => exact ih.step ((kept_new config engine).goes hgoes) hstep
  | others _ hothers ih => exact ih.congr hothers.receivers

/-- However a group goes on, each of its dispatchers has a history, and whatever the dispatcher is
told next, the group logs what there is to announce after that: the loss with the first failure
since the last message, the recovery with the message that comes then. -/
theorem Goes.logs_due {config : GroupConfig P.Route κ} {engine : Engine P κ}
    (h : Goes Beside (Live.new config engine : Live P κ α) log l) {i : Nat} {r : Receiver P}
    (hr : l.receivers[i]? = some r) :
    ∃ workers before during, Run (.new workers) (before ++ during) r.state ∧
      Dispatcher.State.Gap before during ∧
      ∀ (l₁ l' : Live P κ α) (r₁ : Receiver P) event, r₁.state = r.state →
        l₁.tell i r₁ event = some l' →
          l'.subscriptionLines = l₁.subscriptionLines ++
            Dispatcher.due (Dispatcher.State.broken during) event := by
  obtain ⟨workers, history, hrun⟩ := h.lived r (List.mem_of_getElem? hr)
  obtain ⟨before, during, rfl, hgap⟩ := Dispatcher.State.exists_gap history
  refine ⟨workers, before, during, hrun, hgap, ?_⟩
  intro l₁ l' r₁ event hstate htell
  obtain ⟨s, effects, hstep, hlines⟩ := subscriptionLines_tell htell
  rw [hstate] at hstep
  rw [hlines, (Dispatcher.State.announces_step hstep).1, (hrun.gap hgap).2]

/-! ## A group whose broker fails -/

namespace Outage

/-- A group whose broker fails a subscription and a reception. -/
def start : Live Nats.protocol Unit Unit :=
  let engine := (Engine.registerAll Orders.config false [Orders.handler] (.new 0 ())).2.2
  let network := { Network.empty with subscribeFailures := 1, receiveFailures := 1 }
  .new Orders.config { engine with network := network }

/-- The dispatcher fails to subscribe, then subscribes and fails to receive, then subscribes again
and receives an order. -/
def steps : List LiveStep :=
  List.replicate 3 (.client 0) ++ [.heed 0, .client 0, .client 0, .elapse 60000] ++
    List.replicate 3 (.heed 0) ++ [.elapse 60000] ++ List.replicate 3 (.heed 0) ++
      List.replicate 4 (.client 0) ++ [.receive 0]

/-- Is there one dispatcher, which has announced one loss and one recovery? -/
def isRestored (l : Live Nats.protocol Unit Unit) : Bool :=
  l.receivers.length == 1 && l.subscriptionLines == [Dispatcher.lostLine, Dispatcher.restoredLine]

theorem exists_restored : ∃ log l r,
    Live.proceed steps (start.addClient Orders.seller).2 = some (log, l) ∧
      l.receivers[0]? = some r ∧
        l.subscriptionLines = [Dispatcher.lostLine, Dispatcher.restoredLine] := by
  have hrun : (Live.proceed steps (start.addClient Orders.seller).2).any
      (fun run => isRestored run.2) = true := by decide +kernel
  obtain ⟨⟨log, l⟩, hproceed, hends⟩ := (Option.any_eq_true ..).mp hrun
  simp only [isRestored, Bool.and_eq_true, beq_iff_eq] at hends
  obtain ⟨r, hr⟩ := List.length_eq_one_iff.mp hends.1
  exact ⟨log, l, r, hproceed, by rw [hr]; rfl, hends.2⟩

end Outage

end Live

/-! ## Losses and recoveries -/

namespace Dispatcher.State

variable {μ : Type} {s : State μ} {history : List (Entry μ)} {workers : Workers}

/-- What is right about all that a dispatcher has announced. -/
structure Announces (history : List (Entry μ)) : Prop where
  /-- Losses and recoveries take turns, and a loss is the first. -/
  alternating : ∃ n, announced history = State.turns n
  /-- However much fails until the next message, the loss is announced once. -/
  loss : ∀ before during after, history = before ++ during ++ after → Gap before during →
    announced during = if broken during then [lostLine] else []
  /-- The recovery is announced with the message that comes then. -/
  recovery : ∀ before during e after, history = before ++ during ++ e :: after →
    Gap before during → e.event.message?.isSome →
      announcements e.effects = if broken during then [restoredLine] else []

/-- Whatever happens to a dispatcher, it announces each loss of its subscription once, and each
recovery once. -/
theorem Run.announces (h : Run (.new workers) history s) : Announces history where
  alternating := by
    obtain ⟨n, hturns, -⟩ := h.turns
    exact ⟨n, hturns⟩
  loss := by
    rintro before during after rfl hgap
    obtain ⟨s', hrun⟩ := h.first
    exact (hrun.gap hgap).1
  recovery := by
    rintro before during e after rfl hgap hmessage
    rw [← List.singleton_append, ← List.append_assoc] at h
    obtain ⟨s', hrun⟩ := h.first
    obtain ⟨s₁, hrun, hstep⟩ := run_concat hrun
    rw [(announces_step hstep).1, (hrun.gap hgap).2, due, fails_of_message? hmessage, hmessage]
    simp

/-- What a dispatcher announces that is told of mishaps, and one of a group that has some. -/
theorem announces_mishaps :
    (∃ (history : List (Entry String)) (s : State String), Run (.new .one) history s ∧
      history.map (·.event.fails) = mishaps.map Event.fails ∧
      announced history = turns 4 ∧ Announces history) ∧
    ∃ log l r workers before during, Live.Goes Live.Beside Live.Outage.start log l ∧
      l.receivers[0]? = some r ∧ l.subscriptionLines = [lostLine, restoredLine] ∧
      Run (.new workers) (before ++ during) r.state ∧ Announces (before ++ during) ∧
      Gap before during ∧ ∀ event l', l.tell 0 r event = some l' →
        l'.subscriptionLines = [lostLine, restoredLine] ++ due (broken during) event := by
  obtain ⟨history, s, hrun, hfails, hannounced⟩ := exists_mishaps
  refine ⟨⟨history, s, hrun, hfails, hannounced, hrun.announces⟩, ?_⟩
  obtain ⟨log, l, r, hproceed, hr, hlines⟩ := Live.Outage.exists_restored
  have hjoined : Live.Goes Live.Beside Live.Outage.start []
      (Live.Outage.start.addClient Live.Orders.seller).2 :=
    .others .start (Live.beside_addClient ..)
  have hgoes : Live.Goes Live.Beside Live.Outage.start log l := hjoined.proceed hproceed
  obtain ⟨workers, before, during, hlived, hgap, hlogs⟩ := Live.Goes.logs_due hgoes hr
  refine ⟨log, l, r, workers, before, during, hgoes, hr, hlines, hlived, hlived.announces, hgap, ?_⟩
  intro event l' htell
  rw [← hlines]
  exact hlogs l l' r event rfl htell

end Dispatcher.State
end MessageDispatch
