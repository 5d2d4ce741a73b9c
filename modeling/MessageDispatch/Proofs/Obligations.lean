import MessageDispatch.Proofs.FailureFree

/-! What a subscriber at work on a message still owes: the bodies that it is going to record, the
letters that it is going to send, and whether it is going to hand the message back. As long as the
engine answers as it does without failures, all of that is settled from the start, and each
operation pays a part of it. -/
namespace MessageDispatch

open Publishing (sent)

namespace Processing

variable {ρ κ α : Type}

/-! ## Answers without failures -/

/-- What an engine answers that no failure is due at, to a subscriber with these calls. -/
def Fair (calls : List (Call ρ κ)) : Event (Processing ρ κ) → Prop
  | ⟨.publishing op, answer⟩ => Publishing.Fair ⟨op, answer⟩
  | ⟨.calls, found⟩ => found = calls
  | ⟨.exit _ .ack, answer⟩ => answer = .ok (some .ack)
  | _ => True

/-- An answer of that kind. -/
def fairAnswer (calls : List (Call ρ κ)) (context : κ) :
    (op : Processing.Op ρ κ) → Processing.Answer op
  | .publishing (.ambient (.sleep _)) => ()
  | .publishing (.ambient .clock) => (0 : Nat)
  | .publishing (.ambient (.context _)) => context
  | .publishing (.ambient .getLocal) => (none : Option String)
  | .publishing (.ambient (.setLocal _)) => ()
  | .publishing .freshId => freshIdText 0
  | .publishing .wallClock => (0 : UInt64)
  | .publishing .fate => Fate.delivered
  | .publishing (.send _) => ()
  | .settle _ => .ok ()
  | .settlement => none
  | .log _ => ()
  | .calls => calls
  | .recordBody .. => ()
  | .recordForwarded .. => ()
  | .close => ()
  | .enter _ => ()
  | .exit .. => .ok (some .ack)
  | .resolve .. => true

theorem fair_fairAnswer (calls : List (Call ρ κ)) (context : κ) (op : Processing.Op ρ κ) :
    Fair calls ⟨op, fairAnswer calls context op⟩ := by
  cases op with
  | publishing op =>
    cases op with
    | freshId => exact genuine_freshIdText 0
    | fate => rfl
    | _ => trivial
  | calls => rfl
  | exit id outcome => cases outcome <;> first | rfl | trivial
  | _ => trivial

/-- Every program has a run without failures. -/
theorem exists_fair_run (calls : List (Call ρ κ)) (context : κ)
    (p : Program (Processing ρ κ) α) : ∃ t a, Runs p t a ∧ ∀ ev ∈ t, Fair calls ev := by
  induction p with
  | done a => exact ⟨[], a, .done a, List.forall_mem_nil _⟩
  | call op next ih =>
    obtain ⟨t, a, hruns, hfair⟩ := ih (fairAnswer calls context op)
    exact ⟨_, a, .call hruns, List.forall_mem_cons.mpr ⟨fair_fairAnswer calls context op, hfair⟩⟩

theorem fair_events {calls : List (Call ρ κ)} {t : List (Event (Processing ρ κ))}
    (h : ∀ ev ∈ t, Fair calls ev) : ∀ ev ∈ publishing.events t, Publishing.Fair ev := by
  intro ev hev
  obtain ⟨ev', hev', hsame⟩ := List.mem_filterMap.mp hev
  have hfair := h ev' hev'
  obtain ⟨op, answer⟩ := ev'
  cases op with
  | publishing op =>
    obtain rfl := Option.some.inj hsame
    exact hfair
  | _ => cases hsame

/-! ## Handing a message back -/

/-- Is the message settled after the operation? The broker settles it as it is asked to at the end
of the attempt, unless that skips it. -/
def Op.leaves (settled : Bool) : Processing.Op ρ κ → Bool
  | .settle _ => true
  | .exit _ outcome => settled || decide (outcome ≠ .skip)
  | _ => settled

/-- Does the operation hand the message back? -/
def Op.handsBack (settled : Bool) : Processing.Op ρ κ → Bool
  | .settle action => !settled && decide (action = .nack)
  | _ => false

/-- Is a message handed back by hand that is settled already, or not yet? -/
def returns : Bool → List (Event (Processing ρ κ)) → Bool
  | _, [] => false
  | settled, ev :: t => ev.op.handsBack settled || returns (ev.op.leaves settled) t

variable {t u : List (Event (Processing ρ κ))} {settled : Bool}

theorem leaves_of_not_settles {op : Processing.Op ρ κ} (h : op.settles = false) :
    op.leaves settled = settled := by
  cases op <;> first | rfl | cases h

theorem handsBack_of_not_settles {op : Processing.Op ρ κ} (h : op.settles = false) :
    op.handsBack settled = false := by
  cases op <;> first | rfl | cases h

theorem returns_append (h : ∀ ev ∈ t, ev.op.settles = false) :
    returns settled (t ++ u) = returns settled u := by
  induction t with
  | nil => rfl
  | cons ev t ih =>
    obtain ⟨hev, ht⟩ := List.forall_mem_cons.mp h
    rw [List.cons_append, returns, leaves_of_not_settles hev, handsBack_of_not_settles hev, ih ht,
      Bool.false_or]

/-- A message that is settled stays settled. -/
theorem returns_true : returns true t = false := by
  induction t with
  | nil => rfl
  | cons ev t ih =>
    obtain ⟨op, answer⟩ := ev
    cases op <;> simpa [returns, Op.leaves, Op.handsBack] using ih

/-- Before the end of the attempt, what counts is the first settlement by hand. -/
theorem returns_attempt (h : ∀ ev ∈ t, ev.op.isExit = false) (hu : returns false u = false) :
    returns false (t ++ u) = decide (t.findSome? asked? = some .nack) := by
  induction t with
  | nil => exact hu
  | cons ev t ih =>
    obtain ⟨hev, ht⟩ := List.forall_mem_cons.mp h
    obtain ⟨op, answer⟩ := ev
    cases op with
    | settle action =>
      show (!false && decide (action = .nack) || returns true (t ++ u)) =
        decide (some action = some .nack)
      simp [returns_true]
    | exit => cases hev
    | _ => exact ih ht

/-! ## Debts -/

/-- A run on a message with this correlation id pays what is owed. -/
structure Pays (id : String) (calls : List (Call ρ κ)) (settled : Bool) (x : Reaction ρ)
    (t : List (Event (Processing ρ κ))) : Prop where
  bodies : recordedBodies t = x.bodies
  known : ∀ r ∈ x.bodies, r.1 < calls.length
  sends : Sends id x.letters t
  returned : returns settled t = x.returned
  stays : ∀ ev ∈ t, ev.op ≠ .close
  outcomes : ∀ ev ∈ t, ∀ i outcome, ev.op = .exit i outcome → outcome ∈ [.ack, .reject, .skip]

/-- Every run without failures pays it. -/
def Owes (id : String) (calls : List (Call ρ κ)) (settled : Bool) (p : Program (Processing ρ κ) α)
    (x : Reaction ρ) : Prop :=
  ∀ t a, Runs p t a → (∀ ev ∈ t, Fair calls ev) → Pays id calls settled x t

/-- What an operation pays of a debt, and what of it is left. -/
structure Paid (id : String) (calls : List (Call ρ κ)) (settled : Bool)
    (ev : Event (Processing ρ κ)) (x left : Reaction ρ) : Prop where
  bodies : x.bodies = recordedBodies [ev] ++ left.bodies
  known : ∀ r ∈ recordedBodies [ev], r.1 < calls.length
  letters : x.letters = (sent (publishing.events [ev])).map (·.letter) ++ left.letters
  under : ∀ m ∈ sent (publishing.events [ev]), m.Under id
  returned : x.returned = (ev.op.handsBack settled || left.returned)
  once : ev.op.handsBack settled = true → left.returned = false
  stays : ev.op ≠ .close
  outcome : ∀ i outcome, ev.op = .exit i outcome → outcome ∈ [.ack, .reject, .skip]

variable {id : String} {calls : List (Call ρ κ)} {x : Reaction ρ} {op : Processing.Op ρ κ}
  {next : Processing.Answer op → Program (Processing ρ κ) α} {answer : Processing.Answer op}

/-- Each operation pays a part, and what is left is settled again. -/
theorem Owes.call (context : κ) (h : Owes id calls settled (.call op next) x)
    (hanswer : Fair calls ⟨op, answer⟩) :
    ∃ left, Owes id calls (op.leaves settled) (next answer) left ∧
      Paid id calls settled ⟨op, answer⟩ x left := by
  obtain ⟨u, b, hu, hufair⟩ := exists_fair_run calls context (next answer)
  have hpays (t : List (Event (Processing ρ κ))) (a : α) (ht : Runs (next answer) t a)
      (hfair : ∀ ev ∈ t, Fair calls ev) : Pays id calls settled x (⟨op, answer⟩ :: t) :=
    h _ a (.call ht) (List.forall_mem_cons.mpr ⟨hanswer, hfair⟩)
  have hbodies (t : List (Event (Processing ρ κ))) : recordedBodies (⟨op, answer⟩ :: t) =
      recordedBodies [⟨op, answer⟩] ++ recordedBodies t := recordedBodies_append (t := [_])
  have hsent (t : List (Event (Processing ρ κ))) : sent (publishing.events (⟨op, answer⟩ :: t)) =
      sent (publishing.events [⟨op, answer⟩]) ++ sent (publishing.events t) := by
    have hsplit : publishing.events (⟨op, answer⟩ :: t) =
        publishing.events [⟨op, answer⟩] ++ publishing.events t := publishing.events_append [_] t
    rw [hsplit, sent, List.filterMap_append]
    rfl
  have hone := hpays u b hu hufair
  -- a message that was just handed back is settled
  have honce (hback : op.handsBack settled = true) (t : List (Event (Processing ρ κ))) :
      returns (op.leaves settled) t = false := by
    have hsettled : op.leaves settled = true := by
      cases op <;> first | rfl | cases hback
    rw [hsettled, returns_true]
  refine ⟨⟨recordedBodies u, (sent (publishing.events u)).map (·.letter),
    returns (op.leaves settled) u⟩, fun t a ht hfair => ?_, ?_⟩
  · have hother := hpays t a ht hfair
    refine
      { bodies := ?_
        known := fun r hr => hone.known r ?_
        sends := ⟨?_, fun m hm => hother.sends.under m ?_⟩
        returned := ?_
        stays := (List.forall_mem_cons.mp hother.stays).2
        outcomes := (List.forall_mem_cons.mp hother.outcomes).2 }
    · have hsame := hother.bodies.trans hone.bodies.symm
      rw [hbodies t, hbodies u] at hsame
      exact List.append_cancel_left hsame
    · rw [← hone.bodies, hbodies]
      exact List.mem_append_right _ hr
    · have hsame := hother.sends.letters.trans hone.sends.letters.symm
      rw [hsent t, hsent u, List.map_append, List.map_append] at hsame
      exact List.append_cancel_left hsame
    · rw [hsent]
      exact List.mem_append_right _ hm
    · have hsame := hother.returned.trans hone.returned.symm
      rw [returns, returns] at hsame
      cases hback : op.handsBack settled with
      | false => simpa [hback] using hsame
      | true => exact (honce hback t).trans (honce hback u).symm
  · exact
      { bodies := hone.bodies.symm.trans (hbodies u)
        known := fun r hr => hone.known r (by
          rw [← hone.bodies, hbodies]
          exact List.mem_append_left _ hr)
        letters := hone.sends.letters.symm.trans (by rw [hsent, List.map_append])
        under := fun m hm => hone.sends.under m (by
          rw [hsent]
          exact List.mem_append_left _ hm)
        returned := hone.returned.symm
        once := fun hback => honce hback u
        stays := (List.forall_mem_cons.mp hone.stays).1
        outcome := (List.forall_mem_cons.mp hone.outcomes).1 }

/-- In the end nothing is owed. -/
theorem Owes.done {a : α} (h : Owes id calls settled (.done a) x) : x = ⟨[], [], false⟩ := by
  have hpays := h [] a (.done a) (List.forall_mem_nil _)
  obtain ⟨bodies, letters, returned⟩ := x
  obtain rfl : [] = bodies := hpays.bodies
  obtain rfl : [] = letters := hpays.sends.letters
  obtain rfl : false = returned := hpays.returned
  rfl

end Processing

/-! ## A message that is taken in hand -/

open Processing

section
variable {P : Protocol} {κ : Type} {s : Subscriber P κ} {publisher : Publisher P.Route κ}
  {id : String} {m : Message P.Route} {x : Reaction P.Route}

theorem Processing.recordedBodies_eq_nil_of {ρ κ : Type} {t : List (Event (Processing ρ κ))}
    (h : ∀ ev ∈ t, ∀ call body, ev.op ≠ .recordBody call body) : recordedBodies t = [] := by
  refine List.filterMap_eq_nil_iff.mpr fun ev hev => ?_
  obtain ⟨op, answer⟩ := ev
  cases op with
  | recordBody call body => exact absurd rfl (h _ hev call body)
  | _ => rfl

namespace Course

variable {raw : P.Raw} {t : List (Event (Processing P.Route κ))} {out : ProcessingOutcome}
  (c : Course s publisher raw t out)

theorem isOfReplies_of_isAmbient (op : Processing.Op P.Route κ) (h : op.isAmbient = true) :
    op.isOfReplies = true := by
  cases op <;> first | rfl | cases h

theorem isOfReplies_entering : ∀ ev ∈ c.entering, ev.op.isOfReplies = true := fun ev hev =>
  isOfReplies_of_isAmbient _ (c.ambient_entering ev hev)

theorem isOfReplies_after : ∀ ev ∈ c.concluding ++ c.leaving, ev.op.isOfReplies = true := by
  refine List.forall_mem_append.mpr ⟨fun ev hev => ?_, fun ev hev => ?_⟩
  · exact c.concludes.allowed (within_conclude ..) ev hev
  · exact isOfReplies_of_isAmbient _ (c.ambient_leaving ev hev)

/-- What holds of all that happens on the course of a message. -/
theorem forall_mem {p : Event (Processing P.Route κ) → Prop}
    (hreplies : ∀ ev : Event (Processing P.Route κ), ev.op.isOfReplies = true → p ev)
    (henter : p ⟨.enter c.id, ()⟩) (hcalls : p ⟨.calls, c.calls⟩)
    (hconsuming : ∀ ev ∈ c.consuming, p ev) (hexit : p c.exit) : ∀ ev ∈ t, p ev := by
  have hbefore : ∀ ev ∈ c.before, p ev :=
    List.forall_mem_cons.mpr ⟨hreplies _ rfl, List.forall_mem_append.mpr
      ⟨fun ev hev => hreplies ev (c.isOfReplies_entering ev hev),
        List.forall_mem_cons.mpr ⟨henter, List.forall_mem_cons.mpr ⟨hcalls, hconsuming⟩⟩⟩⟩
  have hafter : ∀ ev ∈ c.exit :: (c.concluding ++ c.leaving), p ev :=
    List.forall_mem_cons.mpr ⟨hexit, fun ev hev => hreplies ev (c.isOfReplies_after ev hev)⟩
  exact fun ev hev => List.forall_mem_append.mpr ⟨hbefore, hafter⟩ ev
    (Eq.subst (motive := (ev ∈ ·)) c.trace_split hev)

/-- Only the calls record bodies. -/
theorem recordedBodies_eq : recordedBodies t = recordedBodies c.consuming := by
  have hnone {u : List (Event (Processing P.Route κ))}
      (hu : ∀ ev ∈ u, ev.op.isOfReplies = true) : recordedBodies u = [] := by
    refine recordedBodies_eq_nil_of fun ev hev call body hop => ?_
    have hreplies := hu ev hev
    rw [hop] at hreplies
    cases hreplies
  have hbefore : recordedBodies c.before =
      recordedBodies c.entering ++ recordedBodies c.consuming := recordedBodies_append
  have hall : recordedBodies (c.before ++ c.exit :: (c.concluding ++ c.leaving)) =
      recordedBodies c.before ++ recordedBodies (c.concluding ++ c.leaving) := recordedBodies_append
  refine (congrArg recordedBodies c.trace_split).trans ?_
  rw [hall, hbefore, hnone c.isOfReplies_entering, hnone c.isOfReplies_after, List.append_nil,
    List.nil_append]

/-- The message is handed back if that is the first settlement by hand. -/
theorem returns_eq : returns false t = decide (c.consuming.findSome? asked? = some .nack) := by
  have hafter : returns false (c.exit :: (c.concluding ++ c.leaving)) = false := by
    have hrest : returns (c.exit.op.leaves false) ((c.concluding ++ c.leaving) ++ []) = false :=
      returns_append c.settles_after
    rw [List.append_nil] at hrest
    exact hrest
  have hbefore : c.before.findSome? asked? = c.consuming.findSome? asked? := by
    have hentering : c.entering.findSome? asked? = none := by
      refine List.findSome?_eq_none_iff.mpr fun ev hev => ?_
      have hambient := c.ambient_entering ev hev
      obtain ⟨op, answer⟩ := ev
      cases op with
      | settle => cases hambient
      | _ => rfl
    show (c.entering ++ _).findSome? asked? = _
    rw [List.findSome?_append, hentering]
    rfl
  refine (congrArg (returns false) c.trace_split).trans ?_
  rw [returns_attempt c.isExit_before hafter, hbefore]

end Course

/-- What a subscriber makes of a message is what it owes when it takes that in hand. -/
theorem Subscriber.Reacts.owes (h : s.Reacts id m.letter x) (hs : s.Steady id)
    (hplain : publisher.middlewares = []) (hm : m.Under id) (ids : FreshIds) :
    Owes id s.calls false (s.process publisher (P.build ids m)) x := by
  intro t out hruns hfair
  obtain ⟨c, hoffer⟩ := s.exists_course hs.telemetry hruns
  have hcalls : c.calls = s.calls := hfair _ c.calls_mem
  rw [hcalls] at hoffer
  have hshows := h m c.fresh ids c.consuming c.consumed hm rfl hoffer
  exact
    { bodies := c.recordedBodies_eq.trans hshows.bodies
      known := hshows.known
      sends := by
        rw [← hshows.letters]
        -- a reply is only there after a success, which the broker is told to ack
        refine c.sends hplain hm.nonempty hshows.correlationId (fun hok => ?_)
          (fair_events hfair)
        have hexit := hfair _ c.exit_mem
        have houtcome : Outcome.ofResult c.consumed.2 = .ack := by
          cases hresult : c.consumed.2 with
          | ok consumed => rfl
          | error err =>
            rw [hresult] at hok
            cases hok
        rw [Course.exit, houtcome] at hexit
        exact hexit
      returned := c.returns_eq.trans hshows.returned.symm
      stays := by
        refine c.forall_mem (fun ev hev hop => ?_) ?_ ?_ hshows.stays ?_
        · rw [hop] at hev
          cases hev
        · rintro ⟨⟩
        · rintro ⟨⟩
        · rintro ⟨⟩
      outcomes := by
        refine c.forall_mem (fun ev hev i outcome hop => ?_) (by simp) (by simp) ?_ ?_
        · rw [hop] at hev
          cases hev
        · intro ev hev i outcome hop
          have hexit := isExit_of_isOfConsuming _ (c.refines.allowed within_carry ev hev)
          rw [hop] at hexit
          cases hexit
        · intro i outcome hop
          obtain ⟨-, rfl⟩ := Processing.Op.exit.inj hop
          exact hshows.outcome }

/-- All that a subscriber comes to with a letter, it comes to whether it hands that back or not. -/
theorem Subscriber.Reacts.returned_eq {y : Reaction P.Route} (hx : s.Reacts id m.letter x)
    (hy : s.Reacts id m.letter y) (hm : m.Under id) (context : κ) : x.returned = y.returned := by
  obtain ⟨t, out, hruns, -⟩ := exists_fair_run s.calls context
    (offer s.name s.shortCircuit s.calls 0 (s.parse "" (P.build ⟨"", ""⟩ m)) none)
  exact (hx m _ _ t out hm rfl hruns).returned.trans (hy m _ _ t out hm rfl hruns).returned.symm

end

/-- The engine answers a subscriber at work in that way, as long as no failure is due. -/
theorem Engine.Ready.fair {P : Protocol} {κ : Type} {staff : List (Subscriber P κ)}
    {e : Engine P κ} {s : Subscriber P κ} {i : Nat} {scope : Scope} {d : Delivery P}
    {m : Message P.Route} (h : e.Ready staff) (hs : staff[i]? = some s)
    (hscope : scope.subscriber = .member i) (hd : e.deliveries[scope.delivery]? = some d)
    (hm : d.source.carried? = some m) (op : Processing.Op P.Route κ) :
    Fair s.calls ⟨op, (execProcessing op (e, scope)).1⟩ := by
  cases op with
  | publishing op =>
    cases op with
    | freshId => exact genuine_freshIdText _
    | fate =>
      show (execPublishing .fate (e, scope.item)).1 = .delivered
      simp only [execPublishing, h.clear.fates]
      rfl
    | _ => trivial
  | calls =>
    obtain ⟨s', hfound, rfl⟩ := h.exists_bare hscope hs
    show ((e.subscriber? scope.subscriber).map (·.calls)).getD [] = s'.calls
    rw [hfound]
    rfl
  | exit i outcome =>
    cases outcome with
    | ack => exact (ending_eq h.clear.settlements hd hm rfl i .ack).1
    | _ => trivial
  | _ => trivial

end MessageDispatch
