import MessageDispatch.Proofs.Answering
import MessageDispatch.Proofs.Bookkeeping
import MessageDispatch.Proofs.Verdicts

/-! A settlement that the broker refuses. The attempt is over, but nothing else has changed: all
attempts are on record as before, the message can be settled again, nothing is sent for it, and the
refusal is what is reported. The next delivery of the message finds the attempt counted. -/
namespace MessageDispatch

open Processing

/-! ## The end of an attempt -/

section
variable {σ : Type} {call : Action → σ → Except String Unit × σ} {w : Watcher} {id : String}
  {outcome : Outcome} {a : Acker} {b : σ} {action : Action} {reason : String}

/-- Whoever settles a message that nobody has settled hears what the broker says. -/
theorem Acker.settle_of_pending (hpending : a.settlement = none) (hbacked : a.backed = true) :
    a.settle call action b =
      match (call action b).1 with
      | .ok _ => (.ok (), { a with settlement := some action }, (call action b).2)
      | .error reason => (.error ⟨action, reason⟩, a, (call action b).2) := by
  obtain ⟨settlement, backed, redelivering⟩ := a
  subst hpending hbacked
  rcases hcall : call action b with ⟨reason | ⟨⟩, b'⟩ <;> simp [settle, claim?, complete, hcall]

/-- A refusal leaves the watcher and the acker as they were. -/
theorem Attempt.exit_of_refused (hpending : a.settlement = none) (hbacked : a.backed = true)
    (hinstruction : instruction w id outcome = some action)
    (hrefused : (call action b).1 = .error reason) :
    exit call w id outcome a b = ⟨.error ⟨action, reason⟩, w, a, (call action b).2⟩ := by
  simp [exit, hinstruction, Acker.settle_of_pending hpending hbacked, hrefused]

/-- Who hears of a refusal has settled a message that nobody has settled, and heard the broker. -/
theorem Acker.refused_of_error {err : AckError} (h : (a.settle call action b).1 = .error err) :
    a.settlement = none ∧ a.backed = true ∧ err.action = action ∧
      (call action b).1 = .error err.reason := by
  obtain ⟨settlement, backed, redelivering⟩ := a
  cases settlement with
  | some settled => cases h
  | none =>
    cases backed with
    | false => cases h
    | true =>
      rw [Acker.settle_of_pending rfl rfl] at h
      cases hcall : (call action b).1 with
      | ok _ =>
        rw [hcall] at h
        cases h
      | error reason =>
        rw [hcall] at h
        cases h
        exact ⟨rfl, rfl, rfl, rfl⟩

/-- So has an attempt that ends with one. -/
theorem Attempt.refused_of_error {err : AckError}
    (h : (exit call w id outcome a b).result = .error err) :
    a.settlement = none ∧ a.backed = true ∧ instruction w id outcome = some err.action ∧
      (call err.action b).1 = .error err.reason := by
  unfold exit at h
  cases hinstruction : instruction w id outcome with
  | none =>
    rw [hinstruction] at h
    cases h
  | some asked =>
    simp only [hinstruction] at h
    cases hsettled : (a.settle call asked b).1 with
    | ok _ =>
      rw [hsettled] at h
      cases h
    | error err' =>
      rw [hsettled] at h
      cases h
      obtain ⟨hpending, hbacked, rfl, hrefused⟩ := Acker.refused_of_error hsettled
      exact ⟨hpending, hbacked, rfl, hrefused⟩

/-- A pending message takes the next instruction to the broker. -/
theorem Acker.told_of_pending (hpending : a.settlement = none) (hbacked : a.backed = true) :
    (a.settle (noting call) action (b, [])).1 = (call action b).1.mapError (⟨action, ·⟩) ∧
      (a.settle (noting call) action (b, [])).2.2.2 = [action] := by
  rw [Acker.settle_noting, Acker.tells, if_pos ⟨hpending, hbacked⟩,
    Acker.settle_of_pending hpending hbacked]
  cases (call action b).1 with
  | ok _ => exact ⟨rfl, rfl⟩
  | error reason => exact ⟨rfl, rfl⟩

/-- An attempt that was started counts for the one after it. -/
theorem Watcher.exhausts_add_succ (w : Watcher) (id : String) :
    (w.add id).policy.exhausts ((w.add id).attempts id + 1) =
      w.policy.exhausts (w.attempts id + 1 + 1) := by
  cases w with
  | counting limit attempts => simp [add, policy, Watcher.attempts, Assoc.get?_put]
  | _ => rfl

end

/-! ## An attempt among others -/

/-- What the end of an attempt finds: the watcher of the subscriber and the acker of the message. -/
structure Desk where
  watcher : Watcher
  acker : Acker

namespace Desk

variable {ρ κ : Type}

/-- An attempt under an id is put on record. -/
def enter (id : String) (d : Desk) : Desk := { d with watcher := Attempt.enter d.watcher id }

/-- What is done with a message in the course of an attempt may settle it by hand, whatever the
broker says to that, and touches no record. -/
inductive Serves : Desk → Event (Processing ρ κ) → Desk → Prop where
  | settle {w : Watcher} {a : Acker} (action : Action) (answer : Except String Unit) :
      Serves ⟨w, a⟩ ⟨.settle action, (a.settle (Books.answers answer) action ()).1⟩
        ⟨w, (a.settle (Books.answers answer) action ()).2.1⟩
  | other {d : Desk} {ev : Event (Processing ρ κ)} (hkeeps : ev.op.keepsBooks = false)
      (hsettles : ev.op.settles = false) : Serves d ev d

/-- Others may come in before each event. -/
inductive Attended (others : Desk → Desk → Prop) :
    Desk → List (Event (Processing ρ κ)) → Desk → Prop where
  | nil {d : Desk} : Attended others d [] d
  | cons {d d₁ d₂ d₃ : Desk} {ev : Event (Processing ρ κ)} {t : List (Event (Processing ρ κ))}
      (h : others d d₁) (hev : Serves d₁ ev d₂) (rest : Attended others d₂ t d₃) :
      Attended others d (ev :: t) d₃

/-- Nobody else makes an attempt under this id. -/
structure Spares (id : String) (d d' : Desk) : Prop where
  policy : d'.watcher.policy = d.watcher.policy
  attempts : d'.watcher.attempts id = d.watcher.attempts id

variable {others : Desk → Desk → Prop} {id : String} {d d' d'' : Desk}
  {t : List (Event (Processing ρ κ))}

theorem Spares.trans (h : Spares id d d') (h' : Spares id d' d'') : Spares id d d'' :=
  ⟨h'.policy.trans h.policy, h'.attempts.trans h.attempts⟩

theorem Serves.watcher_eq {ev : Event (Processing ρ κ)} (h : Serves d ev d') :
    d'.watcher = d.watcher := by
  cases h <;> rfl

theorem Attended.spares (h : Attended others d t d')
    (hspares : ∀ d d', others d d' → Spares id d d') : Spares id d d' := by
  induction h with
  | nil => exact ⟨rfl, rfl⟩
  | cons hothers hev rest ih =>
    have hserved := hev.watcher_eq
    exact (hspares _ _ hothers).trans (.trans ⟨congrArg _ hserved, congrArg _ hserved⟩ ih)

end Desk

/-- An attempt under an id, from where it is put on record to where it ends. -/
structure Stay {ρ κ : Type} (others : Desk → Desk → Prop) (id : String)
    (t : List (Event (Processing ρ κ))) where
  found : Desk
  reached : Desk
  /-- What the end of the attempt finds. -/
  met : Desk
  attended : Desk.Attended others (found.enter id) t reached
  meanwhile : others reached met

namespace Stay

variable {ρ κ : Type} {others : Desk → Desk → Prop} {id : String}
  {t : List (Event (Processing ρ κ))}

theorem spares (h : Stay others id t) {id' : String}
    (hspares : ∀ d d', others d d' → Desk.Spares id' d d') :
    Desk.Spares id' (h.found.enter id) h.met :=
  (h.attended.spares hspares).trans (hspares _ _ h.meanwhile)

/-- The attempts before this one and the attempt itself are what exhausts the policy. -/
theorem isExhausted_eq (h : Stay others id t)
    (hspares : ∀ d d', others d d' → Desk.Spares id d d') :
    h.met.watcher.isExhausted id =
      h.found.watcher.policy.exhausts (h.found.watcher.attempts id + 1) := by
  obtain ⟨hpolicy, hattempts⟩ := h.spares hspares
  rw [Watcher.isExhausted_eq_exhausts, hpolicy, hattempts]
  exact Watcher.exhausts_add _ id

end Stay

/-! ## Attempts in the engine -/

/-- Settling goes by what the broker says, and by nothing else that it does. -/
theorem Acker.settle_answers {σ : Type} (call : Action → σ → Except String Unit × σ)
    (action : Action) (a : Acker) (b : σ) :
    (a.settle (Books.answers (call action b).1) action ()).1 = (a.settle call action b).1 ∧
      (a.settle (Books.answers (call action b).1) action ()).2.1 =
        (a.settle call action b).2.1 := by
  unfold settle Books.answers
  cases a.claim? action with
  | none => exact ⟨rfl, rfl⟩
  | some claimed =>
    dsimp only
    split <;> exact ⟨rfl, rfl⟩

namespace Engine

variable {P : Protocol} {κ : Type} {ref : SubscriberRef} {d : Nat} {e e' : Engine P κ}
  {scope : Scope} {st : Engine P κ × Scope} {t : List (Event (Processing P.Route κ))}
  {others : Engine P κ → Engine P κ → Prop}

def desk (e : Engine P κ) (ref : SubscriberRef) (d : Nat) : Desk := ⟨e.watcher ref, e.acker d⟩

/-- What others do in the engine, as far as it shows at a desk. -/
def AtDesk (others : Engine P κ → Engine P κ → Prop) (ref : SubscriberRef) (d : Nat)
    (at₁ at₂ : Desk) : Prop :=
  ∃ e₁ e₂, others e₁ e₂ ∧ e₁.desk ref d = at₁ ∧ e₂.desk ref d = at₂

theorem acker_settle_eq (e : Engine P κ) (action : Action) (h : (e.acker? d).isSome) :
    (e.settle d action).2.acker d = ((e.acker d).settle (instruct d) action e).2.1 := by
  let settled := (e.acker d).settle (instruct d) action e
  have hbroker : settled.2.2.acker? d = e.acker? d :=
    Acker.broker_settle (fun e : Engine P κ => e.acker? d) (fun _ _ => acker?_instruct ..) _
      action e
  have hthere : (settled.2.2.acker? d).isSome := hbroker.symm ▸ h
  exact acker_eq_of_acker? (acker?_setAcker hthere settled.2.1)

theorem serves_execProcessing {op : Processing.Op P.Route κ} (hop : op.keepsBooks = false)
    (hd : scope.delivery = d) (h : (e.acker? d).isSome) :
    Desk.Serves (e.desk ref d) ⟨op, (execProcessing op (e, scope)).1⟩
      ((execProcessing op (e, scope)).2.1.desk ref d) := by
  have hwatcher : (execProcessing op (e, scope)).2.1.watcher ref = e.watcher ref :=
    watcher_execProcessing hop e scope
  cases hsettles : op.settles with
  | false =>
    have hacker : (execProcessing op (e, scope)).2.1.acker d = e.acker d :=
      acker_execProcessing hsettles e scope
    have hleft : (execProcessing op (e, scope)).2.1.desk ref d = e.desk ref d := by
      rw [desk, hwatcher, hacker, desk]
    rw [hleft]
    exact .other hop hsettles
  | true =>
    cases op with
    | settle action =>
      subst hd
      obtain ⟨hresult, hacker⟩ :=
        Acker.settle_answers (instruct scope.delivery) action (e.acker scope.delivery) e
      have hanswer : (execProcessing (.settle action) (e, scope)).1 =
          ((e.acker scope.delivery).settle
            (Books.answers (instruct scope.delivery action e).1) action ()).1 := hresult.symm
      have hleft : (execProcessing (.settle action) (e, scope)).2.1.desk ref scope.delivery =
          ⟨e.watcher ref, ((e.acker scope.delivery).settle
            (Books.answers (instruct scope.delivery action e).1) action ()).2.1⟩ := by
        rw [desk, hwatcher, hacker]
        exact congrArg _ (acker_settle_eq e action h)
      rw [hanswer, hleft]
      exact .settle action _
    | exit => cases hop
    | _ => cases hsettles

theorem isSome_acker?_execProcessing (op : Processing.Op P.Route κ) (hd : scope.delivery = d)
    (h : (e.acker? d).isSome) : ((execProcessing op (e, scope)).2.1.acker? d).isSome := by
  subst hd
  obtain ⟨a, ha⟩ := Option.isSome_iff_exists.mp h
  rw [acker?_execProcessing op ha]
  rfl

section
variable (hkeeps : ∀ e e', others e e' → (e.acker? d).isSome → (e'.acker? d).isSome)
include hkeeps

theorem Performed.isSome_acker? (h : Performed others (e, scope) t st) (hd : scope.delivery = d)
    (hacker : (e.acker? d).isSome) : (st.1.acker? d).isSome := by
  generalize hst : (e, scope) = st₀ at h
  induction h generalizing e scope with
  | nil =>
    subst hst
    exact hacker
  | @cons e₀ e₁ scope₀ op t st hothers rest ih =>
    cases hst
    exact ih ((scope_execProcessing op e₁ scope₀).2.trans hd)
      (isSome_acker?_execProcessing op hd (hkeeps _ _ hothers hacker)) rfl

/-- Whatever is carried out between the two ends of an attempt shows at its desk in this way. -/
theorem Performed.attended (h : Performed others (e, scope) t st) (ht : Unbooked t)
    (hd : scope.delivery = d) (hacker : (e.acker? d).isSome) :
    Desk.Attended (AtDesk others ref d) (e.desk ref d) t (st.1.desk ref d) := by
  generalize hst : (e, scope) = st₀ at h
  induction h generalizing e scope with
  | nil =>
    subst hst
    exact .nil
  | @cons e₀ e₁ scope₀ op t st hothers rest ih =>
    cases hst
    obtain ⟨hop, ht⟩ := List.forall_mem_cons.mp ht
    have hacker₁ := hkeeps _ _ hothers hacker
    exact .cons ⟨e₀, e₁, hothers, rfl, rfl⟩ (serves_execProcessing hop hd hacker₁)
      (ih ht ((scope_execProcessing op e₁ scope₀).2.trans hd)
        (isSome_acker?_execProcessing op hd hacker₁) rfl)

/-- Every course of a message through the engine has such an attempt, which ends at what the broker
says to the engine. -/
theorem exists_stay {s : Subscriber P κ} {publisher : Publisher P.Route κ} {raw : P.Raw}
    {out : ProcessingOutcome} (c : Course s publisher raw t out)
    (h : Performed others (e, scope) t st) (hs : scope.subscriber = ref) (hd : scope.delivery = d)
    (hacker : (e.acker? d).isSome) :
    ∃ (e₁ e₂ : Engine P κ)
      (stay : Stay (AtDesk others ref d) c.id (⟨.calls, c.calls⟩ :: c.consuming)),
      stay.found = e₁.desk ref d ∧ stay.met = e₂.desk ref d ∧
        c.answer = (Attempt.exit (instruct d) stay.met.watcher c.id (.ofResult c.consumed.2)
          stay.met.acker e₂).result := by
  have hsplit : t = (⟨.publishing .freshId, c.fresh⟩ :: c.entering) ++ ⟨.enter c.id, ()⟩ ::
      ((⟨.calls, c.calls⟩ :: c.consuming) ++ c.exit :: (c.concluding ++ c.leaving)) :=
    c.trace_split.trans (by simp [Course.before])
  rw [hsplit] at h
  obtain ⟨⟨e₀, scope₀⟩, hp₀, h⟩ := h.split
  obtain ⟨e₁, hothers₁, -, h⟩ := h.uncons
  obtain ⟨⟨e₂, scope₂⟩, hp₂, h⟩ := h.split
  obtain ⟨e₃, hothers₃, hexit, -⟩ := h.uncons
  have hs₀ : scope₀.subscriber = ref := hp₀.same_scope.1.trans hs
  have hd₀ : scope₀.delivery = d := hp₀.same_scope.2.trans hd
  have hs₂ : scope₂.subscriber = ref := hp₂.same_scope.1.trans hs₀
  have hd₂ : scope₂.delivery = d := hp₂.same_scope.2.trans hd₀
  have hacker₁ := hkeeps _ _ hothers₁ (hp₀.isSome_acker? hkeeps hd hacker)
  have hconsuming : Unbooked (⟨.calls, c.calls⟩ :: c.consuming) :=
    List.forall_mem_cons.mpr ⟨rfl, c.refines.allowed bookless_carry⟩
  have hentered : (execProcessing (.enter c.id) (e₁, scope₀)).2.1.desk ref d =
      (e₁.desk ref d).enter c.id := by
    have hwatcher := watcher_enter e₁ scope₀ c.id
    rw [hs₀] at hwatcher
    rw [desk, hwatcher]
    exact congrArg (Desk.mk _) (acker_updateSubscriber ..)
  have hattended : Desk.Attended (AtDesk others ref d)
      ((execProcessing (.enter c.id) (e₁, scope₀)).2.1.desk ref d)
      (⟨.calls, c.calls⟩ :: c.consuming) (e₂.desk ref d) :=
    hp₂.attended hkeeps hconsuming hd₀ (isSome_acker?_execProcessing (.enter c.id) hd₀ hacker₁)
  rw [hentered] at hattended
  have hanswer : c.answer = (Attempt.exit (instruct d) (e₃.watcher ref) c.id
      (.ofResult c.consumed.2) (e₃.acker d) e₃).result := by
    rw [← hexit, ← hs₂, ← hd₂]
    rfl
  exact ⟨e₁, e₃, ⟨e₁.desk ref d, e₂.desk ref d, e₃.desk ref d, hattended,
    ⟨e₂, e₃, hothers₃, rfl, rfl⟩⟩, rfl, rfl, hanswer⟩

end

end Engine

/-! ## Nothing has happened -/

/-- What an attempt comes to whose settlement was refused. -/
structure Undone {ρ κ σ : Type} {others : Desk → Desk → Prop} {id : String}
    {t : List (Event (Processing ρ κ))} (h : Stay others id t) (ended : Attempt.Ended σ)
    (action : Action) (reason : String) : Prop where
  result : ended.result = .error ⟨action, reason⟩
  /-- All is on record that was on record. -/
  watcher : ended.watcher = h.met.watcher
  /-- Unless others have come in, that is what was on record when the attempt was started. -/
  attempts : ∀ id', (∀ d d', others d d' → Desk.Spares id' d d') →
    ended.watcher.attempts id' = (h.found.enter id).watcher.attempts id'
  acker : ended.acker = h.met.acker
  /-- The message is pending, and whoever settles it now hears what the broker says to that. -/
  again : ended.acker.settlement = none ∧ ∀ (τ : Type) (call : Action → τ → Except String Unit × τ)
    (other : Action) (b : τ),
    (ended.acker.settle (noting call) other (b, [])).1 = (call other b).1.mapError (⟨other, ·⟩) ∧
      (ended.acker.settle (noting call) other (b, [])).2.2.2 = [other]
  /-- A message that is processed with this attempt is reported with the refusal. But for the id
  that it gets if it brings none, nothing is asked of the publisher. -/
  reported : ∀ (P : Protocol) (κ : Type) (s : Subscriber P κ) (publisher : Publisher P.Route κ)
    (raw : P.Raw) (u : List (Event (Processing P.Route κ))) (out : ProcessingOutcome)
    (c : Course s publisher raw u out), c.answer = ended.result →
    out = ⟨.error (.ack ⟨action, reason⟩), some action⟩ ∧
      ∃ rest, u = ⟨.publishing .freshId, c.fresh⟩ :: rest ∧ ∀ ev ∈ rest, ev.op.publishes = false
  /-- The attempt and the next one are what exhausts the policy at the next delivery. -/
  counts : ∀ (u : List (Event (Processing ρ κ))) (next : Stay others id u),
    (∀ d d', others d d' → Desk.Spares id d d') →
    Desk.Spares id ⟨ended.watcher, ended.acker⟩ next.found →
    next.met.watcher.isExhausted id =
      h.found.watcher.policy.exhausts (h.found.watcher.attempts id + 1 + 1)

section
variable {P : Protocol} {κ : Type} {s : Subscriber P κ} {publisher : Publisher P.Route κ}
  {raw : P.Raw} {t : List (Event (Processing P.Route κ))} {out : ProcessingOutcome} {err : AckError}

theorem Course.out_of_refused (c : Course s publisher raw t out) (h : c.answer = .error err) :
    out = ⟨.error (.ack err), some err.action⟩ := by
  have hconcludes := c.concludes
  rw [h] at hconcludes
  obtain ⟨⟨⟩, u, -, hdone⟩ := runs_perform_bind hconcludes
  exact (runs_done_iff.mp hdone).2.symm

/-- Nothing is sent for a message that was not settled. -/
theorem Course.silent_of_refused (c : Course s publisher raw t out) (h : c.answer = .error err) :
    ∃ rest, t = ⟨.publishing .freshId, c.fresh⟩ :: rest ∧
      ∀ ev ∈ rest, ev.op.publishes = false := by
  obtain ⟨before, hbefore, hconfined⟩ := c.confined
  have hconcluding := c.silent (.inl (by rw [h]; nofun))
  refine ⟨before ++ (c.concluding ++ c.leaving), ?_, ?_⟩
  · calc t = (c.before ++ [c.exit]) ++ (c.concluding ++ c.leaving) := c.trace_split.trans (by simp)
      _ = _ := by rw [hbefore]; rfl
  · intro ev hev
    simp only [List.mem_append] at hev
    rcases hev with hev | hev | hev
    · exact hconfined ev (List.mem_append_left _ hev)
    · exact hconcluding ev hev
    · exact hconfined ev (List.mem_append_right _ hev)

end

/-- An attempt whose end changes nothing has only been made. -/
theorem Stay.undone_of_unchanged {ρ κ σ : Type} {others : Desk → Desk → Prop} {id : String}
    {t : List (Event (Processing ρ κ))} (h : Stay others id t)
    (hpending : h.met.acker.settlement = none) (hbacked : h.met.acker.backed = true)
    (action : Action) (reason : String) (b : σ) :
    Undone h ⟨.error ⟨action, reason⟩, h.met.watcher, h.met.acker, b⟩ action reason where
  result := rfl
  watcher := rfl
  attempts _ hspares := (h.spares hspares).attempts
  acker := rfl
  again := ⟨hpending, fun _ _ _ _ => Acker.told_of_pending hpending hbacked⟩
  reported _ _ _ _ _ _ _ c hanswer := ⟨c.out_of_refused hanswer, c.silent_of_refused hanswer⟩
  counts := by
    intro u next hspares hleft
    obtain ⟨hpolicy, hattempts⟩ := (h.spares hspares).trans hleft
    rw [next.isExhausted_eq hspares, hpolicy, hattempts]
    exact Watcher.exhausts_add_succ _ id

/-- However an attempt ends, if the message was pending and the broker refuses what it is told then
nothing has happened but that the attempt was made. -/
theorem Stay.undone {ρ κ σ : Type} {others : Desk → Desk → Prop} {id : String}
    {t : List (Event (Processing ρ κ))} (h : Stay others id t)
    {call : Action → σ → Except String Unit × σ} {b : σ} {outcome : Outcome} {action : Action}
    {reason : String} (hpending : h.met.acker.settlement = none)
    (hbacked : h.met.acker.backed = true)
    (hinstruction : Attempt.instruction h.met.watcher id outcome = some action)
    (hrefused : (call action b).1 = .error reason) :
    Undone h (Attempt.exit call h.met.watcher id outcome h.met.acker b) action reason := by
  rw [Attempt.exit_of_refused hpending hbacked hinstruction hrefused]
  exact h.undone_of_unchanged hpending hbacked action reason _

/-! ## A nack that the broker refuses -/

/-- A first attempt at a message that fails, with a broker that is gone. -/
def failedFirst : Stay (ρ := Unit) (κ := Unit) Eq "m-1" [] where
  found := ⟨.counting 1 [], .ofBackend true⟩
  reached := ⟨.counting 1 [("m-1", 1)], .ofBackend true⟩
  met := ⟨.counting 1 [("m-1", 1)], .ofBackend true⟩
  attended := .nil
  meanwhile := rfl

theorem undone_failedFirst :
    Undone failedFirst
      (Attempt.exit (fun _ b => (.error "the broker is gone", b)) failedFirst.met.watcher "m-1"
        (.failure .transient) failedFirst.met.acker ())
      .nack "the broker is gone" :=
  failedFirst.undone rfl rfl rfl rfl

/-! ## A refusal that is reported -/

/-- Whenever the engine processes a message and reports that its settlement was refused, nothing has
happened to it: the attempt has ended at an engine that refused it. -/
theorem Engine.undone_of_reported {P : Protocol} {κ : Type} {s : Subscriber P κ}
    {publisher : Publisher P.Route κ} {raw : P.Raw} {t : List (Event (Processing P.Route κ))}
    {out : ProcessingOutcome} {e : Engine P κ} {st : Engine P κ × Scope} {ref : SubscriberRef}
    {d : Nat} {item : Option (Option String)} {others : Engine P κ → Engine P κ → Prop}
    {err : AckError} (hfaithful : ∀ m ∈ s.telemetry, Faithful m)
    (hruns : Runs (s.process publisher raw) t out)
    (hkeeps : ∀ e e', others e e' → (e.acker? d).isSome → (e'.acker? d).isSome)
    (hperformed : Engine.Performed others (e, ⟨ref, d, item⟩) t st)
    (hacker : (e.acker? d).isSome) (hreported : out.result = .error (.ack err)) :
    ∃ (c : Course s publisher raw t out) (e₁ e₂ : Engine P κ)
      (stay : Stay (AtDesk others ref d) c.id (⟨.calls, c.calls⟩ :: c.consuming)),
      stay.found = e₁.desk ref d ∧ stay.met = e₂.desk ref d ∧
      c.answer = .error err ∧ out.action = some err.action ∧
      Undone stay (Attempt.exit (instruct d) stay.met.watcher c.id (.ofResult c.consumed.2)
        stay.met.acker e₂) err.action err.reason := by
  obtain ⟨c⟩ := Subscriber.nonempty_course hfaithful hruns
  have hanswer : c.answer = .error err := by
    cases hended : c.answer with
    | ok action =>
      have hconcludes := c.concludes
      rw [hended] at hconcludes
      exact absurd hreported (result_of_accepted hconcludes err)
    | error err' =>
      rw [c.out_of_refused hended] at hreported
      cases hreported
      rfl
  obtain ⟨e₁, e₂, stay, hfound, hmet, hexit⟩ := exists_stay hkeeps c hperformed rfl rfl hacker
  obtain ⟨hpending, hbacked, hinstruction, hrefused⟩ :=
    Attempt.refused_of_error (hexit.symm.trans hanswer)
  refine ⟨c, e₁, e₂, stay, hfound, hmet, hanswer, ?_, ?_⟩
  · rw [c.out_of_refused hanswer]
  · rw [Attempt.exit_of_refused hpending hbacked hinstruction hrefused]
    exact stay.undone_of_unchanged hpending hbacked err.action err.reason _

/-- A group whose broker refuses one settlement, at work on a message from a queue. -/
def refusing : Engine Broker.nats.protocol Unit × Scope :=
  (({ failingGroup 1 with weather := ⟨[], 0, 1, 0⟩ }.addDelivery
    ⟨.ofBackend true, .queue 0 (.new (⟨"jobs"⟩ : Nats.Route) (.text "work"))⟩).2,
    ⟨.member 0, 0, some none⟩)

/-- A failure that it could not hand back. -/
example : (((failing (.ofPolicy (.times 1))).process ⟨[], 0⟩ (job .empty)).run
    Engine.execProcessing refusing).1 =
      ⟨.error (.ack ⟨.nack, "Injected settlement failure"⟩), some .nack⟩ := rfl

end MessageDispatch
