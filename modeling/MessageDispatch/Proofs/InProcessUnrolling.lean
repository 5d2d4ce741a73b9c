import MessageDispatch.InProcess
import MessageDispatch.Proofs.FailureFree

/-! Deliveries in process, when the subscribers' calls are steady and no delivery fails. Whatever a
message leads to is done before the publisher gets its answer, in the order of a recursion; what was
heard of the calls in the end is what the message unrolls to. -/
namespace MessageDispatch

variable {P : Protocol} {κ α β : Type}

/-! ## Early ends -/

namespace InProcess

/-- Unless the delivery comes to an early end, this holds afterwards; and it does not end because
of a deadline. -/
def Leads (x : InProcess P κ α) (e : Engine P κ) (post : α → Engine P κ → Prop) : Prop :=
  match x.run.run e with
  | (.ok a, e') => post a e'
  | (.error halt, _) => halt ≠ .late

variable {x : InProcess P κ α} {e : Engine P κ} {post post' : α → Engine P κ → Prop}

theorem Leads.bind {f : α → InProcess P κ β} {after : β → Engine P κ → Prop}
    (hx : x.Leads e post) (hf : ∀ a e', post a e' → (f a).Leads e' after) :
    (x >>= f).Leads e after := by
  have hbind : (x >>= f).run.run e =
      (ExceptT.bindCont (m := StateM (Engine P κ)) f (x.run.run e).1).run (x.run.run e).2 := rfl
  unfold Leads at hx ⊢
  rw [hbind]
  rcases hresult : x.run.run e with ⟨halt | a, e'⟩
  · rw [hresult] at hx
    exact hx
  · rw [hresult] at hx
    exact hf a e' hx

theorem Leads.mono (h : x.Leads e post) (hpost : ∀ a e', post a e' → post' a e') :
    x.Leads e post' := by
  unfold Leads at h ⊢
  rcases hresult : x.run.run e with ⟨halt | a, e'⟩
  · rw [hresult] at h
    exact h
  · rw [hresult] at h
    exact hpost a e' h

theorem leads_pure {a : α} (h : post a e) : Leads (pure a) e post := h

theorem leads_throw {halt : Halt} (h : halt ≠ .late) : Leads (throw halt) e post := h

theorem leads_act {f : Engine P κ → α × Engine P κ} (h : post (f e).1 (f e).2) :
    Leads (act f) e post := h

theorem leads_act_bind {f : Engine P κ → β × Engine P κ} {g : β → InProcess P κ α}
    (h : (g (f e).1).Leads (f e).2 post) : (act f >>= g).Leads e post := h

theorem leads_get_bind {g : Engine P κ → InProcess P κ α} (h : (g e).Leads e post) :
    (get >>= g).Leads e post := h

theorem leads_modify_bind {f : Engine P κ → Engine P κ} {g : PUnit → InProcess P κ α}
    (h : (g ⟨⟩).Leads (f e) post) : (modify f >>= g).Leads e post := h

/-- Without a deadline a program is carried out to its end. -/
theorem runBy_none (p : Program (Processing P.Route κ) α) (scope : Scope) (e : Engine P κ) :
    runBy none p scope e = (.ok (p.run Engine.execProcessing (e, scope)).1,
      (p.run Engine.execProcessing (e, scope)).2.1) := by
  induction p generalizing scope e with
  | done a => rfl
  | call op next ih =>
    unfold runBy
    split
    · rename_i h
      cases h
    · rename_i h
      cases h
      exact ih _ _ _
    · rename_i h
      cases h
      exact ih _ _ _

theorem leads_runProgram {scope : Scope} {p : Program (Processing P.Route κ) α}
    (h : post (p.run Engine.execProcessing (e, scope)).1
      (p.run Engine.execProcessing (e, scope)).2.1) : (runProgram none scope p).Leads e post := by
  refine leads_get_bind ?_
  rw [runBy_none]
  exact h

end InProcess

/-! ## Programs -/

namespace Engine

variable {staff : List (Subscriber P κ)} {id : String} {i : Nat} {s : Subscriber P κ}

/-- A subscriber at work, with nobody else at work. -/
theorem Ready.performed {st st' : Engine P κ × Scope} {t : List (Event (Processing P.Route κ))}
    (hrun : Performed Eq st t st') (h : st.1.Ready staff) (hin : st.1.InHand id)
    (hs : staff[i]? = some s) (hscope : st.2.subscriber = .member i)
    (hd : st.2.delivery < st.1.deliveries.length) (hopen : ∀ ev ∈ t, ev.op ≠ .close)
    (hknown : ∀ r ∈ Processing.recordedBodies t, r.1 < s.calls.length) :
    st'.1.Ready staff ∧ st'.1.InHand id ∧ st'.1.invocations.Perm (st.1.invocations ++
      (Processing.recordedBodies t).map fun r => ⟨s.binding, r.1, r.2⟩) := by
  induction hrun with
  | nil => exact ⟨h, hin, by rw [Processing.recordedBodies]; simp⟩
  | @cons e e₁ scope op t st hothers rest ih =>
    subst hothers
    obtain ⟨hop, hopen⟩ := List.forall_mem_cons.mp hopen
    have hsplit : Processing.recordedBodies (⟨op, (execProcessing op (e, scope)).1⟩ :: t) =
        Processing.recordedBodies [⟨op, (execProcessing op (e, scope)).1⟩] ++
          Processing.recordedBodies t := Processing.recordedBodies_append (t := [_])
    rw [hsplit] at hknown
    obtain ⟨hknown₁, hknown⟩ := List.forall_mem_append.mp hknown
    have hd' := List.getElem?_eq_getElem hd
    obtain ⟨m, hm, -⟩ := hin _ (List.getElem_mem hd)
    obtain ⟨hready, hinvocations⟩ := h.perform hs hscope hd' hm op hop
      (by rintro call body rfl; exact hknown₁ (call, body) (List.mem_singleton_self _))
    have hdeliveries := deliveries_execProcessing h.clear.settlements hd' hm op
    obtain ⟨hsubscriber, hdelivery⟩ := scope_execProcessing op e scope
    obtain ⟨hready', hin', hinvocations'⟩ := ih hready (hin.settled hd' hdeliveries)
      (hsubscriber.trans hscope) (by rw [hdelivery, hdeliveries, List.length_set]; exact hd)
      hopen hknown
    refine ⟨hready', hin', hinvocations'.trans ?_⟩
    rw [hsplit, List.map_append, ← List.append_assoc]
    exact hinvocations.append_right _

end Engine

/-! ## Deliveries -/

section
variable {staff : List (Subscriber P κ)} {id : String} {jobs more : List (Job P)}
  {e e' e'' : Engine P κ}

/-- On the way from one state of the engine to another these jobs were done. -/
structure Delivers (staff : List (Subscriber P κ)) (id : String) (jobs : List (Job P))
    (e e' : Engine P κ) : Prop where
  ready : e'.Ready staff
  inHand : e'.InHand id
  unrolls : ∃ run, Unrolls staff id jobs run ∧ e'.invocations.Perm (e.invocations ++ run)

/-- A step that no call is run in. -/
theorem Delivers.idle (hready : e'.Ready staff) (hin : e'.InHand id)
    (hinvocations : e'.invocations = e.invocations) : Delivers staff id [] e e' :=
  ⟨hready, hin, [], .nil, by rw [hinvocations, List.append_nil]⟩

theorem Delivers.trans (h : Delivers staff id jobs e e') (h' : Delivers staff id more e' e'') :
    Delivers staff id (jobs ++ more) e e'' := by
  obtain ⟨-, -, run, hunrolls, hrun⟩ := h
  obtain ⟨hready, hin, run', hunrolls', hrun'⟩ := h'
  refine ⟨hready, hin, run ++ run', hunrolls.append hunrolls', hrun'.trans ?_⟩
  rw [← List.append_assoc]
  exact hrun.append_right _

/-- A subscriber has its turn, and what follows is done. -/
theorem Delivers.handle {b : P.Binding} {letter : Letter P.Route} {x : Reaction P.Route}
    (hcomes : Comes staff id b letter x)
    (hinvocations : e'.invocations.Perm (e.invocations ++ x.invocations b))
    (h : Delivers staff id x.jobs e' e'') : Delivers staff id [.handle b letter] e e'' := by
  obtain ⟨hready, hin, run, hunrolls, hrun⟩ := h
  refine ⟨hready, hin, _, .handle hcomes (by rwa [List.append_nil]), hrun.trans ?_⟩
  rw [← List.append_assoc]
  exact hinvocations.append_right _

theorem Delivers.perm {jobs' : List (Job P)} (h : Delivers staff id jobs e e')
    (hjobs : jobs.Perm jobs') : Delivers staff id jobs' e e' := by
  obtain ⟨hready, hin, run, hunrolls, hrun⟩ := h
  obtain ⟨run', hsame, hunrolls'⟩ := hunrolls.perm hjobs
  exact ⟨hready, hin, run', hunrolls', hrun.trans (hsame.append_left _)⟩

end

namespace InProcess

variable {staff : List (Subscriber P κ)} {id : String} {e : Engine P κ} {i : Nat}
  {s : Subscriber P κ} {m : Message P.Route}

/-- A message that is delivered under its correlation id leads to what sending it unrolls to. -/
def Serves (staff : List (Subscriber P κ)) (id : String)
    (again : Message P.Route → InProcess P κ Unit) : Prop :=
  ∀ m e, m.Under id → e.Ready staff → e.InHand id →
    (again m).Leads e fun _ e' => Delivers staff id [.send m.letter] e e'

theorem leads_complete (hm : ∀ fresh now, Genuine fresh → (m.complete fresh now).Under id)
    (h : e.Ready staff) (hin : e.InHand id) :
    (complete m).Leads e fun m' e' =>
      m'.Under id ∧ m'.letter = m.letter ∧ Delivers staff id [] e e' :=
  leads_act ⟨hm _ _ (genuine_freshIdText _), rfl,
    .idle (h.congr rfl (h.clear.congr rfl rfl rfl)) (hin.congr rfl) rfl⟩

/-- A subscriber consumes a message, which comes to a failure or to its reaction. -/
theorem leads_consume (hcrew : Crew staff id) (hs : e.subscribers[i]? = some s)
    (hs' : staff[i]? = some s.bare) (hm : m.Under id) (h : e.Ready staff) (hin : e.InHand id) :
    (consume none i s m).Leads e fun out e' =>
      (∃ type cause, out.2 = .error (.failure type cause)) ∨
      ∃ x, s.Reacts id m.letter x ∧ Processing.followUps P.routeTo out = x.letters ∧
        out.1.correlationId = id ∧ e'.Ready staff ∧ e'.InHand id ∧
        e'.invocations.Perm (e.invocations ++ x.invocations s.binding) := by
  refine leads_act_bind (leads_act_bind (leads_act_bind (leads_runProgram ?_)))
  let taken := e.addDelivery ⟨.unbacked, .handed m⟩
  let ids := taken.2.drawIds
  let fresh := ids.2.drawId
  let scope : Scope := ⟨.member i, taken.1, some none⟩
  let offered := Processing.offer s.name s.shortCircuit s.calls 0
    (s.parse fresh.1 (P.build ids.1 m)) none
  have hcalls : (Processing.consume s.name s.shortCircuit (s.parse fresh.1 (P.build ids.1 m))).run
      Engine.execProcessing (fresh.2, scope) =
        offered.run Engine.execProcessing (fresh.2, scope) := by
    have hfound : fresh.2.subscriber? scope.subscriber = some s := hs
    show (Processing.offer _ _ (((fresh.2.subscriber? scope.subscriber).map (·.calls)).getD []) 0 _
      none).run _ _ = _
    rw [hfound]
    rfl
  show _ ∨ _
  rw [hcalls]
  have hruns := Runs.of_run Engine.execProcessing offered (fresh.2, scope)
  have hperformed : Engine.Performed Eq (fresh.2, scope)
      (offered.trace Engine.execProcessing (fresh.2, scope))
      (offered.run Engine.execProcessing (fresh.2, scope)).2 := .of_run (fun _ => rfl) ..
  generalize offered.trace Engine.execProcessing (fresh.2, scope) = t at hruns hperformed
  generalize offered.run Engine.execProcessing (fresh.2, scope) = ended at hruns hperformed
  by_cases hfailed : ∃ type cause, ended.1.2 = .error (.failure type cause)
  · exact .inl hfailed
  · have hok (type : ErrorType) (cause : Cause) :
        ended.1.2 ≠ .error (.failure type cause) := fun hsame => hfailed ⟨type, cause, hsame⟩
    have hreacts := (hcrew.steady s.bare (List.mem_of_getElem? hs')).reacts hm hruns hok
    have hshows := hreacts m fresh.1 ids.1 t ended.1 hm rfl hruns
    obtain ⟨hready, hinHand, hinvocations⟩ := Engine.Ready.performed hperformed
      (h.congr rfl (h.clear.congr rfl rfl rfl)) ((hin.add rfl hm).congr rfl) hs' rfl
      (lt_length_of_getElem? List.getElem?_concat_length) hshows.stays
      (hshows.bodies ▸ hshows.known)
    exact .inr ⟨_, hreacts, hshows.letters, hshows.correlationId, hready, hinHand, hinvocations⟩

variable {again : Message P.Route → InProcess P κ Unit} (hagain : Serves staff id again)
include hagain

/-- A payload is noted and sent to each of the targets. -/
theorem leads_forward (hid : id ≠ "") (hs : i < staff.length) {call : Nat} {payload : Payload}
    {targets : List P.Route} {j : Nat} (h : e.Ready staff) (hin : e.InHand id) :
    (forward again (.member i) call id payload targets j).Leads e fun _ e' =>
      Delivers staff id (targets.map fun target => .send ⟨payload, target, none⟩) e e' := by
  induction targets generalizing e j with
  | nil => exact leads_pure (.idle h hin rfl)
  | cons target targets ih =>
    obtain ⟨s, hs', -, hrecording⟩ := h.exists_subscriber (List.getElem?_eq_getElem hs)
    let noted := e.updateSubscriber (.member i) (·.note call (·.addForwarded j payload))
    have hnote : noted.Ready staff :=
      h.update hs' rfl (hrecording.note (·.recording_addForwarded j payload))
    have hsame : noted.invocations.Perm (e.invocations ++ []) :=
      Engine.invocations_update hs' (by
        rw [Subscriber.invocations_note_addForwarded, List.append_nil])
    have hnoted : Delivers staff id [] e noted := ⟨hnote, hin.congr rfl, [], .nil, hsame⟩
    refine leads_modify_bind ((leads_complete ?_ hnote (hin.congr rfl)).bind ?_)
    · exact fun fresh now hfresh =>
        Message.under_complete_of_correlationId hfresh now (Option.some_ne_none _).symm rfl hid
    · rintro m completed ⟨hm, hletter, hcompleted⟩
      refine (hagain m completed hm hcompleted.ready hcompleted.inHand).bind
        fun _ served hserved => ?_
      rw [hletter] at hserved
      have hone := hnoted.trans (hcompleted.trans hserved)
      exact (ih hone.ready hone.inHand).mono fun _ _ hrest => hone.trans hrest

/-- A message is sent once more if a reply is asked for. -/
theorem leads_reply (hid : id ≠ "") {target : String} {payload : Payload} {reply : Reply}
    (h : e.Ready staff) (hin : e.InHand id) :
    Leads (if target ≠ "" then do
        again (← complete ((Message.new (P.routeTo target) payload).withCorrelationId id))
        return reply
      else return reply) e fun _ e' => Delivers staff id
        (if target ≠ "" then [.send ⟨payload, P.routeTo target, none⟩] else []) e e' := by
  by_cases hto : target ≠ ""
  · rw [if_pos hto, if_pos hto]
    refine (leads_complete ?_ h hin).bind ?_
    · exact fun fresh now hfresh =>
        Message.under_complete_of_correlationId hfresh now (Option.some_ne_none _).symm rfl hid
    · rintro m completed ⟨hm, hletter, hcompleted⟩
      refine (hagain m completed hm hcompleted.ready hcompleted.inHand).bind
        fun _ served hserved => ?_
      rw [hletter] at hserved
      exact leads_pure (hcompleted.trans hserved)
  · rw [if_neg hto, if_neg hto]
    exact leads_pure (.idle h hin rfl)

theorem leads_deliverTo (hcrew : Crew staff id) (hs : staff[i]? = some s) (hm : m.Under id)
    (h : e.Ready staff) (hin : e.InHand id) :
    (deliverTo again none false m i).Leads e fun _ e' =>
      Delivers staff id (m.letter.jobs [s.binding]) e e' := by
  unfold deliverTo
  refine leads_get_bind ?_
  obtain ⟨s, hs', rfl, hrecording⟩ := h.exists_subscriber hs
  have hsteady := hcrew.unclosed _ (List.mem_of_getElem? hs)
  replace hsteady : s.closed = false := hsteady
  have hjobs : m.letter.jobs [s.binding] =
      if P.accepts s.binding m.route m.payload.headers then [.handle s.binding m.letter]
      else [] := by
    by_cases haccepts : P.accepts s.binding m.route m.payload.headers = true <;>
      simp [Letter.jobs, Message.letter, haccepts]
  show Leads _ _ fun _ e' => Delivers staff id (m.letter.jobs [s.binding]) e e'
  rw [hs', hjobs]
  dsimp only
  rw [hsteady, Bool.false_or]
  by_cases haccepts : P.accepts s.binding m.route m.payload.headers = true
  · rw [if_pos haccepts, haccepts, Bool.not_true, if_neg Bool.false_ne_true]
    refine (leads_consume hcrew hs' hs hm h hin).bind ?_
    rintro ⟨env, result⟩ mid
      (⟨type, cause, hfailed⟩ | ⟨x, hx, hletters, hcorrelation, hready, hinHand, hrun⟩)
    · obtain rfl : result = .error (.failure type cause) := hfailed
      exact leads_throw (by simp)
    · have hcomes := hcrew.comes (List.mem_of_getElem? hs) hx
      -- what follows was done by then
      have hdone {e' : Engine P κ} (hrest : Delivers staff id x.jobs mid e') :
          Delivers staff id [.handle s.binding m.letter] e e' := hrest.handle hcomes hrun
      have hquiet (hnone : Processing.followUps P.routeTo (env, result) = []) :
          Delivers staff id [.handle s.binding m.letter] e mid := by
        refine hdone ?_
        rw [Reaction.jobs, ← hletters, hnone]
        exact .idle hready hinHand rfl
      cases result with
      | error err =>
        cases err with
        | interrupt signal => exact leads_pure (hquiet rfl)
        | failure type cause => exact leads_throw (by simp)
      | ok consumed =>
        cases consumed with
        | none => exact leads_pure (hquiet rfl)
        | some consumed =>
          dsimp only
          cases hreply : consumed.reply with
          | none =>
            refine leads_pure (hquiet ?_)
            simp [Processing.followUps, Processing.replies, hreply]
          | some payload =>
            obtain rfl : env.correlationId = id := hcorrelation
            refine (leads_forward hagain hm.nonempty (lt_length_of_getElem? hs) hready hinHand).bind
              fun _ forwarded hforwarded => ?_
            rw [if_neg Bool.false_ne_true]
            refine (leads_reply hagain hm.nonempty hforwarded.ready hforwarded.inHand).mono ?_
            intro _ e' hreplied
            refine hdone ((hforwarded.trans hreplied).perm ?_)
            refine List.perm_append_comm.trans (.of_eq ?_)
            rw [Reaction.jobs, ← hletters]
            simp only [Processing.followUps, Processing.replies, hreply]
            by_cases hto : env.replyTo ≠ "" <;> simp [hto]
  · rw [if_neg haccepts, Bool.eq_false_iff.mpr haccepts, Bool.not_false, if_pos rfl]
    exact leads_pure (.idle h hin rfl)

/-- A message is delivered to some subscribers in turn. -/
theorem leads_deliverToEach (hcrew : Crew staff id) {turn : List Nat}
    (hturn : ∀ i ∈ turn, i < staff.length) (hm : m.Under id) (h : e.Ready staff)
    (hin : e.InHand id) :
    (deliverToEach again none false m turn).Leads e fun _ e' =>
      Delivers staff id (m.letter.jobs ((turn.filterMap (staff[·]?)).map (·.binding))) e e' := by
  induction turn generalizing e with
  | nil => exact leads_pure (.idle h hin rfl)
  | cons i turn ih =>
    obtain ⟨hi, hturn⟩ := List.forall_mem_cons.mp hturn
    have hs := List.getElem?_eq_getElem hi
    refine (leads_deliverTo hagain hcrew hs hm h hin).bind fun _ mid hfirst => ?_
    refine (ih hturn hfirst.ready hfirst.inHand).bind fun _ e' hrest => leads_pure ?_
    have hall := hfirst.trans hrest
    rw [Letter.jobs, Letter.jobs, ← List.map_append, ← List.filter_append] at hall
    rwa [List.filterMap_cons_some hs]

omit hagain

/-- A message is delivered to all subscribers, and everything that it leads to with it. -/
theorem leads_deliver (hcrew : Crew staff id) {depth : Nat} (hm : m.Under id) (h : e.Ready staff)
    (hin : e.InHand id) :
    (deliver none depth false m).Leads e fun _ e' => Delivers staff id [.send m.letter] e e' := by
  induction depth generalizing m e with
  | zero => exact leads_throw (by simp)
  | succ depth ih =>
    have hagain : Serves staff id (deliver none depth false · >>= fun _ => pure ()) :=
      fun m e hm h hin => (ih hm h hin).bind fun _ _ hserved => leads_pure hserved
    unfold deliver
    refine leads_get_bind ?_
    rw [h.length_subscribers]
    refine (leads_deliverToEach hagain hcrew (fun i => List.mem_range.mp) hm h hin).mono ?_
    rintro _ e' ⟨hready, hinHand, run, hunrolls, hrun⟩
    rw [filterMap_range, List.take_length] at hunrolls
    exact ⟨hready, hinHand, run, .send (by rwa [List.append_nil]), hrun⟩

/-- A message that is published in process, unless a delivery fails or goes too deep, is delivered
with everything that it leads to. -/
theorem delivers_of_publishWithin (hcrew : Crew staff id) {depth : Nat} (hm : m.Under id)
    (h : e.Ready staff) (hin : e.InHand id) {e' : Engine P κ}
    (hpublished : publishWithin depth m e = some (.ok (), e')) :
    Delivers staff id [.send m.letter] e e' := by
  have hleads : (complete m >>= deliver none depth false : InProcess P κ Reply).Leads e
      fun _ e' => Delivers staff id [.send m.letter] e e' := by
    refine (leads_complete (fun _ now hfresh => hm.complete hfresh now) h hin).bind ?_
    rintro m' mid ⟨hm', hletter, hcompleted⟩
    refine (leads_deliver hcrew hm' hcompleted.ready hcompleted.inHand).mono fun _ _ hserved => ?_
    exact hcompleted.trans (hletter ▸ hserved)
  unfold Leads at hleads
  unfold publishWithin at hpublished
  dsimp only at hpublished
  rcases hresult : (complete m >>= deliver none depth false : InProcess P κ Reply).run.run e with
    ⟨halt | reply, final⟩
  · rw [hresult] at hleads hpublished
    cases halt with
    | late => exact absurd rfl hleads
    | _ => cases hpublished
  · rw [hresult] at hleads hpublished
    cases hpublished
    exact hleads

end InProcess
end MessageDispatch
