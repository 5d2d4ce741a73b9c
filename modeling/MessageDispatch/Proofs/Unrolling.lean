import MessageDispatch.Proofs.Lists
import MessageDispatch.Proofs.SteadySubscriber

/-! What a message leads to, as jobs that make further jobs: a letter that is sent is to be handled
by every subscriber that takes it, and what a subscriber makes of it is sent in turn. Unrolling all
jobs gives the calls that are run in the end, and in whichever order that is done they are the same
calls. -/
namespace MessageDispatch

/-- A call that was run, and the body that it was run with. -/
structure Invocation (P : Protocol) where
  binding : P.Binding
  call : Nat
  body : Decoded

/-- Something that is still to be done. -/
inductive Job (P : Protocol) where
  | send (letter : Letter P.Route)
  | handle (binding : P.Binding) (letter : Letter P.Route)

variable {P : Protocol} {κ : Type}

/-- The calls that a subscriber runs for a letter. -/
def Reaction.invocations (x : Reaction P.Route) (b : P.Binding) : List (Invocation P) :=
  x.bodies.map fun r => ⟨b, r.1, r.2⟩

def Reaction.jobs (x : Reaction P.Route) : List (Job P) := x.letters.map .send

/-- Who has to handle a letter, among these bindings. -/
def Letter.jobs (bindings : List P.Binding) (letter : Letter P.Route) : List (Job P) :=
  (bindings.filter fun b => P.accepts b letter.route letter.payload.headers).map
    (.handle · letter)

/-- The subscriber comes to this with the letter, whoever of the staff that is. -/
def Comes (staff : List (Subscriber P κ)) (id : String) (b : P.Binding) (letter : Letter P.Route)
    (x : Reaction P.Route) : Prop :=
  ∀ s ∈ staff, s.binding = b → s.Reacts id letter x

/-- Subscribers that are open and steady, each with a binding of its own. -/
structure Crew (staff : List (Subscriber P κ)) (id : String) : Prop where
  steady : ∀ s ∈ staff, s.Steady id
  unclosed : ∀ s ∈ staff, s.closed = false
  distinct : (staff.map (·.binding)).Nodup

theorem Crew.alone {staff : List (Subscriber P κ)} {id : String} (h : Crew staff id)
    {s s' : Subscriber P κ} (hs : s ∈ staff) (hs' : s' ∈ staff)
    (hbinding : s'.binding = s.binding) : s' = s := by
  obtain ⟨i, hi⟩ := List.mem_iff_getElem?.mp hs
  obtain ⟨j, hj⟩ := List.mem_iff_getElem?.mp hs'
  obtain rfl := eq_of_nodup_map h.distinct hi hj hbinding.symm
  exact Option.some.inj (hj.symm.trans hi)

theorem Crew.comes {staff : List (Subscriber P κ)} {id : String} (h : Crew staff id)
    {s : Subscriber P κ} (hs : s ∈ staff) {letter : Letter P.Route} {x : Reaction P.Route}
    (hx : s.Reacts id letter x) : Comes staff id s.binding letter x :=
  fun _ hs' hbinding => h.alone hs hs' hbinding ▸ hx

/-- Jobs are done one after the other, and each of them is followed by the jobs that it makes; these
are the calls that are run along the way. -/
inductive Unrolls (staff : List (Subscriber P κ)) (id : String) :
    List (Job P) → List (Invocation P) → Prop where
  | nil : Unrolls staff id [] []
  | send {letter : Letter P.Route} {jobs : List (Job P)} {run : List (Invocation P)}
      (rest : Unrolls staff id (letter.jobs (staff.map (·.binding)) ++ jobs) run) :
      Unrolls staff id (.send letter :: jobs) run
  | handle {b : P.Binding} {letter : Letter P.Route} {x : Reaction P.Route} {jobs : List (Job P)}
      {run : List (Invocation P)} (h : Comes staff id b letter x)
      (rest : Unrolls staff id (x.jobs ++ jobs) run) :
      Unrolls staff id (.handle b letter :: jobs) (x.invocations b ++ run)

variable {staff : List (Subscriber P κ)} {id : String} {jobs jobs' more : List (Job P)}
  {run run' : List (Invocation P)}

namespace Unrolls

theorem append (h : Unrolls staff id jobs run) (h' : Unrolls staff id more run') :
    Unrolls staff id (jobs ++ more) (run ++ run') := by
  induction h with
  | nil => exact h'
  | send rest ih =>
    rw [List.cons_append]
    refine .send ?_
    rw [← List.append_assoc]
    exact ih
  | handle h rest ih =>
    rw [List.append_assoc, List.cons_append]
    refine .handle h ?_
    rw [← List.append_assoc]
    exact ih

theorem split (h : Unrolls staff id (jobs ++ more) run) :
    ∃ run₁ run₂, run = run₁ ++ run₂ ∧ Unrolls staff id jobs run₁ ∧ Unrolls staff id more run₂ := by
  generalize hall : jobs ++ more = all at h
  induction h generalizing jobs with
  | nil =>
    obtain ⟨rfl, rfl⟩ := List.append_eq_nil_iff.mp hall
    exact ⟨[], [], rfl, .nil, .nil⟩
  | @send letter others run rest ih =>
    rcases List.append_eq_cons_iff.mp hall with ⟨rfl, rfl⟩ | ⟨jobs', rfl, rfl⟩
    · exact ⟨[], run, rfl, .nil, .send rest⟩
    · obtain ⟨run₁, run₂, rfl, h₁, h₂⟩ := ih (List.append_assoc ..)
      exact ⟨run₁, run₂, rfl, .send h₁, h₂⟩
  | @handle b letter x others run h rest ih =>
    rcases List.append_eq_cons_iff.mp hall with ⟨rfl, rfl⟩ | ⟨jobs', rfl, rfl⟩
    · exact ⟨[], _, rfl, .nil, .handle h rest⟩
    · obtain ⟨run₁, run₂, rfl, h₁, h₂⟩ := ih (List.append_assoc ..)
      exact ⟨_, run₂, (List.append_assoc ..).symm, .handle h h₁, h₂⟩

theorem split_cons {job : Job P} (h : Unrolls staff id (job :: jobs) run) :
    ∃ run₁ run₂, run = run₁ ++ run₂ ∧ Unrolls staff id [job] run₁ ∧ Unrolls staff id jobs run₂ := by
  rw [← List.singleton_append] at h
  exact h.split

/-- In another order, the same calls are run. -/
theorem perm (h : Unrolls staff id jobs run) (hperm : jobs.Perm jobs') :
    ∃ run', run.Perm run' ∧ Unrolls staff id jobs' run' := by
  induction hperm generalizing run with
  | nil => exact ⟨run, .refl _, h⟩
  | @cons job jobs jobs' hperm ih =>
    obtain ⟨run₁, run₂, rfl, h₁, h₂⟩ := h.split_cons
    obtain ⟨run', hrun, h'⟩ := ih h₂
    exact ⟨run₁ ++ run', hrun.append_left run₁, append h₁ h'⟩
  | swap first second jobs =>
    obtain ⟨run₁, rest, rfl, h₁, hrest⟩ := h.split_cons
    obtain ⟨run₂, run₃, rfl, h₂, h₃⟩ := hrest.split_cons
    refine ⟨run₂ ++ (run₁ ++ run₃), ?_, append h₂ (append h₁ h₃)⟩
    rw [← List.append_assoc, ← List.append_assoc]
    exact List.perm_append_comm.append_right run₃
  | trans _ _ ih ih' =>
    obtain ⟨run', hrun, h'⟩ := ih h
    obtain ⟨run'', hrun', h''⟩ := ih' h'
    exact ⟨run'', hrun.trans hrun', h''⟩

end Unrolls

/-! ## Accounts -/

/-- A message that its subscriber hands back by hand comes back for ever. -/
def Job.Returns (staff : List (Subscriber P κ)) (id : String) : Job P → Prop
  | .send _ => False
  | .handle b letter => ∃ s ∈ staff, s.binding = b ∧ ∃ x, s.Reacts id letter x ∧ x.returned = true

/-- The calls that were run so far and those that the jobs will run are these in all, unless there
is no end to the jobs. -/
def Balanced (staff : List (Subscriber P κ)) (id : String) (past : List (Invocation P))
    (jobs : List (Job P)) (total : List (Invocation P)) : Prop :=
  ∃ run, Unrolls staff id jobs run ∧
    ((past ++ run).Perm total ∨ ∃ job ∈ jobs, job.Returns staff id)

namespace Balanced

variable {past past' total : List (Invocation P)} {b : P.Binding} {letter : Letter P.Route}

theorem perm (h : Balanced staff id past jobs total) (hpast : past.Perm past')
    (hjobs : jobs.Perm jobs') : Balanced staff id past' jobs' total := by
  obtain ⟨run, hunrolls, htotal⟩ := h
  obtain ⟨run', hrun, hunrolls'⟩ := hunrolls.perm hjobs
  refine ⟨run', hunrolls', htotal.imp (fun htotal => ?_) ?_⟩
  · exact (hpast.append hrun).symm.trans htotal
  · rintro ⟨job, hjob, hreturns⟩
    exact ⟨job, hjobs.mem_iff.mp hjob, hreturns⟩

/-- A letter that is sent comes to everybody who takes it. -/
theorem send (h : Balanced staff id past (.send letter :: jobs) total) :
    Balanced staff id past (letter.jobs (staff.map (·.binding)) ++ jobs) total := by
  obtain ⟨run, hunrolls, htotal⟩ := h
  cases hunrolls with
  | send rest =>
    refine ⟨run, rest, htotal.imp_right ?_⟩
    rintro ⟨job, hjob, hreturns⟩
    rcases List.mem_cons.mp hjob with rfl | hjob
    · exact hreturns.elim
    · exact ⟨job, List.mem_append_right _ hjob, hreturns⟩

theorem sends {letters : List (Letter P.Route)}
    (h : Balanced staff id past (letters.map .send ++ jobs) total) :
    Balanced staff id past (letters.flatMap (·.jobs (staff.map (·.binding))) ++ jobs) total := by
  induction letters generalizing jobs with
  | nil => exact h
  | cons letter letters ih =>
    refine (ih (h.send.perm (.refl past) (List.perm_append_comm_assoc ..))).perm (.refl past) ?_
    rw [List.flatMap_cons, List.append_assoc]
    exact List.perm_append_comm_assoc ..

/-- A subscriber takes a letter in hand; if it is going to hand it back, the letter is to be handled
once more. -/
theorem handle {s : Subscriber P κ} (hs : s ∈ staff)
    (halone : ∀ s' ∈ staff, s'.binding = s.binding → s' = s)
    (hsame : ∀ x y, s.Reacts id letter x → s.Reacts id letter y → x.returned = y.returned)
    (h : Balanced staff id past (.handle s.binding letter :: jobs) total) :
    ∃ x, s.Reacts id letter x ∧ Balanced staff id (past ++ x.invocations s.binding)
      (x.jobs ++ ((if x.returned then [.handle s.binding letter] else []) ++ jobs)) total := by
  obtain ⟨run, hunrolls, htotal⟩ := h
  obtain ⟨first, -, -, hfirst, -⟩ := hunrolls.split_cons
  cases hunrolls with
  | @handle _ _ x _ run hcomes rest =>
    have hx := hcomes s hs rfl
    refine ⟨x, hx, ?_⟩
    cases hreturned : x.returned with
    | true =>
      obtain ⟨run₁, run₂, rfl, h₁, h₂⟩ := rest.split
      exact ⟨_, h₁.append (hfirst.append h₂),
        .inr ⟨.handle s.binding letter, by simp, s, hs, rfl, x, hx, hreturned⟩⟩
    | false =>
      refine ⟨run, rest, htotal.imp (fun htotal => ?_) ?_⟩
      · rw [List.append_assoc]
        exact htotal
      · rintro ⟨job, hjob, hreturns⟩
        rcases List.mem_cons.mp hjob with rfl | hjob
        · obtain ⟨s', hs', hbinding, y, hy, hyes⟩ := hreturns
          obtain rfl := halone s' hs' hbinding
          rw [hsame y x hy hx, hreturned] at hyes
          cases hyes
        · exact ⟨job, by simp [hjob], hreturns⟩

/-- When nothing is left to be done, all calls were run. -/
theorem finished (h : Balanced staff id past [] total) : past.Perm total := by
  obtain ⟨run, hunrolls, htotal | ⟨job, hjob, -⟩⟩ := h
  · cases hunrolls
    simpa using htotal
  · cases hjob

end Balanced
end MessageDispatch
