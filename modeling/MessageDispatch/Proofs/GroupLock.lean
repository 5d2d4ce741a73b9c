import MessageDispatch.Calling
import MessageDispatch.Proofs.Runs

/-! How clients share a group. Whatever touches the dispatchers of a group is done by a client that
holds the group, and a client that has shut them down waits for each of them before it does anything
else. Every call that a group offers abides by that. -/
namespace MessageDispatch.Calling

variable {ρ κ α β : Type}

/-- Is the operation one for those who hold the group? To connect is not counted: it changes nothing
for the dispatchers. -/
def Op.isOfHolder : Calling.Op ρ κ → Bool
  | .acquire | .release | .dispatchAll | .dispatchInbox | .shutDown | .renew => true
  | _ => false

/-- Where a client is in its use of a group. -/
inductive Hold where
  | free
  | held
  /-- The dispatchers were shut down, and these are still to be waited for. -/
  | closing (ds : List Nat)
  /-- They all have come to their end, and dispatchers may be started again. -/
  | closed

namespace Hold

/-- The operations that a client may come to next. -/
def Allows : Hold → Calling.Op ρ κ → Prop
  | .free, op => op = .acquire ∨ op.isOfHolder = false
  | .held, op => op ≠ .acquire ∧ op ≠ .renew
  | .closing (d :: _), op => op = .finished d
  | .closing [], op => op = .renew
  | .closed, op => op = .release

def after : Hold → (op : Calling.Op ρ κ) → Calling.Answer op → Hold
  | .free, .acquire, _ => .held
  | .held, .release, _ => .free
  | .held, .shutDown, ds => .closing ds
  | .closing (_ :: ds), .finished _, _ => .closing ds
  | .closing [], .renew, _ => .closed
  | .closed, .release, _ => .free
  | hold, _, _ => hold

/-- Where a client can be that comes to an operation for holders. -/
theorem cases_of_allows {hold : Hold} {op : Calling.Op ρ κ} (hop : op.isOfHolder = true)
    (h : hold.Allows op) : (hold = .free ∧ op = .acquire) ∨
      (hold = .held ∧ op ≠ .acquire ∧ op ≠ .renew) ∨
        (hold = .closing [] ∧ op = .renew) ∨ (hold = .closed ∧ op = .release) := by
  match hold, h with
  | .free, .inl hacquire => exact .inl ⟨rfl, hacquire⟩
  | .free, .inr hother =>
    rw [hop] at hother
    cases hother
  | .held, hheld => exact .inr (.inl ⟨rfl, hheld⟩)
  | .closing [], hrenew => exact .inr (.inr (.inl ⟨rfl, hrenew⟩))
  | .closing (d :: ds), hfinished =>
    obtain rfl : op = .finished d := hfinished
    cases hop
  | .closed, hrelease => exact .inr (.inr (.inr ⟨rfl, hrelease⟩))

/-- Only what is for holders gets a client any further with the group. -/
theorem after_of_not_isOfHolder {hold : Hold} (hhold : hold = .free ∨ hold = .held)
    {op : Calling.Op ρ κ} (hop : op.isOfHolder = false) (answer : Calling.Answer op) :
    hold.after op answer = hold := by
  rcases hhold with rfl | rfl <;> cases op <;> first | rfl | cases hop

end Hold

/-- A program that goes by the rules from this point on, and lets go of the group in the end. -/
def Abides : Hold → Program (Calling ρ κ) α → Prop
  | hold, .done _ => hold = .free
  | hold, .call op next =>
    hold.Allows op ∧ ∀ answer, Abides (hold.after op answer) (next answer)

/-- A program that uses the group without holding it. -/
def Unheld (p : Program (Calling ρ κ) α) : Prop :=
  p.Within fun op : Calling.Op ρ κ => op.isOfHolder = false

variable {hold : Hold} {p : Program (Calling ρ κ) α} {f : α → Program (Calling ρ κ) β}

/-! ## Sequences -/

theorem Abides.bind (hp : Abides hold p) (hf : ∀ a, Abides .free (f a)) :
    Abides hold (p.bind f) := by
  induction p generalizing hold with
  | done a =>
    obtain rfl : hold = .free := hp
    exact hf a
  | call op next ih => exact ⟨hp.1, fun answer => ih answer (hp.2 answer)⟩

theorem Abides.unheld_bind (hhold : hold = .free ∨ hold = .held) (hp : Unheld p)
    (hf : ∀ a, Abides hold (f a)) : Abides hold (p.bind f) := by
  induction p with
  | done a => exact hf a
  | call op next ih =>
    obtain ⟨hop, hnext⟩ := hp
    refine ⟨?_, fun answer => ?_⟩
    · rcases hhold with rfl | rfl
      · exact .inr hop
      · constructor <;> rintro rfl <;> cases hop
    · rw [Hold.after_of_not_isOfHolder hhold hop]
      exact ih answer (hnext answer)

theorem unheld_perform {op : Calling.Op ρ κ} (h : op.isOfHolder = false) : Unheld (perform op) :=
  ⟨h, fun _ => trivial⟩

theorem unheld_ofPublishing (p : Program (Publishing ρ κ) α) : Unheld (p.expand ofPublishing) := by
  refine Program.within_expand ?_ p
  intro op
  exact ⟨rfl, fun _ => trivial⟩

theorem unheld_each {act : α → Program (Calling ρ κ) Unit} (hact : ∀ a, Unheld (act a))
    (as : List α) : Unheld (each act as) := by
  induction as with
  | nil => trivial
  | cons a as ih => exact Program.within_bind (hact a) fun _ => ih

theorem Abides.of_unheld (hp : Unheld p) : Abides .free p := by
  rw [← Program.bind_done_right p]
  exact .unheld_bind (.inl rfl) hp fun _ => rfl

/-! ## The calls of a group -/

/-- Wait until each of the dispatchers has tried to subscribe, let go of the group, and go on. -/
def attempting (ds : List Nat) (p : Program (Calling ρ κ) β) : Program (Calling ρ κ) β :=
  (each (fun d => perform (.attempted d)) ds).bind fun _ => .call .release fun _ => p

/-- Wait until each of the dispatchers has come to its end, let go of the group, and go on. -/
def finishing (ds : List Nat) (p : Program (Calling ρ κ) β) : Program (Calling ρ κ) β :=
  (each (fun d => perform (.finished d)) ds).bind fun _ =>
    .call .renew fun _ => .call .release fun _ => p

theorem attempting_cons (d : Nat) (ds : List Nat) (p : Program (Calling ρ κ) β) :
    attempting (d :: ds) p = .call (.attempted d) fun _ => attempting ds p := rfl

theorem finishing_cons (d : Nat) (ds : List Nat) (p : Program (Calling ρ κ) β) :
    finishing (d :: ds) p = .call (.finished d) fun _ => finishing ds p := rfl

/-- Connect, have every open subscriber dispatched, and go on. -/
def connecting (f : Except TransportError Unit → Program (Calling ρ κ) β) :
    Program (Calling ρ κ) β :=
  .call .connect fun connected =>
    match connected with
    | .error e => .call .release fun _ => f (.error e)
    | .ok () => .call .dispatchAll fun ds => attempting ds (f (.ok ()))

theorem start_bind (f : Except TransportError Unit → Program (Calling ρ κ) β) :
    start.bind f = .call .acquire fun _ => connecting f := by
  refine congrArg (Program.call (S := Calling ρ κ) Op.acquire) (funext fun _ => ?_)
  refine congrArg (Program.call (S := Calling ρ κ) Op.connect) (funext fun connected => ?_)
  match connected with
  | .error e => rfl
  | .ok () =>
    refine congrArg (Program.call (S := Calling ρ κ) Op.dispatchAll) (funext fun ds => ?_)
    exact Program.bind_assoc (each (fun d => perform (.attempted d)) ds) _ f

theorem close_bind (f : Unit → Program (Calling ρ κ) β) :
    close.bind f = .call .acquire fun _ => .call .shutDown fun ds => finishing ds (f ()) := by
  refine congrArg (Program.call (S := Calling ρ κ) Op.acquire) (funext fun _ => ?_)
  refine congrArg (Program.call (S := Calling ρ κ) Op.shutDown) (funext fun ds => ?_)
  exact Program.bind_assoc (each (fun d => perform (.finished d)) ds) _ f

theorem abides_attempting {p : Program (Calling ρ κ) β} (hp : Abides .free p) (ds : List Nat) :
    Abides .held (attempting ds p) :=
  .unheld_bind (.inr rfl) (unheld_each (fun _ => unheld_perform rfl) ds)
    fun _ => ⟨⟨nofun, nofun⟩, fun _ => hp⟩

theorem abides_finishing {p : Program (Calling ρ κ) β} (hp : Abides .free p) (ds : List Nat) :
    Abides (.closing ds) (finishing ds p) := by
  induction ds with
  | nil => exact ⟨rfl, fun _ => ⟨rfl, fun _ => hp⟩⟩
  | cons d ds ih => exact ⟨rfl, fun _ => ih⟩

theorem abides_start {f : Except TransportError Unit → Program (Calling ρ κ) β}
    (hf : ∀ result, Abides .free (f result)) : Abides .free (start.bind f) := by
  rw [start_bind]
  refine ⟨.inl rfl, fun _ => ⟨⟨nofun, nofun⟩, fun connected => ?_⟩⟩
  match connected with
  | .error e => exact ⟨⟨nofun, nofun⟩, fun _ => hf (.error e)⟩
  | .ok () => exact ⟨⟨nofun, nofun⟩, fun ds => abides_attempting (hf (.ok ())) ds⟩

theorem abides_close {f : Unit → Program (Calling ρ κ) β} (hf : ∀ u, Abides .free (f u)) :
    Abides .free (close.bind f) := by
  rw [close_bind]
  exact ⟨.inl rfl, fun _ => ⟨⟨nofun, nofun⟩, fun ds => abides_finishing (hf ()) ds⟩⟩

theorem abides_runUntil (flag : Nat) : Abides .free (runUntil flag : Program (Calling ρ κ) _) := by
  refine abides_start fun result => ?_
  match result with
  | .error e => exact rfl
  | .ok () =>
    refine .unheld_bind (.inl rfl) (unheld_perform rfl) fun _ => ?_
    exact abides_close fun _ => rfl

theorem abides_replyInbox {f : Except TransportError String → Program (Calling ρ κ) β}
    (hf : ∀ result, Abides .free (f result)) : Abides .free (replyInbox.bind f) := by
  refine ⟨.inl rfl, fun _ => ⟨⟨nofun, nofun⟩, fun connected => ?_⟩⟩
  match connected with
  | .error e => exact ⟨⟨nofun, nofun⟩, fun _ => hf (.error e)⟩
  | .ok () =>
    refine ⟨⟨nofun, nofun⟩, fun opened => ?_⟩
    show Abides .held (((each _ _).bind _).bind _)
    rw [Program.bind_assoc]
    exact abides_attempting (hf (.ok opened.1)) opened.2.toList

theorem unheld_exchange (publisher : Publisher ρ κ) (options : RequestOptions) (m : Message ρ)
    (handle : Nat) : Unheld (exchange publisher options m handle) := by
  refine Program.within_bind (unheld_ofPublishing _) fun published => ?_
  match published with
  | .error e => exact ⟨rfl, fun _ => trivial⟩
  | .ok () => exact ⟨rfl, fun _ => ⟨rfl, fun _ => ⟨rfl, fun _ => trivial⟩⟩⟩

theorem abides_request (publisher : Publisher ρ κ) (options : RequestOptions) (m : Message ρ) :
    Abides .free (request publisher options m) := by
  refine abides_replyInbox fun opened => ?_
  match opened with
  | .error e => exact rfl
  | .ok inbox =>
    refine .unheld_bind (.inl rfl) (unheld_ofPublishing _) fun m => .of_unheld ⟨rfl, ?_⟩
    intro granted
    match granted with
    | none => trivial
    | some handle => exact unheld_exchange ..

theorem abides_publishAll (publisher : Publisher ρ κ) (ms : List (Message ρ)) :
    Abides .free (publishAll publisher ms) := by
  refine .of_unheld ?_
  induction ms with
  | nil => trivial
  | cons m ms ih =>
    exact Program.within_bind (unheld_ofPublishing _) fun _ =>
      Program.within_bind ih fun _ => trivial

/-- A program that waits for a dispatcher to come to its end, and before that for nothing else than
for others to do so. -/
def Awaits (d : Nat) : Program (Calling ρ κ) α → Prop
  | .call (.finished d') next => d' = d ∨ Awaits d (next ())
  | _ => False

theorem Abides.awaits {ds : List Nat} (hp : Abides (.closing ds) p) {d : Nat} (hd : d ∈ ds) :
    Awaits d p := by
  induction ds generalizing p with
  | nil => cases hd
  | cons d' ds ih =>
    cases p with
    | done a => cases hp
    | call op next =>
      obtain ⟨rfl, hnext⟩ := hp
      rcases List.mem_cons.mp hd with rfl | hd
      · exact .inl rfl
      · exact .inr (ih (hnext ()) hd)

end MessageDispatch.Calling
