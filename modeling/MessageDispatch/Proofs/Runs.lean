import MessageDispatch.Program

/-! What a program does on one run: the operations it asks for, each with its answer, and what it
ends with. Nothing is assumed of the answers, so what holds of every run holds whoever carries the
program out and whatever else happens in the meantime. -/
namespace MessageDispatch

/-- An operation that was carried out, with its answer. -/
structure Event (S : Signature) where
  op : S.Op
  answer : S.Answer op

variable {S T : Signature} {α β σ : Type}

inductive Runs : Program S α → List (Event S) → α → Prop where
  | done (a : α) : Runs (.done a) [] a
  | call {op : S.Op} {next : S.Answer op → Program S α} {answer : S.Answer op}
      {t : List (Event S)} {a : α} (h : Runs (next answer) t a) :
      Runs (.call op next) (⟨op, answer⟩ :: t) a

/-- The events of a run, each carried out by a run of a program over another signature. -/
inductive Refines (f : (op : S.Op) → Program T (S.Answer op)) :
    List (Event S) → List (Event T) → Prop where
  | nil : Refines f [] []
  | cons {op : S.Op} {answer : S.Answer op} {s : List (Event S)} {t u : List (Event T)}
      (h : Runs (f op) t answer) (rest : Refines f s u) : Refines f (⟨op, answer⟩ :: s) (t ++ u)

/-- The events of the run that a way to carry a program out makes. -/
def Program.trace (exec : (op : S.Op) → σ → S.Answer op × σ) : Program S α → σ → List (Event S)
  | .done _, _ => []
  | .call op next, s => ⟨op, (exec op s).1⟩ :: (next (exec op s).1).trace exec (exec op s).2

/-- A program that asks for nothing but `allowed` operations. -/
def Program.Within (allowed : S.Op → Prop) : Program S α → Prop
  | .done _ => True
  | .call op next => allowed op ∧ ∀ answer, (next answer).Within allowed

variable {p : Program S α} {t : List (Event S)} {a : α}

/-! ## Runs of sequences -/

theorem runs_done_iff {b : α} : Runs (.done b : Program S α) t a ↔ t = [] ∧ b = a := by
  constructor
  · intro h
    cases h
    exact ⟨rfl, rfl⟩
  · rintro ⟨rfl, rfl⟩
    exact .done _

theorem runs_call_iff {op : S.Op} {next : S.Answer op → Program S α} :
    Runs (.call op next) t a ↔
      ∃ answer u, t = ⟨op, answer⟩ :: u ∧ Runs (next answer) u a := by
  constructor
  · intro h
    cases h with
    | call h => exact ⟨_, _, rfl, h⟩
  · rintro ⟨answer, u, rfl, h⟩
    exact .call h

/-- One operation on its own. -/
theorem eq_of_runs_single {op : S.Op} {answer : S.Answer op} (h : Runs (.call op .done) t answer) :
    t = [⟨op, answer⟩] := by
  obtain ⟨answer', u, rfl, hdone⟩ := runs_call_iff.mp h
  obtain ⟨rfl, rfl⟩ := runs_done_iff.mp hdone
  rfl

theorem runs_bind_iff {f : α → Program S β} {b : β} :
    Runs (p.bind f) t b ↔ ∃ t₁ t₂ a, t = t₁ ++ t₂ ∧ Runs p t₁ a ∧ Runs (f a) t₂ b := by
  induction p generalizing t with
  | done a =>
    constructor
    · intro h
      exact ⟨[], t, a, rfl, .done a, h⟩
    · rintro ⟨t₁, t₂, a', rfl, h₁, h₂⟩
      obtain ⟨rfl, rfl⟩ := runs_done_iff.mp h₁
      exact h₂
  | call op next ih =>
    rw [Program.bind_call, runs_call_iff]
    constructor
    · rintro ⟨answer, u, rfl, h⟩
      obtain ⟨t₁, t₂, a, rfl, h₁, h₂⟩ := (ih answer).mp h
      exact ⟨⟨op, answer⟩ :: t₁, t₂, a, rfl, .call h₁, h₂⟩
    · rintro ⟨t₁, t₂, a, rfl, h₁, h₂⟩
      obtain ⟨answer, u, rfl, h⟩ := runs_call_iff.mp h₁
      exact ⟨answer, u ++ t₂, rfl, (ih answer).mpr ⟨u, t₂, a, rfl, h, h₂⟩⟩

/-- A run of an expanded program comes from a run of the program itself. -/
theorem exists_refines_of_runs {f : (op : S.Op) → Program T (S.Answer op)} {u : List (Event T)}
    (h : Runs (p.expand f) u a) : ∃ t, Refines f t u ∧ Runs p t a := by
  induction p generalizing u with
  | done b =>
    obtain ⟨rfl, rfl⟩ := runs_done_iff.mp h
    exact ⟨[], .nil, .done b⟩
  | call op next ih =>
    obtain ⟨u₁, u₂, answer, rfl, hop, hnext⟩ := runs_bind_iff.mp h
    obtain ⟨t, hrefines, hruns⟩ := ih answer hnext
    exact ⟨⟨op, answer⟩ :: t, .cons hop hrefines, .call hruns⟩

theorem Refines.append {f : (op : S.Op) → Program T (S.Answer op)} {t t' : List (Event S)}
    {u u' : List (Event T)} (h : Refines f t u) (h' : Refines f t' u') :
    Refines f (t ++ t') (u ++ u') := by
  induction h with
  | nil => exact h'
  | cons hop rest ih =>
    rw [List.append_assoc]
    exact .cons hop ih

/-- A signature as a part of another one: each of its operations is carried out by a program over
the other one, and can be read off what that does. -/
structure Embedding (S T : Signature) where
  lift (op : S.Op) : Program T (S.Answer op)
  event? : Event T → Option (Event S)
  filterMap_event? : ∀ {op t answer}, Runs (lift op) t answer →
    t.filterMap event? = [⟨op, answer⟩]

namespace Embedding

/-- The events that are part of it. -/
def events (i : Embedding S T) (t : List (Event T)) : List (Event S) :=
  t.filterMap i.event?

variable {u : List (Event T)} (i : Embedding S T)

theorem events_append (u v : List (Event T)) : i.events (u ++ v) = i.events u ++ i.events v :=
  List.filterMap_append

theorem events_of_refines (h : Refines i.lift t u) : i.events u = t := by
  induction h with
  | nil => rfl
  | cons hop rest ih =>
    rw [events_append, ih, events, i.filterMap_event? hop]
    rfl

theorem runs_events (h : Runs (p.expand i.lift) u a) : Runs p (i.events u) a := by
  obtain ⟨t, hrefines, hruns⟩ := exists_refines_of_runs h
  rwa [i.events_of_refines hrefines]

end Embedding

/-- Whoever carries a program out makes a run of it. -/
theorem Runs.of_run (exec : (op : S.Op) → σ → S.Answer op × σ) (p : Program S α) (s : σ) :
    Runs p (p.trace exec s) (p.run exec s).1 := by
  induction p generalizing s with
  | done a => exact .done a
  | call op next ih => exact .call (ih _ _)

/-! ## What a program may ask for -/

namespace Program

variable {allowed : S.Op → Prop}

theorem Within.mono {permitted : S.Op → Prop} (hp : p.Within allowed)
    (h : ∀ op, allowed op → permitted op) : p.Within permitted := by
  induction p with
  | done a => trivial
  | call op next ih => exact ⟨h op hp.1, fun answer => ih answer (hp.2 answer)⟩

theorem within_bind {f : α → Program S β} (hp : p.Within allowed)
    (hf : ∀ a, (f a).Within allowed) : (p.bind f).Within allowed := by
  induction p with
  | done a => exact hf a
  | call op next ih => exact ⟨hp.1, fun answer => ih answer (hp.2 answer)⟩

theorem within_expand {permitted : T.Op → Prop} {f : (op : S.Op) → Program T (S.Answer op)}
    (hf : ∀ op, (f op).Within permitted) (p : Program S α) :
    (p.expand f).Within permitted := by
  induction p with
  | done a => trivial
  | call op next ih => exact within_bind (hf op) ih

end Program

theorem Runs.allowed {allowed : S.Op → Prop} (h : Runs p t a) (hp : p.Within allowed) :
    ∀ ev ∈ t, allowed ev.op := by
  induction h with
  | done a => simp
  | call h ih => exact List.forall_mem_cons.mpr ⟨hp.1, ih (hp.2 _)⟩

theorem Refines.allowed {f : (op : S.Op) → Program T (S.Answer op)} {permitted : T.Op → Prop}
    {u : List (Event T)} (h : Refines f t u) (hf : ∀ op, (f op).Within permitted) :
    ∀ ev ∈ u, permitted ev.op := by
  induction h with
  | nil => simp
  | cons hrun rest ih => exact List.forall_mem_append.mpr ⟨hrun.allowed (hf _), ih⟩

end MessageDispatch
