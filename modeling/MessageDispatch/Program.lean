/-! Programs over a signature of operations. A program is a finished value or one operation and
what to do with its answer, so it says what is asked for and in which order, and nothing about
how it is carried out. -/
namespace MessageDispatch

/-- Operations and the type of their answers. -/
structure Signature where
  Op : Type
  Answer : Op → Type

inductive Program (S : Signature) (α : Type) : Type where
  | done (a : α)
  | call (op : S.Op) (next : S.Answer op → Program S α)

namespace Program

variable {S T : Signature} {α β σ : Type}

def bind (f : α → Program S β) : Program S α → Program S β
  | .done a => f a
  | .call op next => .call op fun answer => (next answer).bind f

instance : Monad (Program S) where
  pure := .done
  bind p f := p.bind f

/-- One operation. -/
def perform (op : S.Op) : Program S (S.Answer op) :=
  .call op .done

/-- Replace each operation by a program over another signature. -/
def expand (f : (op : S.Op) → Program T (S.Answer op)) : Program S α → Program T α
  | .done a => .done a
  | .call op next => (f op).bind fun answer => (next answer).expand f

/-- Carry a program out from start to end on a state. -/
def run (exec : (op : S.Op) → σ → S.Answer op × σ) : Program S α → σ → α × σ
  | .done a, s => (a, s)
  | .call op next, s => (next (exec op s).1).run exec (exec op s).2

@[simp] theorem pure_eq_done (a : α) : (pure a : Program S α) = .done a := rfl

@[simp] theorem bind_eq (p : Program S α) (f : α → Program S β) : p >>= f = p.bind f := rfl

@[simp] theorem bind_done (f : α → Program S β) (a : α) : (Program.done a).bind f = f a := rfl

@[simp] theorem bind_call (f : α → Program S β) (op : S.Op) (next : S.Answer op → Program S α) :
    (Program.call op next).bind f = .call op fun answer => (next answer).bind f := rfl

theorem bind_done_right (p : Program S α) : p.bind .done = p := by
  induction p with
  | done a => rfl
  | call op next ih => simp [ih]

theorem bind_assoc {γ : Type} (p : Program S α) (f : α → Program S β) (g : β → Program S γ) :
    (p.bind f).bind g = p.bind fun a => (f a).bind g := by
  induction p with
  | done a => rfl
  | call op next ih => simp [ih]

@[simp] theorem expand_done (f : (op : S.Op) → Program T (S.Answer op)) (a : α) :
    (Program.done a).expand f = .done a := rfl

@[simp] theorem expand_call (f : (op : S.Op) → Program T (S.Answer op)) (op : S.Op)
    (next : S.Answer op → Program S α) :
    (Program.call op next).expand f = (f op).bind fun answer => (next answer).expand f := rfl

end Program
end MessageDispatch
