import MessageDispatch.Program

/-! Middlewares: code around other code. On the way in a middleware sees the input; it then
either answers by itself, and what it wraps is not run, or passes an input on and sees the result
on the way out. -/
namespace MessageDispatch

/-- What a middleware decides at the end of its way in. -/
inductive Passage (S : Signature) (ι ρ : Type) where
  | answer (result : ρ)
  | forward (input : ι) (wayOut : ρ → Program S ρ)

def Middleware (S : Signature) (ι ρ : Type) : Type :=
  ι → Program S (Passage S ι ρ)

namespace Middleware

variable {S T : Signature} {ι ρ : Type}

/-- One middleware around the rest. `lift` carries its operations over to those of the rest. -/
def around (lift : (op : S.Op) → Program T (S.Answer op)) (m : Middleware S ι ρ)
    (rest : ι → Program T ρ) (input : ι) : Program T ρ :=
  (Program.expand lift (m input)).bind fun
    | .answer result => .done result
    | .forward input wayOut =>
      (rest input).bind fun result => Program.expand lift (wayOut result)

/-- A list of middlewares around a core: the first one enters first and leaves last. -/
def chain (lift : (op : S.Op) → Program T (S.Answer op)) :
    List (Middleware S ι ρ) → (ι → Program T ρ) → ι → Program T ρ
  | [], core => core
  | m :: rest, core => around lift m (chain lift rest core)

end Middleware
end MessageDispatch
