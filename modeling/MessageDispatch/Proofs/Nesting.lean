import MessageDispatch.Middleware
import MessageDispatch.Proofs.Runs

/-! Middlewares that leave a mark when they are entered and another one when they are left. Around a
core the marks are nested: those of the ways in come in the order of the middlewares, and those of
the ways out in reverse, up to the first middleware that answers by itself. What each of them sees
on its way out is what the part that it wraps has returned. -/
namespace MessageDispatch

variable {S T : Signature} {ι ρ ν : Type}

/-! ## Marks -/

section
variable {f : (op : S.Op) → Program T (S.Answer op)} {read : Event S → List ν}
  {mark : Event T → List ν} {s : List (Event S)} {t : List (Event T)}

/-- Carrying an operation out leaves the marks that the operation itself stands for. -/
def Relays (f : (op : S.Op) → Program T (S.Answer op)) (read : Event S → List ν)
    (mark : Event T → List ν) : Prop :=
  ∀ op t answer, Runs (f op) t answer → t.flatMap mark = read ⟨op, answer⟩

theorem Refines.flatMap_eq (h : Refines f s t) (hrelays : Relays f read mark) :
    t.flatMap mark = s.flatMap read := by
  induction h with
  | nil => rfl
  | cons hop rest ih => rw [List.flatMap_append, List.flatMap_cons, hrelays _ _ _ hop, ih]

end

/-- If middlewares leave no marks by themselves, all marks come from one run of what they are
around, or there are none. -/
theorem flatMap_of_chain {mark : Event T → List ν} {lift : (op : S.Op) → Program T (S.Answer op)}
    (hlift : Relays lift (fun _ => []) mark) {middlewares : List (Middleware S ι ρ)}
    {core : ι → Program T ρ} {input : ι} {t : List (Event T)} {out : ρ}
    (h : Runs (Middleware.chain lift middlewares core input) t out) :
    t.flatMap mark = [] ∨
      ∃ input u result, Runs (core input) u result ∧ t.flatMap mark = u.flatMap mark := by
  have hsilent {s : List (Event S)} {u : List (Event T)} (hs : Refines lift s u) :
      u.flatMap mark = [] := by
    rw [hs.flatMap_eq hlift]
    exact List.flatMap_eq_nil_iff.mpr fun _ _ => rfl
  induction middlewares generalizing input t out with
  | nil => exact .inr ⟨input, t, out, h, rfl⟩
  | cons m middlewares ih =>
    obtain ⟨u, v, passage, rfl, hin, hpassed⟩ := runs_bind_iff.mp h
    obtain ⟨s, hs, -⟩ := exists_refines_of_runs hin
    rw [List.flatMap_append, hsilent hs, List.nil_append]
    cases passage with
    | answer own =>
      obtain ⟨rfl, -⟩ := runs_done_iff.mp hpassed
      exact .inl rfl
    | forward next wayOut =>
      obtain ⟨v, w, result, rfl, hrest, hout⟩ := runs_bind_iff.mp hpassed
      obtain ⟨s', hs', -⟩ := exists_refines_of_runs hout
      rw [List.flatMap_append, hsilent hs', List.append_nil]
      exact ih hrest

/-- A middleware that leaves one mark on its way in and one on its way out, whether it passes an
input on or answers by itself. In the mark of the way out stands what it has seen of the part that
it wraps, if that was run, and what it returned. -/
structure Recorder (S : Signature) (ι ρ : Type) {ν : Type} (read : Event S → List ν) where
  middleware : Middleware S ι ρ
  enters : ν
  leaves : (seen : Option ρ) → (returned : ρ) → ν
  answers : ∀ {input t own}, Runs (middleware input) t (.answer own) →
    t.flatMap read = [enters, leaves none own]
  forwards : ∀ {input t next wayOut}, Runs (middleware input) t (.forward next wayOut) →
    t.flatMap read = [enters] ∧ ∀ {seen u returned}, Runs (wayOut seen) u returned →
      u.flatMap read = [leaves (some seen) returned]

variable {read : Event S → List ν} {mark : Event T → List ν}
  {lift : (op : S.Op) → Program T (S.Answer op)}

/-- Does the middleware answer with this, for some input? -/
def Recorder.Answers (m : Recorder S ι ρ read) (own : ρ) : Prop :=
  ∃ input t, Runs (m.middleware input) t (.answer own)

/-- The marks of middlewares that are left one after the other, from the innermost outwards. Each
sees what the one before it returned, and the first one what it wraps. -/
inductive Unwound : List (Recorder S ι ρ read) → ρ → List ν → ρ → Prop where
  | done {result : ρ} : Unwound [] result [] result
  | left {m : Recorder S ι ρ read} {outer : List (Recorder S ι ρ read)} {seen returned out : ρ}
      {marks : List ν} (rest : Unwound outer returned marks out) :
      Unwound (m :: outer) seen (m.leaves (some seen) returned :: marks) out

/-- The outermost is left last. -/
theorem Unwound.concat {inner : List (Recorder S ι ρ read)} {seen result out : ρ} {marks : List ν}
    (h : Unwound inner seen marks result) (m : Recorder S ι ρ read) :
    Unwound (inner ++ [m]) seen (marks ++ [m.leaves (some result) out]) out := by
  induction h with
  | done => exact .left .done
  | left rest ih => exact .left ih

/-! ## A chain -/

section
variable (recorders : List (Recorder S ι ρ read))

/-- What middlewares leave around marks that come from what they are around: either all of them
pass an input on, or one of them answers and what it wraps leaves nothing. -/
inductive Nested (core : List ν → ρ → Prop) : List ν → ρ → Prop where
  | through {inner exits : List ν} {result out : ρ} (hcore : core inner result)
      (hexits : Unwound recorders.reverse result exits out) :
      Nested core (recorders.map (·.enters) ++ (inner ++ exits)) out
  | stopped {outer rest : List (Recorder S ι ρ read)} {m : Recorder S ι ρ read} {exits : List ν}
      {own out : ρ} (hsplit : recorders = outer ++ m :: rest) (hanswers : m.Answers own)
      (hexits : Unwound outer.reverse own exits out) :
      Nested core (outer.map (·.enters) ++ m.enters :: m.leaves none own :: exits) out

/-- How a run of middlewares comes about. Apart from one run of the core, if it is run at all,
everything in it comes from the middlewares. -/
inductive Chained (lift : (op : S.Op) → Program T (S.Answer op)) (core : ι → Program T ρ) :
    List (Event T) → ρ → Prop where
  | through {s s' : List (Event S)} {t u v : List (Event T)} {input : ι} {result out : ρ}
      (hin : Refines lift s t) (henters : s.flatMap read = recorders.map (·.enters))
      (hcore : Runs (core input) u result) (hout : Refines lift s' v)
      (hexits : Unwound recorders.reverse result (s'.flatMap read) out) :
      Chained lift core (t ++ (u ++ v)) out
  | stopped {outer rest : List (Recorder S ι ρ read)} {m : Recorder S ι ρ read}
      {s : List (Event S)} {t : List (Event T)} {exits : List ν} {own out : ρ}
      (hsplit : recorders = outer ++ m :: rest) (hanswers : m.Answers own) (h : Refines lift s t)
      (hmarks : s.flatMap read = outer.map (·.enters) ++ m.enters :: m.leaves none own :: exits)
      (hexits : Unwound outer.reverse own exits out) : Chained lift core t out

end

variable {recorders : List (Recorder S ι ρ read)} {core : ι → Program T ρ} {input : ι}
  {t : List (Event T)} {out : ρ}

theorem Chained.of_core (h : Runs (core input) t out) :
    Chained ([] : List (Recorder S ι ρ read)) lift core t out := by
  have hchained : Chained ([] : List (Recorder S ι ρ read)) lift core ([] ++ (t ++ [])) out :=
    .through .nil rfl h .nil .done
  rwa [List.nil_append, List.append_nil] at hchained

/-- A middleware that passes an input on, around others. -/
theorem Chained.around {m : Recorder S ι ρ read} {s s' : List (Event S)} {u v : List (Event T)}
    {result : ρ} (h : Chained recorders lift core t result) (hin : Refines lift s u)
    (henters : s.flatMap read = [m.enters]) (hout : Refines lift s' v)
    (hleaves : s'.flatMap read = [m.leaves (some result) out]) :
    Chained (m :: recorders) lift core (u ++ (t ++ v)) out := by
  cases h with
  | @through s₁ s₂ t₁ t₂ t₃ next inner _ hin₁ henters₁ hcore hout₁ hexits =>
    have hchained : Chained (m :: recorders) lift core ((u ++ t₁) ++ (t₂ ++ (t₃ ++ v))) out := by
      refine .through (hin.append hin₁) ?_ hcore (hout₁.append hout) ?_
      · rw [List.flatMap_append, henters, henters₁]
        rfl
      · rw [List.reverse_cons, List.flatMap_append, hleaves]
        exact hexits.concat m
    simpa using hchained
  | @stopped outer rest m' s₁ _ exits own _ hsplit hanswers h₁ hmarks hexits =>
    have hsplit' : m :: recorders = (m :: outer) ++ m' :: rest := congrArg (m :: ·) hsplit
    have hmarks' : (s ++ (s₁ ++ s')).flatMap read = (m :: outer).map (·.enters) ++
        m'.enters :: m'.leaves none own :: (exits ++ [m.leaves (some result) out]) := by
      rw [List.flatMap_append, List.flatMap_append, henters, hmarks, hleaves]
      simp
    refine .stopped hsplit' hanswers (hin.append (h₁.append hout)) hmarks' ?_
    rw [List.reverse_cons]
    exact hexits.concat m

theorem chained_of_runs
    (h : Runs (Middleware.chain lift (recorders.map (·.middleware)) core input) t out) :
    Chained recorders lift core t out := by
  induction recorders generalizing input t out with
  | nil => exact .of_core h
  | cons m recorders ih =>
    obtain ⟨u, v, passage, rfl, hin, hpassed⟩ := runs_bind_iff.mp h
    obtain ⟨s, hs, hentered⟩ := exists_refines_of_runs hin
    cases passage with
    | answer own =>
      obtain ⟨rfl, rfl⟩ := runs_done_iff.mp hpassed
      rw [List.append_nil]
      have hsplit : m :: recorders = [] ++ m :: recorders := rfl
      exact .stopped hsplit ⟨input, s, hentered⟩ hs (m.answers hentered) .done
    | forward next wayOut =>
      obtain ⟨henters, hreturns⟩ := m.forwards hentered
      obtain ⟨v, w, result, rfl, hrest, hout⟩ := runs_bind_iff.mp hpassed
      obtain ⟨s', hs', hleft⟩ := exists_refines_of_runs hout
      exact (ih hrest).around hs henters hs' (hreturns hleft)

/-- The marks of a chain of middlewares are nested, around one run of its core at most. -/
theorem Chained.nested {inside : List ν → ρ → Prop} (h : Chained recorders lift core t out)
    (hrelays : Relays lift read mark)
    (hcore : ∀ input u result, Runs (core input) u result → inside (u.flatMap mark) result) :
    Nested recorders inside (t.flatMap mark) out := by
  cases h with
  | through hin henters hrun hout hexits =>
    rw [List.flatMap_append, List.flatMap_append, hin.flatMap_eq hrelays, henters,
      hout.flatMap_eq hrelays]
    exact .through (hcore _ _ _ hrun) hexits
  | stopped hsplit hanswers h hmarks hexits =>
    rw [h.flatMap_eq hrelays, hmarks]
    exact .stopped hsplit hanswers hexits

end MessageDispatch
