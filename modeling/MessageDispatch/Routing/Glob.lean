/-! Glob patterns. `*` stands for any characters, `?` for exactly one, `[…]` for one of a class,
`\c` for `c`, and any other character for itself. A cursor goes along the pattern and the subject;
where the two part it goes back to the last star, which then takes one more character. Positions
are checked whenever a character is read, and a read outside has no result. -/
namespace MessageDispatch.Glob

/-- Is `c` between `a` and `b`, which may come in either order? -/
def between (a b c : Char) : Bool :=
  if a ≤ b then decide (a ≤ c ∧ c ≤ b) else decide (b ≤ c ∧ c ≤ a)

section
variable (pattern : Array Char)

/-- The item of a class that begins with `a` at `i`: does it have `c`, and how many characters
belong to it after the first? -/
def readItem (c a : Char) (i : Nat) : Option (Bool × Nat) :=
  if a = '\\' ∧ i + 1 < pattern.size then do
    let escaped ← pattern[i + 1]?
    return (escaped == c, 1)
  else if i + 2 < pattern.size then do
    let dash ← pattern[i + 1]?
    let b ← pattern[i + 2]?
    if dash = '-' ∧ b ≠ ']' then return (between a b c, 2) else return (a == c, 0)
  else return (a == c, 0)

/-- The rest of a class from `i` on: does one of its items have `c`, if none before did, and where
does the class end? One that is not closed ends with the pattern. -/
def readClass (c : Char) (matched : Bool) (i : Nat) : Option (Bool × Nat) :=
  if i < pattern.size then do
    let a ← pattern[i]?
    if a = ']' then return (matched, i + 1)
    else
      let (has, more) ← readItem pattern c a i
      readClass c (matched || has) (i + 1 + more)
  else return (matched, i)
termination_by pattern.size - i

/-- Where the token at `p` ends, if it takes `c`. -/
def readToken (p : Nat) (c : Char) : Option (Option Nat) := do
  let a ← pattern[p]?
  if a = '?' then return some (p + 1)
  else if a = '\\' ∧ p + 1 < pattern.size then
    let escaped ← pattern[p + 1]?
    return if escaped = c then some (p + 2) else none
  else if a = '[' then
    let negated := pattern[p + 1]? == some '^'
    let (matched, next) ← readClass pattern c false (if negated then p + 2 else p + 1)
    return if matched != negated then some next else none
  else return if a = c then some (p + 1) else none

/-- Are there only stars in the pattern from `p` on? -/
def onlyStars (p : Nat) : Option Bool :=
  if p < pattern.size then do
    let a ← pattern[p]?
    if a = '*' then onlyStars (p + 1) else return false
  else return p == pattern.size
termination_by pattern.size - p

end

/-- A star that was met: where it stands in the pattern, and where in the subject it ends at
present. -/
structure Star where
  place : Nat
  ending : Nat

/-- How far pattern and subject have been matched, and the last star on the way. -/
structure Cursor where
  pattern : Nat
  subject : Nat
  star : Option Star
  anchored : ∀ last ∈ star, last.ending ≤ subject

namespace Cursor

def start : Cursor := ⟨0, 0, none, nofun⟩

/-- Go on after a star that takes what there is up to its ending. -/
def after (star : Star) : Cursor :=
  ⟨star.place + 1, star.ending, some star, fun _ h => Option.some.inj h ▸ Nat.le_refl _⟩

/-- Go over a token that took a character. -/
def advance (k : Cursor) (next : Nat) : Cursor :=
  ⟨next, k.subject + 1, k.star, fun last h => Nat.le_succ_of_le (k.anchored last h)⟩

/-- Where the last star ends, or the beginning of the subject. -/
def anchor (k : Cursor) : Nat := (k.star.map (·.ending)).getD 0

section
variable (last : Star) (k : Cursor) (next : Nat)

@[simp] theorem pattern_after : (after last).pattern = last.place + 1 := rfl

@[simp] theorem subject_after : (after last).subject = last.ending := rfl

@[simp] theorem anchor_after : (after last).anchor = last.ending := rfl

@[simp] theorem subject_advance : (k.advance next).subject = k.subject + 1 := rfl

@[simp] theorem anchor_advance : (k.advance next).anchor = k.anchor := rfl

end

theorem anchor_le (k : Cursor) : k.anchor ≤ k.subject := by
  unfold anchor
  cases hstar : k.star with
  | none => simp
  | some last => exact k.anchored last hstar

end Cursor

section
variable (pattern subject : Array Char)

/-- Is the cursor at a star? -/
def atStar (k : Cursor) : Option Bool :=
  if k.pattern < pattern.size then pattern[k.pattern]?.map (· == '*') else some false

/-- Where the token at the cursor ends, if there is one and it takes the next character of the
subject. -/
def taken (k : Cursor) : Option (Option Nat) :=
  if k.pattern < pattern.size then subject[k.subject]?.bind (readToken pattern k.pattern)
  else some none

/-- What to do next: another step, or the answer. -/
def step (k : Cursor) : Option (Cursor ⊕ Bool) :=
  if k.subject < subject.size then
    match atStar pattern k with
    | none => none
    | some true => some (.inl (.after ⟨k.pattern, k.subject⟩))
    | some false =>
      match taken pattern subject k with
      | none => none
      | some (some next) => some (.inl (k.advance next))
      | some none =>
        match k.star with
        | some last => some (.inl (.after ⟨last.place, last.ending + 1⟩))
        | none => some (.inr false)
  else (onlyStars pattern k.pattern).map .inr

variable {pattern subject} {k next : Cursor} {out : Cursor ⊕ Bool}

/-- What a step can do: meet a star, go over a token, go back to the last star, give up, or come to
the end of the subject. -/
theorem step_cases (h : step pattern subject k = some out) :
    (k.subject < subject.size ∧ atStar pattern k = some true ∧
      out = .inl (.after ⟨k.pattern, k.subject⟩)) ∨
    (k.subject < subject.size ∧ atStar pattern k = some false ∧
      ∃ next, taken pattern subject k = some (some next) ∧ out = .inl (k.advance next)) ∨
    (k.subject < subject.size ∧ atStar pattern k = some false ∧
      taken pattern subject k = some none ∧
      ∃ last, k.star = some last ∧ out = .inl (.after ⟨last.place, last.ending + 1⟩)) ∨
    (k.subject < subject.size ∧ atStar pattern k = some false ∧
      taken pattern subject k = some none ∧ k.star = none ∧ out = .inr false) ∨
    (subject.size ≤ k.subject ∧
      ∃ answer, onlyStars pattern k.pattern = some answer ∧ out = .inr answer) := by
  unfold step at h
  split at h
  · rename_i hinside
    split at h
    · cases h
    · rename_i hstar
      exact .inl ⟨hinside, hstar, (Option.some.inj h).symm⟩
    · rename_i hstar
      split at h
      · cases h
      · rename_i next htaken
        exact .inr (.inl ⟨hinside, hstar, next, htaken, (Option.some.inj h).symm⟩)
      · rename_i htaken
        split at h
        · rename_i last hlast
          exact .inr (.inr (.inl
            ⟨hinside, hstar, htaken, last, hlast, (Option.some.inj h).symm⟩))
        · rename_i hnone
          exact .inr (.inr (.inr (.inl
            ⟨hinside, hstar, htaken, hnone, (Option.some.inj h).symm⟩)))
  · rename_i houtside
    obtain ⟨answer, hanswer, rfl⟩ := Option.map_eq_some_iff.mp h
    exact .inr (.inr (.inr (.inr ⟨Nat.le_of_not_lt houtside, answer, hanswer, rfl⟩)))

/-- Only a position inside the pattern has a star. -/
theorem lt_of_atStar (h : atStar pattern k = some true) : k.pattern < pattern.size := by
  by_cases hp : k.pattern < pattern.size
  · exact hp
  · simp [atStar, hp] at h

theorem lex_of_le {a a' b b' c c' : Nat} (h : a < a' ∨ a ≤ a' ∧ (b < b' ∨ b ≤ b' ∧ c < c')) :
    Prod.Lex (· < ·) (Prod.Lex (· < ·) (· < ·)) (a, b, c) (a', b', c') := by
  by_cases ha : a < a'
  · exact .left _ _ ha
  obtain rfl : a = a' := by omega
  by_cases hb : b < b'
  · exact .right _ (.left _ _ hb)
  obtain rfl : b = b' := by omega
  exact .right _ (.right _ (by omega))

/-- A step goes on in the subject or in the pattern, or goes back to a star that then ends later. -/
theorem step_decreases (h : step pattern subject k = some (.inl next)) :
    Prod.Lex (· < ·) (Prod.Lex (· < ·) (· < ·))
      (subject.size - next.anchor, subject.size - next.subject, pattern.size - next.pattern)
      (subject.size - k.anchor, subject.size - k.subject, pattern.size - k.pattern) := by
  have hanchor := k.anchor_le
  apply lex_of_le
  rcases step_cases h with ⟨hs, hstar, ⟨⟩⟩ | ⟨hs, -, next, -, ⟨⟩⟩ | ⟨hs, -, -, last, hlast, ⟨⟩⟩ |
    ⟨-, -, -, -, ⟨⟩⟩ | ⟨-, answer, -, ⟨⟩⟩
  · have hp := lt_of_atStar hstar
    simp only [Cursor.anchor_after, Cursor.subject_after, Cursor.pattern_after]
    omega
  · simp only [Cursor.anchor_advance, Cursor.subject_advance]
    omega
  · have hending : k.anchor = last.ending := by simp [Cursor.anchor, hlast]
    simp only [Cursor.anchor_after]
    omega

variable (pattern subject)

/-- Go on until there is an answer. -/
def walk (k : Cursor) : Option Bool :=
  match _hstep : step pattern subject k with
  | none => none
  | some (.inl next) => walk next
  | some (.inr answer) => some answer
termination_by (subject.size - k.anchor, subject.size - k.subject, pattern.size - k.pattern)
decreasing_by exact step_decreases _hstep

end

/-- Does a subject fit a glob pattern? No answer would mean that a character outside was read. -/
def answer? (pattern subject : String) : Option Bool :=
  walk pattern.toList.toArray subject.toList.toArray .start

def accepts (pattern subject : String) : Bool :=
  (answer? pattern subject).getD false

end MessageDispatch.Glob
