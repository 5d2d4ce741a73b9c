import MessageDispatch.Json.Token
import MessageDispatch.Proofs.Cuts

/-! How JSON tokens are written, and that the scanner finds them. The rules are those of a grammar:
words, numbers and strings, with blanks between them. The scanner is taken apart by its modes: from
each of them it either comes to the end of a token that is written by the rules, or to a mistake. -/
namespace MessageDispatch.Json

/-! ## Numbers -/

/-- Decimal digits, with their values. -/
def Digits (ds : List Nat) (cs : List Char) : Prop := cs.map digit? = ds.map some

theorem digits_nil {ds : List Nat} : Digits ds [] ↔ ds = [] := by
  simp [Digits]

theorem digits_cons {ds : List Nat} {c : Char} {cs : List Char} :
    Digits ds (c :: cs) ↔ ∃ d ds', digit? c = some d ∧ ds = d :: ds' ∧ Digits ds' cs := by
  cases ds with
  | nil => simp [Digits]
  | cons d ds =>
    simp only [Digits, List.map_cons, List.cons.injEq]
    constructor
    · intro h
      exact ⟨d, ds, h.1, ⟨rfl, rfl⟩, h.2⟩
    · rintro ⟨d', ds', hd, ⟨rfl, rfl⟩, hds⟩
      exact ⟨hd, hds⟩

namespace Literal

/-- The digits of an exponent, after its sign. -/
def ExponentDigits (l : Literal) (cs : List Char) (l' : Literal) : Prop :=
  ∃ ds, Digits ds cs ∧ ds ≠ [] ∧ l' = { l with exponent := ds }

/-- An exponent, after its mark: perhaps a sign, and digits. -/
def Exponent (l : Literal) (cs : List Char) (l' : Literal) : Prop :=
  ExponentDigits l cs l' ∨ (∃ t, cs = '+' :: t ∧ ExponentDigits l t l') ∨
    ∃ t, cs = '-' :: t ∧ ExponentDigits { l with exponentNegative := true } t l'

/-- What may follow a fraction: nothing, or an exponent. -/
def Scaled (l : Literal) (cs : List Char) (l' : Literal) : Prop :=
  (cs = [] ∧ l' = l) ∨ ∃ mark t, cs = mark :: t ∧ (mark = 'e' ∨ mark = 'E') ∧ Exponent l t l'

/-- A fraction, after its point. -/
def Fraction (l : Literal) (cs : List Char) (l' : Literal) : Prop :=
  ∃ ds t u, cs = t ++ u ∧ Digits ds t ∧ ds ≠ [] ∧ Scaled { l with fraction := ds } u l'

/-- What may follow a whole number: perhaps a fraction, and perhaps an exponent. -/
def Continued (l : Literal) (cs : List Char) (l' : Literal) : Prop :=
  Scaled l cs l' ∨ ∃ t, cs = '.' :: t ∧ Fraction l t l'

/-- A number without its sign. The only whole number that begins with a zero is zero. -/
def Magnitude (l : Literal) (cs : List Char) (l' : Literal) : Prop :=
  ∃ ds t u, cs = t ++ u ∧ Digits ds t ∧ (ds = [0] ∨ ∃ d ds', ds = d :: ds' ∧ d ≠ 0) ∧
    Continued { l with whole := ds } u l'

/-- A text that a number can be written as. -/
def Written (l : Literal) (cs : List Char) : Prop :=
  Magnitude ⟨false, [], [], false, []⟩ cs l ∨
    ∃ t, cs = '-' :: t ∧ Magnitude ⟨true, [], [], false, []⟩ t l

end Literal

/-- The text that is missing from a place on until a number is complete. -/
def Place.Rest (l : Literal) (cs : List Char) (l' : Literal) : Place → Prop
  | .sign => l.Magnitude cs l'
  | .zero => l.Continued cs l'
  | .whole => ∃ ds t u, cs = t ++ u ∧ Digits ds t ∧
      Literal.Continued { l with whole := l.whole ++ ds } u l'
  | .point => l.Fraction cs l'
  | .fraction => ∃ ds t u, cs = t ++ u ∧ Digits ds t ∧
      Literal.Scaled { l with fraction := l.fraction ++ ds } u l'
  | .mark => l.Exponent cs l'
  | .markSign => l.ExponentDigits cs l'
  | .exponent => ∃ ds, Digits ds cs ∧ l' = { l with exponent := l.exponent ++ ds }

section
variable {l l' : Literal} {c : Char} {cs : List Char} {ds : List Nat} {place : Place}

/-- A row of digits is over, or goes on. -/
theorem exists_digits_cons {K : List Nat → List Char → Prop} :
    (∃ ds t u, c :: cs = t ++ u ∧ Digits ds t ∧ K ds u) ↔
      K [] (c :: cs) ∨
        ∃ d, digit? c = some d ∧ ∃ ds t u, cs = t ++ u ∧ Digits ds t ∧ K (d :: ds) u := by
  constructor
  · rintro ⟨ds, t, u, hcs, hds, hk⟩
    cases t with
    | nil =>
      obtain rfl := digits_nil.mp hds
      obtain rfl : c :: cs = u := hcs
      exact .inl hk
    | cons c' t =>
      obtain ⟨rfl, rfl⟩ := List.cons.inj hcs
      obtain ⟨d, ds, hd, rfl, hrest⟩ := digits_cons.mp hds
      exact .inr ⟨d, hd, ds, t, u, rfl, hrest, hk⟩
  · rintro (hk | ⟨d, hd, ds, t, u, rfl, hds, hk⟩)
    · exact ⟨[], [], c :: cs, rfl, digits_nil.mpr rfl, hk⟩
    · exact ⟨d :: ds, c :: t, u, rfl, digits_cons.mpr ⟨d, ds, hd, rfl, hds⟩, hk⟩

theorem scaled_cons : l.Scaled (c :: cs) l' ↔ (c = 'e' ∨ c = 'E') ∧ l.Exponent cs l' := by
  simp [Literal.Scaled]

theorem continued_cons : l.Continued (c :: cs) l' ↔
    ((c = 'e' ∨ c = 'E') ∧ l.Exponent cs l') ∨ (c = '.' ∧ l.Fraction cs l') := by
  simp [Literal.Continued, scaled_cons]

theorem not_scaled {d : Nat} (h : digit? c = some d) : ¬ l.Scaled (c :: cs) l' := by
  intro hscaled
  obtain ⟨rfl | rfl, -⟩ := scaled_cons.mp hscaled <;> cases h

theorem not_continued {d : Nat} (h : digit? c = some d) : ¬ l.Continued (c :: cs) l' := by
  intro hcontinued
  obtain ⟨rfl | rfl, -⟩ | ⟨rfl, -⟩ := continued_cons.mp hcontinued <;> cases h

theorem exponentDigits_cons : l.ExponentDigits (c :: cs) l' ↔
    ∃ d, digit? c = some d ∧ Place.Rest { l with exponent := [d] } cs l' .exponent := by
  simp only [Literal.ExponentDigits, digits_cons, Place.Rest]
  constructor
  · rintro ⟨_, ⟨d, ds, hd, rfl, hds⟩, -, hl⟩
    exact ⟨d, hd, ds, hds, hl⟩
  · rintro ⟨d, hd, ds, hds, hl⟩
    exact ⟨d :: ds, ⟨d, ds, hd, rfl, hds⟩, by simp, hl⟩

/-- At the end of a text the number has to be complete. -/
theorem Place.rest_nil : place.Rest l [] l' ↔ place.mayEnd = true ∧ l' = l := by
  cases place <;>
    simp [Place.Rest, Place.mayEnd, Literal.Magnitude, Literal.Continued, Literal.Scaled,
      Literal.Fraction, Literal.Exponent, Literal.ExponentDigits, digits_nil]

/-- What is missing after a whole number is missing after one more character. -/
theorem rest_afterWhole : l.Continued (c :: cs) l' ↔
    ∃ l₁ place₁, Place.next?.afterWhole l c = some (l₁, place₁) ∧ place₁.Rest l₁ cs l' := by
  rw [continued_cons, Place.next?.afterWhole]
  by_cases hpoint : c = '.'
  · subst hpoint
    simp [Place.Rest]
  · by_cases hmark : c = 'e' ∨ c = 'E'
    · simp [hpoint, hmark, Place.Rest]
    · simp [hpoint, hmark]

theorem rest_sign : l.Magnitude (c :: cs) l' ↔
    ∃ d, digit? c = some d ∧
      Place.Rest { l with whole := [d] } cs l' (if d = 0 then .zero else .whole) := by
  unfold Literal.Magnitude
  rw [exists_digits_cons]
  constructor
  · rintro (⟨hlead, -⟩ | ⟨d, hd, ds, t, u, rfl, hds, hlead, hrest⟩)
    · simp at hlead
    refine ⟨d, hd, ?_⟩
    by_cases hzero : d = 0
    · subst hzero
      obtain rfl : ds = [] := by simpa using hlead
      obtain rfl : t = [] := by simpa [Digits] using hds
      exact hrest
    · rw [if_neg hzero]
      exact ⟨ds, t, u, rfl, hds, hrest⟩
  · rintro ⟨d, hd, hrest⟩
    refine .inr ⟨d, hd, ?_⟩
    by_cases hzero : d = 0
    · subst hzero
      exact ⟨[], [], cs, rfl, digits_nil.mpr rfl, .inl rfl, hrest⟩
    · rw [if_neg hzero] at hrest
      obtain ⟨ds, t, u, rfl, hds, hcontinued⟩ := hrest
      exact ⟨ds, t, u, rfl, hds, .inr ⟨d, ds, rfl, hzero⟩, hcontinued⟩

theorem rest_point : l.Fraction (c :: cs) l' ↔
    ∃ d, digit? c = some d ∧ Place.Rest { l with fraction := [d] } cs l' .fraction := by
  unfold Literal.Fraction
  rw [exists_digits_cons]
  simp [Place.Rest]

/-- What is missing from a place on is missing after one more character. -/
theorem Place.rest_cons : place.Rest l (c :: cs) l' ↔
    ∃ l₁ place₁, place.next? l c = some (l₁, place₁) ∧ place₁.Rest l₁ cs l' := by
  cases place with
  | sign =>
    show l.Magnitude (c :: cs) l' ↔ _
    rw [rest_sign, Place.next?]
    cases hdigit : digit? c <;> simp
  | zero => exact rest_afterWhole
  | whole =>
    simp only [Place.Rest, Place.next?, exists_digits_cons]
    cases hdigit : digit? c with
    | none =>
      simp only [reduceCtorEq, false_and, exists_false, or_false, List.append_nil]
      exact rest_afterWhole
    | some d => simp [not_continued hdigit]
  | point =>
    show l.Fraction (c :: cs) l' ↔ _
    rw [rest_point, Place.next?]
    cases hdigit : digit? c <;> simp
  | fraction =>
    simp only [Place.Rest, Place.next?, exists_digits_cons]
    cases hdigit : digit? c with
    | none =>
      simp only [reduceCtorEq, false_and, exists_false, or_false, List.append_nil, scaled_cons]
      by_cases hmark : c = 'e' ∨ c = 'E'
      · simp [hmark]
      · simp [hmark]
    | some d => simp [not_scaled hdigit]
  | mark =>
    simp only [Place.Rest, Literal.Exponent, Place.next?]
    by_cases hplus : c = '+'
    · subst hplus
      simp [exponentDigits_cons, Place.Rest, show digit? '+' = none from rfl]
    by_cases hminus : c = '-'
    · subst hminus
      simp [exponentDigits_cons, Place.Rest, show digit? '-' = none from rfl]
    cases hdigit : digit? c <;> simp [hplus, hminus, exponentDigits_cons, hdigit, Place.Rest]
  | markSign =>
    simp only [Place.Rest, Place.next?, exponentDigits_cons]
    cases hdigit : digit? c <;> simp
  | exponent =>
    simp only [Place.Rest, Place.next?, digits_cons]
    cases hdigit : digit? c with
    | none => simp
    | some d => simp

end

/-- What follows a number does not go on with it. -/
def Parted (rest : List (Option Char)) : Prop :=
  ∀ c, rest.head? = some (some c) → digit? c = none ∧ c ≠ '.' ∧ c ≠ 'e' ∧ c ≠ 'E'

section
variable {l l' : Literal} {place : Place} {c : Char} {cs : List Char} {rest : List (Option Char)}

/-- Where a number may end, what does not go on with it is no part of it. -/
theorem next?_eq_none (hplace : place.mayEnd = true) (hdigit : digit? c = none) (hpoint : c ≠ '.')
    (hlower : c ≠ 'e') (hupper : c ≠ 'E') : place.next? l c = none := by
  cases place <;> simp_all [Place.mayEnd, Place.next?, Place.next?.afterWhole]

theorem digit?_of_next?_eq_none (hnext : place.next? l c = none) (hplace : place.mayEnd = true)
    (hzero : ¬ (place = .zero ∧ (digit? c).isSome)) : digit? c = none := by
  cases hdigit : digit? c with
  | none => rfl
  | some d => cases place <;> simp_all [Place.mayEnd, Place.next?]

theorem start_point : start '.' = none ∧ start 'e' = none ∧ start 'E' = none := by decide

/-- A number that is complete is a token, and what comes after it is scanned by itself. -/
theorem scanPieces_end (hplace : place.mayEnd = true) (hparted : Parted rest) :
    scanPieces (.number l place) rest = .number l.number? :: scanPieces .between rest := by
  cases rest with
  | nil => simp [scanPieces, finish, hplace]
  | cons piece rest =>
    cases piece with
    | none => simp [scanPieces, advancePiece, mistake, hplace]
    | some c =>
      obtain ⟨hdigit, hpoint, hlower, hupper⟩ := hparted c rfl
      have hnext : place.next? l c = none := next?_eq_none hplace hdigit hpoint hlower hupper
      cases hstart : start c <;>
        simp [scanPieces, advancePiece, advance, mistake, hplace, hdigit, hnext, hstart]

/-- The scanner comes to the end of a number. -/
def EndsNumber (l : Literal) (place : Place) (cs : List (Option Char)) : Prop :=
  ∃ text rest l', cs = text.map some ++ rest ∧ place.Rest l text l' ∧ Parted rest ∧
    scanPieces (.number l place) cs = .number l'.number? :: scanPieces .between rest

theorem endsNumber_here {cs : List (Option Char)} (hplace : place.mayEnd = true)
    (hparted : Parted cs) : EndsNumber l place cs :=
  ⟨[], cs, l, rfl, Place.rest_nil.mpr ⟨hplace, rfl⟩, hparted, scanPieces_end hplace hparted⟩

/-- From any place in a number the scanner comes to the end of one, or to a mistake. -/
theorem scanPieces_number_cases (l : Literal) (place : Place) (cs : List (Option Char)) :
    EndsNumber l place cs ∨ .stray ∈ scanPieces (.number l place) cs := by
  induction cs generalizing l place with
  | nil =>
    by_cases hplace : place.mayEnd = true
    · exact .inl (endsNumber_here hplace nofun)
    · exact .inr (by simp [scanPieces, finish, hplace])
  | cons piece cs ih =>
    cases piece with
    | none =>
      right
      simp only [scanPieces, advancePiece, mistake]
      split <;> simp
    | some c =>
      cases hnext : place.next? l c with
      | some next =>
        obtain ⟨l₁, place₁⟩ := next
        have hgo : scanPieces (.number l place) (some c :: cs) =
            scanPieces (.number l₁ place₁) cs := by
          simp [scanPieces, advancePiece, advance, hnext]
        rcases ih l₁ place₁ with ⟨text, rest, l', rfl, hrest, hparted, hscan⟩ | hstray
        · exact .inl ⟨c :: text, rest, l', rfl,
            Place.rest_cons.mpr ⟨l₁, place₁, hnext, hrest⟩, hparted, hgo.trans hscan⟩
        · exact .inr (hgo ▸ hstray)
      | none =>
        -- what does not go on the number ends it, unless it would be a digit after a zero
        by_cases hplace : place.mayEnd = true ∧ ¬ (place = .zero ∧ (digit? c).isSome)
        · have hdigit := digit?_of_next?_eq_none hnext hplace.1 hplace.2
          cases hstart : start c with
          | none =>
            right
            simp [scanPieces, advancePiece, advance, mistake, hnext, hdigit, hplace.1, hstart]
          | some begun =>
            left
            apply endsNumber_here hplace.1
            rintro _ ⟨⟩
            obtain ⟨hpoint, hlower, hupper⟩ := start_point
            refine ⟨hdigit, ?_, ?_, ?_⟩ <;> rintro rfl <;> simp_all
        · right
          simp only [scanPieces, advancePiece, advance, mistake, hnext, Option.bind_some,
            if_neg hplace]
          simp

/-- A number is read as it was written, up to its end. -/
theorem scanPieces_number {text : List Char} (h : place.Rest l text l') (hparted : Parted rest) :
    scanPieces (.number l place) (text.map some ++ rest) =
      .number l'.number? :: scanPieces .between rest := by
  induction text generalizing l place with
  | nil =>
    obtain ⟨hplace, rfl⟩ := Place.rest_nil.mp h
    exact scanPieces_end hplace hparted
  | cons c text ih =>
    obtain ⟨l₁, place₁, hnext, hrest⟩ := Place.rest_cons.mp h
    have hgo := ih hrest
    simpa [scanPieces, advancePiece, advance, hnext] using hgo

end

/-! ## Strings -/

/-- What a string is made up of: characters, code units that were written as such, and what is no
character. -/
inductive Part where
  | char (c : Char)
  | unit (n : Nat)
  | spoilt

/-- How a part of a string is written. -/
inductive Part.Written : Part → List (Option Char) → Prop where
  | plain {c : Char} (hquote : c ≠ '"') (hslash : c ≠ '\\') (hcontrol : 0x20 ≤ c.toNat) :
      Written (.char c) [some c]
  | escaped {e c : Char} (h : escaped? e = some c) : Written (.char c) [some '\\', some e]
  | unicode {digits : List Char} {ds : List Nat} (hlength : digits.length = 4)
      (h : digits.map hexDigit? = ds.map some) :
      Written (.unit (ds.foldl (· * 16 + ·) 0)) (some '\\' :: some 'u' :: digits.map some)
  | spoilt : Written .spoilt [none]

/-- The characters of a string. `half` is the first half of a surrogate pair, which only the second
half can follow. -/
def chars? : (half : Option Nat) → List Part → Option (List Char)
  | none, [] => some []
  | none, .char c :: ps => (chars? none ps).map (c :: ·)
  | none, .unit n :: ps =>
    if 0xD800 ≤ n ∧ n < 0xDC00 then chars? (some n) ps
    else if 0xDC00 ≤ n ∧ n < 0xE000 then none
    else (chars? none ps).map (Char.ofNat n :: ·)
  | some high, .unit low :: ps =>
    if 0xDC00 ≤ low ∧ low < 0xE000 then
      (chars? none ps).map
        (Char.ofNat (0x10000 + (high - 0xD800) * 0x400 + (low - 0xDC00)) :: ·)
    else none
  | _, _ => none

theorem length_of_chars? {half : Option Nat} {ps : List Part} {cs : List Char}
    (h : chars? half ps = some cs) : cs.length ≤ ps.length := by
  induction ps generalizing half cs with
  | nil =>
    cases half with
    | none =>
      obtain rfl := Option.some.inj h
      exact Nat.le_refl 0
    | some high => cases h
  | cons p ps ih =>
    cases half with
    | none =>
      cases p with
      | char c =>
        obtain ⟨rest, hrest, rfl⟩ := Option.map_eq_some_iff.mp h
        exact Nat.succ_le_succ (ih hrest)
      | unit n =>
        rw [chars?] at h
        split at h
        · exact Nat.le_succ_of_le (ih h)
        · split at h
          · cases h
          · obtain ⟨rest, hrest, rfl⟩ := Option.map_eq_some_iff.mp h
            exact Nat.succ_le_succ (ih hrest)
      | spoilt => cases h
    | some high =>
      cases p with
      | unit low =>
        rw [chars?] at h
        split at h
        · obtain ⟨rest, hrest, rfl⟩ := Option.map_eq_some_iff.mp h
          exact Nat.succ_le_succ (ih hrest)
        · cases h
      | _ => cases h

namespace Quoted

/-- A string with one more part. -/
def take (q : Quoted) : Part → Quoted
  | .char c => q.push c
  | .unit n => q.pushUnit n
  | .spoilt => q.spoil

theorem text?_of_broken {q : Quoted} (h : q.broken = true) (ps : List Part) :
    (ps.foldl take q).text? = none := by
  induction ps generalizing q with
  | nil => simp [text?, h]
  | cons p ps ih =>
    apply ih
    cases p with
    | char c => simp [take, push, h]
    | unit n =>
      simp only [take, pushUnit, push, h]
      split
      · simp
      · split
        · split <;> simp
        · simp
    | spoilt => rfl

/-- The value of a string is what its parts come to. -/
theorem text?_eq {q : Quoted} (h : q.broken = false) (ps : List Part) :
    (ps.foldl take q).text? =
      (chars? q.half ps).map fun cs => String.ofList (q.reversed.reverse ++ cs) := by
  induction ps generalizing q with
  | nil =>
    cases hhalf : q.half <;> simp [text?, h, hhalf, chars?]
  | cons p ps ih =>
    rw [List.foldl_cons]
    cases hhalf : q.half with
    | none =>
      have hpush (c : Char) : ((ps.foldl take (q.push c)).text?) =
          (chars? none ps).map fun cs => String.ofList (q.reversed.reverse ++ c :: cs) := by
        rw [ih (by simp [push, h, hhalf])]
        simp only [push, List.reverse_cons, List.append_assoc, List.singleton_append]
      cases p with
      | char c =>
        rw [take, hpush, chars?, Option.map_map]
        rfl
      | unit n =>
        simp only [take, pushUnit, chars?]
        split
        · rw [ih (by simp [h, hhalf])]
        · split
          · simp [hhalf, text?_of_broken]
          · rw [hpush, Option.map_map]
            rfl
      | spoilt => simp [take, spoil, text?_of_broken, chars?]
    | some high =>
      -- one half of a pair waits for the other, and nothing else may come
      cases p with
      | unit low =>
        simp only [take, pushUnit, chars?, hhalf]
        by_cases hlow : 0xDC00 ≤ low ∧ low < 0xE000
        · have hhigh : ¬ (0xD800 ≤ low ∧ low < 0xDC00) := by omega
          rw [if_neg hhigh, if_pos hlow, if_pos hlow, ih (by simp [h])]
          simp only [List.reverse_cons, List.append_assoc, List.singleton_append, Option.map_map]
          rfl
        · rw [if_neg hlow, if_neg hlow]
          split <;> simp [text?_of_broken, push, hhalf]
      | char c => simp [take, push, hhalf, text?_of_broken, chars?]
      | spoilt => simp [take, spoil, text?_of_broken, chars?]

theorem text?_empty (ps : List Part) :
    (ps.foldl take .empty).text? = (chars? none ps).map String.ofList :=
  text?_eq rfl ps

end Quoted

section
variable {q : Quoted} {p : Part} {ps : List Part} {text rest : List (Option Char)}

/-- The digits of a code unit are read one by one. -/
theorem scanPieces_unicode {digits : List Char} {ds : List Nat}
    (hds : digits.map hexDigit? = ds.map some) (hne : digits ≠ []) (unit : Nat) :
    scanPieces (.unicode q digits.length unit) (digits.map some ++ rest) =
      scanPieces (.quoted (q.pushUnit (ds.foldl (· * 16 + ·) unit))) rest := by
  induction digits generalizing ds unit with
  | nil => exact absurd rfl hne
  | cons c digits ih =>
    cases ds with
    | nil => cases hds
    | cons d ds =>
      obtain ⟨hd, hrest⟩ := List.cons.inj hds
      cases digits with
      | nil =>
        obtain rfl : ds = [] := by simpa using hrest.symm
        simp [scanPieces, advancePiece, advance, hd]
      | cons c' digits =>
        have hgo := ih hrest (by simp) (unit * 16 + d)
        simpa [scanPieces, advancePiece, advance, hd] using hgo

/-- A part of a string is read as it was written. -/
theorem scanPieces_part (h : p.Written text) :
    scanPieces (.quoted q) (text ++ rest) = scanPieces (.quoted (q.take p)) rest := by
  cases h with
  | plain hquote hslash hcontrol =>
    have hlow : ¬ (_ : Char).toNat < 0x20 := Nat.not_lt.mpr hcontrol
    simp [scanPieces, advancePiece, advance, hquote, hslash, hlow, Quoted.take]
  | @escaped e c h =>
    have hunit : e ≠ 'u' := by
      rintro rfl
      cases h
    simp [scanPieces, advancePiece, advance, h, hunit, Quoted.take]
  | @unicode digits ds hlength h =>
    have hne : digits ≠ [] := by
      rintro rfl
      cases hlength
    have hgo : scanPieces (.unicode q digits.length 0) (digits.map some ++ rest) = _ :=
      scanPieces_unicode h hne 0
    rw [hlength] at hgo
    exact hgo
  | spoilt => rfl

/-- A string is read as it was written, up to its end. -/
theorem scanPieces_quoted (h : Cut Part.Written ps text) :
    scanPieces (.quoted q) (text ++ some '"' :: rest) =
      .string (ps.foldl Quoted.take q).text? :: scanPieces .between rest := by
  induction ps generalizing q text with
  | nil =>
    obtain rfl := cut_nil.mp h
    rfl
  | cons p ps ih =>
    obtain ⟨part, text, rfl, hpart, htext⟩ := cut_cons.mp h
    rw [List.append_assoc, scanPieces_part hpart, ih htext, List.foldl_cons]

/-- The scanner comes to the end of a string. -/
def EndsString (q : Quoted) (cs : List (Option Char)) : Prop :=
  ∃ ps text rest, cs = text ++ some '"' :: rest ∧ Cut Part.Written ps text ∧
    scanPieces (.quoted q) cs =
      .string (ps.foldl Quoted.take q).text? :: scanPieces .between rest

theorem EndsString.cons (hpart : p.Written text) (h : EndsString (q.take p) rest) :
    EndsString q (text ++ rest) := by
  obtain ⟨ps, inner, after, rfl, hinner, hscan⟩ := h
  have hall : Cut Part.Written (p :: ps) (text ++ inner) :=
    cut_cons.mpr ⟨text, inner, rfl, hpart, hinner⟩
  refine ⟨p :: ps, text ++ inner, after, by simp, hall, ?_⟩
  rw [scanPieces_part hpart, hscan, List.foldl_cons]

/-- The digits of a code unit are all there, or the scanner comes to a mistake. -/
theorem scanPieces_unicode_cases (q : Quoted) (n unit : Nat) (cs : List (Option Char)) :
    (∃ (digits : List Char) (ds : List Nat) (rest : List (Option Char)), digits.length = n + 1 ∧
      digits.map hexDigit? = ds.map some ∧ cs = digits.map some ++ rest) ∨
    .stray ∈ scanPieces (.unicode q (n + 1) unit) cs := by
  induction n generalizing unit cs with
  | zero =>
    match cs with
    | [] | none :: _ => exact .inr (by simp [scanPieces, finish, advancePiece, mistake])
    | some c :: cs =>
      cases hd : hexDigit? c with
      | none => exact .inr (by simp [scanPieces, advancePiece, advance, mistake, hd])
      | some d => exact .inl ⟨[c], [d], cs, rfl, by simp [hd], rfl⟩
  | succ n ih =>
    match cs with
    | [] | none :: _ => exact .inr (by simp [scanPieces, finish, advancePiece, mistake])
    | some c :: cs =>
      cases hd : hexDigit? c with
      | none => exact .inr (by simp [scanPieces, advancePiece, advance, mistake, hd])
      | some d =>
        obtain ⟨digits, ds, rest, hlength, hds, rfl⟩ | hstray := ih (unit * 16 + d) cs
        · exact .inl ⟨c :: digits, d :: ds, rest, by simp [hlength], by simp [hd, hds], rfl⟩
        · exact .inr (by simpa [scanPieces, advancePiece, advance, hd] using hstray)

/-- An escape is written out, or the scanner comes to a mistake. -/
theorem scanPieces_escape_cases (q : Quoted) (cs : List (Option Char)) :
    (∃ p text rest, some '\\' :: cs = text ++ rest ∧ Part.Written p text) ∨
      .stray ∈ scanPieces (.escape q) cs := by
  match cs with
  | [] | none :: _ => exact .inr (by simp [scanPieces, finish, advancePiece, mistake])
  | some e :: cs =>
    by_cases hunit : e = 'u'
    · subst hunit
      obtain ⟨digits, ds, rest, hlength, hds, rfl⟩ | hstray := scanPieces_unicode_cases q 3 0 cs
      · exact .inl ⟨_, _, rest, rfl, .unicode hlength hds⟩
      · exact .inr (by simpa [scanPieces, advancePiece, advance] using hstray)
    · cases he : escaped? e with
      | none => exact .inr (by simp [scanPieces, advancePiece, advance, mistake, he, hunit])
      | some c => exact .inl ⟨_, _, cs, rfl, .escaped he⟩

/-- What follows the start of a string ends it, is a part of it, or is a mistake. -/
theorem scanPieces_quoted_step (q : Quoted) (cs : List (Option Char)) :
    (∃ rest, cs = some '"' :: rest) ∨ (∃ p text rest, cs = text ++ rest ∧ Part.Written p text) ∨
      .stray ∈ scanPieces (.quoted q) cs := by
  match cs with
  | [] => exact .inr (.inr (by simp [scanPieces, finish]))
  | none :: cs => exact .inr (.inl ⟨.spoilt, [none], cs, rfl, .spoilt⟩)
  | some c :: cs =>
    by_cases hquote : c = '"'
    · exact .inl ⟨cs, by rw [hquote]⟩
    right
    by_cases hslash : c = '\\'
    · subst hslash
      obtain hpart | hstray := scanPieces_escape_cases q cs
      · exact .inl hpart
      · exact .inr (by simpa [scanPieces, advancePiece, advance] using hstray)
    by_cases hcontrol : c.toNat < 0x20
    · right
      simp [scanPieces, advancePiece, advance, mistake, hquote, hslash, hcontrol]
    · exact .inl ⟨.char c, [some c], cs, rfl, .plain hquote hslash (Nat.not_lt.mp hcontrol)⟩

theorem Part.Written.length_pos (h : p.Written text) : 0 < text.length := by
  cases h <;> simp

/-- Within a string the scanner comes to its end, or to a mistake. -/
theorem scanPieces_quoted_cases (q : Quoted) (cs : List (Option Char)) :
    EndsString q cs ∨ .stray ∈ scanPieces (.quoted q) cs := by
  -- a part may be several pieces long, so the induction is on how many are left
  induction hn : cs.length using Nat.strongRecOn generalizing q cs with
  | ind n ih =>
    obtain ⟨rest, rfl⟩ | ⟨p, text, rest, rfl, hpart⟩ | hstray := scanPieces_quoted_step q cs
    · exact .inl ⟨[], [], rest, rfl, cut_nil.mpr rfl, rfl⟩
    · have hpos := hpart.length_pos
      have hless : rest.length < n := by
        rw [← hn, List.length_append]
        omega
      obtain hends | hstray := ih rest.length hless (q.take p) rest rfl
      · exact .inl (hends.cons hpart)
      · exact .inr (by rwa [scanPieces_part hpart])
    · exact .inr hstray

end

/-! ## Tokens -/

/-- How a token is written that is always written in the same way. -/
def Token.word? : Token → Option String
  | .openArray => some "["
  | .closeArray => some "]"
  | .openObject => some "\x7b"
  | .closeObject => some "\x7d"
  | .comma => some ","
  | .colon => some ":"
  | .null => some "null"
  | .bool true => some "true"
  | .bool false => some "false"
  | _ => none

/-- How a token is written. -/
inductive Token.Written : Token → List (Option Char) → Prop where
  | word {t : Token} {w : String} (h : t.word? = some w) : Written t (w.toList.map some)
  | number {l : Literal} {cs : List Char} (h : l.Written cs) :
      Written (.number l.number?) (cs.map some)
  | string {ps : List Part} {text : List (Option Char)} (h : Cut Part.Written ps text) :
      Written (.string ((chars? none ps).map String.ofList)) (some '"' :: (text ++ [some '"']))

/-- A text that is made up of these tokens, with blanks between them. A number ends where it could
not have gone on. -/
inductive Lexed : List (Option Char) → List Token → Prop where
  | done : Lexed [] []
  | blank {c : Char} {cs : List (Option Char)} {ts : List Token} (hc : isBlank c = true)
      (h : Lexed cs ts) : Lexed (some c :: cs) ts
  | token {t : Token} {text cs : List (Option Char)} {ts : List Token} (ht : t.Written text)
      (hparted : (∃ n, t = .number n) → Parted cs) (h : Lexed cs ts) : Lexed (text ++ cs) (t :: ts)

section
variable {t : Token} {text cs rest : List (Option Char)} {ts : List Token}

/-- The rest of a word is read as it is written. -/
theorem scanPieces_word {left : List Char} (hleft : left ≠ []) :
    scanPieces (.word left t) (left.map some ++ rest) = t :: scanPieces .between rest := by
  induction left with
  | nil => exact absurd rfl hleft
  | cons c left ih =>
    cases left with
    | nil => simp [scanPieces, advancePiece, advance]
    | cons c' left => simpa [scanPieces, advancePiece, advance] using ih (by simp)

/-- A word is written out, or the scanner comes to a mistake. -/
theorem scanPieces_word_cases {left : List Char} (hleft : left ≠ []) (cs : List (Option Char)) :
    (∃ rest, cs = left.map some ++ rest) ∨ .stray ∈ scanPieces (.word left t) cs := by
  induction left generalizing cs with
  | nil => exact absurd rfl hleft
  | cons w left ih =>
    match cs with
    | [] | none :: _ => exact .inr (by simp [scanPieces, finish, advancePiece, mistake])
    | some c :: cs =>
      by_cases hc : c = w
      · subst hc
        by_cases hlast : left = []
        · exact .inl ⟨cs, by simp [hlast]⟩
        · obtain ⟨rest, rfl⟩ | hstray := ih hlast cs
          · exact .inl ⟨rest, rfl⟩
          · exact .inr (by simpa [scanPieces, advancePiece, advance, hlast] using hstray)
      · exact .inr (by simp [scanPieces, advancePiece, advance, mistake, hc])

/-- What a character begins: a blank, a token that is always written in the same way, a string, or a
number. -/
inductive Begins (c : Char) : List Token → Mode → Prop where
  | blank (hc : isBlank c = true) : Begins c [] .between
  | sign {t : Token} (h : t.word? = some (String.ofList [c])) : Begins c [t] .between
  | word {t : Token} {left : List Char} (hleft : left ≠ [])
      (h : t.word? = some (String.ofList (c :: left))) : Begins c [] (.word left t)
  | string (hc : c = '"') : Begins c [] (.quoted .empty)
  | number {l : Literal} {place : Place}
      (h : ∀ text l', place.Rest l text l' → l'.Written (c :: text)) : Begins c [] (.number l place)

theorem begins_of_start {c : Char} {out : List Token} {mode : Mode}
    (h : start c = some (out, mode)) : Begins c out mode := by
  have hnumber {d : Nat} (hd : digit? c = some d) : Begins c []
      (.number ⟨false, [d], [], false, []⟩ (if d = 0 then .zero else .whole)) :=
    .number fun text l' hrest => .inl (rest_sign.mpr ⟨d, hd, hrest⟩)
  unfold start at h
  split at h
  · rename_i hblank
    cases h
    exact .blank hblank
  split at h
  -- the words that are one character long, and those that are longer
  iterate 6
    · cases h
      exact .sign rfl
  iterate 3
    · cases h
      exact .word (by simp) rfl
  · cases h
    exact .string rfl
  · cases h
    exact .number fun text l' hrest => .inr ⟨text, rfl, hrest⟩
  · split at h
    · rename_i hd
      cases h
      exact hnumber hd
    · rename_i d hne hd
      cases h
      have hbegins := hnumber hd
      rwa [if_neg (by rintro rfl; exact hne rfl)] at hbegins
    · cases h

theorem Token.Written.ofChars {cs : List Char} (h : t.word? = some (String.ofList cs)) :
    t.Written (cs.map some) := by
  have hwritten := Token.Written.word h
  rwa [String.toList_ofList] at hwritten

theorem not_number_of_word? {w : String} (h : t.word? = some w) : ¬ ∃ n, t = .number n := by
  rintro ⟨n, rfl⟩
  cases h

/-- The scanner comes to the end of a token. -/
def EndsToken (cs : List (Option Char)) : Prop :=
  ∃ t text rest, cs = text ++ rest ∧ t.Written text ∧ ((∃ n, t = .number n) → Parted rest) ∧
    scanPieces .between cs = t :: scanPieces .between rest

/-- From between two tokens the scanner comes past a blank or to the end of a token, or else to a
mistake. -/
theorem scanPieces_between_cases (c : Char) (cs : List (Option Char)) :
    (isBlank c = true ∧ scanPieces .between (some c :: cs) = scanPieces .between cs) ∨
      EndsToken (some c :: cs) ∨ .stray ∈ scanPieces .between (some c :: cs) := by
  cases hstart : start c with
  | none => exact .inr (.inr (by simp [scanPieces, advancePiece, advance, mistake, hstart]))
  | some begun =>
    obtain ⟨out, mode⟩ := begun
    have hgo : scanPieces .between (some c :: cs) = out ++ scanPieces mode cs := by
      simp [scanPieces, advancePiece, advance, hstart]
    cases begins_of_start hstart with
    | blank hc => exact .inl ⟨hc, hgo⟩
    | @sign t h =>
      have hparted (hn : ∃ n, t = .number n) : Parted cs := absurd hn (not_number_of_word? h)
      exact .inr (.inl ⟨t, [some c], cs, rfl, .ofChars h, hparted, hgo⟩)
    | @word t left hleft h =>
      right
      obtain ⟨rest, rfl⟩ | hstray := scanPieces_word_cases (t := t) hleft cs
      · have hparted (hn : ∃ n, t = .number n) : Parted rest := absurd hn (not_number_of_word? h)
        exact .inl ⟨t, _, rest, rfl, .ofChars h, hparted, hgo.trans (scanPieces_word hleft)⟩
      · exact .inr (hgo ▸ hstray)
    | string hc =>
      subst hc
      right
      obtain ⟨ps, text, rest, rfl, htext, hscan⟩ | hstray := scanPieces_quoted_cases .empty cs
      · rw [Quoted.text?_empty] at hscan
        refine .inl ⟨_, _, rest, by simp, .string htext, ?_, hgo.trans hscan⟩
        rintro ⟨n, hn⟩
        cases hn
      · exact .inr (hgo ▸ hstray)
    | @number l place h =>
      right
      obtain ⟨text, rest, l', rfl, hrest, hparted, hscan⟩ | hstray :=
        scanPieces_number_cases l place cs
      · exact .inl ⟨_, some c :: text.map some, rest, rfl, .number (h text l' hrest),
          fun _ => hparted, hgo.trans hscan⟩
      · exact .inr (hgo ▸ hstray)

theorem start_digit {c : Char} {d : Nat} (h : digit? c = some d) :
    start c =
      some ([], .number ⟨false, [d], [], false, []⟩ (if d = 0 then .zero else .whole)) := by
  have hother (c' : Char) (hc' : digit? c' = none) : c ≠ c' := by
    rintro rfl
    cases h.symm.trans hc'
  have hblank : isBlank c = false := by
    simp [isBlank, hother ' ' rfl, hother '\t' rfl, hother '\n' rfl, hother '\r' rfl]
  simp only [start, hblank, Bool.false_eq_true, if_false]
  split
  -- no digit is one of the characters that begin something else
  iterate 11 exact absurd rfl (hother _ rfl)
  rw [h]
  cases d <;> rfl

/-- A number is scanned as one from its first character on. -/
theorem Literal.Written.begins {l : Literal} {text : List Char} (h : l.Written text) :
    ∃ c after l₁ place, text = c :: after ∧ start c = some ([], .number l₁ place) ∧
      place.Rest l₁ after l := by
  obtain hmagnitude | ⟨after, rfl, hmagnitude⟩ := h
  · cases text with
    | nil =>
      have hend : Place.sign.Rest ⟨false, [], [], false, []⟩ [] l := hmagnitude
      cases (Place.rest_nil.mp hend).1
    | cons c after =>
      obtain ⟨d, hd, hrest⟩ := rest_sign.mp hmagnitude
      exact ⟨c, after, _, _, rfl, start_digit hd, hrest⟩
  · exact ⟨'-', after, _, .sign, rfl, rfl, hmagnitude⟩

/-- A token is scanned as it was written, and what comes after it by itself. -/
theorem scanPieces_token (ht : t.Written text) (hparted : (∃ n, t = .number n) → Parted rest) :
    scanPieces .between (text ++ rest) = t :: scanPieces .between rest := by
  cases ht with
  | word h =>
    unfold Token.word? at h
    split at h <;> cases h <;> rfl
  | @number l text h =>
    obtain ⟨c, after, l₁, place, rfl, hstart, hrest⟩ := h.begins
    have hscan := scanPieces_number hrest (hparted ⟨_, rfl⟩)
    simpa [scanPieces, advancePiece, advance, hstart] using hscan
  | @string ps text h =>
    have hscan : scanPieces (.quoted .empty) (text ++ some '"' :: rest) = _ := scanPieces_quoted h
    rw [Quoted.text?_empty] at hscan
    rw [← hscan]
    simp only [List.cons_append, List.append_assoc, List.nil_append]
    rfl

theorem Token.Written.length_pos (ht : t.Written text) : 0 < text.length := by
  cases ht with
  | word h =>
    unfold Token.word? at h
    split at h <;> cases h <;> decide
  | number h =>
    obtain ⟨c, after, _, _, rfl, -⟩ := h.begins
    simp
  | string h => simp

theorem Token.Written.ne_stray (ht : t.Written text) : t ≠ .stray := by
  cases ht with
  | word h =>
    rintro rfl
    cases h
  | _ => simp

namespace Lexed

theorem scan (h : Lexed cs ts) : scanPieces .between cs = ts := by
  induction h with
  | done => rfl
  | @blank c cs ts hc _ ih => simp [scanPieces, advancePiece, advance, start, hc, ih]
  | token ht hparted _ ih => rw [scanPieces_token ht hparted, ih]

theorem stray_not_mem (h : Lexed cs ts) : .stray ∉ ts := by
  induction h with
  | done => simp
  | blank _ _ ih => exact ih
  | token ht _ _ ih => simp [ih, ht.ne_stray.symm]

theorem of_scan (h : .stray ∉ scanPieces .between cs) : Lexed cs (scanPieces .between cs) := by
  induction hn : cs.length using Nat.strongRecOn generalizing cs with
  | ind n ih =>
    match cs with
    | [] => exact .done
    | none :: cs => exact absurd (by simp [scanPieces, advancePiece, mistake]) h
    | some c :: cs =>
      obtain ⟨hc, hscan⟩ | ⟨t, text, rest, htext, ht, hparted, hscan⟩ | hstray :=
        scanPieces_between_cases c cs
      · rw [hscan] at h ⊢
        exact .blank hc (ih cs.length (by simp [← hn]) h rfl)
      · have hpos := ht.length_pos
        have hless : rest.length < n := by
          rw [← hn, htext, List.length_append]
          omega
        rw [hscan, List.mem_cons, not_or] at h
        rw [hscan, htext]
        exact .token ht hparted (ih rest.length hless h.2 rfl)
      · exact absurd hstray h

/-- A string is shorter than a text that it is written in. -/
theorem length_lt_of_string_mem {s : String} (h : Lexed cs ts) (hs : .string (some s) ∈ ts) :
    s.length < cs.length := by
  induction h with
  | done => cases hs
  | blank _ _ ih => exact Nat.lt_succ_of_lt (ih hs)
  | @token t text cs ts ht _ _ ih =>
    rw [List.length_append]
    obtain rfl | hrest := List.mem_cons.mp hs
    · generalize htoken : Token.string (some s) = token at ht
      cases ht with
      | word hword =>
        subst htoken
        cases hword
      | number => cases htoken
      | @string ps inner hinner =>
        obtain ⟨chars, hchars, rfl⟩ := Option.map_eq_some_iff.mp (Token.string.inj htoken).symm
        have hparts := length_of_chars? hchars
        have hinner := hinner.length_le fun _ _ hpart => hpart.length_pos
        simp only [String.length_ofList, List.length_cons, List.length_append, List.length_nil]
        omega
    · have hless := ih hrest
      omega

end Lexed

/-- The scanner finds the tokens that a text is made up of, and makes no mistake about it. -/
theorem lexed_iff : Lexed cs ts ↔ scanPieces .between cs = ts ∧ .stray ∉ ts := by
  constructor
  · intro h
    exact ⟨h.scan, h.stray_not_mem⟩
  · rintro ⟨rfl, hstray⟩
    exact .of_scan hstray

end

end MessageDispatch.Json
