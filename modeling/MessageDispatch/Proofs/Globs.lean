import MessageDispatch.Routing.Glob
import MessageDispatch.Proofs.Cuts

/-! What glob patterns mean. A pattern is a row of tokens, and a text fits it when it can be cut
into parts that the tokens take one by one. The matcher keeps to the last star alone: whatever the
text before that star could be cut into instead, what follows the star can still be found behind
the place where the star stands now. -/
namespace MessageDispatch.Glob

/-! ## Patterns as tokens -/

/-- One entry of a class. A range has its ends in either order. -/
inductive Item where
  | single (a : Char)
  | range (a b : Char)

inductive Token where
  | star
  | any
  | one (a : Char)
  | oneOf (negated : Bool) (items : List Item)

/-- Where the reader of a pattern stands: between tokens, or inside a class. -/
inductive Place where
  | outside
  | inside (negated : Bool) (items : List Item)

/-- The tokens of a pattern. A class runs to the first `]` that is not part of an item, or to
the end of the pattern; a backslash that ends the pattern is an ordinary character. -/
def tokens : Place → List Char → List Token
  | .outside, [] => []
  | .outside, '*' :: rest => .star :: tokens .outside rest
  | .outside, '?' :: rest => .any :: tokens .outside rest
  | .outside, '\\' :: c :: rest => .one c :: tokens .outside rest
  | .outside, '[' :: '^' :: rest => tokens (.inside true []) rest
  | .outside, '[' :: rest => tokens (.inside false []) rest
  | .outside, c :: rest => .one c :: tokens .outside rest
  | .inside negated items, [] => [.oneOf negated items]
  | .inside negated items, ']' :: rest => .oneOf negated items :: tokens .outside rest
  | .inside negated items, '\\' :: c :: rest =>
    tokens (.inside negated (items ++ [.single c])) rest
  | .inside negated items, a :: '-' :: b :: rest =>
    if b = ']' then tokens (.inside negated (items ++ [.single a])) ('-' :: b :: rest)
    else tokens (.inside negated (items ++ [.range a b])) rest
  | .inside negated items, a :: rest => tokens (.inside negated (items ++ [.single a])) rest

section
variable {negated : Bool} {items : List Item} {a b : Char} {rest : List Char}

theorem tokens_dash (ha : a ≠ ']') (hslash : a ≠ '\\') :
    tokens (.inside negated items) (a :: '-' :: b :: rest) =
      if b = ']' then tokens (.inside negated (items ++ [.single a])) ('-' :: b :: rest)
      else tokens (.inside negated (items ++ [.range a b])) rest := by
  rw [tokens]
  · exact ha
  · exact hslash

theorem tokens_single (ha : a ≠ ']') (hslash : ∀ c r, a = '\\' → rest = c :: r → False)
    (hrange : ∀ c r, rest = '-' :: c :: r → False) :
    tokens (.inside negated items) (a :: rest) =
      tokens (.inside negated (items ++ [.single a])) rest := by
  rw [tokens]
  · exact ha
  · exact hslash
  · exact hrange

theorem tokens_literal (hstar : a ≠ '*') (hany : a ≠ '?') (hclass : a ≠ '[')
    (hslash : a = '\\' → rest = []) :
    tokens .outside (a :: rest) = .one a :: tokens .outside rest := by
  rw [tokens]
  · exact hstar
  · exact hany
  · intro c r ha hrest
    rw [hslash ha] at hrest
    cases hrest
  · exact fun _ ha => absurd ha hclass
  · exact hclass

end

def Item.Has (c : Char) : Item → Prop
  | .single a => a = c
  | .range a b => a ≤ c ∧ c ≤ b ∨ b ≤ c ∧ c ≤ a

/-- Does some entry have the character? -/
def Covered (c : Char) (items : List Item) : Prop := ∃ item ∈ items, item.Has c

/-- A star takes any part of a text, and every other token exactly one character. -/
def Token.Takes : Token → List Char → Prop
  | .star, _ => True
  | .any, part => ∃ c, part = [c]
  | .one a, part => part = [a]
  | .oneOf negated items, part => ∃ c, part = [c] ∧ (Covered c items ↔ negated = false)

/-- A text can be cut into parts that the tokens take in order. -/
def Fits (row : List Token) (text : List Char) : Prop := Cut Token.Takes row text

section
variable {row : List Token} {text : List Char} {token : Token}

theorem Token.Takes.single (hstar : token ≠ .star) (part : List Char) (h : token.Takes part) :
    ∃ c, part = [c] := by
  cases token with
  | star => exact absurd rfl hstar
  | any => exact h
  | one a => exact ⟨a, h⟩
  | oneOf negated items =>
    obtain ⟨c, hc, -⟩ := h
    exact ⟨c, hc⟩

theorem fits_nil : Fits [] text ↔ text = [] := cut_nil

theorem fits_star : Fits (.star :: row) text ↔ ∃ n, Fits row (text.drop n) :=
  cut_any fun _ => trivial

theorem not_fits_nil (hstar : token ≠ .star) : ¬ Fits (token :: row) [] :=
  not_cut_nil (Token.Takes.single hstar)

theorem fits_cons (hstar : token ≠ .star) (c : Char) :
    Fits (token :: row) (c :: text) ↔ token.Takes [c] ∧ Fits row text :=
  cut_one (Token.Takes.single hstar)

end

/-! ## Reading tokens -/

section
variable {pattern : Array Char} {i : Nat} {a c : Char} {rest : List Char}

/-- What stands at a position, when something is left there. -/
theorem of_drop_cons (h : pattern.toList.drop i = a :: rest) :
    i < pattern.size ∧ pattern[i]? = some a ∧ pattern.toList.drop (i + 1) = rest := by
  have hfront : pattern.toList[i]? = some a := by rw [← List.head?_drop, h, List.head?_cons]
  have hrest : pattern.toList.drop (i + 1) = rest := by rw [← List.tail_drop, h, List.tail_cons]
  rw [Array.getElem?_toList] at hfront
  exact ⟨(Array.getElem?_eq_some_iff.mp hfront).1, hfront, hrest⟩

theorem size_le_of_drop_nil (h : pattern.toList.drop i = []) : pattern.size ≤ i := by
  simpa using h

theorem between_iff (a b c : Char) :
    between a b c = true ↔ a ≤ c ∧ c ≤ b ∨ b ≤ c ∧ c ≤ a := by
  unfold between
  split
  · rename_i hab
    simp only [decide_eq_true_eq]
    constructor
    · exact .inl
    · rintro (h | ⟨hb, ha⟩)
      · exact h
      · exact ⟨Char.le_trans hab hb, Char.le_trans ha hab⟩
  · rename_i hab
    have hba : b ≤ a := (Char.le_total a b).resolve_left hab
    simp only [decide_eq_true_eq]
    constructor
    · exact .inr
    · rintro (⟨ha, hb⟩ | h)
      · exact absurd (Char.le_trans ha hb) hab
      · exact h

theorem covered_concat (c : Char) (items : List Item) (item : Item) :
    Covered c (items ++ [item]) ↔ Covered c items ∨ item.Has c := by
  simp [Covered, or_and_right, exists_or]

/-- An entry was matched so far, and the next one has its say. -/
theorem matched_concat {items : List Item} {item : Item} {matched has : Bool}
    (hmatched : matched = true ↔ Covered c items) (hhas : has = true ↔ item.Has c) :
    (matched || has) = true ↔ Covered c (items ++ [item]) := by
  rw [covered_concat, Bool.or_eq_true, hmatched, hhas]

/-! ### The entries of a class -/

theorem readItem_escape {d : Char} (hdrop : pattern.toList.drop i = '\\' :: d :: rest) :
    readItem pattern c '\\' i = some (d == c, 1) := by
  obtain ⟨-, -, hrest⟩ := of_drop_cons hdrop
  obtain ⟨hlt, hread, -⟩ := of_drop_cons hrest
  rw [readItem, if_pos ⟨rfl, hlt⟩, hread]
  rfl

/-- What follows a dash is the other end of a range, unless it ends the class. -/
theorem readItem_dash {b : Char} (hslash : a ≠ '\\')
    (hdrop : pattern.toList.drop i = a :: '-' :: b :: rest) :
    readItem pattern c a i =
      some (if b = ']' then (a == c, 0) else (between a b c, 2)) := by
  obtain ⟨-, -, hrest⟩ := of_drop_cons hdrop
  obtain ⟨-, hdash, hlast⟩ := of_drop_cons hrest
  obtain ⟨hwide, hlast, -⟩ := of_drop_cons hlast
  rw [readItem, if_neg (fun h => hslash h.1), if_pos hwide, hdash, hlast]
  by_cases hb : b = ']' <;> simp [hb]

theorem readItem_single (hslash : ∀ d r, a = '\\' → rest = d :: r → False)
    (hrange : ∀ d r, rest = '-' :: d :: r → False) (hdrop : pattern.toList.drop i = a :: rest) :
    readItem pattern c a i = some (a == c, 0) := by
  obtain ⟨-, -, hrest⟩ := of_drop_cons hdrop
  have hescape : ¬ (a = '\\' ∧ i + 1 < pattern.size) := by
    rintro ⟨rfl, hinside⟩
    cases rest with
    | nil => exact absurd hinside (Nat.not_lt.mpr (size_le_of_drop_nil hrest))
    | cons d rest => exact hslash d rest rfl rfl
  rw [readItem, if_neg hescape]
  split
  · rename_i hwide
    -- two more characters are left, and the first of them is no dash
    rcases rest with _ | ⟨d, _ | ⟨b, rest⟩⟩
    · have hend := size_le_of_drop_nil hrest
      omega
    · have hend := size_le_of_drop_nil (of_drop_cons hrest).2.2
      omega
    · obtain ⟨-, hdash, hlast⟩ := of_drop_cons hrest
      obtain ⟨-, hlast, -⟩ := of_drop_cons hlast
      have hno : d ≠ '-' := fun h => hrange b rest (by rw [h])
      rw [hdash, hlast]
      simp [hno]
  · rfl

/-- One more item is read in a class that goes on. -/
theorem readClass_item {matched has : Bool} {more : Nat} (hdrop : pattern.toList.drop i = a :: rest)
    (ha : a ≠ ']') (hitem : readItem pattern c a i = some (has, more)) :
    readClass pattern c matched i = readClass pattern c (matched || has) (i + 1 + more) := by
  obtain ⟨hi, hread, -⟩ := of_drop_cons hdrop
  rw [readClass, if_pos hi, hread]
  simp [ha, hitem]

/-- The rest of a class is read as its items stand in the pattern. -/
theorem readClass_eq (c : Char) (negated : Bool) {cs : List Char} {matched : Bool}
    {items : List Item} (hdrop : pattern.toList.drop i = cs) (hi : i ≤ pattern.size)
    (hmatched : matched = true ↔ Covered c items) :
    ∃ all next found, tokens (.inside negated items) cs =
        .oneOf negated all :: tokens .outside (pattern.toList.drop next) ∧
      next ≤ pattern.size ∧ readClass pattern c matched i = some (found, next) ∧
      (found = true ↔ Covered c all) := by
  -- along the tokens: the reader takes an item whenever the tokens do
  generalize hplace : Place.inside negated items = place
  induction place, cs using tokens.induct generalizing i items matched with
  | case1 | case2 | case3 | case4 | case5 | case6 | case7 => cases hplace
  | case8 negated items =>
    obtain ⟨rfl, rfl⟩ := Place.inside.inj hplace
    have hend := size_le_of_drop_nil hdrop
    refine ⟨items, i, matched, ?_, hi, ?_, hmatched⟩
    · rw [hdrop]
      rfl
    · rw [readClass]
      simp [Nat.not_lt.mpr hend]
  | case9 negated items rest =>
    obtain ⟨rfl, rfl⟩ := Place.inside.inj hplace
    obtain ⟨hlt, hread, hrest⟩ := of_drop_cons hdrop
    refine ⟨items, i + 1, matched, ?_, hlt, ?_, hmatched⟩
    · rw [hrest]
      rfl
    · rw [readClass, if_pos hlt, hread]
      simp
  | case10 negated items d rest ih =>
    obtain ⟨rfl, rfl⟩ := Place.inside.inj hplace
    obtain ⟨-, -, hrest⟩ := of_drop_cons hdrop
    obtain ⟨hlt, -, hrest⟩ := of_drop_cons hrest
    rw [readClass_item hdrop (by decide) (readItem_escape hdrop)]
    exact ih hrest hlt (matched_concat hmatched (by simp [Item.Has])) rfl
  | case11 negated items a rest ha hslash ih =>
    obtain ⟨rfl, rfl⟩ := Place.inside.inj hplace
    obtain ⟨hlt, -, hrest⟩ := of_drop_cons hdrop
    have hitem := readItem_dash (c := c) hslash hdrop
    rw [if_pos rfl] at hitem
    rw [readClass_item hdrop ha hitem, tokens_dash ha hslash, if_pos rfl]
    exact ih hrest hlt (matched_concat hmatched (by simp [Item.Has])) rfl
  | case12 negated items a b rest ha hslash hb ih =>
    obtain ⟨rfl, rfl⟩ := Place.inside.inj hplace
    obtain ⟨-, -, hrest⟩ := of_drop_cons hdrop
    obtain ⟨-, -, hrest⟩ := of_drop_cons hrest
    obtain ⟨hwide, -, hrest⟩ := of_drop_cons hrest
    have hitem := readItem_dash (c := c) hslash hdrop
    rw [if_neg hb] at hitem
    have hhas : between a b c = true ↔ (Item.range a b).Has c := between_iff a b c
    rw [readClass_item hdrop ha hitem, tokens_dash ha hslash, if_neg hb]
    exact ih hrest hwide (matched_concat hmatched hhas) rfl
  | case13 negated items a rest ha hslash hrange ih =>
    obtain ⟨rfl, rfl⟩ := Place.inside.inj hplace
    obtain ⟨hlt, -, hrest⟩ := of_drop_cons hdrop
    have hitem := readItem_single (c := c) hslash hrange hdrop
    rw [readClass_item hdrop ha hitem, tokens_single ha hslash hrange]
    exact ih hrest hlt (matched_concat hmatched (by simp [Item.Has])) rfl

/-- What reading the token at a position comes to: the position after it if it takes the character,
and nothing otherwise. -/
structure ReadsToken (pattern : Array Char) (p : Nat) (c : Char) (token : Token) (next : Nat) :
    Prop where
  ne_star : token ≠ .star
  within : next ≤ pattern.size
  tokens_eq : tokens .outside (pattern.toList.drop p) =
    token :: tokens .outside (pattern.toList.drop next)
  takes : token.Takes [c] → readToken pattern p c = some (some next)
  refuses : ¬ token.Takes [c] → readToken pattern p c = some none

theorem readToken_class (negated : Bool) (hdrop : pattern.toList.drop i = '[' :: rest)
    (hnegated : negated = true ↔ pattern[i + 1]? = some '^')
    (hinside : (if negated then i + 2 else i + 1) ≤ pattern.size)
    (htokens : tokens .outside ('[' :: rest) = tokens (.inside negated [])
      (pattern.toList.drop (if negated then i + 2 else i + 1))) :
    ∃ token next, ReadsToken pattern i c token next := by
  obtain ⟨hlt, hread, -⟩ := of_drop_cons hdrop
  have hnothing : false = true ↔ Covered c [] := by simp [Covered]
  obtain ⟨all, next, found, hclass, hwithin, hfound, hcovered⟩ :=
    readClass_eq c negated rfl hinside hnothing
  have hsame : (pattern[i + 1]? == some '^') = negated := by
    rw [Bool.eq_iff_iff, hnegated, beq_iff_eq]
  have hanswer : readToken pattern i c =
      some (if found != negated then some next else none) := by
    rw [readToken, hread]
    simp [hsame, hfound]
  refine ⟨.oneOf negated all, next, nofun, hwithin, ?_, ?_, ?_⟩
  · rw [hdrop, htokens, hclass]
  · rintro ⟨_, ⟨⟩, htakes⟩
    rw [hanswer, if_pos]
    rw [← hcovered] at htakes
    cases found <;> cases negated <;> simp_all
  · intro hrefuses
    rw [hanswer, if_neg]
    intro hdiffer
    refine hrefuses ⟨c, rfl, ?_⟩
    rw [← hcovered]
    cases found <;> cases negated <;> simp_all

theorem exists_readsToken_class (hdrop : pattern.toList.drop i = '[' :: rest) :
    ∃ token next, ReadsToken pattern i c token next := by
  obtain ⟨hlt, hread, hrest⟩ := of_drop_cons hdrop
  by_cases hnegated : ∃ r, rest = '^' :: r
  · obtain ⟨r, rfl⟩ := hnegated
    obtain ⟨hinside, hcaret, hr⟩ := of_drop_cons hrest
    refine readToken_class true hdrop (by simp [hcaret]) hinside ?_
    rw [if_pos rfl, hr]
    rfl
  · have hcaret : pattern[i + 1]? ≠ some '^' := by
      intro hcaret
      rw [← Array.getElem?_toList, ← List.head?_drop, hrest] at hcaret
      obtain ⟨r, rfl⟩ := List.head?_eq_some_iff.mp hcaret
      exact hnegated ⟨r, rfl⟩
    refine readToken_class false hdrop (by simp [hcaret]) hlt ?_
    rw [if_neg (by decide), hrest]
    rw [tokens]
    rintro r rfl
    exact hnegated ⟨r, rfl⟩

/-- A token that stands for one character. -/
theorem readsToken_one {d : Char} {next : Nat} (hnext : next ≤ pattern.size)
    (htokens : tokens .outside (pattern.toList.drop i) =
      .one d :: tokens .outside (pattern.toList.drop next))
    (hanswer : readToken pattern i c = some (if d = c then some next else none)) :
    ReadsToken pattern i c (.one d) next := by
  refine ⟨nofun, hnext, htokens, ?_, ?_⟩
  · intro htakes
    obtain rfl : c = d := by simpa [Token.Takes] using htakes
    rw [hanswer, if_pos rfl]
  · intro hrefuses
    have hne : d ≠ c := by
      rintro rfl
      exact hrefuses rfl
    rw [hanswer, if_neg hne]

/-- A token that is not a star is read at its place. -/
theorem exists_readsToken (c : Char) (hdrop : pattern.toList.drop i = a :: rest)
    (hstar : a ≠ '*') : ∃ token next, ReadsToken pattern i c token next := by
  obtain ⟨hlt, hread, hrest⟩ := of_drop_cons hdrop
  by_cases hany : a = '?'
  · subst hany
    have hanswer : readToken pattern i c = some (some (i + 1)) := by
      rw [readToken, hread]
      rfl
    refine ⟨.any, i + 1, nofun, hlt, ?_, fun _ => hanswer, fun h => absurd ⟨c, rfl⟩ h⟩
    rw [hdrop, hrest]
    rfl
  by_cases hclass : a = '['
  · subst hclass
    exact exists_readsToken_class hdrop
  cases rest with
  | nil =>
    have hend := size_le_of_drop_nil hrest
    refine ⟨.one a, i + 1, readsToken_one hlt ?_ ?_⟩
    · rw [hdrop, hrest, tokens_literal hstar hany hclass fun _ => rfl]
    · rw [readToken, hread]
      simp [hany, hclass, Nat.not_lt.mpr hend]
  | cons d rest =>
    obtain ⟨hinside, hescaped, hrest'⟩ := of_drop_cons hrest
    by_cases hescape : a = '\\'
    · subst hescape
      refine ⟨.one d, i + 2, readsToken_one hinside ?_ ?_⟩
      · rw [hdrop, hrest']
        rfl
      · rw [readToken, hread]
        simp only [Option.bind_eq_bind, Option.bind_some, hany, if_false, if_pos, hinside,
          true_and, hescaped]
        rfl
    · refine ⟨.one a, i + 1, readsToken_one hlt ?_ ?_⟩
      · rw [hdrop, hrest, tokens_literal hstar hany hclass fun h => absurd h hescape]
      · rw [readToken, hread]
        simp [hany, hclass, hescape]

theorem tokens_star (hdrop : pattern.toList.drop i = '*' :: rest) :
    tokens .outside (pattern.toList.drop i) =
      .star :: tokens .outside (pattern.toList.drop (i + 1)) := by
  obtain ⟨-, -, hrest⟩ := of_drop_cons hdrop
  rw [hdrop, hrest]
  rfl

/-- Nothing but stars takes nothing. -/
theorem onlyStars_eq (hi : i ≤ pattern.size) : ∃ answer, onlyStars pattern i = some answer ∧
    (answer = true ↔ Fits (tokens .outside (pattern.toList.drop i)) []) := by
  induction hn : pattern.size - i generalizing i with
  | zero =>
    obtain rfl : i = pattern.size := by omega
    refine ⟨true, ?_, ?_⟩
    · rw [onlyStars]
      simp
    · have hend : pattern.toList.drop pattern.size = [] := by simp
      simp [hend, tokens, fits_nil]
  | succ n ih =>
    have hlt : i < pattern.size := by omega
    obtain ⟨a, rest, hdrop⟩ : ∃ a rest, pattern.toList.drop i = a :: rest := by
      refine List.exists_cons_of_ne_nil ?_
      intro hend
      have := size_le_of_drop_nil hend
      omega
    obtain ⟨-, hread, -⟩ := of_drop_cons hdrop
    rw [onlyStars, if_pos hlt, hread]
    by_cases hstar : a = '*'
    · subst hstar
      obtain ⟨answer, hanswer, hfits⟩ := ih (i := i + 1) (by omega) (by omega)
      refine ⟨answer, by simpa using hanswer, ?_⟩
      rw [hfits, tokens_star hdrop, fits_star]
      simp
    · obtain ⟨token, next, hreads⟩ := exists_readsToken 'a' hdrop hstar
      refine ⟨false, by simp [hstar], ?_⟩
      rw [hreads.tokens_eq]
      simp [not_fits_nil hreads.ne_star]

end

/-! ## The walk -/

section
variable (pattern subject : Array Char)

/-- The rest of the subject from `s` on fits the rest of the pattern from `p` on. -/
def Rest (p s : Nat) : Prop :=
  Fits (tokens .outside (pattern.toList.drop p)) (subject.toList.drop s)

/-- What the cursor has found out, as far as the last star is concerned. -/
structure Star.Holds (last : Star) (p s : Nat) : Prop where
  within : last.place < pattern.size
  /-- The star can be taken to end where it ends at present, or later. -/
  decides : Rest pattern subject 0 0 ↔
    ∃ ending, last.ending ≤ ending ∧ Rest pattern subject (last.place + 1) ending
  /-- Since the star each token took one character, so wherever the star ends, as many characters
  come between it and the rest. -/
  follows : ∀ ending, Rest pattern subject (last.place + 1) ending →
    Rest pattern subject p (ending + (s - last.ending))
  returns : Rest pattern subject p s → Rest pattern subject (last.place + 1) last.ending

/-- The invariant of the walk. -/
structure Holds (k : Cursor) : Prop where
  pattern_le : k.pattern ≤ pattern.size
  subject_le : k.subject ≤ subject.size
  unstarred : k.star = none →
    (Rest pattern subject 0 0 ↔ Rest pattern subject k.pattern k.subject)
  starred : ∀ last, k.star = some last → last.Holds pattern subject k.pattern k.subject

variable {pattern subject} {k : Cursor}

theorem holds_start (pattern subject : Array Char) : Holds pattern subject .start :=
  ⟨Nat.zero_le _, Nat.zero_le _, fun _ => Iff.rfl, nofun⟩

theorem rest_eq_of_drop_cons {p s : Nat} {c : Char} {text : List Char}
    (hdrop : subject.toList.drop s = c :: text) :
    Rest pattern subject p s ↔
      Fits (tokens .outside (pattern.toList.drop p)) (c :: subject.toList.drop (s + 1)) := by
  rw [Rest, hdrop, (of_drop_cons hdrop).2.2]

theorem exists_drop_cons (row : Array Char) {s : Nat} (hs : s < row.size) :
    ∃ c text, row.toList.drop s = c :: text ∧ row[s]? = some c := by
  obtain ⟨c, text, hdrop⟩ : ∃ c text, row.toList.drop s = c :: text := by
    refine List.exists_cons_of_ne_nil ?_
    intro hend
    have := size_le_of_drop_nil hend
    omega
  exact ⟨c, text, hdrop, (of_drop_cons hdrop).2.1⟩

/-! ### One token -/

theorem rest_star {p s : Nat} {rest : List Char} (hdrop : pattern.toList.drop p = '*' :: rest) :
    Rest pattern subject p s ↔ ∃ ending, s ≤ ending ∧ Rest pattern subject (p + 1) ending := by
  rw [Rest, tokens_star hdrop, fits_star]
  constructor
  · rintro ⟨n, h⟩
    refine ⟨s + n, Nat.le_add_right .., ?_⟩
    rwa [List.drop_drop] at h
  · rintro ⟨ending, hle, h⟩
    refine ⟨ending - s, ?_⟩
    rwa [List.drop_drop, Nat.add_sub_cancel' hle]

section
variable {p s next : Nat} {c : Char} {token : Token} (hreads : ReadsToken pattern p c token next)
include hreads

theorem rest_token (hc : subject[s]? = some c) :
    Rest pattern subject p s ↔ token.Takes [c] ∧ Rest pattern subject next (s + 1) := by
  obtain ⟨d, text, hdrop, hd⟩ := exists_drop_cons subject (Array.getElem?_eq_some_iff.mp hc).1
  obtain rfl : d = c := Option.some.inj (hd.symm.trans hc)
  rw [rest_eq_of_drop_cons hdrop, hreads.tokens_eq, fits_cons hreads.ne_star]
  rfl

/-- Whatever the character is, one of them is taken. -/
theorem Rest.over {s : Nat} (h : Rest pattern subject p s) :
    Rest pattern subject next (s + 1) := by
  by_cases hs : s < subject.size
  · obtain ⟨d, text, hdrop, -⟩ := exists_drop_cons subject hs
    rw [rest_eq_of_drop_cons hdrop, hreads.tokens_eq, fits_cons hreads.ne_star] at h
    exact h.2
  · have hend : subject.toList.drop s = [] := by simpa using Nat.le_of_not_lt hs
    rw [Rest, hend, hreads.tokens_eq] at h
    exact absurd h (not_fits_nil hreads.ne_star)

end

/-! ### One step -/

theorem drop_of_atStar (h : atStar pattern k = some true) :
    ∃ rest, pattern.toList.drop k.pattern = '*' :: rest := by
  have hp := lt_of_atStar h
  obtain ⟨a, rest, hdrop, hread⟩ := exists_drop_cons pattern hp
  rw [atStar, if_pos hp, hread] at h
  obtain rfl : a = '*' := by simpa using h
  exact ⟨rest, hdrop⟩

theorem Star.holds_after {last : Star} (hwithin : last.place < pattern.size)
    (hdecides : Rest pattern subject 0 0 ↔
      ∃ ending, last.ending ≤ ending ∧ Rest pattern subject (last.place + 1) ending) :
    last.Holds pattern subject (last.place + 1) last.ending := by
  refine ⟨hwithin, hdecides, ?_, id⟩
  intro ending h
  rwa [Nat.sub_self, Nat.add_zero]

theorem Holds.after {last : Star} (hending : last.ending ≤ subject.size)
    (hlast : last.Holds pattern subject (last.place + 1) last.ending) :
    Holds pattern subject (.after last) := by
  refine ⟨hlast.within, hending, nofun, ?_⟩
  rintro _ ⟨⟩
  exact hlast

/-- At a new star the last one can be forgotten: if it ended later, the new star would only have
less to take. -/
theorem Holds.meet (h : Holds pattern subject k) (hstar : atStar pattern k = some true) :
    Holds pattern subject (.after ⟨k.pattern, k.subject⟩) := by
  obtain ⟨rest, hdrop⟩ := drop_of_atStar hstar
  refine Holds.after h.subject_le (Star.holds_after (lt_of_atStar hstar) ?_)
  show Rest pattern subject 0 0 ↔
    ∃ ending, k.subject ≤ ending ∧ Rest pattern subject (k.pattern + 1) ending
  rw [← rest_star hdrop]
  cases hlast : k.star with
  | none => exact h.unstarred hlast
  | some last =>
    have hholds := h.starred last hlast
    have hanchored := k.anchored last hlast
    constructor
    · intro hall
      obtain ⟨ending, hle, hrest⟩ := hholds.decides.mp hall
      obtain ⟨ending', hle', hrest'⟩ := (rest_star hdrop).mp (hholds.follows ending hrest)
      exact (rest_star hdrop).mpr ⟨ending', by omega, hrest'⟩
    · intro hrest
      exact hholds.decides.mpr ⟨last.ending, Nat.le_refl _, hholds.returns hrest⟩

/-- Since a token takes one character wherever it is met, the last star can still end later. -/
theorem Holds.advance {c : Char} {token : Token} {next : Nat} (h : Holds pattern subject k)
    (hc : subject[k.subject]? = some c) (hreads : ReadsToken pattern k.pattern c token next)
    (htakes : token.Takes [c]) : Holds pattern subject (k.advance next) := by
  have hrest : Rest pattern subject k.pattern k.subject ↔
      Rest pattern subject next (k.subject + 1) := by
    rw [rest_token hreads hc]
    exact and_iff_right htakes
  have hlt : k.subject < subject.size := (Array.getElem?_eq_some_iff.mp hc).1
  refine ⟨hreads.within, hlt, fun hnone => (h.unstarred hnone).trans hrest, ?_⟩
  intro last hlast
  have hholds := h.starred last hlast
  have hanchored := k.anchored last hlast
  refine ⟨hholds.within, hholds.decides, ?_, fun hnext => hholds.returns (hrest.mpr hnext)⟩
  intro ending hending
  have hover := (hholds.follows ending hending).over hreads
  have hshift : ending + (k.subject + 1 - last.ending) =
      ending + (k.subject - last.ending) + 1 := by omega
  show Rest pattern subject next (ending + (k.subject + 1 - last.ending))
  rwa [hshift]

/-- Where pattern and subject part, the last star ends later. -/
theorem Holds.retry {last : Star} (h : Holds pattern subject k) (hs : k.subject < subject.size)
    (hlast : k.star = some last) (hparts : ¬ Rest pattern subject k.pattern k.subject) :
    Holds pattern subject (.after ⟨last.place, last.ending + 1⟩) := by
  have hholds := h.starred last hlast
  have hanchored := k.anchored last hlast
  have hle : last.ending + 1 ≤ subject.size := by omega
  refine Holds.after hle (Star.holds_after hholds.within ?_)
  rw [hholds.decides]
  constructor
  · rintro ⟨ending, hending, hrest⟩
    refine ⟨ending, ?_, hrest⟩
    by_cases heq : ending = last.ending
    · subst heq
      have hhere := hholds.follows _ hrest
      rw [Nat.add_sub_cancel' hanchored] at hhere
      exact absurd hhere hparts
    · show last.ending + 1 ≤ ending
      omega
  · rintro ⟨ending, hending, hrest⟩
    exact ⟨ending, Nat.le_of_succ_le hending, hrest⟩

/-- At the end of the subject the rest of the pattern has to take nothing. -/
theorem Holds.finish (h : Holds pattern subject k) (hs : subject.size ≤ k.subject) :
    Rest pattern subject 0 0 ↔ Fits (tokens .outside (pattern.toList.drop k.pattern)) [] := by
  have hnothing (p : Nat) {s : Nat} (hs : subject.size ≤ s) :
      Rest pattern subject p s ↔ Fits (tokens .outside (pattern.toList.drop p)) [] := by
    have hend : subject.toList.drop s = [] := by simpa using hs
    rw [Rest, hend]
  cases hlast : k.star with
  | none => exact (h.unstarred hlast).trans (hnothing _ hs)
  | some last =>
    have hholds := h.starred last hlast
    have hanchored := k.anchored last hlast
    rw [← hnothing _ hs]
    constructor
    · intro hall
      obtain ⟨ending, hending, hrest⟩ := hholds.decides.mp hall
      have hhere := hholds.follows ending hrest
      rw [hnothing _ (by omega)] at hhere
      exact (hnothing _ hs).mpr hhere
    · intro hrest
      exact hholds.decides.mpr ⟨last.ending, Nat.le_refl _, hholds.returns hrest⟩

/-- What the next token comes to, where there is no star. -/
theorem Holds.taken_cases (h : Holds pattern subject k) (hs : k.subject < subject.size)
    (hstar : atStar pattern k = some false) :
    (∃ next, taken pattern subject k = some (some next) ∧
      Holds pattern subject (k.advance next)) ∨
    (taken pattern subject k = some none ∧ ¬ Rest pattern subject k.pattern k.subject) := by
  obtain ⟨c, text, hdrop, hc⟩ := exists_drop_cons subject hs
  by_cases hp : k.pattern < pattern.size
  · obtain ⟨a, rest, hpattern, hread⟩ := exists_drop_cons pattern hp
    have hne : a ≠ '*' := by
      rintro rfl
      rw [atStar, if_pos hp, hread] at hstar
      simp at hstar
    obtain ⟨token, next, hreads⟩ := exists_readsToken c hpattern hne
    have htaken : taken pattern subject k = readToken pattern k.pattern c := by
      rw [taken, if_pos hp, hc]
      rfl
    rw [htaken]
    by_cases htakes : token.Takes [c]
    · exact .inl ⟨next, hreads.takes htakes, h.advance hc hreads htakes⟩
    · refine .inr ⟨hreads.refuses htakes, ?_⟩
      rw [rest_token hreads hc]
      exact fun hrest => htakes hrest.1
  · refine .inr ⟨by rw [taken, if_neg hp], ?_⟩
    have hend : pattern.toList.drop k.pattern = [] := by simpa using Nat.le_of_not_lt hp
    rw [Rest, hend, hdrop, tokens, fits_nil]
    simp

theorem exists_atStar (pattern : Array Char) (k : Cursor) :
    ∃ star, atStar pattern k = some star := by
  unfold atStar
  split
  · rename_i hp
    exact ⟨_, by rw [Array.getElem?_eq_getElem hp]; rfl⟩
  · exact ⟨false, rfl⟩

/-- A step reads nothing outside, and keeps the invariant or gives the answer. -/
theorem Holds.step (h : Holds pattern subject k) :
    (∃ next, Glob.step pattern subject k = some (.inl next) ∧ Holds pattern subject next) ∨
    (∃ answer, Glob.step pattern subject k = some (.inr answer) ∧
      (answer = true ↔ Rest pattern subject 0 0)) := by
  by_cases hs : k.subject < subject.size
  · obtain ⟨star, hstar⟩ := exists_atStar pattern k
    cases star with
    | true =>
      refine .inl ⟨_, ?_, h.meet hstar⟩
      rw [Glob.step, if_pos hs, hstar]
    | false =>
      rcases h.taken_cases hs hstar with ⟨next, htaken, hnext⟩ | ⟨htaken, hparts⟩
      · refine .inl ⟨_, ?_, hnext⟩
        rw [Glob.step, if_pos hs, hstar, htaken]
      · cases hlast : k.star with
        | some last =>
          refine .inl ⟨_, ?_, h.retry hs hlast hparts⟩
          simp only [Glob.step, if_pos hs, hstar, htaken, hlast]
        | none =>
          refine .inr ⟨false, ?_, ?_⟩
          · simp only [Glob.step, if_pos hs, hstar, htaken, hlast]
          · rw [h.unstarred hlast]
            simp [hparts]
  · have hend := Nat.le_of_not_lt hs
    obtain ⟨answer, hanswer, hfits⟩ := onlyStars_eq h.pattern_le
    refine .inr ⟨answer, ?_, hfits.trans (h.finish hend).symm⟩
    rw [Glob.step, if_neg hs, hanswer]
    rfl

/-- The walk is a step and then the walk from there. -/
theorem walk_eq : walk pattern subject k =
    match step pattern subject k with
    | none => none
    | some (.inl next) => walk pattern subject next
    | some (.inr answer) => some answer := by
  rw [walk]
  split <;> rename_i hstep <;> rw [hstep]

theorem walk_next {next : Cursor} (h : step pattern subject k = some (.inl next)) :
    walk pattern subject k = walk pattern subject next := by
  rw [walk_eq, h]

theorem walk_answer {answer : Bool} (h : step pattern subject k = some (.inr answer)) :
    walk pattern subject k = some answer := by
  rw [walk_eq, h]

/-- Wherever the walk is, it comes to the right answer. -/
theorem Holds.walk (h : Holds pattern subject k) :
    ∃ answer, Glob.walk pattern subject k = some answer ∧
      (answer = true ↔ Rest pattern subject 0 0) := by
  induction k using Glob.walk.induct pattern subject with
  | case1 k hstep =>
    rcases h.step with ⟨next, hnext, -⟩ | ⟨answer, hanswer, -⟩
    · rw [hstep] at hnext
      cases hnext
    · rw [hstep] at hanswer
      cases hanswer
  | case2 k next hstep ih =>
    rcases h.step with ⟨next', hnext, hholds⟩ | ⟨answer, hanswer, -⟩
    · obtain rfl : next = next' := by simpa [hstep] using hnext
      rw [Glob.walk_next hstep]
      exact ih hholds
    · rw [hstep] at hanswer
      cases hanswer
  | case3 k answer hstep =>
    rcases h.step with ⟨next, hnext, -⟩ | ⟨answer', hanswer, hright⟩
    · rw [hstep] at hnext
      cases hnext
    · obtain rfl : answer = answer' := by simpa [hstep] using hanswer
      exact ⟨answer, Glob.walk_answer hstep, hright⟩

end

/-- The matcher reads nothing outside the pattern and the subject, and comes to the answer whether
the subject can be cut up among the tokens of the pattern. -/
theorem answers_iff_fits (pattern subject : String) :
    answer? pattern subject = some (accepts pattern subject) ∧
      (accepts pattern subject = true ↔
        Fits (tokens .outside pattern.toList) subject.toList) := by
  obtain ⟨answer, hanswer, hfits⟩ :=
    (holds_start pattern.toList.toArray subject.toList.toArray).walk
  have haccepts : accepts pattern subject = answer := by
    rw [accepts, answer?, hanswer]
    rfl
  rw [haccepts, answer?, hanswer]
  exact ⟨rfl, hfits⟩

end MessageDispatch.Glob
