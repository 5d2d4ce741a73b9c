import MessageDispatch.Routing.Topic
import MessageDispatch.Proofs.Cuts

/-! What topic patterns mean. The words of a pattern take words of a key, and a key fits a pattern
when its words can be cut into parts that the words of the pattern take one by one. -/
namespace MessageDispatch.Topic

/-! ## Words -/

section
variable {text w : List Char} {ws : List (List Char)}

theorem words_ne_nil (text : List Char) : words text ≠ [] := by
  cases text with
  | nil => simp [words]
  | cons c rest =>
    rw [words]
    split
    · simp
    · split <;> simp

theorem words_cons_of_ne {c : Char} {rest : List Char} (hdot : c ≠ '.')
    (hrest : words rest = w :: ws) : words (c :: rest) = (c :: w) :: ws := by
  rw [words, if_neg hdot, hrest]

theorem words_eq_splitOn (text : List Char) : words text = text.splitOn '.' := by
  induction text with
  | nil => rfl
  | cons c rest ih =>
    rw [List.splitOn_cons_eq_if_modifyHead, ← ih]
    by_cases hdot : c = '.'
    · simp [words, hdot]
    · obtain ⟨w, ws, hrest⟩ := List.exists_cons_of_ne_nil (words_ne_nil rest)
      rw [words_cons_of_ne hdot hrest, hrest, if_neg (by simpa using hdot)]
      rfl

theorem not_mem_of_mem_words (h : w ∈ words text) : '.' ∉ w := by
  induction text generalizing w with
  | nil =>
    obtain rfl : w = [] := by simpa [words] using h
    simp
  | cons c rest ih =>
    by_cases hdot : c = '.'
    · rw [words, if_pos hdot, List.mem_cons] at h
      rcases h with rfl | h
      · simp
      · exact ih h
    · obtain ⟨v, ws, hrest⟩ := List.exists_cons_of_ne_nil (words_ne_nil rest)
      rw [hrest] at ih
      rw [words_cons_of_ne hdot hrest, List.mem_cons] at h
      rcases h with rfl | h
      · have := ih (List.mem_cons_self ..)
        simp [this, Ne.symm hdot]
      · exact ih (List.mem_cons_of_mem _ h)

/-- The words of a text are the texts without a dot that make it up with dots between them. -/
theorem words_eq_iff : words text = ws ↔
    ws ≠ [] ∧ (∀ w ∈ ws, '.' ∉ w) ∧ ['.'].intercalate ws = text := by
  rw [words_eq_splitOn]
  constructor
  · rintro rfl
    rw [← words_eq_splitOn]
    refine ⟨words_ne_nil text, fun w h => not_mem_of_mem_words h, ?_⟩
    rw [words_eq_splitOn, List.intercalate_splitOn]
  · rintro ⟨hne, hfree, rfl⟩
    exact List.splitOn_intercalate '.' hfree hne

end

/-- The text with the given words. -/
def joined (ws : List (List Char)) : String := String.ofList (['.'].intercalate ws)

theorem words_joined {ws : List (List Char)} (hne : ws ≠ []) (hfree : ∀ w ∈ ws, '.' ∉ w) :
    words (joined ws).toList = ws := by
  rw [joined, String.toList_ofList]
  exact words_eq_iff.mpr ⟨hne, hfree, rfl⟩

/-! ## Patterns -/

/-- A `#` takes any words, a `*` exactly one, and any other word one that is like it. -/
def Takes (word : List Char) (part : List (List Char)) : Prop :=
  if word = ['#'] then True else if word = ['*'] then ∃ w, part = [w] else part = [word]

/-- The words of a key can be cut into parts that the words of a pattern take in order. -/
def Fits (pattern key : List (List Char)) : Prop := Cut Takes pattern key

section
variable {word w : List Char} {pattern key : List (List Char)}

theorem takes_any (part : List (List Char)) : Takes ['#'] part := by
  rw [Takes, if_pos rfl]
  trivial

theorem Takes.single (hany : word ≠ ['#']) (part : List (List Char)) (h : Takes word part) :
    ∃ w, part = [w] := by
  rw [Takes, if_neg hany] at h
  split at h
  · exact h
  · exact ⟨word, h⟩

theorem takes_single (hany : word ≠ ['#']) : Takes word [w] ↔ word = ['*'] ∨ word = w := by
  rw [Takes, if_neg hany]
  split
  · rename_i hone
    simp [hone]
  · rename_i hone
    simp [hone, eq_comm]

/-- A `#` takes nothing, or the next word and then what it takes besides. -/
theorem fits_any_cons : Fits (['#'] :: pattern) (w :: key) ↔
    Fits pattern (w :: key) ∨ Fits (['#'] :: pattern) key := by
  unfold Fits
  rw [cut_any takes_any, cut_any takes_any]
  constructor
  · rintro ⟨n, h⟩
    cases n with
    | zero => exact .inl h
    | succ n => exact .inr ⟨n, h⟩
  · rintro (h | ⟨n, h⟩)
    · exact ⟨0, h⟩
    · exact ⟨n + 1, h⟩

theorem fits_any_nil : Fits (['#'] :: pattern) [] ↔ Fits pattern [] := by
  unfold Fits
  rw [cut_any takes_any]
  simp

theorem wordsMatch_iff (pattern key : List (List Char)) :
    wordsMatch pattern key = true ↔ Fits pattern key := by
  induction pattern, key using wordsMatch.induct with
  | case1 key =>
    rw [wordsMatch, List.isEmpty_iff]
    exact cut_nil.symm
  | case2 rest ih => rw [wordsMatch, if_pos rfl, ih, fits_any_nil]
  | case3 word rest hany =>
    rw [wordsMatch, if_neg hany]
    simp [Fits, not_cut_nil (Takes.single hany)]
  | case4 rest w key ihrest ihkey =>
    rw [wordsMatch, if_pos rfl, Bool.or_eq_true, ihrest, ihkey, fits_any_cons]
  | case5 rest w key hany ih =>
    rw [wordsMatch, if_neg hany, if_pos rfl, ih]
    simp [Fits, cut_one (Takes.single hany), takes_single hany]
  | case6 word rest w key hany hone ih =>
    rw [wordsMatch, if_neg hany, if_neg hone, Bool.and_eq_true, beq_iff_eq, ih]
    simp [Fits, cut_one (Takes.single hany), takes_single hany, hone]

end

section
variable {pattern key : String} {before after : List (List Char)} {word : List Char}

theorem accepts_iff :
    accepts pattern key = true ↔ Fits (words pattern.toList) (words key.toList) :=
  wordsMatch_iff _ _

theorem not_mem_of_words_eq (replaced : List (List Char))
    (h : words pattern.toList = before ++ replaced ++ after) :
    ∀ w ∈ before ++ ['#'] :: after, '.' ∉ w := by
  have hfree := (words_eq_iff.mp h).2.1
  intro w hw
  rcases List.mem_append.mp hw with hmem | hmem
  · exact hfree w (by simp [hmem])
  · rcases List.mem_cons.mp hmem with rfl | hmem
    · decide
    · exact hfree w (by simp [hmem])

end

/-- What a topic pattern says of a key. -/
structure Decides (pattern key : String) : Prop where
  /-- The words are what stands between the dots. -/
  split : ∀ text ws, words text = ws ↔
    ws ≠ [] ∧ (∀ w ∈ ws, '.' ∉ w) ∧ ['.'].intercalate ws = text
  fits : accepts pattern key = true ↔ Fits (words pattern.toList) (words key.toList)
  /-- A `#` in place of a word loses no match. -/
  widened : ∀ before word after, words pattern.toList = before ++ word :: after →
    accepts pattern key = true → accepts (joined (before ++ ['#'] :: after)) key = true
  /-- Two `#` in a row are as good as one. -/
  merged : ∀ before after, words pattern.toList = before ++ ['#'] :: ['#'] :: after →
    accepts pattern key = accepts (joined (before ++ ['#'] :: after)) key

theorem decides_fits (pattern key : String) : Decides pattern key := by
  refine ⟨fun _ _ => words_eq_iff, accepts_iff, ?_, ?_⟩
  · intro before word after hwords haccepts
    have hfree := not_mem_of_words_eq [word] (by simpa using hwords)
    rw [accepts_iff, hwords] at haccepts
    rw [accepts_iff, words_joined (by simp) hfree]
    exact Cut.widen takes_any haccepts
  · intro before after hwords
    have hfree := not_mem_of_words_eq [['#'], ['#']] (by simpa using hwords)
    rw [Bool.eq_iff_iff, accepts_iff, accepts_iff, hwords, words_joined (by simp) hfree]
    exact cut_merge takes_any

example : accepts "a.*.#" "a.b.c" = true := by cbv

end MessageDispatch.Topic
