import MessageDispatch.Proofs.JsonText

/-! The text of an integer reads back as that integer. It is written without leading zeros, so all
of its digits are one literal, which ends where something begins that follows a value. -/
namespace MessageDispatch.Json

/-! ## Decimal digits -/

theorem digit?_digitChar : ∀ d < 10, digit? (Nat.digitChar d) = some d := by decide

theorem Literal.natural_concat (ds : List Nat) (d : Nat) :
    Literal.natural (ds ++ [d]) = Literal.natural ds * 10 + d := by
  simp [Literal.natural]

/-- The digits that a number is written with: no more than needed. -/
structure Numeral (n : Nat) (ds : List Nat) : Prop where
  text : Nat.toDigits 10 n = ds.map Nat.digitChar
  digits : ∀ d ∈ ds, d < 10
  value : Literal.natural ds = n
  lead : ds = [0] ∨ ∃ d rest, ds = d :: rest ∧ d ≠ 0

theorem exists_numeral (n : Nat) : ∃ ds, Numeral n ds := by
  induction n using Nat.strongRecOn with
  | ind n ih =>
    by_cases hn : n < 10
    · refine ⟨[n], ?_, by simpa using hn, by simp [Literal.natural], ?_⟩
      · rw [Nat.toDigits_of_lt_base hn]
        rfl
      · by_cases hzero : n = 0
        · exact .inl (by rw [hzero])
        · exact .inr ⟨n, [], rfl, hzero⟩
    · obtain ⟨ds, htext, hdigits, hvalue, hlead⟩ := ih (n / 10) (by omega)
      have hlast : n % 10 < 10 := Nat.mod_lt _ (by decide)
      refine ⟨ds ++ [n % 10], ?_, ?_, ?_, ?_⟩
      · rw [Nat.toDigits_eq_if (by decide), if_neg hn, htext]
        simp
      · intro d hd
        rcases List.mem_append.mp hd with hd | hd
        · exact hdigits d hd
        · exact List.mem_singleton.mp hd ▸ hlast
      · rw [Literal.natural_concat, hvalue]
        omega
      · rcases hlead with rfl | ⟨d, rest, rfl, hd⟩
        -- only a number below ten begins with a zero
        · have hzero : n / 10 = 0 := hvalue.symm
          omega
        · exact .inr ⟨d, rest ++ [n % 10], rfl, hd⟩

/-! ## Scanning -/

/-- The digits of a number are the whole part of a literal. -/
theorem Numeral.magnitude {n : Nat} {ds : List Nat} (h : Numeral n ds) (negative : Bool) :
    Literal.Magnitude ⟨negative, [], [], false, []⟩ (Nat.toDigits 10 n)
      ⟨negative, ds, [], false, []⟩ := by
  have hdigits : Digits ds (Nat.toDigits 10 n) := by
    rw [h.text, Digits, List.map_map]
    exact List.map_congr_left fun d hd => digit?_digitChar d (h.digits d hd)
  exact ⟨ds, _, [], (List.append_nil _).symm, hdigits, h.lead, .inl (.inl ⟨rfl, rfl⟩)⟩

theorem Ends.parted {rest : List Char} (h : Ends rest) : Parted (rest.map some) := by
  intro c hc
  cases rest with
  | nil => cases hc
  | cons c' rest =>
    cases hc
    rcases h c rfl with rfl | rfl | rfl <;> decide

/-- A literal ends where something begins that follows a value. -/
theorem scan_literal {l : Literal} {text rest : List Char} (h : l.Written text)
    (hrest : Ends rest) :
    scan .between (text ++ rest) = .number l.number? :: scan .between rest := by
  rw [scan, List.map_append]
  exact scanPieces_token (.number h) fun _ => hrest.parted

/-! ## Integers -/

/-- An integer as it is written. -/
def Literal.ofInt (n : Int) : Literal :=
  ⟨decide (n < 0), (Nat.toDigits 10 n.natAbs).filterMap digit?, [], false, []⟩

theorem Numeral.filterMap_digit? {n : Nat} {ds : List Nat} (h : Numeral n ds) :
    (Nat.toDigits 10 n).filterMap digit? = ds := by
  rw [h.text, List.filterMap_map]
  calc ds.filterMap (digit? ∘ Nat.digitChar)
    _ = ds.filterMap some := List.filterMap_congr fun d hd => digit?_digitChar d (h.digits d hd)
    _ = ds := List.filterMap_some

theorem toList_toString_of_nonneg {n : Int} (hn : 0 ≤ n) :
    (toString n).toList = Nat.toDigits 10 n.natAbs := by
  obtain ⟨m, rfl⟩ := Int.eq_ofNat_of_zero_le hn
  exact Nat.toList_repr

theorem toList_toString_of_neg {n : Int} (hn : n < 0) :
    (toString n).toList = '-' :: Nat.toDigits 10 n.natAbs := by
  obtain ⟨m, rfl⟩ := Int.eq_negSucc_of_lt_zero hn
  show ("-" ++ Nat.repr (m + 1)).toList = _
  rw [String.toList_append, Nat.toList_repr]
  rfl

theorem written_ofInt (n : Int) : (Literal.ofInt n).Written (toString n).toList := by
  obtain ⟨ds, h⟩ := exists_numeral n.natAbs
  rw [Literal.ofInt, h.filterMap_digit?]
  by_cases hn : n < 0
  · rw [toList_toString_of_neg hn, decide_eq_true hn]
    exact .inr ⟨_, rfl, h.magnitude true⟩
  · rw [toList_toString_of_nonneg (Int.not_lt.mp hn), decide_eq_false hn]
    exact .inl (h.magnitude false)

/-- The literal of an integer stands for the integer as far as it is kept exactly. -/
theorem number?_ofInt (n : Int) :
    (Literal.ofInt n).number? =
      if Number.isExact n then some (.integer n) else (Literal.ofInt n).decimal?.map .decimal := by
  obtain ⟨ds, h⟩ := exists_numeral n.natAbs
  have hsigned : (if n < 0 then -(n.natAbs : Int) else n.natAbs) = n := by
    split <;> omega
  have hsign : ¬ (n < 0 ∧ (n.natAbs : Int) = 0) := by omega
  unfold Literal.number?
  simp only [Literal.ofInt, h.filterMap_digit?, h.value, decide_eq_true_eq, hsigned, hsign,
    not_false_eq_true, true_and, and_true]

/-- An integer that is kept exactly reads back. -/
theorem readsBack_integer {n : Int} (hn : Number.isExact n = true) : ReadsBack (.integer n) := by
  intro rest hrest
  show scan .between ((toString n).toList ++ rest) = _
  rw [scan_literal (written_ofInt n) hrest, number?_ofInt, if_pos hn]

end MessageDispatch.Json
