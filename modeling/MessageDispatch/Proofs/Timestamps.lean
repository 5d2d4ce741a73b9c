import MessageDispatch.Protocol.Kafka

/-! When a message was sent, in the milliseconds of a Kafka record. A time is left out if its
seconds are too many for a signed 64-bit number. If only its milliseconds are, no record is
built. -/
namespace MessageDispatch.Kafka

/-- These seconds fit into a signed 64-bit number, and their milliseconds do not. -/
def Overflows (seconds : UInt64) : Prop :=
  (seconds.toNat : Int) ≤ Int64.maxValue.toInt ∧ Int64.maxValue.toInt < 1000 * seconds.toNat

theorem toInt_maxValue : Int64.maxValue.toInt = 9223372036854775807 := by decide

theorem toInt_perSecond : perSecond.toInt = 1000 := by decide

theorem signed?_cases (seconds : UInt64) :
    (signed? seconds = none ∧ Int64.maxValue.toInt < seconds.toNat) ∨
      ∃ s, signed? seconds = some s ∧ (seconds.toNat : Int) ≤ Int64.maxValue.toInt ∧
        s.toInt = seconds.toNat := by
  unfold signed?
  rw [toInt_maxValue]
  split
  · rename_i hfits
    exact .inr ⟨_, rfl, by omega, Int64.toInt_ofNat_of_lt hfits⟩
  · exact .inl ⟨rfl, by omega⟩

/-- A product overflows if it is too large as an integer. -/
theorem smulOverflow_iff {s : Int64} (hs : 0 ≤ s.toInt) :
    BitVec.smulOverflow s.toBitVec perSecond.toBitVec = true ↔
      Int64.maxValue.toInt < 1000 * s.toInt := by
  have hproduct : s.toBitVec.toInt * perSecond.toBitVec.toInt = 1000 * s.toInt := by
    rw [Int64.toInt_toBitVec, Int64.toInt_toBitVec, toInt_perSecond, Int.mul_comm]
  rw [BitVec.smulOverflow, hproduct, toInt_maxValue, Bool.or_eq_true, decide_eq_true_eq,
    decide_eq_true_eq]
  omega

/-- A product that does not overflow is the product of the integers. -/
theorem toInt_mul_perSecond {s : Int64} (hs : 0 ≤ s.toInt)
    (hfits : 1000 * s.toInt ≤ Int64.maxValue.toInt) : (s * perSecond).toInt = 1000 * s.toInt := by
  rw [toInt_maxValue] at hfits
  rw [Int64.toInt_mul, toInt_perSecond, Int.mul_comm, Int.bmod_eq_of_le (by omega) (by omega)]

theorem overflows_iff (m : Message Route) :
    overflows m = true ↔ ∃ seconds, m.timestamp = some seconds ∧ Overflows seconds := by
  unfold overflows
  cases m.timestamp with
  | none => simp
  | some seconds =>
    simp only [Option.bind_some, Option.some.injEq, exists_eq_left']
    rcases signed?_cases seconds with ⟨hnone, hlarge⟩ | ⟨s, hsome, hsmall, hvalue⟩
    · rw [hnone]
      exact iff_of_false (by simp) fun hoverflows => Int.not_lt.mpr hoverflows.1 hlarge
    · rw [hsome, Option.any_some, smulOverflow_iff (by omega), hvalue]
      exact (and_iff_right hsmall).symm

/-- The timestamp of a record is left out or exact, and it is there if it fits. -/
structure Dated (timestamp : Option UInt64) (timestampMs : Option Int64) : Prop where
  exact : ∀ ms, timestampMs = some ms →
    ∃ seconds, timestamp = some seconds ∧ ms.toInt = 1000 * seconds.toNat
  kept : ∀ seconds, timestamp = some seconds →
    1000 * (seconds.toNat : Int) ≤ Int64.maxValue.toInt → timestampMs.isSome

theorem dated_of_not_overflows {seconds : UInt64} (h : ¬ Overflows seconds) :
    Dated (some seconds) ((signed? seconds).map (· * perSecond)) := by
  rcases signed?_cases seconds with ⟨hnone, hlarge⟩ | ⟨s, hsome, hsmall, hvalue⟩
  · refine ⟨by simp [hnone], fun t ht hfits => ?_⟩
    obtain rfl := Option.some.inj ht
    omega
  · have hfits : 1000 * s.toInt ≤ Int64.maxValue.toInt :=
      Int.not_lt.mp fun hlarge => h ⟨hsmall, hvalue ▸ hlarge⟩
    refine ⟨fun ms hms => ⟨seconds, rfl, ?_⟩, fun _ _ _ => by simp [hsome]⟩
    rw [hsome, Option.map_some] at hms
    rw [← Option.some.inj hms, toInt_mul_perSecond (by omega) hfits, hvalue]

theorem dated_of_build (ids : FreshIds) {m : Message Route} (h : overflows m = false) :
    Dated m.timestamp (build ids m).timestampMs := by
  have hnot : ¬ ∃ seconds, m.timestamp = some seconds ∧ Overflows seconds :=
    (not_congr (overflows_iff m)).mp (Bool.eq_false_iff.mp h)
  show Dated m.timestamp ((m.timestamp.bind signed?).map (· * perSecond))
  cases htime : m.timestamp with
  | none => exact ⟨by simp, by simp⟩
  | some seconds =>
    exact dated_of_not_overflows fun hoverflows => hnot ⟨seconds, htime, hoverflows⟩

/-- A record in which the timestamp is left out or exact is built for every message, unless it is
so late that its seconds fit and its milliseconds overflow: then there is a panic instead. Nothing
else in a record depends on the timestamp. -/
theorem dated_build (ids : FreshIds) (m : Message Route) :
    ((∃ r, protocol.buildChecked ids m = .ok r ∧ Dated m.timestamp r.timestampMs) ↔
        ¬ ∃ seconds, m.timestamp = some seconds ∧ Overflows seconds) ∧
      (protocol.buildChecked ids m = .error .overflow ↔
        ∃ seconds, m.timestamp = some seconds ∧ Overflows seconds) ∧
      ∀ timestamp r r', protocol.buildChecked ids m = .ok r →
        protocol.buildChecked ids { m with timestamp := timestamp } = .ok r' →
          { r' with timestampMs := none } = { r with timestampMs := none } := by
  have hpanics : protocol.buildChecked ids m = .error .overflow ↔
      ∃ seconds, m.timestamp = some seconds ∧ Overflows seconds :=
    Protocol.buildChecked_eq_error_iff.trans (overflows_iff m)
  refine ⟨?_, hpanics, ?_⟩
  · rw [← hpanics]
    constructor
    · rintro ⟨r, hr, -⟩ hpanic
      cases hr.symm.trans hpanic
    · intro hnot
      have hfits : overflows m = false :=
        Bool.eq_false_iff.mpr fun h => hnot (Protocol.buildChecked_eq_error_iff.mpr h)
      exact ⟨_, Protocol.buildChecked_eq_ok_iff.mpr ⟨hfits, rfl⟩,
        dated_of_build ids hfits⟩
  · intro timestamp r r' hr hr'
    obtain ⟨-, rfl⟩ := Protocol.buildChecked_eq_ok_iff.mp hr
    obtain ⟨-, rfl⟩ := Protocol.buildChecked_eq_ok_iff.mp hr'
    rfl

/-- A message that was sent so late. -/
def late : Message Route :=
  { Message.new (.topicOnly "jobs") (.text "work") with timestamp := some 9223372036854776 }

theorem not_forall_dated :
    ¬ ∀ (ids : FreshIds) (m : Message Route),
      ∃ r, protocol.buildChecked ids m = .ok r ∧ Dated m.timestamp r.timestampMs := by
  intro h
  have hpanics : protocol.overflows late = true := by decide
  obtain ⟨r, hr, -⟩ := h ⟨"", ""⟩ late
  rw [Protocol.buildChecked_eq_error_iff.mpr hpanics] at hr
  cases hr

end MessageDispatch.Kafka
