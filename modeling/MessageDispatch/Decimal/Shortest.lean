/-! The shortest decimal of a binary floating-point number. A finite number is `mantissa * 2 ^
exponent`; the reals that round to it form an interval, closed exactly when the mantissa is
even. `shortest` looks for the coarsest power-of-ten grid with a point in that interval and
takes the point nearest to the number, so no decimal with fewer digits reads back as it. -/
namespace MessageDispatch.Decimal

/-- A positive number `digits * 10 ^ exponent`. -/
structure Scaled where
  digits : Nat
  exponent : Int
deriving DecidableEq, Inhabited

/-- A positive binary number `mantissa * 2 ^ exponent`; `halfBelow` when the number below it is
only half as far away as the one above, which is so at a power of two. -/
structure Binary where
  mantissa : Nat
  exponent : Int
  halfBelow : Bool

/-- The parts of a positive finite double, from its bits. -/
def Binary.ofBits (bits : UInt64) : Binary :=
  let fraction : Nat := (bits &&& 0xFFFFFFFFFFFFF).toNat
  let biased : Nat := ((bits >>> 52) &&& 0x7FF).toNat
  if biased = 0 then ⟨fraction, -1074, false⟩
  else ⟨0x10000000000000 + fraction, (biased : Int) - 1075, fraction == 0 && biased > 1⟩

/-- Four times the number and its two interval ends over one common denominator, so that a
decimal grid point is compared with them in whole numbers. -/
structure Interval where
  low : Nat
  value : Nat
  high : Nat
  denominator : Nat
  closed : Bool

def Binary.interval (b : Binary) : Interval :=
  let up := 1 <<< b.exponent.toNat
  let down := 1 <<< (-b.exponent).toNat
  { low := (4 * b.mantissa - (if b.halfBelow then 1 else 2)) * up
    value := 4 * b.mantissa * up
    high := (4 * b.mantissa + 2) * up
    denominator := 4 * down
    closed := b.mantissa % 2 == 0 }

/-- Is the fraction `num / den` one of the reals that round to the number? -/
def Interval.contains (i : Interval) (num den : Nat) : Bool :=
  let lo := compare (i.low * den) (num * i.denominator)
  let hi := compare (num * i.denominator) (i.high * den)
  (lo.isLT || (i.closed && lo.isEq)) && (hi.isLT || (i.closed && hi.isEq))

/-- The point of the grid `10 ^ exponent` in the interval that is nearest to the number. -/
def Interval.onGrid (i : Interval) (exponent : Int) : Option Scaled :=
  let up := Nat.pow 10 exponent.toNat
  let down := Nat.pow 10 (-exponent).toNat
  -- the number is `num / den` steps of the grid
  let num := i.value * down
  let den := i.denominator * up
  let below := num / den
  let above := below + 1
  let holds (k : Nat) : Bool := i.contains (k * up) down
  let pick (k : Nat) : Option Scaled := some ⟨k, exponent⟩
  let lower := below > 0 && holds below
  let upper := holds above
  if lower && upper then
    let r := num % den
    if 2 * r < den ∨ (2 * r = den ∧ below % 2 = 0) then pick below else pick above
  else if lower then pick below
  else if upper then pick above
  else none

/-- The first grid with a hit, from coarse to fine. -/
def Interval.search (i : Interval) : Nat → Int → Option Scaled
  | 0, _ => none
  | n + 1, exponent =>
    match i.onGrid exponent with
    | some s => some s
    | none => i.search n (exponent - 1)

/-- Without the zeros at its end. -/
def Scaled.trim (s : Scaled) : Nat → Scaled
  | 0 => s
  | n + 1 =>
    if s.digits % 10 = 0 ∧ s.digits ≠ 0 then Scaled.trim ⟨s.digits / 10, s.exponent + 1⟩ n else s

/-- How many decimal digits `n` has; none for zero. -/
def digitCount (n : Nat) : Nat :=
  if n = 0 then 0 else (Nat.toDigits 10 n).length

/-- The shortest decimal that reads back as the positive finite double with these bits. -/
def shortest (bits : UInt64) : Scaled :=
  let b := Binary.ofBits bits
  let i := b.interval
  -- the decimal exponent of the leading digit: no grid coarser than this one has a point
  let lead : Int := (digitCount (i.value / i.denominator) : Int)
  let small : Int := (digitCount (i.denominator / (i.value + 1)) : Int)
  let start : Int := if i.value ≥ i.denominator then lead else 1 - small
  match i.search 20 start with
  | some s => s.trim 20
  | none => ⟨0, 0⟩

end MessageDispatch.Decimal
