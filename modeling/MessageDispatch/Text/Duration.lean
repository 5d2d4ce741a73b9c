/-! Durations as text: in seconds from one second on, and in milliseconds below, without zeros at
the end of the fraction. -/
namespace MessageDispatch.Duration

/-- The digits of a fraction of a second, without zeros at the end. -/
def fraction (ms : Nat) : List Char :=
  let digits := Nat.toDigits 10 ms
  let padded := List.replicate (3 - digits.length) '0' ++ digits
  (padded.reverse.dropWhile (· == '0')).reverse

/-- A number of milliseconds as text. -/
def text (ms : Nat) : String :=
  if ms = 0 then "0ns"
  else if ms < 1000 then toString ms ++ "ms"
  else
    let tail := fraction (ms % 1000)
    toString (ms / 1000) ++ String.ofList (if tail = [] then [] else '.' :: tail) ++ "s"

end MessageDispatch.Duration
