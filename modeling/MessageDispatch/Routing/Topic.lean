/-! Topic patterns. Pattern and routing key are split into words at every dot; in a pattern the
word `#` stands for any number of words, `*` for exactly one, and any other word for itself. -/
namespace MessageDispatch.Topic

/-- The parts between the dots; empty parts count. -/
def words : List Char → List (List Char)
  | [] => [[]]
  | c :: rest =>
    if c = '.' then [] :: words rest
    else
      match words rest with
      | [] => [[c]]
      | w :: ws => (c :: w) :: ws

/-- Can the words of a key be cut up among the words of a pattern, in order? A `#` is over, or
takes one word more. -/
def wordsMatch : List (List Char) → List (List Char) → Bool
  | [], ws => ws.isEmpty
  | p :: rest, [] => if p = ['#'] then wordsMatch rest [] else false
  | p :: rest, w :: ws =>
    if p = ['#'] then wordsMatch rest (w :: ws) || wordsMatch (p :: rest) ws
    else if p = ['*'] then wordsMatch rest ws
    else p == w && wordsMatch rest ws
termination_by pattern ws => pattern.length + ws.length

/-- Does a routing key fit a topic pattern? -/
def accepts (pattern key : String) : Bool :=
  wordsMatch (words pattern.toList) (words key.toList)

end MessageDispatch.Topic
