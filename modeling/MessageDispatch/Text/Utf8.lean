/-! Reading bytes as text. Any bytes can be cut into pieces: the characters of valid UTF-8, and in
any other byte string also each longest piece that begins a character without completing it, and
each byte that begins none. `lossy` puts one U+FFFD for each piece that is no character. -/
namespace MessageDispatch.Text

/-- The text whose UTF-8 encoding is `bytes`, if there is one. -/
def decode? (bytes : ByteArray) : Option String :=
  String.fromUTF8? bytes

/-- The mark left where bytes are not UTF-8. -/
def replacement : Char := '\uFFFD'

/-- A character whose first bytes have been read: the bits so far, how many bytes it still
needs, and the range the next one has to lie in. -/
structure Unfinished where
  bits : Nat
  owed : Nat
  low : UInt8
  high : UInt8

/-- What a byte begins when no character is unfinished: a whole character, the first part of
one, or nothing at all. -/
def opening (b : UInt8) : Option (Char ⊕ Unfinished) :=
  if b < 0x80 then some (.inl (Char.ofNat b.toNat))
  else if 0xC2 ≤ b ∧ b ≤ 0xDF then some (.inr ⟨b.toNat - 0xC0, 1, 0x80, 0xBF⟩)
  else if b = 0xE0 then some (.inr ⟨0, 2, 0xA0, 0xBF⟩)
  else if b = 0xED then some (.inr ⟨0xD, 2, 0x80, 0x9F⟩)
  else if 0xE1 ≤ b ∧ b ≤ 0xEF then some (.inr ⟨b.toNat - 0xE0, 2, 0x80, 0xBF⟩)
  else if b = 0xF0 then some (.inr ⟨0, 3, 0x90, 0xBF⟩)
  else if 0xF1 ≤ b ∧ b ≤ 0xF3 then some (.inr ⟨b.toNat - 0xF0, 3, 0x80, 0xBF⟩)
  else if b = 0xF4 then some (.inr ⟨4, 3, 0x80, 0x8F⟩)
  else none

/-- The pieces a byte completes at the start of a character, and what is unfinished after it. -/
def startWith (b : UInt8) : List (Option Char) × Option Unfinished :=
  match opening b with
  | some (.inl c) => ([some c], none)
  | some (.inr u) => ([], some u)
  | none => ([none], none)

/-- Bytes cut into characters and what is no character. -/
def split : Option Unfinished → List UInt8 → List (Option Char)
  | none, [] => []
  | some _, [] => [none]
  | none, b :: rest =>
    let (out, next) := startWith b
    out ++ split next rest
  | some u, b :: rest =>
    if u.low ≤ b ∧ b ≤ u.high then
      let bits := u.bits * 64 + (b.toNat - 0x80)
      if u.owed = 1 then some (Char.ofNat bits) :: split none rest
      else split (some ⟨bits, u.owed - 1, 0x80, 0xBF⟩) rest
    else
      let (out, next) := startWith b
      none :: (out ++ split next rest)

/-- The characters of valid UTF-8, or the pieces of what is not. -/
def pieces (bytes : ByteArray) : List (Option Char) :=
  match decode? bytes with
  | some text => text.toList.map some
  | none => split none bytes.toList

/-- Bytes as text, whatever they are. -/
def lossy (bytes : ByteArray) : String :=
  String.ofList ((pieces bytes).map (·.getD replacement))

theorem pieces_of_decode? {bytes : ByteArray} {s : String} (h : decode? bytes = some s) :
    pieces bytes = s.toList.map some := by
  rw [pieces, h]

theorem lossy_of_decode? {bytes : ByteArray} {s : String} (h : decode? bytes = some s) :
    lossy bytes = s := by
  have hchars : (s.toList.map some).map (·.getD replacement) = s.toList := by
    rw [List.map_map]
    exact List.map_id _
  rw [lossy, pieces_of_decode? h, hchars, String.ofList_toList]

theorem decode?_toUTF8 (s : String) : decode? s.toUTF8 = some s :=
  dif_pos s.isValidUTF8

/-- The bytes of a text are that text. -/
theorem lossy_toUTF8 (s : String) : lossy s.toUTF8 = s :=
  lossy_of_decode? (decode?_toUTF8 s)

theorem toUTF8_of_decode? {bytes : ByteArray} {s : String} (h : decode? bytes = some s) :
    s.toUTF8 = bytes := by
  unfold decode? String.fromUTF8? at h
  split at h
  · obtain rfl := Option.some.inj h
    rfl
  · cases h

end MessageDispatch.Text
