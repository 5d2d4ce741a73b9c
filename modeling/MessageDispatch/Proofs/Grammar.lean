import MessageDispatch.Json.Document
import MessageDispatch.Proofs.Lexing

/-! The form of JSON. A document is spelled with certain tokens, the reader takes these tokens for
that document, whatever containers are open around it, and it takes nothing else for a document. So
bytes are a document exactly if they are made up of its tokens. -/
namespace MessageDispatch.Document

open Json (Token Lexed)

/-! ## The tokens of a document -/

mutual

/-- The tokens that a document is spelled with. -/
def spelled : Document → List Token
  | .null => [.null]
  | .bool b => [.bool b]
  | .number n => [.number n]
  | .string s => [.string s]
  | .array [] => [.openArray, .closeArray]
  | .array (item :: items) => .openArray :: (item.spelled ++ spelledItems items)
  | .object [] => [.openObject, .closeObject]
  | .object ((name, d) :: members) =>
    .openObject :: .string name :: .colon :: (d.spelled ++ spelledMembers members)

/-- The items after the first, and the end of the array. -/
def spelledItems : List Document → List Token
  | [] => [.closeArray]
  | item :: items => .comma :: (item.spelled ++ spelledItems items)

/-- The members after the first, and the end of the object. -/
def spelledMembers : List (Option String × Document) → List Token
  | [] => [.closeObject]
  | (name, d) :: members =>
    .comma :: .string name :: .colon :: (d.spelled ++ spelledMembers members)

end

/-! ## What is spelled is read -/

/-- The first item of an array is read like any document. -/
theorem read_valueOrEnd (frames : List Frame) (d : Document) (rest : List Token) :
    read frames .valueOrEnd (d.spelled ++ rest) =
      read (.array [] :: frames) .value (d.spelled ++ rest) := by
  cases d with
  | array items => cases items <;> simp [spelled, read]
  | object members => rcases members with _ | ⟨⟨name, d⟩, members⟩ <;> simp [spelled, read]
  | _ => simp [spelled, read, scalar?]

mutual

/-- The tokens of a document are read as that document. -/
theorem read_spelled (frames : List Frame) (d : Document) (rest : List Token) :
    read frames .value (d.spelled ++ rest) = read frames (.after d) rest := by
  match d with
  | .null => simp [spelled, read, scalar?]
  | .bool b => simp [spelled, read, scalar?]
  | .number n => simp [spelled, read, scalar?]
  | .string s => simp [spelled, read, scalar?]
  | .array [] => simp [spelled, read]
  | .array (item :: items) =>
    simp only [spelled, List.cons_append, List.append_assoc, read]
    rw [read_valueOrEnd, read_spelled, read_spelledItems]
    rfl
  | .object [] => simp [spelled, read]
  | .object ((name, d) :: members) =>
    simp only [spelled, List.cons_append, List.append_assoc, read]
    rw [read_spelled, read_spelledMembers]
    rfl

theorem read_spelledItems (frames : List Frame) (done : List Document) (d : Document)
    (items : List Document) (rest : List Token) :
    read (.array done :: frames) (.after d) (spelledItems items ++ rest) =
      read frames (.after (.array ((d :: done).reverse ++ items))) rest := by
  match items with
  | [] => simp [spelledItems, read]
  | item :: items =>
    simp only [spelledItems, List.cons_append, List.append_assoc, read]
    rw [read_spelled, read_spelledItems]
    simp

theorem read_spelledMembers (frames : List Frame) (done : List (Option String × Document))
    (name : Option String) (d : Document) (members : List (Option String × Document))
    (rest : List Token) :
    read (.object done name :: frames) (.after d) (spelledMembers members ++ rest) =
      read frames (.after (.object (((name, d) :: done).reverse ++ members))) rest := by
  match members with
  | [] => simp [spelledMembers, read]
  | (name', d') :: members =>
    simp only [spelledMembers, List.cons_append, List.append_assoc, read]
    rw [read_spelled, read_spelledMembers]
    simp

end

/-- The first document is the one whose tokens come first, whatever comes after them. -/
theorem take?_spelled (d : Document) (rest : List Token) :
    take? (d.spelled ++ rest) = some (d, rest) := by
  rw [take?, read_spelled, read]

/-- A document begins with a token that ends nothing. -/
theorem spelled_cons (d : Document) : ∃ t more, d.spelled = t :: more ∧ t ≠ .closeArray := by
  cases d with
  | array items => cases items <;> exact ⟨_, _, rfl, by simp⟩
  | object members => cases members <;> exact ⟨_, _, rfl, by simp⟩
  | _ => exact ⟨_, _, rfl, by simp⟩

theorem length_lt_spelledMembers (members : List (Option String × Document)) :
    members.length < (spelledMembers members).length := by
  induction members with
  | nil => simp [spelledMembers]
  | cons m members ih =>
    simp only [spelledMembers, List.length_cons, List.length_append]
    omega

/-! ## What is read was spelled -/

/-- The tokens of an array up to its next item, with the items so far in reverse. -/
def openArray : List Document → List Token
  | [] => [.openArray]
  | d :: done => openArray done ++ d.spelled ++ [.comma]

/-- The tokens of an object up to its next member, with the members so far in reverse. -/
def openObject : List (Option String × Document) → List Token
  | [] => [.openObject]
  | (name, d) :: done => openObject done ++ .string name :: .colon :: d.spelled ++ [.comma]

/-- The tokens of a container up to the document being read in it. -/
def Frame.opened : Frame → List Token
  | .array done => openArray done
  | .object done name => openObject done ++ [.string name, .colon]

/-- The tokens that led to what is expected. -/
def Expect.opened : Expect → List Token
  | .value => []
  | .valueOrEnd => [.openArray]
  | .name done => openObject done
  | .nameOrEnd => [.openObject]
  | .colon done key => openObject done ++ [.string key]
  | .after d => d.spelled

/-- All of the tokens that have been read. -/
def opened (frames : List Frame) (expect : Expect) : List Token :=
  frames.reverse.flatMap Frame.opened ++ expect.opened

theorem openArray_append (done : List Document) (d : Document) (items : List Document) :
    openArray done ++ d.spelled ++ spelledItems items =
      (Document.array (done.reverse ++ d :: items)).spelled := by
  induction done generalizing d items with
  | nil => simp [openArray, spelled]
  | cons e done ih =>
    have hmore := ih e (d :: items)
    simp only [spelledItems] at hmore
    simpa [openArray] using hmore

theorem openObject_append (done : List (Option String × Document)) (name : Option String)
    (d : Document) (members : List (Option String × Document)) :
    openObject done ++ .string name :: .colon :: d.spelled ++ spelledMembers members =
      (Document.object (done.reverse ++ (name, d) :: members)).spelled := by
  induction done generalizing name d members with
  | nil => simp [openObject, spelled]
  | cons m done ih =>
    have hmore := ih m.1 m.2 ((name, d) :: members)
    simp only [spelledMembers] at hmore
    simpa [openObject] using hmore

/-- An array that ends is spelled with the tokens up to its last item, that item and the end. -/
theorem spelled_closeArray (done : List Document) (d : Document) :
    (Document.array (d :: done).reverse).spelled =
      openArray done ++ d.spelled ++ [.closeArray] := by
  rw [List.reverse_cons, ← openArray_append done d [], spelledItems]

theorem spelled_closeObject (done : List (Option String × Document)) (name : Option String)
    (d : Document) :
    (Document.object ((name, d) :: done).reverse).spelled =
      openObject done ++ .string name :: .colon :: d.spelled ++ [.closeObject] := by
  rw [List.reverse_cons, ← openObject_append done name d [], spelledMembers]

theorem spelled_of_scalar? {token : Token} {d : Document} (h : scalar? token = some d) :
    d.spelled = [token] := by
  cases token <;> cases h <;> simp [spelled]

/-- The tokens of what is read are those that had been read and those that were. -/
theorem opened_of_read {frames : List Frame} {expect : Expect} {tokens rest : List Token}
    {d : Document} (h : read frames expect tokens = some (d, rest)) :
    opened frames expect ++ tokens = d.spelled ++ rest := by
  fun_induction read frames expect tokens
  case case1 =>
    cases h
    simp [opened, Expect.opened]
  -- a scalar stands for itself
  case case5 hscalar ih =>
    rw [← ih h]
    simp [opened, Expect.opened, spelled_of_scalar? hscalar]
  case case10 hscalar ih =>
    rw [← ih h]
    simp [opened, Frame.opened, Expect.opened, openArray, spelled_of_scalar? hscalar]
  case case20 ih =>
    rw [← ih h]
    simp only [opened, Expect.opened, spelled_closeArray]
    simp [Frame.opened]
  case case23 ih =>
    rw [← ih h]
    simp only [opened, Expect.opened, spelled_closeObject]
    simp [Frame.opened]
  -- what else goes on
  case case3 ih | case4 ih | case7 ih | case8 ih | case9 ih | case12 ih | case14 ih | case15 ih |
      case17 ih | case19 ih | case22 ih =>
    rw [← ih h]
    simp [opened, Frame.opened, Expect.opened, openArray, openObject, spelled]
  all_goals cases h

/-! ## Documents and texts -/

/-- All of the tokens make up a document exactly if they are the tokens it is spelled with. -/
theorem whole?_eq_some {tokens : List Token} {d : Document} :
    whole? tokens = some d ↔ tokens = d.spelled := by
  constructor
  · intro h
    unfold whole? at h
    split at h
    · rename_i htake
      cases h
      have hopened := opened_of_read htake
      simpa [opened, Expect.opened] using hopened
    · cases h
  · rintro rfl
    have htake := take?_spelled d []
    rw [List.append_nil] at htake
    rw [whole?, htake]

mutual

theorem stray_not_mem_spelled (d : Document) : .stray ∉ d.spelled := by
  match d with
  | .null | .bool _ | .number _ | .string _ | .array [] | .object [] => simp [spelled]
  | .array (item :: items) =>
    simp [spelled, stray_not_mem_spelled item, stray_not_mem_spelledItems items]
  | .object ((_, d) :: members) =>
    simp [spelled, stray_not_mem_spelled d, stray_not_mem_spelledMembers members]

theorem stray_not_mem_spelledItems (items : List Document) : .stray ∉ spelledItems items := by
  match items with
  | [] => simp [spelledItems]
  | item :: items =>
    simp [spelledItems, stray_not_mem_spelled item, stray_not_mem_spelledItems items]

theorem stray_not_mem_spelledMembers (members : List (Option String × Document)) :
    .stray ∉ spelledMembers members := by
  match members with
  | [] => simp [spelledMembers]
  | (_, d) :: members =>
    simp [spelledMembers, stray_not_mem_spelled d, stray_not_mem_spelledMembers members]

end

/-- Is this document written so, with blanks between its tokens? -/
def Written (d : Document) (pieces : List (Option Char)) : Prop := Lexed pieces d.spelled

/-- The document that bytes are is the one that they are written as. -/
theorem parseBytes?_eq_some {bytes : ByteArray} {d : Document} :
    parseBytes? bytes = some d ↔ d.Written (Text.pieces bytes) := by
  rw [parseBytes?, whole?_eq_some, Json.tokensOfBytes, Written, Json.lexed_iff]
  exact ⟨fun h => ⟨h, stray_not_mem_spelled d⟩, And.left⟩

theorem mem_spelledMembers {members : List (Option String × Document)}
    {m : Option String × Document} {t : Token} (hm : m ∈ members) (ht : t ∈ m.2.spelled) :
    t ∈ spelledMembers members := by
  induction members with
  | nil => cases hm
  | cons m' members ih =>
    rw [spelledMembers]
    obtain rfl | hm := List.mem_cons.mp hm
    · simp [ht]
    · simp [ih hm]

/-- The tokens of a member are among those of the object. -/
theorem mem_spelled_object {members : List (Option String × Document)}
    {m : Option String × Document} {t : Token} (hm : m ∈ members) (ht : t ∈ m.2.spelled) :
    t ∈ (object members).spelled := by
  cases members with
  | nil => cases hm
  | cons m' members =>
    rw [spelled]
    obtain rfl | hm := List.mem_cons.mp hm
    · simp [ht]
    · simp [mem_spelledMembers hm ht]

end MessageDispatch.Document
