import MessageDispatch.Json.Printer
import MessageDispatch.Proofs.Grammar

/-! The text of a JSON value reads back as the document of that value. The scanner finds the tokens
that the printer wrote, whatever text comes after them, and they are the tokens that the document is
spelled with. Of numbers this is a condition on how each is written. -/
namespace MessageDispatch

/-! ## The document of a value -/

namespace Document

mutual

/-- The document that the text of a value is. -/
def ofJson : Json → Document
  | .null => .null
  | .bool b => .bool b
  | .number n => .number (some n)
  | .string s => .string (some s)
  | .array items => .array (ofItems items)
  | .object members => .object (ofMembers members)

def ofItems : List Json → List Document
  | [] => []
  | item :: items => ofJson item :: ofItems items

def ofMembers : List (String × Json) → List (Option String × Document)
  | [] => []
  | (name, value) :: members => (some name, ofJson value) :: ofMembers members

end

end Document

namespace Json

/-! ## The tokens of a value -/

mutual

/-- The tokens that a value is written with. -/
def spelled : Json → List Token
  | .null => [.null]
  | .bool b => [.bool b]
  | .number n => [.number (some n)]
  | .string s => [.string (some s)]
  | .array [] => [.openArray, .closeArray]
  | .array (item :: items) => .openArray :: (item.spelled ++ spelledItems items)
  | .object [] => [.openObject, .closeObject]
  | .object ((name, value) :: members) =>
    .openObject :: .string (some name) :: .colon :: (value.spelled ++ spelledMembers members)

/-- The items after the first, and the end of the array. -/
def spelledItems : List Json → List Token
  | [] => [.closeArray]
  | item :: items => .comma :: (item.spelled ++ spelledItems items)

def spelledMembers : List (String × Json) → List Token
  | [] => [.closeObject]
  | (name, value) :: members =>
    .comma :: .string (some name) :: .colon :: (value.spelled ++ spelledMembers members)

end

/-- A text that what was written before it ends with. -/
def Ends (rest : List Char) : Prop := ∀ c ∈ rest.head?, c = ',' ∨ c = ']' ∨ c = '\x7d'

/-- Does the text of a number read back as that number, wherever it ends? -/
def ReadsBack (n : Number) : Prop :=
  ∀ rest, Ends rest →
    scan .between (numberChars n ++ rest) = .number (some n) :: scan .between rest

mutual

/-- Do the numbers of a value read back? -/
def Readable : Json → Prop
  | .number n => ReadsBack n
  | .array items => ReadableItems items
  | .object members => ReadableMembers members
  | _ => True

def ReadableItems : List Json → Prop
  | [] => True
  | item :: items => item.Readable ∧ ReadableItems items

def ReadableMembers : List (String × Json) → Prop
  | [] => True
  | (_, value) :: members => value.Readable ∧ ReadableMembers members

end

/-! ## Strings -/

theorem hexDigit?_hexDigit : ∀ n < 16, hexDigit? (hexDigit n) = some n := by decide

/-- A character of a string is read as it was written, escaped or not. -/
theorem scan_quoteChar (q : Quoted) (c : Char) (rest : List Char) :
    scan (.quoted q) (quoteChar c ++ rest) = scan (.quoted (q.push c)) rest := by
  unfold quoteChar
  -- the characters with an escape of one letter
  iterate 7
    split
    · rename_i hc
      subst hc
      rfl
  split
  · rename_i hcontrol
    have hhigh := hexDigit?_hexDigit (c.toNat / 16) (by omega)
    have hlow := hexDigit?_hexDigit (c.toNat % 16) (by omega)
    have hzero : hexDigit? '0' = some 0 := rfl
    have hunit : q.pushUnit c.toNat = q.push c := by
      have hbelow : ¬ 0xD800 ≤ c.toNat := by omega
      have hbelow' : ¬ 0xDC00 ≤ c.toNat := by omega
      simp [Quoted.pushUnit, hbelow, hbelow', Char.ofNat_toNat]
    have hdigits : c.toNat / 16 * 16 + c.toNat % 16 = c.toNat := Nat.div_add_mod' c.toNat 16
    simp [scan_cons, advance, hzero, hhigh, hlow, hdigits, hunit]
  · rename_i hquote hslash _ _ _ _ _ hcontrol
    simp [scan_cons, advance, hquote, hslash, hcontrol]

theorem scan_quoted (q : Quoted) (s rest : List Char) (hhalf : q.half = none)
    (hbroken : q.broken = false) :
    scan (.quoted q) (s.flatMap quoteChar ++ '"' :: rest) =
      .string (some (String.ofList (q.reversed.reverse ++ s))) :: scan .between rest := by
  induction s generalizing q with
  | nil => simp [scan_cons, advance, Quoted.text?, hhalf, hbroken]
  | cons c s ih =>
    rw [List.flatMap_cons, List.append_assoc, scan_quoteChar, ih (q.push c) rfl]
    · simp [Quoted.push]
    · simp [Quoted.push, hhalf, hbroken]

/-- A string is read as it was written. -/
theorem scan_quote (s : String) (rest : List Char) :
    scan .between (quote s ++ rest) = .string (some s) :: scan .between rest := by
  have hquoted := scan_quoted .empty s.toList rest rfl rfl
  have hempty : Quoted.empty.reversed.reverse ++ s.toList = s.toList := rfl
  rw [hempty, String.ofList_toList] at hquoted
  show scan (.quoted .empty) ((s.toList.flatMap quoteChar ++ ['"']) ++ rest) = _
  rw [List.append_assoc]
  exact hquoted

/-! ## Values -/

theorem ends_itemChars (items : List Json) (rest : List Char) : Ends (itemChars items ++ rest) := by
  intro c hc
  cases items with
  | nil => exact .inr (.inl (Option.some.inj hc).symm)
  | cons item items => exact .inl (Option.some.inj hc).symm

theorem ends_memberChars (members : List (String × Json)) (rest : List Char) :
    Ends (memberChars members ++ rest) := by
  intro c hc
  cases members with
  | nil => exact .inr (.inr (Option.some.inj hc).symm)
  | cons m members =>
    simp only [memberChars, List.cons_append] at hc
    exact .inl (Option.some.inj hc).symm

mutual

/-- The scanner finds the tokens that a value was written with. -/
theorem scan_chars (v : Json) (hv : v.Readable) (rest : List Char) (hrest : Ends rest) :
    scan .between (v.chars ++ rest) = v.spelled ++ scan .between rest := by
  match v with
  | .null => rfl
  | .bool true => rfl
  | .bool false => rfl
  | .number n =>
    simp only [Readable] at hv
    simp only [chars, spelled]
    exact hv rest hrest
  | .string s =>
    simp only [chars, spelled]
    exact scan_quote s rest
  | .array [] => rfl
  | .array (item :: items) =>
    simp only [Readable, ReadableItems] at hv
    -- what follows the first item ends it, should it be a number
    have hitem := scan_chars item hv.1 (itemChars items ++ rest) (ends_itemChars items rest)
    rw [scan_itemChars items hv.2 rest] at hitem
    simp only [chars, spelled, List.cons_append, List.append_assoc]
    exact congrArg (Token.openArray :: ·) hitem
  | .object [] => rfl
  | .object ((name, value) :: members) =>
    simp only [Readable, ReadableMembers] at hv
    have hvalue := scan_chars value hv.1 (memberChars members ++ rest)
      (ends_memberChars members rest)
    rw [scan_memberChars members hv.2 rest] at hvalue
    have hname := scan_quote name (':' :: (value.chars ++ (memberChars members ++ rest)))
    simp only [chars, spelled, List.cons_append, List.append_assoc]
    refine congrArg (Token.openObject :: ·) (hname.trans ?_)
    exact congrArg (Token.string (some name) :: Token.colon :: ·) hvalue

theorem scan_itemChars (items : List Json) (hitems : ReadableItems items) (rest : List Char) :
    scan .between (itemChars items ++ rest) = spelledItems items ++ scan .between rest := by
  match items with
  | [] => rfl
  | item :: items =>
    simp only [ReadableItems] at hitems
    have hitem := scan_chars item hitems.1 (itemChars items ++ rest) (ends_itemChars items rest)
    rw [scan_itemChars items hitems.2 rest] at hitem
    simp only [itemChars, spelledItems, List.cons_append, List.append_assoc]
    exact congrArg (Token.comma :: ·) hitem

theorem scan_memberChars (members : List (String × Json)) (hmembers : ReadableMembers members)
    (rest : List Char) :
    scan .between (memberChars members ++ rest) = spelledMembers members ++ scan .between rest := by
  match members with
  | [] => rfl
  | (name, value) :: members =>
    simp only [ReadableMembers] at hmembers
    have hvalue := scan_chars value hmembers.1 (memberChars members ++ rest)
      (ends_memberChars members rest)
    rw [scan_memberChars members hmembers.2 rest] at hvalue
    have hname := scan_quote name (':' :: (value.chars ++ (memberChars members ++ rest)))
    simp only [memberChars, spelledMembers, List.cons_append, List.append_assoc]
    refine congrArg (Token.comma :: ·) (hname.trans ?_)
    exact congrArg (Token.string (some name) :: Token.colon :: ·) hvalue

end

end Json

/-! ## Reading the tokens -/

namespace Document

open Json

mutual

/-- A value and its document have the same tokens. -/
theorem spelled_ofJson (v : Json) : (ofJson v).spelled = v.spelled := by
  match v with
  | .null | .bool _ | .number _ | .string _ | .array [] | .object [] =>
    simp [ofJson, ofItems, ofMembers, spelled, Json.spelled]
  | .array (item :: items) =>
    simp only [ofJson, ofItems, spelled, Json.spelled, spelled_ofJson item,
      spelledItems_ofItems items]
  | .object ((name, value) :: members) =>
    simp only [ofJson, ofMembers, spelled, Json.spelled, spelled_ofJson value,
      spelledMembers_ofMembers members]

theorem spelledItems_ofItems (items : List Json) :
    spelledItems (ofItems items) = Json.spelledItems items := by
  match items with
  | [] => simp [ofItems, spelledItems, Json.spelledItems]
  | item :: items =>
    simp only [ofItems, spelledItems, Json.spelledItems, spelled_ofJson item,
      spelledItems_ofItems items]

theorem spelledMembers_ofMembers (members : List (String × Json)) :
    spelledMembers (ofMembers members) = Json.spelledMembers members := by
  match members with
  | [] => simp [ofMembers, spelledMembers, Json.spelledMembers]
  | (name, value) :: members =>
    simp only [ofMembers, spelledMembers, Json.spelledMembers, spelled_ofJson value,
      spelledMembers_ofMembers members]

end

/-- The text of a value is its document. -/
theorem parse?_render (v : Json) (hv : v.Readable) : parse? v.render = some (ofJson v) := by
  have hend : Ends [] := by
    intro c hc
    cases hc
  have htokens : Json.tokens v.render = v.spelled := by
    have hscan := scan_chars v hv [] hend
    rw [List.append_nil] at hscan
    rw [Json.tokens, render, String.toList_ofList, hscan]
    exact List.append_nil _
  rw [parse?, htokens, whole?_eq_some, spelled_ofJson]

end Document

end MessageDispatch
