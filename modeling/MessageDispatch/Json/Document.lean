import MessageDispatch.Json.Token

/-! JSON text as a tree. A `Document` is any text with the form of JSON, members as they were
written: in order, with repetitions, at any depth, and with the strings and numbers that have
no value. `value?` is the step to a `Json`, which has limits: nothing without a value, and no
more than `maxDepth` levels. -/
namespace MessageDispatch

inductive Document where
  | null
  | bool (b : Bool)
  | number (n : Option Number)
  | string (s : Option String)
  | array (items : List Document)
  | object (members : List (Option String × Document))
deriving Inhabited

namespace Document
open Json (Token)

/-- The containers around the place being read, innermost first, each with what it already
holds in reverse. -/
inductive Frame where
  | array (done : List Document)
  | object (done : List (Option String × Document)) (name : Option String)

/-- What may come next. -/
inductive Expect where
  | value
  | valueOrEnd
  | name (done : List (Option String × Document))
  | nameOrEnd
  | colon (done : List (Option String × Document)) (name : Option String)
  | after (d : Document)

/-- A token that is a value by itself. -/
def scalar? : Token → Option Document
  | .null => some .null
  | .bool b => some (.bool b)
  | .number n => some (.number n)
  | .string s => some (.string s)
  | _ => none

/-- One document from the front of the tokens, and the tokens after it. -/
def read : List Frame → Expect → List Token → Option (Document × List Token)
  | [], .after d, rest => some (d, rest)
  | _, _, [] => none
  | frames, .value, token :: rest =>
    match token with
    | .openArray => read frames .valueOrEnd rest
    | .openObject => read frames .nameOrEnd rest
    | token =>
      match scalar? token with
      | some d => read frames (.after d) rest
      | none => none
  | frames, .valueOrEnd, token :: rest =>
    match token with
    | .closeArray => read frames (.after (.array [])) rest
    | .openArray => read (.array [] :: frames) .valueOrEnd rest
    | .openObject => read (.array [] :: frames) .nameOrEnd rest
    | token =>
      match scalar? token with
      | some d => read (.array [] :: frames) (.after d) rest
      | none => none
  | frames, .name done, token :: rest =>
    match token with
    | .string name => read frames (.colon done name) rest
    | _ => none
  | frames, .nameOrEnd, token :: rest =>
    match token with
    | .closeObject => read frames (.after (.object [])) rest
    | .string name => read frames (.colon [] name) rest
    | _ => none
  | frames, .colon done name, token :: rest =>
    match token with
    | .colon => read (.object done name :: frames) .value rest
    | _ => none
  | .array done :: frames, .after d, token :: rest =>
    match token with
    | .comma => read (.array (d :: done) :: frames) .value rest
    | .closeArray => read frames (.after (.array (d :: done).reverse)) rest
    | _ => none
  | .object done name :: frames, .after d, token :: rest =>
    match token with
    | .comma => read frames (.name ((name, d) :: done)) rest
    | .closeObject => read frames (.after (.object ((name, d) :: done).reverse)) rest
    | _ => none

/-- The first document of a token list. -/
def take? (tokens : List Token) : Option (Document × List Token) :=
  read [] .value tokens

/-- The document that all of the tokens make up. -/
def whole? (tokens : List Token) : Option Document :=
  match take? tokens with
  | some (d, []) => some d
  | _ => none

/-- The document that a whole text is. -/
def parse? (text : String) : Option Document :=
  whole? (Json.tokens text)

/-- The document that bytes are. What is not UTF-8 spoils the strings that it stands in. -/
def parseBytes? (bytes : ByteArray) : Option Document :=
  whole? (Json.tokensOfBytes bytes)

theorem parseBytes?_of_decode? {bytes : ByteArray} {text : String}
    (h : Text.decode? bytes = some text) : parseBytes? bytes = parse? text := by
  rw [parseBytes?, Json.tokensOfBytes_of_decode? h, parse?]

/-- How deep arrays and objects may nest. -/
def maxDepth : Nat := 127

mutual

/-- The value of a document that nests at most `room` levels. -/
def value? (room : Nat) : Document → Option Json
  | .null => some .null
  | .bool b => some (.bool b)
  | .number n => n.map .number
  | .string s => s.map .string
  | .array items =>
    match room with
    | 0 => none
    | room + 1 => (items? room items).map .array
  | .object members =>
    match room with
    | 0 => none
    | room + 1 => (members? room members).map .ofMembers

def items? (room : Nat) : List Document → Option (List Json)
  | [] => some []
  | d :: rest =>
    match value? room d, items? room rest with
    | some v, some vs => some (v :: vs)
    | _, _ => none

def members? (room : Nat) : List (Option String × Document) → Option (List (String × Json))
  | [] => some []
  | (name, d) :: rest =>
    match name, value? room d, members? room rest with
    | some n, some v, some vs => some ((n, v) :: vs)
    | _, _, _ => none

end

end Document

/-- The value of a JSON text. -/
def Json.parse? (text : String) : Option Json :=
  (Document.parse? text).bind (Document.value? Document.maxDepth)

/-- The value of JSON bytes, which have to be UTF-8. -/
def Json.parseBytes? (bytes : ByteArray) : Option Json :=
  (String.fromUTF8? bytes).bind Json.parse?

end MessageDispatch
