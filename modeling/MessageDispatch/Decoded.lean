import MessageDispatch.Json.Shape
import MessageDispatch.Text.Utf8

/-! Decoded bodies. The content type decides how bytes are read: JSON if it mentions `json`,
text if it starts with `text/`, and otherwise they are left as they are. A body without bytes is
empty whatever its content type. -/
namespace MessageDispatch

/-- What lies behind an error: a complaint of the JSON or of the UTF-8 reader, or a text. -/
inductive Cause where
  | json
  | utf8
  | text (s : String)
deriving DecidableEq, Inhabited

inductive DecodeError where
  | invalidText
  | invalidJson
  | schema
  | custom (reason : String)
deriving DecidableEq, Inhabited

namespace DecodeError

def message : DecodeError → String
  | .invalidText => "The message body is not valid UTF-8 text"
  | .invalidJson => "The message body is not a valid JSON document"
  | .schema => "The message body does not match the expected shape"
  | .custom _ => "Failed to decode the message body"

def cause : DecodeError → Cause
  | .invalidText => .utf8
  | .invalidJson | .schema => .json
  | .custom reason => .text reason

end DecodeError

inductive Decoded where
  | empty
  | bytes (b : ByteArray)
  | text (s : String)
  | json (v : Json)
deriving Inhabited

namespace ContentType

def text : String := "text/plain"
def json : String := "application/json"

/-- Does `needle` occur in `text`? -/
def mentions (needle : List Char) : List Char → Bool
  | [] => needle.isEmpty
  | c :: rest => needle.isPrefixOf (c :: rest) || mentions needle rest

def isJson (contentType : String) : Bool :=
  mentions "json".toList contentType.toList

def isText (contentType : String) : Bool :=
  "text/".toList.isPrefixOf contentType.toList

end ContentType

namespace Decoded

def readJson (body : ByteArray) : Except DecodeError Decoded :=
  match Json.parseBytes? body with
  | some v => .ok (.json v)
  | none => .error .invalidJson

def readText (body : ByteArray) : Except DecodeError Decoded :=
  match Text.decode? body with
  | some s => .ok (.text s)
  | none => .error .invalidText

/-- Read a body by its content type. -/
def ofBody (body : ByteArray) (contentType : Option String) : Except DecodeError Decoded :=
  if body.size = 0 then .ok .empty
  else
    match contentType with
    | none => .ok (.bytes body)
    | some type =>
      if ContentType.isJson type then readJson body
      else if ContentType.isText type then readText body
      else .ok (.bytes body)

/-- The body as text: a text, or a JSON string. -/
def text? : Decoded → Option String
  | .text s => some s
  | .json (.string s) => some s
  | _ => none

def json? : Decoded → Option Json
  | .json v => some v
  | _ => none

/-- What a shape asks for in a body. An empty body counts as null, a text as a JSON string, and
bytes are read as JSON text. -/
def extract (s : Shape) (d : Decoded) : Except DecodeError Json :=
  let found :=
    match d with
    | .empty => s.ofValue .null
    | .bytes b => s.ofBytes b
    | .text t => s.ofValue (.string t)
    | .json v => s.ofValue v
  match found with
  | some v => .ok v
  | none => .error .schema

end Decoded
end MessageDispatch
