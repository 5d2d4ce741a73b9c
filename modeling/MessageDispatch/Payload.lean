import MessageDispatch.Decoded
import MessageDispatch.Headers
import MessageDispatch.Json.Printer

/-! Payloads: what a message carries besides its addressing, and what a handler replies with. -/
namespace MessageDispatch

structure Payload where
  body : ByteArray
  contentType : Option String
  headers : Headers
deriving Inhabited

namespace Payload

def bytes (body : ByteArray) : Payload := ⟨body, none, .empty⟩

def text (s : String) : Payload := ⟨s.toUTF8, some ContentType.text, .empty⟩

def json (v : Json) : Payload := ⟨v.render.toUTF8, some ContentType.json, .empty⟩

def withHeader (p : Payload) (name value : String) : Payload :=
  { p with headers := p.headers.insert name value }

def decode (p : Payload) : Except DecodeError Decoded :=
  Decoded.ofBody p.body p.contentType

/-- A body of the same sort as a decoded one; there is none for an empty body. -/
def ofDecoded : Decoded → Option Payload
  | .empty => none
  | .bytes b => some (bytes b)
  | .text s => some (text s)
  | .json v => some (json v)

end Payload

/-- The reply of a handler, if it has one. -/
abbrev Reply := Option Payload

end MessageDispatch
