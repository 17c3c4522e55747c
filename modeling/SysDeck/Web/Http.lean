import SysDeck.Library.Json
import SysDeck.Library.Text

/-! What the routes share: the reading of a request and the answers to it. -/

namespace SysDeck.Web

abbrev JsString := List CodeUnit

def js (text : String) : JsString := Utf16.encode text.toList

/-- The throw of a property read or a call on a value that has none. -/
inductive TypeError where
  | typeError
  deriving DecidableEq

inductive HttpReply where
  | answered (status : ℕ) (body : Json)
  /-- The error leaves the route. -/
  | crashed

/-- The status of an answer; an error that leaves the route is an internal one. -/
def HttpReply.status : HttpReply → ℕ
  | answered status _ => status
  | crashed => 500

def denied (status : ℕ) (error : JsString) : HttpReply :=
  .answered status (.object [(js "ok", .bool false), (js "error", .string error)])

/-- The address a request is counted under; a proxy's header says it only when trusted. -/
def clientIp (trustProxy : Bool) (forwardedFor : Option (List Char)) : List Char :=
  match if trustProxy then forwardedFor else none with
  | none | some [] => "local".toList
  | some forwarded => Text.trim (forwarded.takeWhile (· ≠ ','))

/-- `size > bound`. -/
def exceeds (size : Number) (bound : ℕ) : Bool :=
  match size with
  | .nan => false
  | .infinity negative => !negative
  | .finite value => (bound : ℚ) < value.value

/-- The value of a body; an empty one is an empty object. -/
def readBody : Option (List Char) → Option Json
  | none => none
  | some [] => some (.object [])
  | some raw => Json.parse raw

/-- `body.name`. -/
def readField (body : Json) (name : String) : Except TypeError (Option Json) :=
  match body with
  | .null => .error .typeError
  | body => .ok (body.get? (js name))

end SysDeck.Web
