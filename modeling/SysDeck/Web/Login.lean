import SysDeck.Web.Http
import SysDeck.Web.Users

/-! A sign-in request up to its credentials. -/

namespace SysDeck.Web

inductive AuthMode where
  | pam
  | localOnly
  | pamLocal
  deriving DecidableEq

def AuthMode.pamAllowed : AuthMode → Bool
  | localOnly => false
  | pam | pamLocal => true

def AuthMode.localAllowed : AuthMode → Bool
  | pam => false
  | localOnly | pamLocal => true

structure LoginRequest where
  forwardedFor : Option (List Char)
  contentLength : Option (List Char)
  /-- The text of the body; none when it cannot be read. -/
  raw : Option (List Char)

/-- Credentials that are worth asking an authenticator about. -/
structure Credentials where
  username : Username
  password : JsString
  nonempty : password ≠ []
  deriving DecidableEq

def usernameOf? (units : JsString) : Option Username :=
  match Utf16.decode? units with
  | none => none
  | some name => if valid : validUsername name then some ⟨name, valid⟩ else none

/-- A field that is a string; any other one is as good as an empty string. -/
def textField (field : Option Json) : JsString :=
  match field with
  | some (.string text) => text
  | _ => []

def maxLoginBytes : ℕ := 4096

def incorrect : HttpReply := denied 401 (js "incorrect username or password")

def credentialsOf (username password : JsString) : Except HttpReply Credentials :=
  match usernameOf? (Utf16.trim username) with
  | none => .error incorrect
  | some username => if nonempty : password ≠ [] then .ok { username, password, nonempty }
    else .error incorrect

def readCredentials (request : LoginRequest) : Except HttpReply Credentials :=
  if exceeds (Number.ofText (request.contentLength.getD ['0'])) maxLoginBytes then
    .error (denied 413 (js "request body too large"))
  else if maxLoginBytes < Text.utf16Length (request.raw.getD []) then
    .error (denied 413 (js "request body too large"))
  else
    match readBody request.raw with
    | none => .error (denied 400 (js "invalid JSON body"))
    | some .null => .error .crashed
    | some body =>
      credentialsOf (textField (body.get? (js "username"))) (textField (body.get? (js "password")))

end SysDeck.Web
