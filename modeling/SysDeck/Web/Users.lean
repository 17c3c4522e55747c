import SysDeck.Library.Text

namespace SysDeck.Web

def isNameStart (c : Char) : Bool :=
  ('a' ≤ c && c ≤ 'z') || ('A' ≤ c && c ≤ 'Z') || c = '_'

def isNameChar (c : Char) : Bool := isNameStart c || ('0' ≤ c && c ≤ '9') || c = '.' || c = '-'

/-- A login-safe username: a name of at most 64 characters, with an optional last '$'. -/
def validUsername (name : List Char) : Bool :=
  0 < Text.utf16Length name && Text.utf16Length name ≤ 64 &&
    match name with
    | [] => false
    | head :: tail =>
      isNameStart head &&
        (if tail.getLast? = some '$' then tail.dropLast else tail).all isNameChar

/-- A name that the login accepts. -/
structure Username where
  name : List Char
  valid : validUsername name
  deriving DecidableEq

theorem Username.length_le (user : Username) : Text.utf16Length user.name ≤ 64 := by
  have valid := user.valid
  simp only [validUsername, Bool.and_eq_true, decide_eq_true_eq] at valid
  exact valid.1.2

theorem Username.ne_nil (user : Username) : user.name ≠ [] := by
  have valid := user.valid
  intro empty
  simp [validUsername, empty] at valid

end SysDeck.Web
