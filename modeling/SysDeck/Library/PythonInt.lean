import Mathlib.Data.Int.Notation
import Mathlib.Data.Nat.Notation

/-! The decimal digits of Unicode, and what `int` of Python reads of a text. -/

namespace PythonInt

/-- The zeros of the decimal digits; each is followed by its nine. -/
def zeros : List ℕ :=
  [0x30, 0x660, 0x6F0, 0x7C0, 0x966, 0x9E6, 0xA66, 0xAE6, 0xB66, 0xBE6, 0xC66, 0xCE6, 0xD66, 0xDE6,
    0xE50, 0xED0, 0xF20, 0x1040, 0x1090, 0x17E0, 0x1810, 0x1946, 0x19D0, 0x1A80, 0x1A90, 0x1B50, 0x1BB0,
    0x1C40, 0x1C50, 0xA620, 0xA8D0, 0xA900, 0xA9D0, 0xA9F0, 0xAA50, 0xABF0, 0xFF10, 0x104A0, 0x10D30,
    0x11066, 0x110F0, 0x11136, 0x111D0, 0x112F0, 0x11450, 0x114D0, 0x11650, 0x116C0, 0x11730, 0x118E0,
    0x11950, 0x11C50, 0x11D50, 0x11DA0, 0x16A60, 0x16AC0, 0x16B50, 0x1D7CE, 0x1D7D8, 0x1D7E2, 0x1D7EC,
    0x1D7F6, 0x1E140, 0x1E2F0, 0x1E950, 0x1FBF0]

/-- The value of a decimal digit. -/
def digit? (c : Char) : Option ℕ :=
  (zeros.find? fun nought => nought ≤ c.toNat && c.toNat < nought + 10).map (c.toNat - ·)

/-- `\d` -/
def isDigit (c : Char) : Bool := (digit? c).isSome

/-- Digits, with single underscores between them; `value` is what was read before them. -/
def digitsFrom (value : ℕ) : List Char → Option ℕ
  | [] => some value
  | '_' :: c :: rest => (digit? c).bind fun digit => digitsFrom (10 * value + digit) rest
  | c :: rest => (digit? c).bind fun digit => digitsFrom (10 * value + digit) rest

def digits : List Char → Option ℕ
  | [] => none
  | c :: rest => (digit? c).bind fun digit => digitsFrom digit rest

/-- `int` of a text without blanks at its ends; none is a `ValueError`. -/
def read : List Char → Option ℤ
  | '-' :: rest => (digits rest).map fun value => -value
  | '+' :: rest => (digits rest).map fun value => value
  | text => (digits text).map fun value => value

/-! ### ASCII -/

theorem digit?_ascii {c : Char} (ascii : c.isDigit) : digit? c = some (c.toNat - 48) := by
  simp only [Char.isDigit, Bool.and_eq_true, decide_eq_true_eq, ge_iff_le] at ascii
  have low : 48 ≤ c.toNat := ascii.1
  have high : c.toNat ≤ 57 := ascii.2
  obtain ⟨later, split⟩ : ∃ later, zeros = 48 :: later := ⟨_, rfl⟩
  have inside : (decide (48 ≤ c.toNat) && decide (c.toNat < 48 + 10)) = true := by
    rw [Bool.and_eq_true, decide_eq_true_eq, decide_eq_true_eq]
    omega
  rw [digit?, split, List.find?_cons, inside]
  rfl

theorem isDigit_of_ascii {c : Char} (ascii : c.isDigit) : isDigit c := by
  rw [isDigit, digit?_ascii ascii]
  rfl

theorem digitsFrom_ascii {text : List Char} (ascii : ∀ c ∈ text, c.isDigit) (value : ℕ) :
    digitsFrom value text = some (Nat.ofDigitChars 10 text value) := by
  induction text generalizing value with
  | nil => rfl
  | cons c text ih =>
    obtain ⟨here, rest⟩ := List.forall_mem_cons.mp ascii
    have underscore : c ≠ '_' := by
      rintro rfl
      exact absurd here (by decide)
    have step : digitsFrom value (c :: text) =
        (digit? c).bind fun digit => digitsFrom (10 * value + digit) text := by
      cases text with
      | nil => simp [digitsFrom]
      | cons d text => simp [digitsFrom, underscore]
    rw [step, digit?_ascii here, Option.bind_some, ih rest, Nat.ofDigitChars_cons]
    rfl

theorem digits_ascii {text : List Char} (begun : text ≠ []) (ascii : ∀ c ∈ text, c.isDigit) :
    digits text = some (Nat.ofDigitChars 10 text 0) := by
  obtain ⟨c, text, rfl⟩ := List.exists_cons_of_ne_nil begun
  obtain ⟨here, rest⟩ := List.forall_mem_cons.mp ascii
  rw [digits, digit?_ascii here, Option.bind_some, digitsFrom_ascii rest, Nat.ofDigitChars_cons]
  simp

end PythonInt
