import Mathlib.Algebra.Order.Ring.Nat
import Mathlib.Data.Int.Notation
import Mathlib.Data.Nat.Notation
import Mathlib.Tactic.Ring
import SysDeck.Library.Text

/-! Numbers in hexadecimal: the fixed width of `%08X`, and what `parseInt` of ECMAScript reads of a text
at radix 16. -/

namespace Hex

def digit (n : ℕ) : Char := if n < 10 then Char.ofNat (n + 48) else Char.ofNat (n + 55)

/-- The last digits of a number, zeros before it. -/
def printed : ℕ → ℕ → List Char
  | 0, _ => []
  | width + 1, n => printed width (n / 16) ++ [digit (n % 16)]

def value? (c : Char) : Option ℕ :=
  if '0' ≤ c ∧ c ≤ '9' then some (c.toNat - 48)
  else if 'A' ≤ c ∧ c ≤ 'F' then some (c.toNat - 55)
  else if 'a' ≤ c ∧ c ≤ 'f' then some (c.toNat - 87)
  else none

/-- The number that the digits at the start of a text go on with. -/
def readFrom (value : ℕ) : List Char → ℕ
  | [] => value
  | c :: rest =>
    match value? c with
    | some next => readFrom (16 * value + next) rest
    | none => value

/-- The digits at the start of a text; none is no number. -/
def read : List Char → Option ℕ
  | [] => none
  | c :: rest => (value? c).map fun first => readFrom first rest

def unmarked : List Char → List Char
  | '0' :: 'x' :: rest => rest
  | '0' :: 'X' :: rest => rest
  | text => text

/-- `parseInt(text, 16)`, exact; none is `NaN`. -/
def parseInt (text : List Char) : Option ℤ :=
  match Text.trimStart text with
  | '-' :: rest => (read (unmarked rest)).map fun value => -(value : ℤ)
  | '+' :: rest => (read (unmarked rest)).map fun value => (value : ℤ)
  | rest => (read (unmarked rest)).map fun value => (value : ℤ)

/-! ### What is printed is read -/

theorem value?_digit {n : ℕ} (small : n < 16) : value? (digit n) = some n := by
  have all : ∀ n < 16, value? (digit n) = some n := by decide
  exact all n small

@[simp] theorem length_printed (width n : ℕ) : (printed width n).length = width := by
  induction width generalizing n with
  | zero => rfl
  | succ width ih => rw [printed, List.length_append, ih, List.length_singleton]

/-- The higher digits are those of the quotient. -/
theorem printed_add (width low n : ℕ) :
    printed (width + low) n = printed width (n / 16 ^ low) ++ printed low n := by
  induction low generalizing n with
  | zero => simp [printed]
  | succ low ih =>
    have quotient : n / 16 / 16 ^ low = n / 16 ^ (low + 1) := by
      rw [Nat.div_div_eq_div_mul, pow_succ']
    rw [← Nat.add_assoc, printed, ih, quotient, List.append_assoc, printed]

theorem printed_mod (width n : ℕ) : printed width (n % 16 ^ width) = printed width n := by
  induction width generalizing n with
  | zero => rfl
  | succ width ih =>
    have quotient : n % 16 ^ (width + 1) / 16 = n / 16 % 16 ^ width := by
      rw [pow_succ', Nat.mod_mul_right_div_self]
    have last : n % 16 ^ (width + 1) % 16 = n % 16 :=
      Nat.mod_mod_of_dvd n (dvd_pow_self 16 (Nat.succ_ne_zero width))
    rw [printed, quotient, last, ih, printed]

theorem readFrom_append {width : ℕ} (value n : ℕ) (rest : List Char) :
    readFrom value (printed width n ++ rest) = readFrom (16 ^ width * value + n % 16 ^ width) rest := by
  induction width generalizing n rest with
  | zero => simp [printed, Nat.mod_one]
  | succ width ih =>
    have step : 16 * (16 ^ width * value + n / 16 % 16 ^ width) + n % 16 =
        16 ^ (width + 1) * value + n % 16 ^ (width + 1) := by
      rw [pow_succ', Nat.mod_mul]
      ring
    rw [printed, List.append_assoc, ih, List.singleton_append, readFrom,
      value?_digit (Nat.mod_lt n (by decide))]
    simp only [step]

theorem mem_printed {width n : ℕ} {c : Char} (member : c ∈ printed width n) : ∃ d < 16, c = digit d := by
  induction width generalizing n with
  | zero => cases member
  | succ width ih =>
    rcases List.mem_append.mp member with earlier | last
    · exact ih earlier
    · exact ⟨n % 16, Nat.mod_lt n (by decide), List.mem_singleton.mp last⟩

theorem printed_ne_nil (width n : ℕ) : printed (width + 1) n ≠ [] :=
  List.append_ne_nil_of_right_ne_nil _ (List.cons_ne_nil _ [])

/-- A number that fits its width is read back. -/
theorem read_printed {width n : ℕ} (small : n < 16 ^ (width + 1)) :
    read (printed (width + 1) n) = some n := by
  have begun : readFrom 0 (printed (width + 1) n) = n := by
    have whole := @readFrom_append (width + 1) 0 n []
    rwa [List.append_nil, Nat.mul_zero, Nat.zero_add, Nat.mod_eq_of_lt small] at whole
  obtain ⟨c, rest, split⟩ := List.exists_cons_of_ne_nil (printed_ne_nil width n)
  obtain ⟨d, low, rfl⟩ := mem_printed (split ▸ List.mem_cons_self : c ∈ printed (width + 1) n)
  rw [split, readFrom, value?_digit low] at begun
  rw [split, read, value?_digit low, Option.map_some]
  simpa using begun

/-- The digits are no blanks, no signs and no mark of the radix. -/
def isPlain (c : Char) : Bool := !Text.isBlank c && c != '-' && c != '+' && c != 'x' && c != 'X'

theorem isPlain_of_mem {width n : ℕ} {c : Char} (member : c ∈ printed width n) : isPlain c := by
  obtain ⟨d, low, rfl⟩ := mem_printed member
  have all : ∀ d < 16, isPlain (digit d) := by decide
  exact all d low

theorem unmarked_of_plain {text : List Char} (plain : ∀ c ∈ text, isPlain c) : unmarked text = text := by
  fun_cases unmarked text with
  | case1 rest => exact absurd (plain 'x' (by simp)) (by decide)
  | case2 rest => exact absurd (plain 'X' (by simp)) (by decide)
  | case3 => rfl

theorem parseInt_printed {width n : ℕ} (small : n < 16 ^ (width + 1)) :
    parseInt (printed (width + 1) n) = some (n : ℤ) := by
  have plain : ∀ c ∈ printed (width + 1) n, isPlain c := fun c => isPlain_of_mem
  have value := read_printed small
  rw [← unmarked_of_plain plain] at value
  obtain ⟨c, rest, split⟩ := List.exists_cons_of_ne_nil (printed_ne_nil width n)
  rw [split] at plain value ⊢
  have first := plain c List.mem_cons_self
  simp only [isPlain, Bool.and_eq_true, bne_iff_ne, Bool.not_eq_true'] at first
  have tight : Text.trimStart (c :: rest) = c :: rest :=
    Text.trimStart_of_head fun d head => by
      rw [List.head?_cons, Option.mem_some_iff] at head
      exact head ▸ first.1.1.1.1
  rw [parseInt, tight]
  split
  · next same => exact absurd (List.cons.inj same).1 first.1.1.1.2
  · next same => exact absurd (List.cons.inj same).1 first.1.1.2
  · rw [value]
    rfl

/-- Numbers that fit their width are told apart. -/
theorem printed_injective {width n m : ℕ} (small : n < 16 ^ (width + 1)) (small' : m < 16 ^ (width + 1))
    (same : printed (width + 1) n = printed (width + 1) m) : n = m := by
  rw [← Option.some.injEq, ← read_printed small, same, read_printed small']

end Hex
