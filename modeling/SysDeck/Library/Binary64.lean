import Mathlib.Algebra.Order.Field.Power
import Mathlib.Algebra.Order.Ring.Rat
import Mathlib.Data.Int.Log
import Mathlib.Data.Rat.Floor
import Mathlib.Tactic.Ring
import Mathlib.Tactic.FieldSimp
import Mathlib.Tactic.Positivity

/-! The finite binary64 numbers as the rationals that rounding leaves alone. A
rational is rounded to the nearest multiple of the unit of its binade, ties to
even; beyond the largest finite number there is none. -/

namespace Binary64

/-- The nearest integer, ties to even. -/
def roundEven (q : ℚ) : ℤ :=
  let low := ⌊q⌋
  let rest := q - low
  if rest < 1 / 2 then low else if 1 / 2 < rest then low + 1 else if low % 2 = 0 then low else low + 1

/-- The exponent of the unit in the last place at a rational. -/
def unitExponent (q : ℚ) : ℤ := max (-1074) (Int.log 2 |q| - 52)

def round? (q : ℚ) : Option ℚ :=
  let unit : ℚ := 2 ^ unitExponent q
  let nearest := roundEven (q / unit) * unit
  if |nearest| < 2 ^ 1024 then some nearest else none

theorem roundEven_intCast (n : ℤ) : roundEven n = n := by
  simp [roundEven]

/-- Rounding moves by half a unit at most. -/
theorem roundEven_near (q : ℚ) : |(roundEven q : ℚ) - q| ≤ 1 / 2 := by
  have below := Int.floor_le q
  have above := Int.lt_floor_add_one q
  unfold roundEven
  dsimp only
  split
  · rename_i small
    rw [abs_sub_comm, abs_of_nonneg (by linarith)]
    exact le_of_lt small
  · rename_i large
    rw [not_lt] at large
    split
    · push_cast
      rw [abs_of_nonneg (by linarith)]
      linarith
    · rename_i tie
      rw [not_lt] at tie
      split
      · rw [abs_sub_comm, abs_of_nonneg (by linarith)]
        exact tie
      · push_cast
        rw [abs_of_nonneg (by linarith)]
        linarith

theorem roundEven_neg (q : ℚ) : roundEven (-q) = -roundEven q := by
  by_cases whole : q = (⌊q⌋ : ℚ)
  · rw [whole, ← Int.cast_neg, roundEven_intCast, roundEven_intCast]
  have below := lt_of_le_of_ne (Int.floor_le q) (Ne.symm whole)
  have above := Int.lt_floor_add_one q
  have floor : ⌊-q⌋ = -⌊q⌋ - 1 := by
    rw [Int.floor_eq_iff]
    push_cast
    exact ⟨by linarith, by linarith⟩
  have rest : -q - ((-⌊q⌋ - 1 : ℤ) : ℚ) = 1 - (q - ⌊q⌋) := by
    push_cast
    ring
  unfold roundEven
  dsimp only
  rw [floor, rest]
  generalize q - ⌊q⌋ = r
  rcases lt_trichotomy r (1 / 2) with small | half | large
  · rw [if_neg (by linarith), if_pos (by linarith), if_pos small]
    omega
  · have same : 1 - r = 1 / 2 := by linarith
    rw [same, half]
    simp only [lt_irrefl, if_false]
    split <;> split <;> omega
  · rw [if_pos (by linarith), if_neg (by linarith), if_pos large]
    omega

theorem round?_neg (q : ℚ) : round? (-q) = (round? q).map (-·) := by
  unfold round? unitExponent
  dsimp only
  rw [abs_neg, neg_div, roundEven_neg, Int.cast_neg, neg_mul, abs_neg]
  split <;> rfl

/-- A multiple of the unit of its binade is left alone. -/
theorem round?_of_multiple {q : ℚ} {n : ℤ} (multiple : q = n * 2 ^ unitExponent q)
    (small : |q| < 2 ^ 1024) : round? q = some q := by
  have nonzero : (2 : ℚ) ^ unitExponent q ≠ 0 := by positivity
  have whole : q / 2 ^ unitExponent q = n := by
    rw [div_eq_iff nonzero]
    exact multiple
  unfold round?
  dsimp only
  rw [whole, roundEven_intCast, ← multiple, if_pos small]

/-- A short significand at an allowed exponent is a multiple of the unit. -/
theorem round?_scaled {m e : ℤ} (short : |m| ≤ 2 ^ 53) (allowed : -1074 ≤ e)
    (small : |(m : ℚ) * 2 ^ e| < 2 ^ 1024) : round? ((m : ℚ) * 2 ^ e) = some ((m : ℚ) * 2 ^ e) := by
  by_cases zero : m = 0
  · subst zero
    exact round?_of_multiple (n := 0) (by simp) small
  generalize value : (m : ℚ) * 2 ^ e = q at small ⊢
  have size : |q| = |(m : ℚ)| * 2 ^ e := by
    rw [← value, abs_mul, abs_of_pos (by positivity : (0 : ℚ) < 2 ^ e)]
  have short' : |(m : ℚ)| ≤ 2 ^ (53 : ℤ) := by exact_mod_cast short
  have positive : 0 < |q| := by
    rw [size]
    have : (0 : ℚ) < |(m : ℚ)| := by positivity
    positivity
  by_cases fits : unitExponent q ≤ e
  · refine round?_of_multiple (n := m * 2 ^ (e - unitExponent q).toNat) ?_ small
    have split : e = ((e - unitExponent q).toNat : ℤ) + unitExponent q := by omega
    have power : (2 : ℚ) ^ e = 2 ^ (e - unitExponent q).toNat * 2 ^ unitExponent q := by
      conv_lhs => rw [split, zpow_add₀ two_ne_zero, zpow_natCast]
    calc q = m * 2 ^ e := value.symm
      _ = m * (2 ^ (e - unitExponent q).toNat * 2 ^ unitExponent q) := by rw [power]
      _ = (m * 2 ^ (e - unitExponent q).toNat : ℤ) * 2 ^ unitExponent q := by
        push_cast
        ring
  · -- only a significand of 2 ^ 53 reaches the next binade
    have unit : unitExponent q = Int.log 2 |q| - 52 := by
      unfold unitExponent at fits ⊢
      omega
    have low : e + 53 ≤ Int.log 2 |q| := by omega
    have bound : (2 : ℚ) ^ (e + 53) ≤ |q| :=
      (Int.zpow_le_iff_le_log (b := 2) one_lt_two positive).mpr low
    have limit : |q| ≤ (2 : ℚ) ^ (e + 53) := by
      rw [size, zpow_add₀ two_ne_zero, mul_comm]
      exact mul_le_mul_of_nonneg_left short' (by positivity)
    have exactly : |q| = (2 : ℚ) ^ (e + 53) := le_antisymm limit bound
    have log : Int.log 2 |q| = e + 53 := by
      rw [exactly]
      exact Int.log_zpow (b := 2) one_lt_two (e + 53)
    have power : (2 : ℚ) ^ (e + 53) = 2 ^ 52 * 2 ^ unitExponent q := by
      have : e + 53 = ((52 : ℕ) : ℤ) + unitExponent q := by
        rw [unit, log]
        push_cast
        ring
      rw [this, zpow_add₀ two_ne_zero, zpow_natCast]
    have magnitude : |q| = ((2 ^ 52 : ℤ) : ℚ) * 2 ^ unitExponent q := by
      rw [exactly, power]
      norm_num
    rcases abs_choice q with same | same
    · exact round?_of_multiple (n := 2 ^ 52) (same.symm.trans magnitude) small
    · refine round?_of_multiple (n := -2 ^ 52) ?_ small
      rw [Int.cast_neg, neg_mul, ← magnitude, same, neg_neg]

/-- Rounding gives a short significand. -/
theorem roundEven_short (q : ℚ) : |roundEven (q / 2 ^ unitExponent q)| ≤ 2 ^ 53 := by
  have positive : (0 : ℚ) < 2 ^ unitExponent q := by positivity
  have bound : |q| < 2 ^ (unitExponent q + 53) := by
    have above := Int.lt_zpow_succ_log_self (b := 2) one_lt_two |q|
    refine lt_of_lt_of_le above (zpow_le_zpow_right₀ one_le_two ?_)
    unfold unitExponent
    omega
  have scaled : |q / 2 ^ unitExponent q| < 2 ^ 53 := by
    rw [abs_div, abs_of_pos positive, div_lt_iff₀ positive]
    rw [zpow_add₀ two_ne_zero, mul_comm] at bound
    exact_mod_cast bound
  have near := roundEven_near (q / 2 ^ unitExponent q)
  have total : |(roundEven (q / 2 ^ unitExponent q) : ℚ)| < 2 ^ 53 + 1 := by
    have := abs_sub_abs_le_abs_sub (roundEven (q / 2 ^ unitExponent q) : ℚ) (q / 2 ^ unitExponent q)
    linarith
  have whole : |roundEven (q / 2 ^ unitExponent q)| < 2 ^ 53 + 1 := by exact_mod_cast total
  omega

/-- A rounded number is left alone. -/
theorem round?_idem {q v : ℚ} (rounded : round? q = some v) : round? v = some v := by
  unfold round? at rounded
  dsimp only at rounded
  split at rounded
  · rename_i small
    obtain rfl := Option.some.inj rounded
    exact round?_scaled (roundEven_short q) (le_max_left _ _) small
  · cases rounded

end Binary64

/-- A finite binary64 number. -/
structure Binary64 where
  value : ℚ
  rounded : Binary64.round? value = some value

namespace Binary64

theorem ext_value {first second : Binary64} (same : first.value = second.value) : first = second := by
  cases first
  cases second
  congr

instance : DecidableEq Binary64 := fun first second =>
  decidable_of_iff (first.value = second.value) ⟨ext_value, congrArg value⟩

def ofRat? (q : ℚ) : Option Binary64 :=
  match rounded : round? q with
  | some value => some ⟨value, round?_idem rounded⟩
  | none => none

theorem ofRat?_value (x : Binary64) : ofRat? x.value = some x := by
  unfold ofRat?
  split
  · rename_i value rounded
    exact congrArg some (ext_value (Option.some.inj (rounded.symm.trans x.rounded)))
  · rename_i missing
    rw [x.rounded] at missing
    cases missing

theorem ofRat?_eq_some {q : ℚ} {x : Binary64} : ofRat? q = some x ↔ round? q = some x.value := by
  unfold ofRat?
  constructor
  · intro found
    split at found
    · rename_i value rounded
      obtain rfl := Option.some.inj found
      exact rounded
    · cases found
  · intro rounded
    split
    · rename_i value found
      exact congrArg some (ext_value (Option.some.inj (found.symm.trans rounded)))
    · rename_i missing
      rw [rounded] at missing
      cases missing

/-- Integers up to 2 ^ 53 are binary64 numbers. -/
theorem round?_intCast {n : ℤ} (short : |n| ≤ 2 ^ 53) : round? (n : ℚ) = some (n : ℚ) := by
  have bound : |(n : ℚ)| ≤ 2 ^ 53 := by exact_mod_cast short
  have limit : (2 : ℚ) ^ 53 < 2 ^ 1024 := pow_lt_pow_right₀ one_lt_two (by decide)
  have small : |(n : ℚ) * 2 ^ (0 : ℤ)| < 2 ^ 1024 := by
    rw [zpow_zero, mul_one]
    exact lt_of_le_of_lt bound limit
  simpa using round?_scaled short (by decide) small

end Binary64
