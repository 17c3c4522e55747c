import SysDeck.Library.Numeral

/-! Products, quotients and Math.round of the numbers of ECMAScript: how far rounding goes, and where it
changes nothing. -/

namespace Binary64

/-- Rounding moves by half a unit of the binade at most. -/
theorem round?_near {q n : ℚ} (rounded : round? q = some n) : |n - q| ≤ 2 ^ unitExponent q / 2 := by
  unfold round? at rounded
  dsimp only at rounded
  split at rounded
  next =>
    obtain rfl := Option.some.inj rounded
    have unit : (0 : ℚ) < 2 ^ unitExponent q := by positivity
    have near := roundEven_near (q / 2 ^ unitExponent q)
    calc |(roundEven (q / 2 ^ unitExponent q) : ℚ) * 2 ^ unitExponent q - q|
        = |((roundEven (q / 2 ^ unitExponent q) : ℚ) - q / 2 ^ unitExponent q) * 2 ^ unitExponent q| := by
          rw [sub_mul, div_mul_cancel₀ q (ne_of_gt unit)]
      _ = |(roundEven (q / 2 ^ unitExponent q) : ℚ) - q / 2 ^ unitExponent q| * 2 ^ unitExponent q := by
          rw [abs_mul, abs_of_pos unit]
      _ ≤ 1 / 2 * 2 ^ unitExponent q := mul_le_mul_of_nonneg_right near (le_of_lt unit)
      _ = 2 ^ unitExponent q / 2 := by ring
  next => cases rounded

/-- The unit of a binade is small beside its numbers, above the least unit. -/
theorem unit_le {q : ℚ} (nonzero : q ≠ 0) :
    (2 : ℚ) ^ unitExponent q ≤ 2 ^ (-1074 : ℤ) ∨ (2 : ℚ) ^ unitExponent q ≤ |q| / 2 ^ 52 := by
  unfold unitExponent
  rcases le_total (Int.log 2 |q| - 52) (-1074) with least | above
  · rw [max_eq_left least]
    exact .inl le_rfl
  · rw [max_eq_right above]
    right
    have low := Int.zpow_log_le_self (b := 2) one_lt_two (abs_pos.mpr nonzero)
    rw [zpow_sub₀ two_ne_zero]
    exact div_le_div_of_nonneg_right low (by positivity)

theorem round?_zero : round? 0 = some 0 := by
  have rounded := round?_intCast (n := 0) (by decide)
  simpa using rounded

/-- The error of rounding: the last place, or half the least number. -/
theorem round?_error {q n : ℚ} (rounded : round? q = some n) :
    |n - q| ≤ 2 ^ (-1075 : ℤ) ∨ |n - q| ≤ |q| / 2 ^ 53 := by
  by_cases zero : q = 0
  · subst zero
    obtain rfl := Option.some.inj (round?_zero.symm.trans rounded)
    right
    simp
  · have near := round?_near rounded
    rcases unit_le zero with least | small
    · left
      refine near.trans ?_
      rw [show (-1075 : ℤ) = -1074 - 1 by norm_num, zpow_sub_one₀ two_ne_zero]
      linarith
    · right
      refine near.trans ?_
      rw [pow_succ (2 : ℚ) 52, ← div_div]
      linarith

/-- Beyond the largest finite number there is none. -/
theorem round?_large {q : ℚ} (large : 2 ^ 1024 ≤ |q|) : round? q = none := by
  have log : (1024 : ℤ) ≤ Int.log 2 |q| := by
    refine (Int.zpow_le_iff_le_log (b := 2) one_lt_two ?_).mp (by exact_mod_cast large)
    exact lt_of_lt_of_le (by positivity) large
  have exponent : unitExponent q = Int.log 2 |q| - 52 := by
    unfold unitExponent
    omega
  have unit : (0 : ℚ) < 2 ^ unitExponent q := by positivity
  have low : (2 : ℚ) ^ 52 * 2 ^ unitExponent q ≤ |q| := by
    have below := Int.zpow_log_le_self (b := 2) one_lt_two (lt_of_lt_of_le (by positivity) large)
    rw [exponent, zpow_sub₀ two_ne_zero]
    have cancel : (2 : ℚ) ^ 52 * (2 ^ Int.log 2 |q| / 2 ^ (52 : ℤ)) = 2 ^ Int.log 2 |q| := by
      rw [mul_div_assoc', mul_comm, mul_div_assoc]
      norm_num
    rw [cancel]
    exact below
  -- The significand has all of its places.
  have long : (2 : ℤ) ^ 52 ≤ |roundEven (q / 2 ^ unitExponent q)| := by
    have scaled : (2 : ℚ) ^ 52 ≤ |q / 2 ^ unitExponent q| := by
      rw [abs_div, abs_of_pos unit, le_div_iff₀ unit]
      exact low
    have near := roundEven_near (q / 2 ^ unitExponent q)
    have triangle := abs_sub_abs_le_abs_sub (q / 2 ^ unitExponent q) (roundEven (q / 2 ^ unitExponent q) : ℚ)
    rw [abs_sub_comm] at triangle
    have above : (2 : ℚ) ^ 52 - 1 < |(roundEven (q / 2 ^ unitExponent q) : ℚ)| := by linarith
    have whole : (2 : ℤ) ^ 52 - 1 < |roundEven (q / 2 ^ unitExponent q)| := by exact_mod_cast above
    omega
  unfold round?
  dsimp only
  rw [if_neg]
  rw [not_lt, abs_mul, abs_of_pos unit]
  have long' : (2 : ℚ) ^ 52 ≤ |(roundEven (q / 2 ^ unitExponent q) : ℚ)| := by exact_mod_cast long
  calc (2 : ℚ) ^ 1024 ≤ 2 ^ 52 * 2 ^ unitExponent q := by
        have split : (2 : ℚ) ^ 1024 = 2 ^ 52 * 2 ^ (972 : ℤ) := by
          rw [← zpow_natCast, ← zpow_natCast, ← zpow_add₀ two_ne_zero]
          rfl
        rw [split]
        refine mul_le_mul_of_nonneg_left (zpow_le_zpow_right₀ one_le_two ?_) (by positivity)
        omega
    _ ≤ _ := mul_le_mul_of_nonneg_right long' (le_of_lt unit)

/-- A rounded number is a short significand at an allowed exponent. -/
theorem exists_scaled {v : ℚ} (rounded : round? v = some v) :
    ∃ m e : ℤ, |m| ≤ 2 ^ 53 ∧ -1074 ≤ e ∧ v = m * 2 ^ e := by
  refine ⟨roundEven (v / 2 ^ unitExponent v), unitExponent v, roundEven_short v, le_max_left _ _, ?_⟩
  unfold round? at rounded
  dsimp only at rounded
  split at rounded
  · exact (Option.some.inj rounded).symm
  · cases rounded

/-- A product with a power of two is exact while it is finite. -/
theorem round?_pow {v : ℚ} (k : ℕ) (rounded : round? v = some v) (small : |v * 2 ^ k| < 2 ^ 1024) :
    round? (v * 2 ^ k) = some (v * 2 ^ k) := by
  obtain ⟨m, e, short, allowed, value⟩ := exists_scaled rounded
  have scaled : v * 2 ^ k = m * 2 ^ (e + k) := by
    rw [value, zpow_add₀ two_ne_zero, zpow_natCast, mul_assoc]
  rw [scaled] at small ⊢
  exact round?_scaled short (by omega) small

/-- The nearest whole number of a finite number is a finite number. -/
theorem round?_floor {v : ℚ} (rounded : round? v = some v) :
    round? (⌊v + 1 / 2⌋ : ℤ) = some ((⌊v + 1 / 2⌋ : ℤ) : ℚ) := by
  obtain ⟨m, e, short, allowed, value⟩ := exists_scaled rounded
  by_cases whole : 0 ≤ e
  · have integer : v = (m * 2 ^ e.toNat : ℤ) := by
      rw [value]
      push_cast
      rw [← zpow_natCast, Int.toNat_of_nonneg whole]
    have floor : ⌊v + 1 / 2⌋ = m * 2 ^ e.toNat := by
      rw [integer, Int.floor_intCast_add]
      norm_num
    rw [floor, ← integer]
    exact rounded
  · -- Below 2 ^ 52.
    have size : |v| ≤ 2 ^ 52 := by
      have short' : |(m : ℚ)| ≤ 2 ^ 53 := by exact_mod_cast short
      have half : (2 : ℚ) ^ e ≤ 2 ^ (-1 : ℤ) := zpow_le_zpow_right₀ one_le_two (by omega)
      rw [value, abs_mul, abs_of_pos (by positivity : (0 : ℚ) < 2 ^ e)]
      calc |(m : ℚ)| * 2 ^ e ≤ 2 ^ 53 * 2 ^ (-1 : ℤ) := mul_le_mul short' half (by positivity) (by positivity)
        _ = 2 ^ 52 := by norm_num
    obtain ⟨low, high⟩ := abs_le.mp size
    refine round?_intCast (abs_le.mpr ⟨?_, ?_⟩)
    · refine Int.le_floor.mpr ?_
      push_cast
      linarith
    · refine Int.floor_le_iff.mpr ?_
      push_cast
      linarith

theorem roundEven_nonneg {q : ℚ} (natural : 0 ≤ q) : 0 ≤ roundEven q := by
  have floor : 0 ≤ ⌊q⌋ := Int.floor_nonneg.mpr natural
  unfold roundEven
  dsimp only
  repeat' split
  all_goals omega

theorem round?_nonneg {q n : ℚ} (natural : 0 ≤ q) (rounded : round? q = some n) : 0 ≤ n := by
  unfold round? at rounded
  dsimp only at rounded
  split at rounded
  next =>
    obtain rfl := Option.some.inj rounded
    have significand : (0 : ℚ) ≤ roundEven (q / 2 ^ unitExponent q) := by
      exact_mod_cast roundEven_nonneg (div_nonneg natural (by positivity))
    positivity
  next => cases rounded

/-- What is well below the largest finite number has a nearest one. -/
theorem exists_round? {q : ℚ} (small : |q| < 2 ^ 1000) : ∃ n, round? q = some n := by
  unfold round?
  dsimp only
  rw [if_pos]
  · exact ⟨_, rfl⟩
  have short : |(roundEven (q / 2 ^ unitExponent q) : ℚ)| ≤ 2 ^ 53 := by exact_mod_cast roundEven_short q
  have unit : (0 : ℚ) < 2 ^ unitExponent q := by positivity
  have low : unitExponent q ≤ 948 := by
    unfold unitExponent
    refine max_le (by decide) ?_
    by_cases zero : q = 0
    · subst zero
      simp
    · have log := (Int.lt_zpow_iff_log_lt (b := 2) one_lt_two (abs_pos.mpr zero) (x := 1000)).mp (by exact_mod_cast small)
      omega
  calc |(roundEven (q / 2 ^ unitExponent q) : ℚ) * 2 ^ unitExponent q|
      = |(roundEven (q / 2 ^ unitExponent q) : ℚ)| * 2 ^ unitExponent q := by rw [abs_mul, abs_of_pos unit]
    _ ≤ 2 ^ 53 * 2 ^ (948 : ℤ) :=
        mul_le_mul short (zpow_le_zpow_right₀ one_le_two low) (le_of_lt unit) (by positivity)
    _ < 2 ^ 1024 := by
        rw [← zpow_natCast, ← zpow_natCast, ← zpow_add₀ two_ne_zero]
        exact zpow_lt_zpow_right₀ one_lt_two (by decide)

/-- A finite number is below 2 ^ 1024. -/
theorem abs_value_lt (x : Binary64) : |x.value| < 2 ^ 1024 := by
  by_contra large
  have missing := round?_large (not_lt.mp large)
  rw [x.rounded] at missing
  cases missing

/-- Two numbers have one nearest whole number where they are on the same side of every half. -/
theorem floor_half_eq_iff (a b : ℚ) :
    ⌊a + 1 / 2⌋ = ⌊b + 1 / 2⌋ ↔ ∀ m : ℤ, (m : ℚ) + 1 / 2 ≤ a ↔ (m : ℚ) + 1 / 2 ≤ b := by
  have side (x : ℚ) (m : ℤ) : m + 1 ≤ ⌊x + 1 / 2⌋ ↔ (m : ℚ) + 1 / 2 ≤ x := by
    rw [Int.le_floor]
    push_cast
    constructor <;> intro bound <;> linarith
  constructor
  · intro same m
    rw [← side, ← side, same]
  · intro sides
    apply le_antisymm
    · have below := (side a (⌊a + 1 / 2⌋ - 1)).mp (by omega)
      have shifted := (side b (⌊a + 1 / 2⌋ - 1)).mpr ((sides _).mp below)
      omega
    · have below := (side b (⌊b + 1 / 2⌋ - 1)).mp (by omega)
      have shifted := (side a (⌊b + 1 / 2⌋ - 1)).mpr ((sides _).mpr below)
      omega

/-! ### Decimals -/

/-- A number with few digits is nearer to its double than half a unit of its last decimal. -/
theorem near_of_decimals {q n : ℚ} {d k : ℕ} (natural : 0 ≤ q) (places : d ≤ 300) (bounded : k ≤ 30)
    (small : q * 2 ^ k * 10 ^ d < 2 ^ 52) (rounded : round? q = some n) :
    |n * 2 ^ k - q * 2 ^ k| * (2 * 10 ^ d) < 1 := by
  rw [← sub_mul, abs_mul, abs_of_pos (by positivity : (0 : ℚ) < 2 ^ k)]
  rcases round?_error rounded with least | relative
  · have decimals : (10 : ℚ) ^ d ≤ 2 ^ 1000 := by
      calc (10 : ℚ) ^ d ≤ 10 ^ 300 := pow_le_pow_right₀ (by norm_num) places
        _ = (10 ^ 3) ^ 100 := by rw [← pow_mul]
        _ ≤ (2 ^ 10) ^ 100 := pow_le_pow_left₀ (by norm_num) (by norm_num) 100
        _ = 2 ^ 1000 := by rw [← pow_mul]
    have scale : (2 : ℚ) ^ k ≤ 2 ^ 30 := pow_le_pow_right₀ one_le_two bounded
    calc |n - q| * 2 ^ k * (2 * 10 ^ d) ≤ 2 ^ (-1075 : ℤ) * 2 ^ 30 * (2 * 2 ^ 1000) := by gcongr
      _ = 2 ^ (-44 : ℤ) := by
          rw [← zpow_natCast, ← zpow_natCast, ← zpow_one_add₀ two_ne_zero, ← zpow_add₀ two_ne_zero,
            ← zpow_add₀ two_ne_zero]
          norm_num
      _ < 1 := by norm_num
  · rw [abs_of_nonneg natural] at relative
    calc |n - q| * 2 ^ k * (2 * 10 ^ d) ≤ q / 2 ^ 53 * 2 ^ k * (2 * 10 ^ d) := by gcongr
      _ = q * 2 ^ k * 10 ^ d / 2 ^ 52 := by ring
      _ < 1 := by rwa [div_lt_one (by positivity)]

/-- A half of a unit is a short significand, and its own double. -/
theorem round?_half {q : ℚ} {m : ℤ} {k : ℕ} (natural : 0 ≤ q) (bounded : k ≤ 30) (small : q * 2 ^ k < 2 ^ 52)
    (half : (m : ℚ) + 1 / 2 = q * 2 ^ k) : round? q = some q := by
  have value : q = (2 * m + 1 : ℤ) * 2 ^ (-(k + 1) : ℤ) := by
    have cancel : (2 : ℚ) ^ k * 2 ^ (-(k + 1) : ℤ) = 1 / 2 := by
      rw [← zpow_natCast, ← zpow_add₀ two_ne_zero]
      norm_num
    calc q = q * 2 ^ k * 2 ^ (-(k + 1) : ℤ) * 2 := by rw [mul_assoc q, cancel]; ring
      _ = (2 * m + 1 : ℤ) * 2 ^ (-(k + 1) : ℤ) := by
        rw [← half]
        push_cast
        ring
  have amount : 0 ≤ q * 2 ^ k := by positivity
  have low : (0 : ℚ) ≤ (2 * m + 1 : ℤ) := by
    push_cast
    linarith
  have high : ((2 * m + 1 : ℤ) : ℚ) ≤ (2 ^ 53 : ℤ) := by
    push_cast
    linarith
  have short : |2 * m + 1| ≤ 2 ^ 53 := by
    rw [abs_of_nonneg (by exact_mod_cast low)]
    exact_mod_cast high
  have limit : |q| < 2 ^ 1024 := by
    rw [abs_of_nonneg natural]
    have below : q < 2 ^ 52 := lt_of_le_of_lt (le_mul_of_one_le_right natural (one_le_pow₀ one_le_two)) small
    exact below.trans (pow_lt_pow_right₀ one_lt_two (by decide))
  rw [value] at limit ⊢
  exact round?_scaled short (by omega) limit

/-- A number with few digits has a double on the same side of every half of a unit. -/
theorem halves_of_decimals {q : ℚ} {N d k : ℕ} (natural : 0 ≤ q) (places : d ≤ 300) (bounded : k ≤ 30)
    (number : q * 10 ^ d = N) (small : q * 2 ^ k * 10 ^ d < 2 ^ 52) :
    ∃ n, round? q = some n ∧ n * 2 ^ k < 2 ^ 1024 ∧
      ∀ m : ℤ, (m : ℚ) + 1 / 2 ≤ q * 2 ^ k ↔ (m : ℚ) + 1 / 2 ≤ n * 2 ^ k := by
  have ten : (1 : ℚ) ≤ 10 ^ d := one_le_pow₀ (by norm_num)
  have two : (1 : ℚ) ≤ 2 ^ k := one_le_pow₀ (by norm_num)
  have amount : 0 ≤ q * 2 ^ k := by positivity
  have limit : q * 2 ^ k < 2 ^ 52 := lt_of_le_of_lt (le_mul_of_one_le_right amount ten) small
  obtain ⟨n, rounded⟩ : ∃ n, round? q = some n := by
    refine exists_round? ?_
    rw [abs_of_nonneg natural]
    have below : q < 2 ^ 52 := lt_of_le_of_lt (le_mul_of_one_le_right natural two) limit
    exact below.trans (pow_lt_pow_right₀ one_lt_two (by decide))
  have near := near_of_decimals natural places bounded small rounded
  refine ⟨n, rounded, ?_, fun m => ?_⟩
  · have close : |n * 2 ^ k - q * 2 ^ k| < 1 := by
      refine lt_of_le_of_lt (le_mul_of_one_le_right (abs_nonneg _) ?_) near
      linarith
    obtain ⟨-, high⟩ := abs_lt.mp close
    calc n * 2 ^ k < 2 ^ 52 + 1 := by linarith
      _ ≤ 2 ^ 53 := by norm_num
      _ ≤ 2 ^ 1024 := pow_le_pow_right₀ one_le_two (by decide)
  -- Halves and the amount are whole numbers of half units of the last decimal.
  have positive : (0 : ℚ) < 2 * 10 ^ d := by positivity
  have gap : |(n * 2 ^ k - q * 2 ^ k) * (2 * 10 ^ d)| < 1 := by
    rw [abs_mul, abs_of_pos positive]
    exact near
  obtain ⟨low, high⟩ := abs_lt.mp gap
  have left : ((m : ℚ) + 1 / 2) * (2 * 10 ^ d) = ((2 * m + 1) * 10 ^ d : ℤ) := by
    push_cast
    ring
  have right : q * 2 ^ k * (2 * 10 ^ d) = (2 * ((N : ℤ) * 2 ^ k) : ℤ) := by
    push_cast
    rw [← number]
    ring
  rcases lt_trichotomy ((2 * m + 1) * 10 ^ d) (2 * ((N : ℤ) * 2 ^ k)) with less | half | greater
  · have step : ((m : ℚ) + 1 / 2) * (2 * 10 ^ d) + 1 ≤ q * 2 ^ k * (2 * 10 ^ d) := by
      rw [left, right]
      exact_mod_cast less
    refine iff_of_true (le_of_mul_le_mul_right ?_ positive) (le_of_mul_le_mul_right ?_ positive) <;> linarith
  · have exactly : (m : ℚ) + 1 / 2 = q * 2 ^ k := by
      refine mul_right_cancel₀ (ne_of_gt positive) ?_
      rw [left, right, half]
    obtain rfl := Option.some.inj ((round?_half natural bounded limit exactly).symm.trans rounded)
    rfl
  · have step : q * 2 ^ k * (2 * 10 ^ d) + 1 ≤ ((m : ℚ) + 1 / 2) * (2 * 10 ^ d) := by
      rw [left, right]
      exact_mod_cast greater
    refine iff_of_false (fun reached => ?_) fun reached => ?_
    · have bound := mul_le_mul_of_nonneg_right reached (le_of_lt positive)
      linarith
    · have bound := mul_le_mul_of_nonneg_right reached (le_of_lt positive)
      linarith

end Binary64

namespace Number

/-! ### Operations -/

/-- `x * y`. -/
def mul : Number → Number → Number
  | finite x, finite y => ofRat (x.value * y.value)
  | nan, _ | _, nan => nan
  | infinity first, infinity second => infinity (first != second)
  | infinity negative, finite x | finite x, infinity negative =>
    if x.value = 0 then nan else infinity (negative != decide (x.value < 0))

/-- `x / y`. -/
def div : Number → Number → Number
  | finite x, finite y =>
    if y.value = 0 then if x.value = 0 then nan else infinity (decide (x.value < 0)) else ofRat (x.value / y.value)
  | nan, _ | _, nan => nan
  | infinity _, infinity _ => nan
  | infinity negative, finite y => infinity (negative != decide (y.value < 0))
  | finite _, infinity _ => ofRat 0

/-- `Math.round(x)`. -/
def round : Number → Number
  | finite x => ofInt ⌊x.value + 1 / 2⌋
  | nan => nan
  | infinity negative => infinity negative

/-- The value of a finite number. -/
def value? (x : Number) : Option ℚ := x.finite?.map Binary64.value

/-! ### Values -/

theorem value?_ofRat (q : ℚ) : (ofRat q).value? = Binary64.round? q := by
  unfold ofRat
  cases rounded : Binary64.round? q with
  | none =>
    have missing : Binary64.ofRat? q = none := by
      rw [← Option.not_isSome_iff_eq_none, Option.isSome_iff_exists]
      rintro ⟨x, found⟩
      cases rounded.symm.trans (Binary64.ofRat?_eq_some.mp found)
    rw [missing]
    rfl
  | some v =>
    have found : Binary64.ofRat? q = some ⟨v, Binary64.round?_idem rounded⟩ := Binary64.ofRat?_eq_some.mpr rounded
    rw [found]
    rfl

theorem value?_round (x : Number) : x.round.value? = x.value?.map fun v => ((⌊v + 1 / 2⌋ : ℤ) : ℚ) := by
  cases x with
  | nan => rfl
  | infinity negative => rfl
  | finite x => exact (value?_ofRat _).trans (Binary64.round?_floor x.rounded)

/-- A number with a whole value is the number of it. -/
theorem eq_ofInt_of_value? {x : Number} {z : ℤ} (value : x.value? = some (z : ℚ)) : x = ofInt z := by
  cases x with
  | nan => cases value
  | infinity negative => cases value
  | finite x =>
    have same : x.value = z := Option.some.inj value
    rw [ofInt, ← same, ofRat_value]

/-- A product with a power of two: exact, or beyond the finite numbers. -/
theorem value?_mul_pow (x : Binary64) (factor : Binary64) {k : ℕ} (power : factor.value = 2 ^ k) :
    ((finite x).mul (finite factor)).value? = if |x.value * 2 ^ k| < 2 ^ 1024 then some (x.value * 2 ^ k) else none := by
  unfold mul
  dsimp only
  rw [value?_ofRat, power]
  split
  next small => exact Binary64.round?_pow k x.rounded small
  next large => exact Binary64.round?_large (not_lt.mp large)

end Number
