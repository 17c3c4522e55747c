import SysDeck.Library.Binary64
import SysDeck.Library.Text

/-! The numbers of ECMAScript and their decimal text: Number.prototype.toString,
which writes the shortest digits that read back, and the conversion of a string to a
number. Negative zero is zero. -/

namespace Numeral

/-- The power of ten above a positive number. -/
def decimalExponent (x : ℚ) : ℤ := Int.log 10 x + 1

/-- The k-digit significand that rounds to x, the closer of the two neighbours first,
with the power of ten above it. A carry to 10 ^ k is one digit of the next power. -/
def significand? (x : ℚ) (k : ℕ) : Option (ℕ × ℤ) :=
  let n := decimalExponent x
  let scale : ℚ := 10 ^ (n - k)
  let low := ⌊x / scale⌋₊
  let candidates := if x / scale - low ≤ 1 / 2 then [low, low + 1] else [low + 1, low]
  let fits := fun s : ℕ =>
    10 ^ (k - 1) ≤ s && s ≤ 10 ^ k && Binary64.round? (s * scale) = some x
  (candidates.find? fits).map fun s => if s = 10 ^ k then (10 ^ (k - 1), n + 1) else (s, n)

/-- The least number of digits for which there is a significand, with it. No finite
number needs more than the bound. -/
def shortest? (x : ℚ) : Option (ℕ × ℕ × ℤ) :=
  (List.range 2100).findSome? fun i => (significand? x (i + 1)).map fun s => (i + 1, s)

/-- The k digits of s with the decimal point after the n-th. -/
def layout (k s : ℕ) (n : ℤ) : List Char :=
  let digits := Nat.toDigits 10 s
  if k ≤ n ∧ n ≤ 21 then digits ++ List.replicate (n - k).toNat '0'
  else if 0 < n ∧ n ≤ 21 then digits.take n.toNat ++ '.' :: digits.drop n.toNat
  else if -6 < n ∧ n ≤ 0 then '0' :: '.' :: (List.replicate (-n).toNat '0' ++ digits)
  else
    let sign := if n - 1 < 0 then '-' else '+'
    let exponent := 'e' :: sign :: Nat.toDigits 10 (n - 1).natAbs
    if k = 1 then digits ++ exponent else digits.take 1 ++ '.' :: (digits.drop 1 ++ exponent)

def positiveText (x : ℚ) : List Char :=
  match shortest? x with
  | some (k, s, n) => layout k s n
  | none => []

def rationalText (x : ℚ) : List Char :=
  if x = 0 then ['0'] else if x < 0 then '-' :: positiveText (-x) else positiveText x

def readExponent : List Char → Option ℤ
  | [] => some 0
  | mark :: rest =>
    if mark = 'e' ∨ mark = 'E' then
      let (negative, digits) := match rest with
        | '-' :: digits => (true, digits)
        | '+' :: digits => (false, digits)
        | digits => (false, digits)
      if digits ≠ [] ∧ digits.all Char.isDigit then
        let value : ℤ := Nat.ofDigitChars 10 digits 0
        some (if negative then -value else value)
      else none
    else none

/-- The digits after a decimal point, and the rest. -/
def readFraction : List Char → List Char × List Char
  | '.' :: rest => (rest.takeWhile Char.isDigit, rest.dropWhile Char.isDigit)
  | rest => ([], rest)

/-- An unsigned decimal literal, as the rational it writes. -/
def readDecimal (body : List Char) : Option ℚ :=
  let whole := body.takeWhile Char.isDigit
  let (fraction, tail) := readFraction (body.dropWhile Char.isDigit)
  if whole ++ fraction = [] then none
  else (readExponent tail).map fun e =>
    (Nat.ofDigitChars 10 (whole ++ fraction) 0 : ℚ) * 10 ^ (e - (fraction.length : ℤ))

/-- A digit of a literal with a radix prefix. -/
def digitValue (c : Char) : ℕ :=
  if c.isDigit then c.toNat - 48
  else if 'a' ≤ c ∧ c ≤ 'z' then c.toNat - 87
  else if 'A' ≤ c ∧ c ≤ 'Z' then c.toNat - 55
  else 36

def readRadix (radix : ℕ) (digits : List Char) : Option ℚ :=
  if digits ≠ [] ∧ digits.all fun c => digitValue c < radix then
    some (digits.foldl (fun value c => value * radix + digitValue c) 0 : ℕ)
  else none

/-! Reading a numeral. -/

theorem takeWhile_digits {digits rest : List Char} (all : ∀ c ∈ digits, c.isDigit)
    (stop : ∀ c ∈ rest.head?, c.isDigit = false) :
    (digits ++ rest).takeWhile Char.isDigit = digits := by
  rw [List.takeWhile_append_of_pos all]
  cases rest with
  | nil => simp
  | cons c rest => simp [stop c rfl]

theorem dropWhile_digits {digits rest : List Char} (all : ∀ c ∈ digits, c.isDigit)
    (stop : ∀ c ∈ rest.head?, c.isDigit = false) :
    (digits ++ rest).dropWhile Char.isDigit = rest := by
  rw [List.dropWhile_append_of_pos all]
  cases rest with
  | nil => rfl
  | cons c rest => simp [stop c rfl]

theorem readDecimal_whole {whole tail : List Char} (all : ∀ c ∈ whole, c.isDigit)
    (nonempty : whole ≠ []) (stop : ∀ c ∈ tail.head?, c.isDigit = false ∧ c ≠ '.') :
    readDecimal (whole ++ tail) = (readExponent tail).map fun e =>
      (Nat.ofDigitChars 10 whole 0 : ℚ) * 10 ^ e := by
  have plain : ∀ c ∈ tail.head?, c.isDigit = false := fun c head => (stop c head).1
  have fraction : readFraction tail = ([], tail) := by
    unfold readFraction
    split
    · exact absurd rfl (stop '.' rfl).2
    · rfl
  simp only [readDecimal, takeWhile_digits all plain, dropWhile_digits all plain, fraction,
    List.append_nil, if_neg nonempty, List.length_nil, Nat.cast_zero, sub_zero]

theorem readDecimal_point {whole fraction tail : List Char} (all : ∀ c ∈ whole, c.isDigit)
    (digits : ∀ c ∈ fraction, c.isDigit) (nonempty : whole ≠ [])
    (stop : ∀ c ∈ tail.head?, c.isDigit = false) :
    readDecimal (whole ++ '.' :: (fraction ++ tail)) = (readExponent tail).map fun e =>
      (Nat.ofDigitChars 10 (whole ++ fraction) 0 : ℚ) * 10 ^ (e - (fraction.length : ℤ)) := by
  have point : ∀ c ∈ ('.' :: (fraction ++ tail)).head?, c.isDigit = false := by
    rintro _ ⟨⟩
    decide
  simp only [readDecimal, takeWhile_digits all point, dropWhile_digits all point, readFraction,
    takeWhile_digits digits stop, dropWhile_digits digits stop]
  exact if_neg fun none => nonempty (List.append_eq_nil_iff.mp none).1

theorem isDigit_of_mem_toDigits {n : ℕ} : ∀ c ∈ Nat.toDigits 10 n, c.isDigit :=
  fun _ member => Nat.isDigit_of_mem_toDigits (by decide) (by decide) member

theorem readExponent_written (negative : Bool) (m : ℕ) :
    readExponent ('e' :: (if negative then '-' else '+') :: Nat.toDigits 10 m) =
      some (if negative then -(m : ℤ) else m) := by
  have digits : (Nat.toDigits 10 m).all Char.isDigit = true :=
    List.all_eq_true.mpr isDigit_of_mem_toDigits
  cases negative <;>
    simp [readExponent, Nat.toDigits_ne_nil, digits, Nat.ofDigitChars_ten_toDigits]

theorem length_toDigits {k s : ℕ} (positive : 1 ≤ k) (low : 10 ^ (k - 1) ≤ s) (high : s < 10 ^ k) :
    (Nat.toDigits 10 s).length = k := by
  have upper : (Nat.toDigits 10 s).length ≤ k :=
    (Nat.length_toDigits_le_iff (by decide) positive).mpr high
  by_contra other
  have shorter : (Nat.toDigits 10 s).length ≤ k - 1 := by omega
  by_cases one : k - 1 = 0
  · have := @Nat.length_toDigits_pos 10 s
    omega
  · have small := (Nat.length_toDigits_le_iff (by decide) (Nat.pos_of_ne_zero one)).mp shorter
    omega

/-- A layout writes the significand at its power of ten. -/
theorem readDecimal_layout {k s : ℕ} (positive : 1 ≤ k) (low : 10 ^ (k - 1) ≤ s)
    (high : s < 10 ^ k) (n : ℤ) :
    readDecimal (layout k s n) = some ((s : ℚ) * 10 ^ (n - k)) := by
  have long := length_toDigits positive low high
  have value : Nat.ofDigitChars 10 (Nat.toDigits 10 s) 0 = s := Nat.ofDigitChars_ten_toDigits
  have digits := @isDigit_of_mem_toDigits s
  have front (i : ℕ) : ∀ c ∈ (Nat.toDigits 10 s).take i, c.isDigit :=
    fun c member => digits c (List.mem_of_mem_take member)
  have back (i : ℕ) : ∀ c ∈ (Nat.toDigits 10 s).drop i, c.isDigit :=
    fun c member => digits c (List.mem_of_mem_drop member)
  have zeros (i : ℕ) : ∀ c ∈ List.replicate i '0', c.isDigit := by
    intro c member
    rw [List.eq_of_mem_replicate member]
    decide
  have part {i : ℕ} (some : i ≠ 0) : (Nat.toDigits 10 s).take i ≠ [] := by
    rw [Ne, List.take_eq_nil_iff, not_or]
    exact ⟨some, Nat.toDigits_ne_nil⟩
  unfold layout
  dsimp only
  split
  · -- an integer
    rename_i range
    have all : ∀ c ∈ Nat.toDigits 10 s ++ List.replicate (n - k).toNat '0', c.isDigit := by
      intro c member
      exact (List.mem_append.mp member).elim (digits c) (zeros _ c)
    have stop : ∀ c ∈ ([] : List Char).head?, c.isDigit = false ∧ c ≠ '.' := nofun
    have read := readDecimal_whole all (by simp [Nat.toDigits_ne_nil]) stop
    rw [List.append_nil] at read
    have split : n - k = ((n - k).toNat : ℤ) := by omega
    rw [read, readExponent, Option.map_some, Nat.ofDigitChars_append, value,
      Nat.ofDigitChars_replicate_zero, zpow_zero, mul_one]
    conv_rhs => rw [split, zpow_natCast]
    push_cast
    rw [mul_comm]
  · split
    · -- the point inside the digits
      rename_i range
      have stop : ∀ c ∈ ([] : List Char).head?, c.isDigit = false := nofun
      have read := readDecimal_point (front n.toNat) (back n.toNat) (part (by omega)) stop
      rw [List.append_nil] at read
      have places : (0 : ℤ) - ((Nat.toDigits 10 s).drop n.toNat).length = n - k := by
        rw [List.length_drop, long]
        omega
      rw [read, readExponent, Option.map_some, List.take_append_drop, value, places]
    · split
      · -- zeros after the point
        rename_i range
        have all : ∀ c ∈ List.replicate (-n).toNat '0' ++ Nat.toDigits 10 s, c.isDigit := by
          intro c member
          exact (List.mem_append.mp member).elim (zeros _ c) (digits c)
        have stop : ∀ c ∈ ([] : List Char).head?, c.isDigit = false := nofun
        have lone : ∀ c ∈ ['0'], c.isDigit := by
          intro c member
          rw [List.mem_singleton.mp member]
          rfl
        have read := readDecimal_point lone all (List.cons_ne_nil _ _) stop
        rw [List.append_nil] at read
        have places : (0 : ℤ) - (List.replicate (-n).toNat '0' ++ Nat.toDigits 10 s).length =
            n - k := by
          rw [List.length_append, List.length_replicate, long]
          omega
        have total : Nat.ofDigitChars 10
            (['0'] ++ (List.replicate (-n).toNat '0' ++ Nat.toDigits 10 s)) 0 = s := by
          rw [← List.append_assoc, Nat.ofDigitChars_append]
          have lead : Nat.ofDigitChars 10 (['0'] ++ List.replicate (-n).toNat '0') 0 = 0 := by
            rw [Nat.ofDigitChars_append, Nat.ofDigitChars_replicate_zero]
            exact Nat.mul_zero _
          rw [lead, value]
        rw [show '0' :: '.' :: (List.replicate (-n).toNat '0' ++ Nat.toDigits 10 s) =
          ['0'] ++ '.' :: (List.replicate (-n).toNat '0' ++ Nat.toDigits 10 s) from rfl, read,
          readExponent, Option.map_some, total, places]
      · -- an exponent
        have exponent : readExponent ('e' :: (if n - 1 < 0 then '-' else '+') ::
            Nat.toDigits 10 (n - 1).natAbs) = some (n - 1) := by
          have written := readExponent_written (decide (n - 1 < 0)) (n - 1).natAbs
          simp only [decide_eq_true_eq] at written
          rw [written]
          split <;> congr 1 <;> omega
        split
        · rename_i one
          rw [readDecimal_whole digits Nat.toDigits_ne_nil (by
            rintro _ ⟨⟩
            decide), exponent, Option.map_some, value, one]
          rfl
        · rw [readDecimal_point (front 1) (back 1) (part one_ne_zero) (by
            rintro _ ⟨⟩
            decide), exponent, Option.map_some, List.take_append_drop, value, List.length_drop, long]
          congr 3
          omega

/-! The shortest numeral exists and reads back. -/

theorem decimalExponent_bounds {x : ℚ} (positive : 0 < x) :
    (10 : ℚ) ^ (decimalExponent x - 1) ≤ x ∧ x < (10 : ℚ) ^ decimalExponent x := by
  unfold decimalExponent
  rw [add_sub_cancel_right]
  exact ⟨Int.zpow_log_le_self (b := 10) (by decide) positive,
    Int.lt_zpow_succ_log_self (b := 10) (by decide) x⟩

theorem significand?_sound {x : ℚ} {k s : ℕ} {n : ℤ} (positive : 1 ≤ k)
    (found : significand? x k = some (s, n)) :
    10 ^ (k - 1) ≤ s ∧ s < 10 ^ k ∧ Binary64.round? ((s : ℚ) * 10 ^ (n - k)) = some x := by
  unfold significand? at found
  dsimp only at found
  obtain ⟨m, chosen, carried⟩ := Option.map_eq_some_iff.mp found
  have fits := List.find?_some chosen
  simp only [Bool.and_eq_true, decide_eq_true_eq] at fits
  obtain ⟨⟨low, high⟩, rounds⟩ := fits
  split at carried
  · -- the carry is one digit of the next power of ten
    rename_i carry
    cases carried
    refine ⟨Nat.le_refl _, Nat.pow_lt_pow_right (by decide) (by omega), ?_⟩
    rw [← rounds, carry]
    congr 1
    push_cast
    rw [← zpow_natCast, ← zpow_natCast, ← zpow_add₀ (by norm_num), ← zpow_add₀ (by norm_num)]
    congr 1
    omega
  · rename_i inside
    cases carried
    exact ⟨low, lt_of_le_of_ne high inside, rounds⟩

theorem shortest?_sound {x : ℚ} {k s : ℕ} {n : ℤ} (found : shortest? x = some (k, s, n)) :
    1 ≤ k ∧ 10 ^ (k - 1) ≤ s ∧ s < 10 ^ k ∧
      Binary64.round? ((s : ℚ) * 10 ^ (n - k)) = some x := by
  obtain ⟨i, _, chosen⟩ := List.exists_of_findSome?_eq_some found
  obtain ⟨pair, significand, same⟩ := Option.map_eq_some_iff.mp chosen
  cases same
  exact ⟨Nat.le_add_left 1 i, significand?_sound (Nat.le_add_left 1 i) significand⟩

/-- A whole multiple of the unit of the k-th digit is its own significand. -/
theorem significand?_exact {x : ℚ} {k m : ℕ} (positive : 0 < x) (digits : 1 ≤ k)
    (whole : x = m * 10 ^ (decimalExponent x - k)) (rounded : Binary64.round? x = some x) :
    (significand? x k).isSome := by
  obtain ⟨low, high⟩ := decimalExponent_bounds positive
  have scale : (0 : ℚ) < 10 ^ (decimalExponent x - k) := by positivity
  have quotient : x / 10 ^ (decimalExponent x - k) = m := by
    rw [div_eq_iff (ne_of_gt scale)]
    exact whole
  have lower : 10 ^ (k - 1) ≤ m := by
    have split : (10 : ℚ) ^ (decimalExponent x - 1) =
        10 ^ (k - 1) * 10 ^ (decimalExponent x - k) := by
      rw [← zpow_natCast, ← zpow_add₀ (by norm_num)]
      congr 1
      omega
    rw [split] at low
    exact_mod_cast le_of_mul_le_mul_right (low.trans_eq whole) scale
  have upper : m < 10 ^ k := by
    have split : (10 : ℚ) ^ decimalExponent x = 10 ^ k * 10 ^ (decimalExponent x - k) := by
      rw [← zpow_natCast, ← zpow_add₀ (by norm_num)]
      congr 1
      omega
    rw [split] at high
    exact_mod_cast lt_of_mul_lt_mul_right (whole.symm.trans_lt high) (le_of_lt scale)
  unfold significand?
  dsimp only
  rw [Option.isSome_map, quotient, Nat.floor_natCast, sub_self, if_pos (by norm_num),
    List.find?_isSome]
  refine ⟨m, List.mem_cons_self, ?_⟩
  simp only [Bool.and_eq_true, decide_eq_true_eq]
  exact ⟨⟨lower, Nat.le_of_lt upper⟩, by rw [← whole, rounded]⟩

/-- A positive binary64 number is m / 10 ^ j with at most 1074 decimals. -/
theorem exists_decimal {x : ℚ} (positive : 0 < x) (rounded : Binary64.round? x = some x) :
    ∃ m j : ℕ, j ≤ 1074 ∧ x * 10 ^ j = m := by
  obtain ⟨n, value, allowed⟩ : ∃ n : ℤ, x = n * 2 ^ Binary64.unitExponent x ∧
      -1074 ≤ Binary64.unitExponent x := by
    unfold Binary64.round? at rounded
    dsimp only at rounded
    split at rounded
    · exact ⟨_, (Option.some.inj rounded).symm, le_max_left _ _⟩
    · cases rounded
  generalize Binary64.unitExponent x = e at value allowed
  have unit : (0 : ℚ) < 2 ^ e := by positivity
  have natural : 0 ≤ n := by
    have : (0 : ℚ) < n := by
      rw [value] at positive
      exact pos_of_mul_pos_left positive (le_of_lt unit)
    exact_mod_cast le_of_lt this
  by_cases large : 0 ≤ e
  · refine ⟨n.toNat * 2 ^ e.toNat, 0, Nat.zero_le _, ?_⟩
    have power : (2 : ℚ) ^ e = 2 ^ e.toNat := by
      conv_lhs => rw [show e = (e.toNat : ℤ) by omega, zpow_natCast]
    have number : (n : ℚ) = n.toNat := by
      conv_lhs => rw [show n = (n.toNat : ℤ) by omega, Int.cast_natCast]
    rw [pow_zero, mul_one, value, power, number]
    push_cast
    rfl
  · refine ⟨n.toNat * 5 ^ (-e).toNat, (-e).toNat, by omega, ?_⟩
    have power : (2 : ℚ) ^ e * 2 ^ (-e).toNat = 1 := by
      rw [← zpow_natCast, ← zpow_add₀ two_ne_zero, show e + ((-e).toNat : ℤ) = 0 by omega, zpow_zero]
    have number : (n : ℚ) = n.toNat := by
      conv_lhs => rw [show n = (n.toNat : ℤ) by omega, Int.cast_natCast]
    have ten : (10 : ℚ) ^ (-e).toNat = 2 ^ (-e).toNat * 5 ^ (-e).toNat := by
      rw [← mul_pow]
      norm_num
    calc x * 10 ^ (-e).toNat = n * (2 ^ e * 2 ^ (-e).toNat) * 5 ^ (-e).toNat := by
          rw [value, ten]
          ring
      _ = (n.toNat * 5 ^ (-e).toNat : ℕ) := by
          rw [power, mul_one, number]
          push_cast
          rfl

theorem round?_small {x : ℚ} (rounded : Binary64.round? x = some x) : |x| < 2 ^ 1024 := by
  unfold Binary64.round? at rounded
  dsimp only at rounded
  split at rounded
  · rename_i small
    rwa [Option.some.inj rounded] at small
  · cases rounded

theorem decimalExponent_le {x : ℚ} (positive : 0 < x) (small : x < 2 ^ 1024) :
    decimalExponent x ≤ 1024 := by
  by_contra large
  rw [not_le] at large
  have low := (decimalExponent_bounds positive).1
  have power : (10 : ℚ) ^ ((1024 : ℕ) : ℤ) ≤ 10 ^ (decimalExponent x - 1) :=
    zpow_le_zpow_right₀ (by norm_num) (by push_cast; omega)
  rw [zpow_natCast] at power
  have more : (2 : ℚ) ^ 1024 ≤ 10 ^ 1024 := pow_le_pow_left₀ (by norm_num) (by norm_num) 1024
  exact absurd small (not_lt.mpr ((more.trans power).trans low))

theorem shortest?_isSome {x : ℚ} (positive : 0 < x) (rounded : Binary64.round? x = some x) :
    (shortest? x).isSome := by
  obtain ⟨m, j, bound, decimal⟩ := exists_decimal positive rounded
  have small := round?_small rounded
  rw [abs_of_pos positive] at small
  have exponent := decimalExponent_le positive small
  -- enough digits to reach the j-th decimal
  obtain ⟨i, below, reach⟩ : ∃ i : ℕ, i < 2100 ∧ decimalExponent x + j ≤ i + 1 :=
    ⟨(decimalExponent x + j - 1).toNat, by omega, by omega⟩
  have ten : (10 : ℚ) ≠ 0 := by norm_num
  have whole : x = (m * 10 ^ ((i : ℤ) + 1 - (decimalExponent x + j)).toNat : ℕ) *
      10 ^ (decimalExponent x - (i + 1 : ℕ)) := by
    push_cast
    rw [← decimal, ← zpow_natCast, ← zpow_natCast, mul_assoc, mul_assoc, ← zpow_add₀ ten,
      ← zpow_add₀ ten]
    conv_lhs => rw [← mul_one x]
    congr 1
    rw [← zpow_zero (10 : ℚ)]
    congr 1
    omega
  rw [shortest?, List.findSome?_isSome_iff]
  refine ⟨i, List.mem_range.mpr below, ?_⟩
  rw [Option.isSome_map]
  exact significand?_exact positive (Nat.le_add_left 1 i) whole rounded

/-! The characters of a numeral. -/

def isNumeral (c : Char) : Bool := c.isDigit || c = '.' || c = 'e' || c = '+' || c = '-'

theorem isNumeral_of_isDigit {c : Char} (digit : c.isDigit) : isNumeral c := by
  simp [isNumeral, digit]

theorem layout_isNumeral (k s : ℕ) (n : ℤ) : ∀ c ∈ layout k s n, isNumeral c := by
  have digits {m : ℕ} {c : Char} (member : c ∈ Nat.toDigits 10 m) : isNumeral c :=
    isNumeral_of_isDigit (isDigit_of_mem_toDigits c member)
  have exponent : ∀ c ∈ 'e' :: (if n - 1 < 0 then '-' else '+') :: Nat.toDigits 10 (n - 1).natAbs,
      isNumeral c := by
    rintro c (_ | ⟨_, _ | ⟨_, member⟩⟩)
    · decide
    · split <;> decide
    · exact digits member
  intro c member
  unfold layout at member
  dsimp only at member
  split at member
  · rcases List.mem_append.mp member with member | member
    · exact digits member
    · rw [List.eq_of_mem_replicate member]
      decide
  · split at member
    · rcases List.mem_append.mp member with member | member
      · exact digits (List.mem_of_mem_take member)
      · rcases List.mem_cons.mp member with rfl | member
        · decide
        · exact digits (List.mem_of_mem_drop member)
    · split at member
      · rcases List.mem_cons.mp member with rfl | member
        · decide
        rcases List.mem_cons.mp member with rfl | member
        · decide
        rcases List.mem_append.mp member with member | member
        · rw [List.eq_of_mem_replicate member]
          decide
        · exact digits member
      · split at member
        · exact (List.mem_append.mp member).elim digits (exponent c)
        · rcases List.mem_append.mp member with member | member
          · exact digits (List.mem_of_mem_take member)
          · rcases List.mem_cons.mp member with rfl | member
            · decide
            · exact (List.mem_append.mp member).elim
                (fun later => digits (List.mem_of_mem_drop later)) (exponent c)

theorem layout_head (k s : ℕ) (n : ℤ) : ∃ c rest, layout k s n = c :: rest ∧ c.isDigit := by
  have digits := @isDigit_of_mem_toDigits s
  obtain ⟨first, rest, written⟩ := List.exists_cons_of_ne_nil (@Nat.toDigits_ne_nil s 10)
  have digit : first.isDigit := digits first (by simp [written])
  unfold layout
  dsimp only
  rw [written]
  split
  · exact ⟨first, _, rfl, digit⟩
  · split
    · rename_i range
      obtain ⟨i, same⟩ : ∃ i, n.toNat = i + 1 := ⟨n.toNat - 1, by omega⟩
      exact ⟨first, _, by rw [same]; rfl, digit⟩
    · split
      · exact ⟨'0', _, rfl, by decide⟩
      · split
        · exact ⟨first, _, rfl, digit⟩
        · exact ⟨first, _, rfl, digit⟩

theorem layout_point_free {k s : ℕ} {n : ℤ} (whole : k ≤ n) (short : n ≤ 21) :
    '.' ∉ layout k s n := by
  unfold layout
  dsimp only
  rw [if_pos ⟨whole, short⟩]
  intro member
  rcases List.mem_append.mp member with member | member
  · exact absurd (isDigit_of_mem_toDigits _ member) (by decide)
  · exact absurd (List.eq_of_mem_replicate member) (by decide)

/-- The text of a positive binary64 number is the layout of a significand that reads back. -/
theorem positiveText_eq {x : ℚ} (positive : 0 < x) (rounded : Binary64.round? x = some x) :
    ∃ k s n, positiveText x = layout k s n ∧ 1 ≤ k ∧ 10 ^ (k - 1) ≤ s ∧ s < 10 ^ k ∧
      Binary64.round? ((s : ℚ) * 10 ^ (n - k)) = some x := by
  obtain ⟨⟨k, s, n⟩, found⟩ := Option.isSome_iff_exists.mp (shortest?_isSome positive rounded)
  refine ⟨k, s, n, ?_, shortest?_sound found⟩
  unfold positiveText
  rw [found]

theorem isBlank_of_isNumeral {c : Char} (numeral : isNumeral c) : Text.isBlank c = false := by
  have range : 0x2B ≤ c.toNat ∧ c.toNat ≤ 0x65 := by
    unfold isNumeral at numeral
    simp only [Bool.or_eq_true, decide_eq_true_eq] at numeral
    rcases numeral with ((((digit | rfl) | rfl) | rfl) | rfl)
    · have bounds : 48 ≤ c.toNat ∧ c.toNat ≤ 57 := Char.isDigit_iff_toNat.mp digit
      omega
    all_goals decide
  unfold Text.isBlank
  dsimp only
  simp only [Bool.or_eq_false_iff, Bool.and_eq_false_iff, decide_eq_false_iff_not]
  omega

theorem trim_numeral {text : List Char} (numeral : ∀ c ∈ text, isNumeral c) :
    Text.trim text = text :=
  Text.trim_of_tight ⟨fun c head => isBlank_of_isNumeral (numeral c (List.mem_of_mem_head? head)),
    fun c last => isBlank_of_isNumeral (numeral c (List.mem_of_mem_getLast? last))⟩

theorem significand?_exponent {x : ℚ} {k s : ℕ} {n : ℤ} (found : significand? x k = some (s, n)) :
    n = decimalExponent x ∨ (n = decimalExponent x + 1 ∧ s = 10 ^ (k - 1)) := by
  unfold significand? at found
  dsimp only at found
  obtain ⟨m, _, carried⟩ := Option.map_eq_some_iff.mp found
  split at carried <;> cases carried
  · exact .inr ⟨rfl, rfl⟩
  · exact .inl rfl

theorem shortest?_least {x : ℚ} {k s i : ℕ} {n : ℤ} (found : shortest? x = some (k, s, n))
    (below : i < 2100) (enough : (significand? x (i + 1)).isSome) : k ≤ i + 1 := by
  obtain ⟨front, chosen, back, range, image, none⟩ := List.findSome?_eq_some_iff.mp found
  obtain ⟨pair, _, same⟩ := Option.map_eq_some_iff.mp image
  cases same
  by_contra larger
  have member : i ∈ front ++ chosen :: back := range ▸ List.mem_range.mpr below
  have sorted : (front ++ chosen :: back).Pairwise (· < ·) := range ▸ List.pairwise_lt_range
  rcases List.mem_append.mp member with early | late
  · have missing := none i early
    rw [Option.map_eq_none_iff] at missing
    simp [missing] at enough
  · have after := (List.pairwise_append.mp sorted).2.1
    rcases List.mem_cons.mp late with same | later
    · omega
    · have := (List.pairwise_cons.mp after).1 i later
      omega

/-- A positive whole number below 10 ^ 21 is written without a point. -/
theorem positiveText_whole {m : ℕ} (positive : 0 < m) (small : m < 10 ^ 21)
    (rounded : Binary64.round? (m : ℚ) = some (m : ℚ)) : '.' ∉ positiveText (m : ℚ) := by
  have positive' : (0 : ℚ) < m := by exact_mod_cast positive
  obtain ⟨⟨k, s, n⟩, found⟩ := Option.isSome_iff_exists.mp (shortest?_isSome positive' rounded)
  obtain ⟨low, high⟩ := decimalExponent_bounds positive'
  have ten : (1 : ℚ) < 10 := by norm_num
  have least : 1 ≤ decimalExponent (m : ℚ) := by
    by_contra less
    have unit : (10 : ℚ) ^ decimalExponent (m : ℚ) ≤ 10 ^ (0 : ℤ) :=
      zpow_le_zpow_right₀ (le_of_lt ten) (by omega)
    have one : (1 : ℚ) ≤ m := by exact_mod_cast positive
    rw [zpow_zero] at unit
    linarith
  have most : decimalExponent (m : ℚ) ≤ 21 := by
    by_contra more
    have power : (10 : ℚ) ^ ((21 : ℕ) : ℤ) ≤ 10 ^ (decimalExponent (m : ℚ) - 1) :=
      zpow_le_zpow_right₀ (le_of_lt ten) (by push_cast; omega)
    rw [zpow_natCast] at power
    have bound : (m : ℚ) < 10 ^ 21 := by exact_mod_cast small
    linarith
  obtain ⟨i, digits⟩ : ∃ i : ℕ, decimalExponent (m : ℚ) = i + 1 :=
    ⟨(decimalExponent (m : ℚ) - 1).toNat, by omega⟩
  -- the number itself is a significand of all its digits
  have whole := significand?_exact (k := i + 1) (m := m) positive' (Nat.le_add_left 1 i)
    (by rw [digits, Nat.cast_succ, sub_self, zpow_zero, mul_one]) rounded
  have short := shortest?_least found (by omega) whole
  obtain ⟨j, _, image⟩ := List.exists_of_findSome?_eq_some found
  obtain ⟨pair, chosen, same⟩ := Option.map_eq_some_iff.mp image
  cases same
  obtain ⟨_, _, _, rounds⟩ := shortest?_sound found
  unfold positiveText
  rw [found]
  dsimp only
  rcases significand?_exponent chosen with exponent | ⟨exponent, carry⟩
  · exact layout_point_free (by omega) (by omega)
  · refine layout_point_free (by omega) ?_
    by_contra more
    -- the carry from 21 digits would be 10 ^ 21, which is no rounding of a smaller number
    have last : decimalExponent (m : ℚ) = 21 := by omega
    have value : (s : ℚ) * 10 ^ (n - (j + 1 : ℕ)) = ((5 ^ 21 : ℤ) : ℚ) * 2 ^ (21 : ℤ) := by
      rw [carry, exponent, last, Nat.add_sub_cancel]
      push_cast
      rw [← zpow_natCast, ← zpow_add₀ (by norm_num)]
      have places : (j : ℤ) + (22 - (j + 1)) = 21 := by ring
      rw [places]
      norm_num
    rw [value, Binary64.round?_scaled (by norm_num) (by norm_num)] at rounds
    · have same := Option.some.inj rounds
      have bound : (m : ℚ) < 10 ^ 21 := by exact_mod_cast small
      rw [← same] at bound
      norm_num at bound
    · have size : |((5 ^ 21 : ℤ) : ℚ) * 2 ^ (21 : ℤ)| = 10 ^ 21 := by norm_num
      rw [size]
      calc (10 : ℚ) ^ 21 < 2 ^ 70 := by norm_num
        _ ≤ 2 ^ 1024 := pow_le_pow_right₀ (by norm_num) (by norm_num)

end Numeral

inductive Number where
  | nan
  | infinity (negative : Bool)
  | finite (value : Binary64)
  deriving DecidableEq

namespace Number

open Numeral

def ofRat (q : ℚ) : Number :=
  match Binary64.ofRat? q with
  | some value => .finite value
  | none => .infinity (q < 0)

def ofInt (z : ℤ) : Number := ofRat z

/-- `x + y`. -/
def add : Number → Number → Number
  | finite x, finite y => ofRat (x.value + y.value)
  | nan, _ | _, nan => nan
  | infinity first, infinity second => if first = second then infinity first else nan
  | infinity negative, finite _ | finite _, infinity negative => infinity negative

def toText : Number → List Char
  | nan => "NaN".toList
  | infinity false => "Infinity".toList
  | infinity true => "-Infinity".toList
  | finite x => rationalText x.value

def ofRead : Option ℚ → Number
  | some q => ofRat q
  | none => nan

/-- An optionally signed decimal literal or Infinity. -/
def ofDecimal (negative : Bool) (body : List Char) : Number :=
  if body = "Infinity".toList then infinity negative
  else ofRead ((readDecimal body).map fun q => if negative then -q else q)

/-- `Number(text)`. -/
def ofText (text : List Char) : Number :=
  match Text.trim text with
  | [] => ofRat 0
  | '0' :: 'x' :: digits | '0' :: 'X' :: digits => ofRead (readRadix 16 digits)
  | '0' :: 'o' :: digits | '0' :: 'O' :: digits => ofRead (readRadix 8 digits)
  | '0' :: 'b' :: digits | '0' :: 'B' :: digits => ofRead (readRadix 2 digits)
  | '-' :: body => ofDecimal true body
  | '+' :: body => ofDecimal false body
  | body => ofDecimal false body

/-- `Number.isFinite(x)`, with the value. -/
def finite? : Number → Option Binary64
  | finite value => some value
  | nan | infinity _ => none

/-- A numeral that begins with a digit is read as a decimal literal. -/
theorem ofText_digit {c : Char} {rest : List Char} (digit : c.isDigit)
    (numeral : ∀ d ∈ c :: rest, isNumeral d) :
    ofText (c :: rest) = ofRead (readDecimal (c :: rest)) := by
  have unsigned : ofDecimal false (c :: rest) = ofRead (readDecimal (c :: rest)) := by
    unfold ofDecimal
    rw [if_neg]
    · simp
    · intro infinite
      have head : c = 'I' := congrArg (·.headD ' ') infinite
      rw [head] at digit
      exact absurd digit (by decide)
  have radix {d : Char} {more : List Char} (same : c :: rest = '0' :: d :: more) : isNumeral d :=
    numeral d (by simp [same])
  unfold ofText
  rw [trim_numeral numeral]
  split
  · rename_i empty
    cases empty
  all_goals first
    | exact unsigned
    | rename_i same
      first
      | exact absurd (radix same) (by decide)
      | cases same
        exact absurd digit (by decide)

theorem ofText_positive {x : Binary64} (positive : 0 < x.value) :
    ofText (positiveText x.value) = finite x := by
  obtain ⟨k, s, n, text, digits, low, high, rounds⟩ := positiveText_eq positive x.rounded
  obtain ⟨c, rest, head, digit⟩ := layout_head k s n
  have numeral := layout_isNumeral k s n
  rw [text, head]
  rw [head] at numeral
  rw [ofText_digit digit numeral, ← head, readDecimal_layout digits low high]
  unfold ofRead ofRat
  dsimp only
  rw [Binary64.ofRat?_eq_some.mpr rounds]

theorem ofText_negative {x : Binary64} (negative : x.value < 0) :
    ofText ('-' :: positiveText (-x.value)) = finite x := by
  have rounded : Binary64.round? (-x.value) = some (-x.value) := by
    rw [Binary64.round?_neg, x.rounded]
    rfl
  obtain ⟨k, s, n, text, digits, low, high, rounds⟩ :=
    positiveText_eq (neg_pos.mpr negative) rounded
  obtain ⟨c, rest, head, digit⟩ := layout_head k s n
  have numeral := layout_isNumeral k s n
  have decimal := readDecimal_layout digits low high n
  rw [text, head]
  rw [head] at numeral decimal
  have signed : ∀ d ∈ '-' :: c :: rest, isNumeral d := by
    rintro d (_ | ⟨_, member⟩)
    · decide
    · exact numeral d member
  have finite : c :: rest ≠ "Infinity".toList := by
    intro infinite
    have first : c = 'I' := congrArg (·.headD ' ') infinite
    rw [first] at digit
    exact absurd digit (by decide)
  simp only [ofText, trim_numeral signed]
  rw [ofDecimal, if_neg finite, decimal]
  unfold ofRead ofRat
  dsimp only [Option.map_some]
  rw [if_pos rfl, Binary64.ofRat?_eq_some.mpr]
  rw [Binary64.round?_neg, rounds, Option.map_some, neg_neg]

/-- The text of a number reads back as it. -/
theorem ofText_toText (x : Number) : ofText (toText x) = x := by
  cases x with
  | nan => decide
  | infinity negative => cases negative <;> decide
  | finite x =>
    unfold toText rationalText
    dsimp only
    split
    · rename_i zero
      have lone : ∀ d ∈ ['0'], isNumeral d := by
        intro d member
        rw [List.mem_singleton.mp member]
        decide
      rw [ofText_digit (by decide) lone]
      have read : readDecimal ['0'] = some 0 := by
        simp [readDecimal, readFraction, readExponent, Nat.ofDigitChars_cons]
      rw [read, ← zero]
      unfold ofRead ofRat
      dsimp only
      rw [Binary64.ofRat?_value]
    · rename_i nonzero
      split
      · rename_i negative
        exact ofText_negative negative
      · rename_i natural
        exact ofText_positive (lt_of_le_of_ne (not_lt.mp natural) (Ne.symm nonzero))

/-- A whole number below 10 ^ 21 is written without a point. -/
theorem toText_whole {x : Binary64} {z : ℤ} (whole : x.value = z) (small : |z| < 10 ^ 21) :
    '.' ∉ toText (finite x) := by
  have rounded := x.rounded
  unfold toText rationalText
  dsimp only
  split
  · decide
  · rename_i nonzero
    have nonzero' : z ≠ 0 := fun zero => nonzero (by rw [whole, zero, Int.cast_zero])
    have size : z.natAbs < 10 ^ 21 := by
      rw [Int.abs_eq_natAbs] at small
      exact_mod_cast small
    split
    · rename_i negative
      rw [whole] at negative
      have below : z < 0 := by exact_mod_cast negative
      have value : -x.value = (z.natAbs : ℚ) := by
        rw [whole, ← Int.cast_neg, ← Int.cast_natCast]
        congr 1
        omega
      have again : Binary64.round? (z.natAbs : ℚ) = some (z.natAbs : ℚ) := by
        rw [← value, Binary64.round?_neg, rounded]
        rfl
      rw [value]
      have rest := positiveText_whole (by omega) size again
      rintro (_ | ⟨_, member⟩)
      exact rest member
    · rename_i natural
      rw [whole, not_lt] at natural
      have above : 0 ≤ z := by exact_mod_cast natural
      have value : x.value = (z.natAbs : ℚ) := by
        rw [whole, ← Int.cast_natCast]
        congr 1
        omega
      rw [value] at rounded ⊢
      exact positiveText_whole (by omega) size rounded

theorem ofRat_value (x : Binary64) : ofRat x.value = finite x := by
  unfold ofRat
  rw [Binary64.ofRat?_value]

theorem ofInt_eq {z : ℤ} (short : |z| ≤ 2 ^ 53) :
    ofInt z = finite ⟨z, Binary64.round?_intCast short⟩ :=
  ofRat_value ⟨z, Binary64.round?_intCast short⟩

theorem add_ofInt {a b : ℤ} (first : |a| ≤ 2 ^ 53) (second : |b| ≤ 2 ^ 53) :
    (ofInt a).add (ofInt b) = ofInt (a + b) := by
  rw [ofInt_eq first, ofInt_eq second, add, ofInt]
  push_cast
  rfl

end Number
