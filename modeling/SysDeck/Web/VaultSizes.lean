import SysDeck.Web.Vault

/-! The sizes of the vault: which of what lsblk prints come out in KiB, and their sum over the inventory. -/

namespace SysDeck.Web.Vault

/-! ### Reading a size -/

theorem isNumberPart_of_isDigit {c : Char} (digit : c.isDigit) : isNumberPart c := by
  simp [isNumberPart, digit]

theorem Suffix.head_text (suffix : Suffix) :
    ∀ c ∈ suffix.text.head?, isNumberPart c = false ∧ Text.isBlank c = false := by
  cases suffix with
  | nothing => nofun
  | bytes =>
    rintro _ ⟨⟩
    decide
  | short scale | binary scale =>
    rintro _ ⟨⟩
    cases scale <;> decide

/-- The power of two that a suffix comes to. -/
def Suffix.factor : Suffix → ℕ
  | .binary .mega => 10
  | .binary .giga => 20
  | .binary .tera => 30
  | _ => 0

theorem mult_suffix (suffix : Suffix) :
    mult (String.ofList ((((unitGroup suffix.text).getD []).map Char.toUpper).erase 'I')) = 2 ^ suffix.factor := by
  cases suffix with
  | nothing => rfl
  | bytes => rfl
  | short scale => cases scale <;> rfl
  | binary scale => cases scale <;> rfl

theorem Suffix.unit_of_known {suffix : Suffix} (known : suffix.known) : suffix.unit = 2 ^ suffix.factor := by
  cases suffix with
  | nothing | bytes => cases known
  | short scale => cases scale <;> first | exact absurd known (by decide) | rfl
  | binary scale => cases scale <;> first | exact absurd known (by decide) | rfl

theorem Suffix.unit_of_unknown {suffix : Suffix} (unknown : ¬ suffix.known) :
    suffix.factor = 0 ∧ (suffix.unit = 1 / 1024 ∨ 1024 ≤ suffix.unit) := by
  cases suffix with
  | nothing | bytes => exact ⟨rfl, .inl rfl⟩
  | short scale => cases scale <;> first | exact absurd rfl unknown | exact ⟨rfl, .inr (by rfl)⟩
  | binary scale => cases scale <;> first | exact absurd rfl unknown | exact ⟨rfl, .inr (by rfl)⟩

theorem Suffix.unit_pos (suffix : Suffix) : 0 < suffix.unit := by
  cases suffix with
  | nothing | bytes => norm_num [Suffix.unit]
  | short scale | binary scale => exact pow_pos (by norm_num) _

namespace Size

variable (size : Size)

theorem isNumberPart_numeral : ∀ c ∈ size.numeral, isNumberPart c := by
  intro c member
  unfold numeral at member
  cases written : size.fraction with
  | none =>
    rw [written] at member
    exact isNumberPart_of_isDigit (size.digits c (List.mem_append_left _ member))
  | some fraction =>
    rw [written] at member
    rcases List.mem_append.mp member with whole | after
    · exact isNumberPart_of_isDigit (size.digits c (List.mem_append_left _ whole))
    · rcases List.mem_cons.mp after with rfl | digit
      · rfl
      · exact isNumberPart_of_isDigit (size.digits c (List.mem_append_right _ (by rw [written]; exact digit)))

theorem numeral_ne_nil : size.numeral ≠ [] := by
  unfold numeral
  split
  · exact List.append_ne_nil_of_left_ne_nil size.written _
  · exact size.written

theorem readDecimal_numeral : Numeral.readDecimal size.numeral = some size.number := by
  have whole : ∀ c ∈ size.whole, c.isDigit := fun c member => size.digits c (List.mem_append_left _ member)
  unfold numeral number
  cases written : size.fraction with
  | none =>
    have read : Numeral.readDecimal (size.whole ++ []) = _ := Numeral.readDecimal_whole whole size.written nofun
    rw [List.append_nil] at read
    rw [read]
    simp [Numeral.readExponent]
  | some fraction =>
    have digits : ∀ c ∈ fraction, c.isDigit := by
      intro c member
      exact size.digits c (List.mem_append_right _ (by rw [written]; exact member))
    have read : Numeral.readDecimal (size.whole ++ '.' :: (fraction ++ [])) = _ :=
      Numeral.readDecimal_point whole digits size.written nofun
    rw [List.append_nil] at read
    rw [read]
    simp [Numeral.readExponent, zpow_neg, div_eq_mul_inv]

theorem ofText_numeral : Number.ofText size.numeral = .ofRat size.number := by
  obtain ⟨c, rest, head⟩ := List.exists_cons_of_ne_nil size.numeral_ne_nil
  have numeral : ∀ d ∈ size.numeral, Numeral.isNumeral d := by
    intro d member
    have part := size.isNumberPart_numeral d member
    unfold isNumberPart at part
    unfold Numeral.isNumeral
    simp only [Bool.or_eq_true, decide_eq_true_eq] at part ⊢
    tauto
  have digit : c.isDigit := by
    obtain ⟨first, more, whole⟩ := List.exists_cons_of_ne_nil size.written
    have same : c = first := by
      unfold Size.numeral at head
      rw [whole] at head
      split at head
      · exact (List.cons.inj head).1.symm
      · exact (List.cons.inj head).1.symm
    rw [same]
    exact size.digits first (by rw [whole]; exact List.mem_cons_self)
  have read := size.readDecimal_numeral
  rw [head] at numeral read ⊢
  rw [Number.ofText_digit digit numeral, read]
  rfl

/-- What the code reads of a size that lsblk prints. -/
theorem parse_text :
    parseSizeToKiB size.text = some ((Number.ofRat size.number).mul (.ofRat (2 ^ size.suffix.factor))).round := by
  have stop := size.suffix.head_text
  have part : (size.numeral ++ size.suffix.text).takeWhile isNumberPart = size.numeral := by
    rw [List.takeWhile_append_of_pos size.isNumberPart_numeral]
    cases rest : size.suffix.text with
    | nil => simp
    | cons c more =>
      rw [rest] at stop
      rw [List.takeWhile_cons_of_neg (by simp [(stop c rfl).1]), List.append_nil]
  have after : (size.numeral ++ size.suffix.text).dropWhile isNumberPart = size.suffix.text := by
    rw [List.dropWhile_append_of_pos size.isNumberPart_numeral]
    cases rest : size.suffix.text with
    | nil => rfl
    | cons c more =>
      rw [rest] at stop
      exact List.dropWhile_cons_of_neg (by simp [(stop c rfl).1])
  have visible : size.suffix.text.dropWhile Text.isBlank = size.suffix.text :=
    Text.trimStart_of_head fun c head => (stop c head).2
  unfold parseSizeToKiB text
  dsimp only
  rw [String.toList_ofList, part, after, visible, if_neg size.numeral_ne_nil, ofText_numeral, mult_suffix]

theorem number_nonneg : 0 ≤ size.number := by
  unfold number
  positivity

/-- The value of what the code reads. -/
theorem value?_parse :
    (parseSizeToKiB size.text).bind Number.value? = (Binary64.ofRat? size.number).bind fun n =>
      if |n.value * 2 ^ size.suffix.factor| < 2 ^ 1024 then
        some ((⌊n.value * 2 ^ size.suffix.factor + 1 / 2⌋ : ℤ) : ℚ)
      else none := by
  have small : |(2 ^ size.suffix.factor : ℤ)| ≤ 2 ^ 53 := by
    cases size.suffix with
    | nothing | bytes => decide
    | short scale | binary scale => cases scale <;> decide
  have rounded := Binary64.round?_intCast small
  push_cast at rounded
  have power : Number.ofRat (2 ^ size.suffix.factor) = .finite ⟨2 ^ size.suffix.factor, rounded⟩ :=
    Number.ofRat_value ⟨2 ^ size.suffix.factor, rounded⟩
  rw [parse_text, power, Option.bind_some, Number.value?_round]
  cases nearest : Binary64.ofRat? size.number with
  | none =>
    have beyond : Number.ofRat size.number = .infinity (decide (size.number < 0)) := by
      unfold Number.ofRat
      rw [nearest]
    have nonzero : (2 : ℚ) ^ size.suffix.factor ≠ 0 := by positivity
    rw [beyond, Number.mul]
    dsimp only
    rw [if_neg nonzero]
    rfl
  | some n =>
    have finite : Number.ofRat size.number = .finite n := by
      unfold Number.ofRat
      rw [nearest]
    rw [finite, Number.value?_mul_pow n _ rfl, Option.bind_some]
    split <;> rfl

end Size

/-! ### When a size is right -/

/-- A factor that is far off gives the right number below one half only. -/
theorem floor_far {q n unit : ℚ} (natural : 0 ≤ q) (natural' : 0 ≤ n)
    (near : |n - q| ≤ 2 ^ (-1075 : ℤ) ∨ |n - q| ≤ |q| / 2 ^ 53) (far : unit = 1 / 1024 ∨ 1024 ≤ unit) :
    ⌊n + 1 / 2⌋ = ⌊q * unit + 1 / 2⌋ ↔ n < 1 / 2 ∧ q * unit < 1 / 2 := by
  have positive : 0 < unit := by
    rcases far with rfl | large
    · norm_num
    · linarith
  have amount : 0 ≤ q * unit := mul_nonneg natural (le_of_lt positive)
  have below {x : ℚ} (natural : 0 ≤ x) : ⌊x + 1 / 2⌋ = 0 ↔ x < 1 / 2 := by
    rw [Int.floor_eq_zero_iff, Set.mem_Ico]
    constructor
    · rintro ⟨-, high⟩
      linarith
    · intro high
      constructor <;> linarith
  by_cases small : n < 1 / 2
  · rw [(below natural').mpr small, eq_comm, below amount]
    tauto
  · rw [not_lt] at small
    refine iff_of_false ?_ fun both => absurd both.1 (not_lt.mpr small)
    intro same
    -- The double is no more than twice the number, and no less than half of it.
    have around : q ≤ 2 * n ∧ n ≤ 2 * q := by
      rw [abs_of_nonneg natural] at near
      have tiny : (2 : ℚ) ^ (-1075 : ℤ) ≤ 1 / 4 := by
        rw [show (1 / 4 : ℚ) = 2 ^ (-2 : ℤ) by norm_num]
        exact zpow_le_zpow_right₀ one_le_two (by decide)
      rcases near with least | relative
      · obtain ⟨low, high⟩ := abs_le.mp (least.trans tiny)
        constructor <;> linarith
      · obtain ⟨low, high⟩ := abs_le.mp relative
        constructor <;> linarith
    have low := Int.lt_floor_add_one (n + 1 / 2)
    have low' := Int.floor_le (n + 1 / 2)
    have high := Int.lt_floor_add_one (q * unit + 1 / 2)
    have high' := Int.floor_le (q * unit + 1 / 2)
    rw [same] at low low'
    rcases far with rfl | large
    · have one : (1 : ℤ) ≤ ⌊n + 1 / 2⌋ := by
        rw [Int.le_floor]
        push_cast
        linarith
      rw [same] at one
      have one' : (1 : ℚ) ≤ ⌊q * (1 / 1024) + 1 / 2⌋ := by exact_mod_cast one
      linarith
    · have scaled : q * 1024 ≤ q * unit := mul_le_mul_of_nonneg_left large natural
      linarith

theorem Size.right_iff (size : Size) :
    (parseSizeToKiB size.text).bind Number.value? = some (size.kib : ℚ) ↔ size.Fits := by
  rw [value?_parse]
  unfold Fits
  cases nearest : Binary64.ofRat? size.number with
  | none =>
    refine iff_of_false nofun ?_
    rintro ⟨n, found, -⟩
    cases found
  | some n =>
    have rounded := Binary64.ofRat?_eq_some.mp nearest
    have natural := size.number_nonneg
    have natural' := Binary64.round?_nonneg natural rounded
    have exists_one (P : Binary64 → Prop) : (∃ m, some n = some m ∧ P m) ↔ P n := by simp
    rw [exists_one, Option.bind_some]
    by_cases known : size.suffix.known
    · rw [if_pos known, size.suffix.unit_of_known known]
      have product : |n.value * 2 ^ size.suffix.factor| = n.value * 2 ^ size.suffix.factor :=
        abs_of_nonneg (mul_nonneg natural' (by positivity))
      rw [product]
      split
      next small =>
        rw [Option.some.injEq, Int.cast_inj, kib, eq_comm, Binary64.floor_half_eq_iff]
        exact (and_iff_right small).symm
      next large => exact iff_of_false nofun fun both => large both.1
    · obtain ⟨one, far⟩ := size.suffix.unit_of_unknown known
      rw [if_neg known, one, pow_zero, mul_one, if_pos (Binary64.abs_value_lt n), Option.some.injEq, Int.cast_inj]
      exact floor_far natural natural' (Binary64.round?_error rounded) far

/-- A known unit is right for every number that a double holds with its decimals. -/
theorem Size.fits_of_short (size : Size) (known : size.suffix.known)
    (places : (size.fraction.getD []).length ≤ 300)
    (small : size.amount * 10 ^ (size.fraction.getD []).length < 2 ^ 52) : size.Fits := by
  have natural := size.number_nonneg
  have unit := size.suffix.unit_of_known known
  have bounded : size.suffix.factor ≤ 30 := by
    cases size.suffix with
    | nothing | bytes => decide
    | short scale | binary scale => cases scale <;> decide
  have number : size.number * 10 ^ (size.fraction.getD []).length =
      (Nat.ofDigitChars 10 (size.whole ++ size.fraction.getD []) 0 : ℕ) := by
    unfold Size.number
    rw [div_mul_cancel₀ _ (by positivity)]
  unfold amount at small
  rw [unit] at small
  obtain ⟨n, rounded, limit, sides⟩ := Binary64.halves_of_decimals natural places bounded number small
  refine ⟨⟨n, Binary64.round?_idem rounded⟩, Binary64.ofRat?_eq_some.mpr rounded, ?_⟩
  rw [if_pos known, Size.amount, unit]
  exact ⟨limit, sides⟩

/-! ### The volumes of the inventory -/

theorem flatten_cons (device : BlockDevice) (rest : List BlockDevice) :
    flatten (device :: rest) = device :: (flatten device.children ++ flatten rest) := by
  cases device
  rw [flatten, walk]
  rfl

/-- The code meets just the volumes of the forest, each with its size. -/
theorem Volumes.sizes_eq {devices : List BlockDevice} {sizes : List Size} (volumes : Volumes devices sizes) :
    ((flatten devices).filter (·.fstype = some "crypto_LUKS")).map BlockDevice.size = sizes.map Size.text := by
  induction volumes with
  | nil => rfl
  | @volume device rest size inside after luks printed _ _ children others =>
    rw [flatten_cons, List.filter_cons_of_pos (by simpa using luks), List.filter_append, List.map_cons,
      List.map_append, children, others, printed, List.map_append, List.map_cons, List.cons_append]
  | @other device rest inside after plain _ _ children others =>
    rw [flatten_cons, List.filter_cons_of_neg (by simpa using plain), List.filter_append, List.map_append, children,
      others, List.map_append]

theorem Volumes.sizeBytes_eq {devices : List BlockDevice} {sizes : List Size} (volumes : Volumes devices sizes)
    (luksCipher : String → Option String) :
    (luksEntries luksCipher devices).map VaultEntryRow.sizeBytes =
      sizes.map fun size => parseSizeToKiB size.text := by
  have parsed := congrArg (List.map parseSizeToKiB) volumes.sizes_eq
  rw [List.map_map, List.map_map] at parsed
  unfold luksEntries
  rw [List.map_map]
  exact parsed

/-! ### The sum -/

theorem Size.kib_nonneg (size : Size) : 0 ≤ size.kib := by
  have amount : 0 ≤ size.amount := mul_nonneg size.number_nonneg (le_of_lt size.suffix.unit_pos)
  exact Int.floor_nonneg.mpr (by linarith)

theorem foldl_add {values : List ℤ} (natural : ∀ value ∈ values, 0 ≤ value) {start : ℤ} (positive : 0 ≤ start)
    (small : start + values.sum ≤ 2 ^ 53) :
    (values.map Number.ofInt).foldl Number.add (.ofInt start) = .ofInt (start + values.sum) := by
  induction values generalizing start with
  | nil => simp
  | cons value rest ih =>
    have head : 0 ≤ value := natural value List.mem_cons_self
    have tail : ∀ other ∈ rest, 0 ≤ other := fun other member => natural other (List.mem_cons_of_mem _ member)
    have later : 0 ≤ rest.sum := List.sum_nonneg tail
    rw [List.sum_cons] at small ⊢
    have first : |start| ≤ 2 ^ 53 := abs_le.mpr ⟨by omega, by omega⟩
    have second : |value| ≤ 2 ^ 53 := abs_le.mpr ⟨by omega, by omega⟩
    rw [List.map_cons, List.foldl_cons, Number.add_ofInt first second, ih tail (by omega) (by omega), add_assoc]

/-- Doubles add up exactly to 2 ^ 53. -/
theorem addsUp_of_le {values : List ℤ} (natural : ∀ value ∈ values, 0 ≤ value) (small : values.sum ≤ 2 ^ 53) :
    AddsUp values := by
  have sum : 0 ≤ values.sum := List.sum_nonneg natural
  unfold AddsUp
  rw [foldl_add natural le_rfl (by omega), zero_add, Number.ofInt_eq (abs_le.mpr ⟨by omega, small⟩)]
  rfl

theorem encryptedKiB_eq {luksRows : List VaultEntryRow} {values : List ℤ}
    (each : luksRows.map VaultEntryRow.sizeBytes = values.map fun value => some (Number.ofInt value)) :
    encryptedKiB luksRows = (values.map Number.ofInt).foldl Number.add (.ofInt 0) := by
  have rows : encryptedKiB luksRows =
      (luksRows.map VaultEntryRow.sizeBytes).foldl (fun n size => n.add (size.getD (.ofInt 0))) (.ofInt 0) := by
    rw [List.foldl_map]
    rfl
  rw [rows, each, List.foldl_map, List.foldl_map]
  rfl

/-! ### The inventory -/

theorem Volumes.values_iff {devices : List BlockDevice} {sizes : List Size} (volumes : Volumes devices sizes)
    (luksCipher : String → Option String) :
    (luksEntries luksCipher devices).map (fun row => row.sizeBytes.bind Number.value?) =
      (sizes.map fun size => some (size.kib : ℚ)) ↔ ∀ size ∈ sizes, size.Fits := by
  have read := congrArg (List.map fun size : Option Number => size.bind Number.value?) (volumes.sizeBytes_eq luksCipher)
  rw [List.map_map, List.map_map] at read
  rw [show (fun row : VaultEntryRow => row.sizeBytes.bind Number.value?) =
    (fun size : Option Number => size.bind Number.value?) ∘ VaultEntryRow.sizeBytes from rfl, read, List.map_inj_left]
  exact forall₂_congr fun size _ => size.right_iff

/-- Right values are the numbers that the summary adds. -/
theorem Volumes.encryptedKiB_eq {devices : List BlockDevice} {sizes : List Size} (volumes : Volumes devices sizes)
    (luksCipher : String → Option String) (fits : ∀ size ∈ sizes, size.Fits) :
    encryptedKiB (luksEntries luksCipher devices) =
      ((sizes.map Size.kib).map Number.ofInt).foldl Number.add (.ofInt 0) := by
  apply Vault.encryptedKiB_eq
  rw [volumes.sizeBytes_eq luksCipher, List.map_map, List.map_inj_left]
  intro size member
  have value := size.right_iff.mpr (fits size member)
  obtain ⟨number, text, value⟩ := Option.bind_eq_some_iff.mp value
  rw [text, Number.eq_ofInt_of_value? value]
  rfl

/-- The volumes and the summary are right for just the sizes that fit, with values that add up. -/
theorem right_iff_fits (luksCipher : String → Option String) (devices : List BlockDevice) (keyRows : ℕ)
    (sizes : List Size) (volumes : Volumes devices sizes) :
    Right luksCipher devices keyRows sizes ↔ (∀ size ∈ sizes, size.Fits) ∧ AddsUp (sizes.map Size.kib) := by
  have values := volumes.values_iff luksCipher
  have total := volumes.encryptedKiB_eq luksCipher
  constructor
  · intro right
    have fits := values.mp right.values
    refine ⟨fits, ?_⟩
    have sum := right.total
    unfold AddsUp
    rw [← total fits]
    exact sum
  · rintro ⟨fits, adds⟩
    refine ⟨values.mpr fits, ?_⟩
    unfold AddsUp at adds
    rw [← total fits] at adds
    exact adds

def oneAndHalf : Size := ⟨['1'], some ['5'], .binary .giga, List.cons_ne_nil _ _, List.all_eq_true.mp rfl⟩

def half : Size := ⟨['5', '1', '2'], none, .binary .mega, List.cons_ne_nil _ _, List.all_eq_true.mp rfl⟩

/-- A volume with another inside, below a disk. -/
def nested : List BlockDevice :=
  [⟨"sda", "1T", none, none, "disk", [⟨"sda1", "1.5GiB", some "crypto_LUKS", none, "part",
    [⟨"backup", "512MiB", some "crypto_LUKS", none, "crypt", []⟩]⟩]⟩]

theorem right_iff_fits_nested :
    Volumes nested [oneAndHalf, half] ∧ Right (fun _ => none) nested 0 [oneAndHalf, half] := by
  have volumes : Volumes nested [oneAndHalf, half] := by
    refine @Volumes.other _ _ [oneAndHalf, half] [] (by decide) ?_ .nil
    refine @Volumes.volume _ _ oneAndHalf [half] [] rfl (by decide) ?_ .nil
    exact @Volumes.volume _ _ half [] [] rfl (by decide) .nil .nil
  refine ⟨volumes, (right_iff_fits (fun _ => none) nested 0 [oneAndHalf, half] volumes).mpr ⟨?_, addsUp_of_le ?_ ?_⟩⟩
  · rintro size (_ | ⟨_, _ | ⟨_, member⟩⟩)
    · exact Size.fits_of_short _ rfl (by decide) (by decide +kernel)
    · exact Size.fits_of_short _ rfl (by decide) (by decide +kernel)
    · cases member
  · intro value member
    obtain ⟨size, -, rfl⟩ := List.mem_map.mp member
    exact size.kib_nonneg
  · decide +kernel

def tenGiga : Size := ⟨['1', '0'], none, .short .giga, List.cons_ne_nil _ _, List.all_eq_true.mp rfl⟩

/-- The ten GiB that lsblk prints as 10G. -/
theorem right_notShort :
    Volumes [⟨"sda1", "10G", some "crypto_LUKS", none, "part", []⟩] [tenGiga] ∧
      ¬ Right (fun _ => none) [⟨"sda1", "10G", some "crypto_LUKS", none, "part", []⟩] 0 [tenGiga] := by
  have volumes : Volumes [⟨"sda1", "10G", some "crypto_LUKS", none, "part", []⟩] [tenGiga] :=
    @Volumes.volume _ _ tenGiga [] [] rfl (by decide) .nil .nil
  refine ⟨volumes, fun right => ?_⟩
  obtain ⟨n, -, limits⟩ := (volumes.values_iff _).mp right.values tenGiga List.mem_cons_self
  rw [if_neg (by decide)] at limits
  exact absurd limits.2 (by decide +kernel)

end SysDeck.Web.Vault
