import SysDeck.Library.Hex
import SysDeck.Library.Json

/-! The addresses of sockets: as the kernel prints them in /proc/net/tcp and /proc/net/tcp6, and as the
bridges read them. -/

namespace SysDeck.Web.ProcNet

open Hex (printed)

inductive Address where
  | v4 (bits : BitVec 32)
  | v6 (bits : BitVec 128)
  deriving DecidableEq

/-- One of the eight groups, in network order. -/
def group (bits : BitVec 128) (i : ℕ) : ℕ := bits.toNat / 2 ^ (112 - 16 * i) % 2 ^ 16

def dotted (parts : List ℤ) : List Char := ['.'].intercalate (parts.map Json.writeInteger)

/-- The dotted quad, or the eight groups. -/
def Address.text : Address → List Char
  | .v4 bits => dotted ((List.range 4).map fun i => ((bits.toNat / 2 ^ (24 - 8 * i) % 2 ^ 8 : ℕ) : ℤ))
  | .v6 bits => [':'].intercalate ((List.range 8).map fun i => printed 4 (group bits i))

/-! ### The kernel -/

/-- The number that a machine with the low byte first has for four bytes in network order. -/
def reversed (word : ℕ) : ℕ :=
  word % 256 * 2 ^ 24 + word / 256 % 256 * 2 ^ 16 + word / 2 ^ 16 % 256 * 2 ^ 8 + word / 2 ^ 24 % 256

def word (bits : BitVec 128) (i : ℕ) : ℕ := bits.toNat / 2 ^ (96 - 32 * i) % 2 ^ 32

/-- `%08X` of each word -/
def Address.printed : Address → List Char
  | .v4 bits => Hex.printed 8 (reversed bits.toNat)
  | .v6 bits => (List.range 4).flatMap fun i => Hex.printed 8 (reversed (word bits i))

/-! ### The bridges -/

/-- The operand of a bitwise operator. -/
def toInt32 (n : Option ℤ) : BitVec 32 := BitVec.ofInt 32 (n.getD 0)

/-- The bytes swapped inside each four digits. -/
def groups : List Char → List (List Char)
  | a :: b :: c :: d :: rest => [c, d, a, b] :: groups rest
  | _ => []

def decodeHex (hex : List Char) : List Char :=
  if hex.length = 8 then
    let n := toInt32 (Hex.parseInt hex)
    dotted [(n &&& 0xff#32).toInt, (n.sshiftRight 8 &&& 0xff#32).toInt, (n.sshiftRight 16 &&& 0xff#32).toInt,
      (n >>> 24).toNat]
  else if hex.length = 32 then [':'].intercalate (groups hex)
  else hex

/-- The decoder of the network security bridge. -/
def decodeHexIp (hex : List Char) : List Char := decodeHex hex

/-- The decoder of the services bridge. -/
def decodeHexAddr (hex : List Char) : List Char := decodeHex hex

/-- The two groups of each word are the same. -/
def Address.Doubled : Address → Prop
  | .v4 _ => True
  | .v6 bits => ∀ i < 4, group bits (2 * i) = group bits (2 * i + 1)

/-! ### IPv4 -/

theorem reversed_lt (word : ℕ) : reversed word < 2 ^ 32 := by
  rw [reversed]
  omega

/-- A shift that brings in the sign leaves the lower bytes as they are. -/
theorem byte_sshiftRight (n : BitVec 32) {shift : ℕ} (inside : shift ≤ 24) :
    (n.sshiftRight shift &&& 0xff#32).toInt = ((n.toNat / 2 ^ shift % 2 ^ 8 : ℕ) : ℤ) := by
  have low : (0xff#32).toNat = 2 ^ 8 - 1 := rfl
  have same : n.sshiftRight shift &&& 0xff#32 = n >>> shift &&& 0xff#32 := by
    apply BitVec.eq_of_getLsbD_eq
    intro i bound
    have mask : (0xff#32).getLsbD i = decide (i < 8) := by
      rw [BitVec.getLsbD, low, Nat.testBit_two_pow_sub_one]
    rw [BitVec.getLsbD_and, BitVec.getLsbD_and, mask]
    by_cases byte : i < 8
    · have position : shift + i < 32 := by omega
      simp [BitVec.getLsbD_sshiftRight, position, Nat.not_le.mpr bound]
    · simp [byte]
  have value : (n >>> shift &&& 0xff#32).toNat = n.toNat / 2 ^ shift % 2 ^ 8 := by
    rw [BitVec.toNat_and, low, Nat.and_two_pow_sub_one_eq_mod, BitVec.toNat_ushiftRight,
      Nat.shiftRight_eq_div_pow]
  rw [same, BitVec.toInt_eq_toNat_of_lt, value]
  rw [value]
  omega

theorem toNat_toInt32 {n : ℕ} (small : n < 2 ^ 32) : (toInt32 (some (n : ℤ))).toNat = n := by
  rw [toInt32, Option.getD_some, BitVec.ofInt_natCast, BitVec.toNat_ofNat, Nat.mod_eq_of_lt small]

section Bytes

variable {a b c d : ℕ} (first : a < 256) (second : b < 256) (third : c < 256) (last : d < 256)

include first second third last

theorem bytes_of_number : (((a * 256 + b) * 256 + c) * 256 + d) / 2 ^ 24 % 2 ^ 8 = a ∧
    (((a * 256 + b) * 256 + c) * 256 + d) / 2 ^ 16 % 2 ^ 8 = b ∧
    (((a * 256 + b) * 256 + c) * 256 + d) / 2 ^ 8 % 2 ^ 8 = c ∧
    (((a * 256 + b) * 256 + c) * 256 + d) / 2 ^ 0 % 2 ^ 8 = d := by
  refine ⟨?_, ?_, ?_, ?_⟩ <;> omega

theorem reversed_bytes :
    reversed (((a * 256 + b) * 256 + c) * 256 + d) = ((d * 256 + c) * 256 + b) * 256 + a := by
  obtain ⟨high, upper, lower, low⟩ := bytes_of_number first second third last
  rw [Nat.pow_zero, Nat.div_one] at low
  rw [reversed]
  omega

end Bytes

theorem exists_bytes {word : ℕ} (small : word < 2 ^ 32) : ∃ a b c d, a < 256 ∧ b < 256 ∧ c < 256 ∧ d < 256 ∧
    word = ((a * 256 + b) * 256 + c) * 256 + d :=
  ⟨word / 256 / 256 / 256, word / 256 / 256 % 256, word / 256 % 256, word % 256, by omega, by omega, by omega,
    by omega, by omega⟩

/-- The bytes from the low one on are those from the high one on. -/
theorem byte_reversed {word i : ℕ} (small : word < 2 ^ 32) (inside : i = 0 ∨ i = 1 ∨ i = 2 ∨ i = 3) :
    reversed word / 2 ^ (8 * i) % 2 ^ 8 = word / 2 ^ (24 - 8 * i) % 2 ^ 8 := by
  obtain ⟨a, b, c, d, first, second, third, last, rfl⟩ := exists_bytes small
  obtain ⟨high, upper, lower, low⟩ := bytes_of_number first second third last
  obtain ⟨high', upper', lower', low'⟩ := bytes_of_number last third second first
  rw [reversed_bytes first second third last]
  rcases inside with rfl | rfl | rfl | rfl
  · exact low'.trans high.symm
  · exact lower'.trans upper.symm
  · exact upper'.trans lower.symm
  · exact high'.trans low.symm

theorem parseInt_word {n : ℕ} (small : n < 2 ^ 32) : Hex.parseInt (Hex.printed 8 n) = some (n : ℤ) :=
  @Hex.parseInt_printed 7 n (by norm_num at small ⊢; exact small)

/-- The dotted quad is read back. -/
theorem decodeHex_v4 (bits : BitVec 32) : decodeHex (Address.v4 bits).printed = (Address.v4 bits).text := by
  have bound := bits.isLt
  have fits := reversed_lt bits.toNat
  rw [Address.printed, Address.text, decodeHex, if_pos (Hex.length_printed 8 _), parseInt_word fits]
  have value := toNat_toInt32 fits
  generalize toInt32 _ = n at value
  have byte (i : ℕ) (inside : i = 0 ∨ i = 1 ∨ i = 2 ∨ i = 3) :
      n.toNat / 2 ^ (8 * i) % 2 ^ 8 = bits.toNat / 2 ^ (24 - 8 * i) % 2 ^ 8 := by
    rw [value, byte_reversed bound inside]
  have first : (n &&& 0xff#32).toInt = ((bits.toNat / 2 ^ 24 % 2 ^ 8 : ℕ) : ℤ) := by
    rw [← byte 0 (by decide), ← byte_sshiftRight n (by decide), BitVec.sshiftRight_zero]
  have second : (n.sshiftRight 8 &&& 0xff#32).toInt = ((bits.toNat / 2 ^ 16 % 2 ^ 8 : ℕ) : ℤ) := by
    rw [byte_sshiftRight n (by decide), byte 1 (by decide)]
  have third : (n.sshiftRight 16 &&& 0xff#32).toInt = ((bits.toNat / 2 ^ 8 % 2 ^ 8 : ℕ) : ℤ) := by
    rw [byte_sshiftRight n (by decide), byte 2 (by decide)]
  have fourth : (n >>> 24).toNat = bits.toNat / 2 ^ 0 % 2 ^ 8 := by
    rw [← byte 3 (by decide), BitVec.toNat_ushiftRight, Nat.shiftRight_eq_div_pow]
    omega
  show dotted [_, _, _, _] = dotted [_, _, _, _]
  rw [first, second, third, fourth]

/-! ### IPv6 -/

/-- The two bytes of a group swapped. -/
def swapped (g : ℕ) : ℕ := g % 256 * 256 + g / 256

theorem reversed_groups {g h : ℕ} (small : g < 2 ^ 16) (small' : h < 2 ^ 16) :
    reversed (g * 2 ^ 16 + h) = swapped h * 2 ^ 16 + swapped g := by
  have bytes := @reversed_bytes (g / 256) (g % 256) (h / 256) (h % 256) (by omega) (by omega) (by omega) (by omega)
  have word : ((g / 256 * 256 + g % 256) * 256 + h / 256) * 256 + h % 256 = g * 2 ^ 16 + h := by omega
  calc reversed (g * 2 ^ 16 + h)
    _ = reversed (((g / 256 * 256 + g % 256) * 256 + h / 256) * 256 + h % 256) := congrArg reversed word.symm
    _ = ((h % 256 * 256 + h / 256) * 256 + g % 256) * 256 + g / 256 := bytes
    _ = swapped h * 2 ^ 16 + swapped g := by
      rw [swapped, swapped]
      ring

theorem groups_printed {g : ℕ} (small : g < 2 ^ 16) (rest : List Char) :
    groups (Hex.printed 4 (swapped g) ++ rest) = Hex.printed 4 g :: groups rest := by
  have split : Hex.printed 4 (swapped g) = Hex.printed 2 (g % 256) ++ Hex.printed 2 (g / 256) := by
    have high : swapped g / 16 ^ 2 = g % 256 := by
      rw [swapped]
      omega
    have low : swapped g % 16 ^ 2 = g / 256 := by
      rw [swapped]
      omega
    rw [Hex.printed_add 2 2, ← Hex.printed_mod 2 (swapped g), high, low]
  have whole : Hex.printed 4 g = Hex.printed 2 (g / 256) ++ Hex.printed 2 (g % 256) := by
    rw [Hex.printed_add 2 2, ← Hex.printed_mod 2 g]
    rfl
  rw [split, whole]
  rfl

/-- The two groups of a word come out the other way round. -/
theorem groups_word {g h : ℕ} (small : g < 2 ^ 16) (small' : h < 2 ^ 16) (rest : List Char) :
    groups (Hex.printed 8 (reversed (g * 2 ^ 16 + h)) ++ rest) =
      Hex.printed 4 h :: Hex.printed 4 g :: groups rest := by
  have high : (swapped h * 2 ^ 16 + swapped g) / 16 ^ 4 = swapped h := by
    rw [swapped, swapped]
    omega
  have low : (swapped h * 2 ^ 16 + swapped g) % 16 ^ 4 = swapped g := by
    rw [swapped, swapped]
    omega
  rw [reversed_groups small small', Hex.printed_add 4 4, ← Hex.printed_mod 4 (_ + _), high, low,
    List.append_assoc, groups_printed small', groups_printed small]

theorem word_eq (bits : BitVec 128) {i : ℕ} (inside : i < 4) :
    word bits i = group bits (2 * i) * 2 ^ 16 + group bits (2 * i + 1) := by
  have higher : 112 - 16 * (2 * i) = 96 - 32 * i + 16 := by omega
  have lower : 112 - 16 * (2 * i + 1) = 96 - 32 * i := by omega
  rw [word, group, group, higher, lower, Nat.pow_add, ← Nat.div_div_eq_div_mul]
  omega

theorem group_lt (bits : BitVec 128) (i : ℕ) : group bits i < 2 ^ 16 := Nat.mod_lt _ (by decide)

def written (bits : BitVec 128) (i : ℕ) : List Char := Hex.printed 4 (group bits i)

/-- The groups, those of each word the other way round. -/
def exchanged (bits : BitVec 128) : List (List Char) :=
  (List.range 4).flatMap fun i => [written bits (2 * i + 1), written bits (2 * i)]

theorem groups_v6 (bits : BitVec 128) : groups (Address.v6 bits).printed = exchanged bits := by
  have all (indices : List ℕ) (inside : ∀ i ∈ indices, i < 4) :
      groups (indices.flatMap fun i => Hex.printed 8 (reversed (word bits i))) =
        indices.flatMap fun i => [written bits (2 * i + 1), written bits (2 * i)] := by
    induction indices with
    | nil => rfl
    | cons i indices ih =>
      have later := ih fun j member => inside j (List.mem_cons_of_mem _ member)
      rw [List.flatMap_cons, List.flatMap_cons, word_eq bits (inside i List.mem_cons_self),
        groups_word (group_lt bits _) (group_lt bits _), later]
      rfl
  exact all _ fun i => List.mem_range.mp

theorem decodeHex_v6 (bits : BitVec 128) :
    decodeHex (Address.v6 bits).printed = [':'].intercalate (exchanged bits) := by
  have long : (Address.v6 bits).printed.length = 32 := by
    rw [Address.printed, List.length_flatMap]
    simp only [Hex.length_printed]
    rfl
  rw [decodeHex, long, if_neg (by decide), if_pos rfl, groups_v6]

theorem colon_not_mem_printed (width n : ℕ) : ':' ∉ Hex.printed width n := by
  intro member
  obtain ⟨d, low, same⟩ := Hex.mem_printed member
  have all : ∀ d < 16, Hex.digit d ≠ ':' := by decide
  exact all d low same.symm

theorem written_inj {bits : BitVec 128} {i j : ℕ} (same : written bits i = written bits j) :
    group bits i = group bits j :=
  Hex.printed_injective (group_lt bits i) (group_lt bits j) same

/-- The text of an IPv6 address tells its groups. -/
theorem exchanged_of_text {bits : BitVec 128}
    (same : [':'].intercalate (exchanged bits) = (Address.v6 bits).text) :
    exchanged bits = (List.range 8).map (written bits) := by
  have free : ∀ part ∈ exchanged bits, ':' ∉ part := by
    intro part member
    obtain ⟨i, -, inside⟩ := List.mem_flatMap.mp member
    simp only [List.mem_cons, List.not_mem_nil, or_false] at inside
    rcases inside with rfl | rfl <;> exact colon_not_mem_printed 4 _
  have free' : ∀ part ∈ (List.range 8).map (written bits), ':' ∉ part := by
    intro part member
    obtain ⟨i, -, rfl⟩ := List.mem_map.mp member
    exact colon_not_mem_printed 4 _
  have split : ((Address.v6 bits).text).splitOn ':' = exchanged bits :=
    (Text.splitOn_eq_iff (List.cons_ne_nil _ _)).mpr ⟨same.symm, free⟩
  rw [← split]
  exact (Text.splitOn_eq_iff (List.cons_ne_nil _ _)).mpr ⟨rfl, free'⟩

/-- Any IPv4 address is read, and an IPv6 address in which the two groups of each word are the same. -/
theorem decodeHex_iff (address : Address) : decodeHex address.printed = address.text ↔ address.Doubled := by
  cases address with
  | v4 bits => exact iff_of_true (decodeHex_v4 bits) trivial
  | v6 bits =>
    rw [decodeHex_v6]
    constructor
    · intro same
      have parts := exchanged_of_text same
      intro i inside
      have place : (exchanged bits)[2 * i]? = ((List.range 8).map (written bits))[2 * i]? := by rw [parts]
      have four : i = 0 ∨ i = 1 ∨ i = 2 ∨ i = 3 := by omega
      rcases four with rfl | rfl | rfl | rfl <;> exact written_inj (Option.some.inj place).symm
    · intro doubled
      have parts : exchanged bits = (List.range 4).flatMap fun i => [written bits (2 * i), written bits (2 * i + 1)] := by
        refine List.flatMap_congr fun i member => ?_
        rw [written, written, doubled i (List.mem_range.mp member)]
      rw [parts]
      rfl

/-- Both decoders: any IPv4 address is read, and an IPv6 address in which the two groups of each word are
the same. -/
theorem decoders_iff (address : Address) :
    (decodeHexIp address.printed = address.text ∧ decodeHexAddr address.printed = address.text) ↔
      address.Doubled :=
  (and_self_iff).trans (decodeHex_iff address)

/-- The loopback address, as it is read. -/
theorem loopback_is_misread :
    decodeHexIp (Address.v6 1#128).printed = "0000:0000:0000:0000:0000:0000:0001:0000".toList ∧
      (Address.v6 1#128).text = "0000:0000:0000:0000:0000:0000:0000:0001".toList ∧
      decodeHexIp (Address.v6 1#128).printed ≠ (Address.v6 1#128).text := by
  refine ⟨?_, ?_, ?_⟩ <;> decide

end SysDeck.Web.ProcNet
