import Mathlib.Algebra.GroupWithZero.Nat
import Mathlib.Data.List.Basic
import Mathlib.Data.Fin.Basic

/-! UTF-8 over bytes. The decoder keeps the range of the next byte, as a sequence that
cannot be completed is one error and its last byte begins a new sequence. -/

abbrev Byte := Fin 256

instance Utf8.neZero : NeZero 256 := ⟨by decide⟩

namespace Utf8

def byte (n : ℕ) : Byte := Fin.ofNat 256 n

@[simp] theorem byte_val (n : ℕ) : (byte n).val = n % 256 := rfl

def encodeChar (c : Char) : List Byte :=
  let n := c.toNat
  if n < 0x80 then [byte n]
  else if n < 0x800 then [byte (0xC0 + n / 64), byte (0x80 + n % 64)]
  else if n < 0x10000 then
    [byte (0xE0 + n / 4096), byte (0x80 + n / 64 % 64), byte (0x80 + n % 64)]
  else
    [byte (0xF0 + n / 262144), byte (0x80 + n / 4096 % 64), byte (0x80 + n / 64 % 64),
      byte (0x80 + n % 64)]

def encode (text : List Char) : List Byte := text.flatMap encodeChar

/-- A sequence in progress: the bytes still missing, its code so far and the range of
the next byte. -/
structure Partial where
  missing : ℕ
  code : ℕ
  lower : ℕ
  upper : ℕ

/-- The first byte of a sequence: a whole character, a sequence or an error. -/
def first (b : Byte) : Option Partial ⊕ Char :=
  let n := b.val
  if n < 0x80 then .inr (Char.ofNat n)
  else if 0xC2 ≤ n ∧ n ≤ 0xDF then .inl (some ⟨1, n - 0xC0, 0x80, 0xBF⟩)
  else if 0xE0 ≤ n ∧ n ≤ 0xEF then
    .inl (some ⟨2, n - 0xE0, if n = 0xE0 then 0xA0 else 0x80, if n = 0xED then 0x9F else 0xBF⟩)
  else if 0xF0 ≤ n ∧ n ≤ 0xF4 then
    .inl (some ⟨3, n - 0xF0, if n = 0xF0 then 0x90 else 0x80, if n = 0xF4 then 0x8F else 0xBF⟩)
  else .inl none

/-- The characters of the bytes, `none` for each error. -/
def scan : Option Partial → List Byte → List (Option Char)
  | none, [] => []
  | some _, [] => [none]
  | none, b :: rest =>
    match first b with
    | .inr c => some c :: scan none rest
    | .inl none => none :: scan none rest
    | .inl (some begun) => scan (some begun) rest
  | some begun, b :: rest =>
    if begun.lower ≤ b.val ∧ b.val ≤ begun.upper then
      let code := begun.code * 64 + (b.val - 0x80)
      if begun.missing ≤ 1 then some (Char.ofNat code) :: scan none rest
      else scan (some ⟨begun.missing - 1, code, 0x80, 0xBF⟩) rest
    else
      match first b with
      | .inr c => none :: some c :: scan none rest
      | .inl none => none :: none :: scan none rest
      | .inl (some again) => none :: scan (some again) rest

/-- Every error is a replacement character. -/
def decode (bytes : List Byte) : List Char :=
  (scan none bytes).map fun c => c.getD (Char.ofNat 0xFFFD)

/-- Every error refuses the whole text. -/
def decodeStrict (bytes : List Byte) : Option (List Char) := (scan none bytes).mapM id

attribute [local simp] scan

theorem scan_first {b : Byte} {begun : Partial} (same : first b = .inl (some begun))
    (rest : List Byte) : scan none (b :: rest) = scan (some begun) rest := by
  rw [scan, same]

theorem scan_next {b : Byte} {begun : Partial} (range : begun.lower ≤ b.val ∧ b.val ≤ begun.upper)
    (more : 1 < begun.missing) (rest : List Byte) :
    scan (some begun) (b :: rest) =
      scan (some ⟨begun.missing - 1, begun.code * 64 + (b.val - 0x80), 0x80, 0xBF⟩) rest := by
  rw [scan, if_pos range, if_neg (by omega)]

theorem scan_last {b : Byte} {begun : Partial} (range : begun.lower ≤ b.val ∧ b.val ≤ begun.upper)
    (last : begun.missing = 1) (rest : List Byte) :
    scan (some begun) (b :: rest) =
      some (Char.ofNat (begun.code * 64 + (b.val - 0x80))) :: scan none rest := by
  rw [scan, if_pos range, if_pos (by omega)]

theorem scan_encodeChar (c : Char) (rest : List Byte) :
    scan none (encodeChar c ++ rest) = some c :: scan none rest := by
  have valid : c.toNat < 0xD800 ∨ 0xDFFF < c.toNat ∧ c.toNat < 0x110000 := c.valid
  have same : Char.ofNat c.toNat = c := Char.ofNat_toNat c
  unfold encodeChar
  generalize c.toNat = n at valid same ⊢
  dsimp only
  split
  · rename_i ascii
    have value : (byte n).val = n := by
      rw [byte_val]
      omega
    rw [List.singleton_append, scan, first, value, if_pos ascii, same]
  · split
    · have head : (byte (0xC0 + n / 64)).val = 0xC0 + n / 64 := by
        rw [byte_val]
        omega
      have last : (byte (0x80 + n % 64)).val = 0x80 + n % 64 := by
        rw [byte_val]
        omega
      have begun : first (byte (0xC0 + n / 64)) = .inl (some ⟨1, n / 64, 0x80, 0xBF⟩) := by
        unfold first
        rw [head]
        dsimp only
        rw [if_neg (by omega), if_pos (by omega), Nat.add_sub_cancel_left]
      rw [List.cons_append, List.singleton_append, scan_first begun,
        scan_last (by rw [last]; dsimp only; omega) rfl, last]
      dsimp only
      rw [show n / 64 * 64 + (0x80 + n % 64 - 0x80) = n by omega, same]
    · have middle : (byte (0x80 + n / 64 % 64)).val = 0x80 + n / 64 % 64 := by
        rw [byte_val]
        omega
      have last : (byte (0x80 + n % 64)).val = 0x80 + n % 64 := by
        rw [byte_val]
        omega
      split
      · have head : (byte (0xE0 + n / 4096)).val = 0xE0 + n / 4096 := by
          rw [byte_val]
          omega
        have begun : first (byte (0xE0 + n / 4096)) =
            .inl (some ⟨2, n / 4096, if 0xE0 + n / 4096 = 0xE0 then 0xA0 else 0x80,
              if 0xE0 + n / 4096 = 0xED then 0x9F else 0xBF⟩) := by
          unfold first
          rw [head]
          dsimp only
          rw [if_neg (by omega), if_neg (by omega), if_pos (by omega), Nat.add_sub_cancel_left]
        rw [List.cons_append, List.cons_append, List.singleton_append, scan_first begun,
          scan_next (by
            -- the shortest sequences and the surrogates are out of range
            rw [middle]
            dsimp only
            split <;> split <;> omega) (by show 1 < 2; omega),
          scan_last (by rw [last]; dsimp only; omega) rfl, last, middle]
        dsimp only
        rw [show (n / 4096 * 64 + (0x80 + n / 64 % 64 - 0x80)) * 64 + (0x80 + n % 64 - 0x80) = n by
          omega, same]
      · have second : (byte (0x80 + n / 4096 % 64)).val = 0x80 + n / 4096 % 64 := by
          rw [byte_val]
          omega
        have head : (byte (0xF0 + n / 262144)).val = 0xF0 + n / 262144 := by
          rw [byte_val]
          omega
        have begun : first (byte (0xF0 + n / 262144)) =
            .inl (some ⟨3, n / 262144, if 0xF0 + n / 262144 = 0xF0 then 0x90 else 0x80,
              if 0xF0 + n / 262144 = 0xF4 then 0x8F else 0xBF⟩) := by
          unfold first
          rw [head]
          dsimp only
          rw [if_neg (by omega), if_neg (by omega), if_neg (by omega), if_pos (by omega),
            Nat.add_sub_cancel_left]
        rw [List.cons_append, List.cons_append, List.cons_append, List.singleton_append,
          scan_first begun,
          scan_next (by
            rw [second]
            dsimp only
            split <;> split <;> omega) (by show 1 < 3; omega),
          scan_next (by rw [middle]; dsimp only; omega) (by show 1 < 2; omega),
          scan_last (by rw [last]; dsimp only; omega) rfl, last, middle, second]
        dsimp only
        rw [show ((n / 262144 * 64 + (0x80 + n / 4096 % 64 - 0x80)) * 64 +
          (0x80 + n / 64 % 64 - 0x80)) * 64 + (0x80 + n % 64 - 0x80) = n by omega, same]

theorem scan_encode (text : List Char) : scan none (encode text) = text.map some := by
  induction text with
  | nil => rfl
  | cons c text ih =>
    rw [encode, List.flatMap_cons, scan_encodeChar, ← encode, ih, List.map_cons]

@[simp] theorem decode_encode (text : List Char) : decode (encode text) = text := by
  rw [decode, scan_encode, List.map_map]
  exact List.map_id text

@[simp] theorem decodeStrict_encode (text : List Char) : decodeStrict (encode text) = some text := by
  rw [decodeStrict, scan_encode]
  induction text with
  | nil => rfl
  | cons c text ih =>
    rw [List.map_cons, List.mapM_cons, ih]
    rfl

theorem encode_injective : Function.Injective encode :=
  Function.LeftInverse.injective decode_encode

theorem zero_mem_encodeChar {c : Char} : 0 ∈ encodeChar c ↔ c.toNat = 0 := by
  have valid : c.toNat < 0xD800 ∨ 0xDFFF < c.toNat ∧ c.toNat < 0x110000 := c.valid
  have zero : ∀ n, 0 = byte n ↔ n % 256 = 0 := by
    intro n
    rw [Fin.ext_iff, byte_val, eq_comm]
    rfl
  unfold encodeChar
  dsimp only
  split
  · rw [List.mem_singleton, zero]
    omega
  · split
    · simp only [List.mem_cons, List.not_mem_nil, or_false, zero]
      omega
    · split
      · simp only [List.mem_cons, List.not_mem_nil, or_false, zero]
        omega
      · simp only [List.mem_cons, List.not_mem_nil, or_false, zero]
        omega

theorem length_encode_le (text : List Char) : (encode text).length ≤ 4 * text.length := by
  induction text with
  | nil => exact le_refl 0
  | cons c text ih =>
    have here : (encodeChar c).length ≤ 4 := by
      unfold encodeChar
      dsimp only
      split
      · exact Nat.le_of_ble_eq_true rfl
      · split
        · exact Nat.le_of_ble_eq_true rfl
        · split <;> exact Nat.le_of_ble_eq_true rfl
    rw [encode, List.flatMap_cons, List.length_append, List.length_cons, ← encode]
    omega

/-- Text of one byte a character. -/
def Ascii (text : List Char) : Prop := ∀ c ∈ text, c.toNat < 0x80

theorem Ascii.encode_eq {text : List Char} (ascii : Ascii text) :
    encode text = text.map fun c => byte c.toNat := by
  induction text with
  | nil => rfl
  | cons c text ih =>
    have here : encodeChar c = [byte c.toNat] := if_pos (ascii c (List.mem_cons_self ..))
    have rest := ih fun d member => ascii d (List.mem_cons_of_mem _ member)
    rw [encode, List.flatMap_cons, here, ← encode, rest]
    rfl

theorem Ascii.take {text : List Char} (ascii : Ascii text) (n : ℕ) : Ascii (text.take n) :=
  fun c member => ascii c (List.mem_of_mem_take member)

theorem Ascii.drop {text : List Char} (ascii : Ascii text) (n : ℕ) : Ascii (text.drop n) :=
  fun c member => ascii c (List.mem_of_mem_drop member)

/-- A cut between any two bytes is one between characters. -/
theorem Ascii.take_encode {text : List Char} (ascii : Ascii text) (n : ℕ) :
    (encode text).take n = encode (text.take n) := by
  rw [ascii.encode_eq, (ascii.take n).encode_eq, List.map_take]

theorem Ascii.drop_encode {text : List Char} (ascii : Ascii text) (n : ℕ) :
    (encode text).drop n = encode (text.drop n) := by
  rw [ascii.encode_eq, (ascii.drop n).encode_eq, List.map_drop]

end Utf8
