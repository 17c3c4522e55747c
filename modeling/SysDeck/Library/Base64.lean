import SysDeck.Library.Utf8

/-! The URL-safe base64 of bytes, without padding. The decoder takes both alphabets and
skips every other character, as Node's does. -/

namespace Base64

/-- The letter of six bits. -/
def letter (sextet : Fin 64) : Char :=
  let n := sextet.val
  if n < 26 then Char.ofNat (65 + n)
  else if n < 52 then Char.ofNat (71 + n)
  else if n < 62 then Char.ofNat (n - 4)
  else if n = 62 then '-' else '_'

def sextet? (c : Char) : Option (Fin 64) :=
  let n := c.toNat
  if 65 ≤ n ∧ n ≤ 90 then some (Fin.ofNat 64 (n - 65))
  else if 97 ≤ n ∧ n ≤ 122 then some (Fin.ofNat 64 (n - 71))
  else if 48 ≤ n ∧ n ≤ 57 then some (Fin.ofNat 64 (n + 4))
  else if c = '-' ∨ c = '+' then some 62
  else if c = '_' ∨ c = '/' then some 63
  else none

def pack : List Byte → List (Fin 64)
  | a :: b :: c :: rest =>
    Fin.ofNat 64 (a / 4) :: Fin.ofNat 64 (a % 4 * 16 + b / 16) ::
      Fin.ofNat 64 (b % 16 * 4 + c / 64) :: Fin.ofNat 64 (c % 64) :: pack rest
  | [a, b] => [Fin.ofNat 64 (a / 4), Fin.ofNat 64 (a % 4 * 16 + b / 16), Fin.ofNat 64 (b % 16 * 4)]
  | [a] => [Fin.ofNat 64 (a / 4), Fin.ofNat 64 (a % 4 * 16)]
  | [] => []

def unpack : List (Fin 64) → List Byte
  | p :: q :: r :: s :: rest =>
    Utf8.byte (p * 4 + q / 16) :: Utf8.byte (q % 16 * 16 + r / 4) ::
      Utf8.byte (r % 4 * 64 + s) :: unpack rest
  | [p, q, r] => [Utf8.byte (p * 4 + q / 16), Utf8.byte (q % 16 * 16 + r / 4)]
  | [p, q] => [Utf8.byte (p * 4 + q / 16)]
  | [_] | [] => []

def encode (bytes : List Byte) : List Char := (pack bytes).map letter

def decode (text : List Char) : List Byte := unpack (text.filterMap sextet?)

theorem sextet?_letter : ∀ sextet, sextet? (letter sextet) = some sextet := by decide

@[simp] theorem sextet_val (n : ℕ) : (Fin.ofNat 64 n).val = n % 64 := rfl

/-! The three bytes of four sextets. -/

theorem first_byte (a : Byte) {n : ℕ} (small : n < 16) :
    Utf8.byte (Fin.ofNat 64 (a / 4) * 4 + Fin.ofNat 64 (a % 4 * 16 + n) / 16 : ℕ) = a := by
  have := a.isLt
  ext
  simp only [Utf8.byte_val, sextet_val]
  omega

theorem second_byte {m n : ℕ} (b : Byte) (small : n < 4) :
    Utf8.byte (Fin.ofNat 64 (m * 16 + b / 16) % 16 * 16 + Fin.ofNat 64 (b % 16 * 4 + n) / 4 : ℕ) = b := by
  have := b.isLt
  ext
  simp only [Utf8.byte_val, sextet_val]
  omega

theorem third_byte {m : ℕ} (c : Byte) :
    Utf8.byte (Fin.ofNat 64 (m * 4 + c / 64) % 4 * 64 + Fin.ofNat 64 (c % 64) : ℕ) = c := by
  have := c.isLt
  ext
  simp only [Utf8.byte_val, sextet_val]
  omega

theorem unpack_pack (bytes : List Byte) : unpack (pack bytes) = bytes := by
  induction bytes using pack.induct with
  | case1 a b c rest ih =>
    have := b.isLt
    have := c.isLt
    rw [pack, unpack, ih, first_byte a (by omega), second_byte b (by omega), third_byte c]
  | case2 a b =>
    have := b.isLt
    have second := second_byte (m := a % 4) (n := 0) b (by omega)
    rw [Nat.add_zero] at second
    rw [pack, unpack, first_byte a (by omega), second]
  | case3 a =>
    have first := first_byte (n := 0) a (by omega)
    rw [Nat.add_zero] at first
    rw [pack, unpack, first]
  | case4 => rfl

@[simp] theorem decode_encode (bytes : List Byte) : decode (encode bytes) = bytes := by
  have letters : (pack bytes).filterMap (fun sextet => sextet? (letter sextet)) = pack bytes := by
    simp only [sextet?_letter, List.filterMap_some]
  rw [decode, encode, List.filterMap_map]
  exact (congrArg unpack letters).trans (unpack_pack bytes)

theorem sextet?_of_mem_encode {bytes : List Byte} {c : Char} (member : c ∈ encode bytes) :
    (sextet? c).isSome := by
  obtain ⟨sextet, _, rfl⟩ := List.mem_map.mp member
  rw [sextet?_letter]
  rfl

end Base64
