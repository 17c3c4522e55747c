import Mathlib.Data.Fin.Basic
import SysDeck.Library.Text

/-! UTF-16 code units, the strings of ECMAScript. A surrogate without its partner is
a code unit like any other, and no character. -/

abbrev CodeUnit := Fin 65536

instance Utf16.neZero : NeZero 65536 := ⟨by decide⟩

namespace Utf16

def unit (n : ℕ) : CodeUnit := Fin.ofNat 65536 n

@[simp] theorem unit_val (n : ℕ) : (unit n).val = n % 65536 := rfl

theorem unit_eq {n : ℕ} {u : CodeUnit} (value : n = u.val) : unit n = u := by
  subst value
  exact Fin.ext (Nat.mod_eq_of_lt u.isLt)

def encodeChar (c : Char) : List CodeUnit :=
  let n := c.toNat
  if n < 0x10000 then [unit n]
  else [unit (0xD800 + (n - 0x10000) / 1024), unit (0xDC00 + (n - 0x10000) % 1024)]

def encode (text : List Char) : List CodeUnit := text.flatMap encodeChar

/-- Text without pairs has a unit for each character. -/
theorem encode_of_basic {text : List Char} (basic : ∀ c ∈ text, c.toNat < 0x10000) :
    encode text = text.map fun c => unit c.toNat := by
  induction text with
  | nil => rfl
  | cons c text ih =>
    have here : encodeChar c = [unit c.toNat] := if_pos (basic c (List.mem_cons_self ..))
    have rest := ih fun d member => basic d (List.mem_cons_of_mem _ member)
    rw [encode, List.flatMap_cons, here, ← encode, rest]
    rfl

theorem length_encode (text : List Char) : (encode text).length = Text.utf16Length text := by
  induction text with
  | nil => rfl
  | cons c text ih =>
    have here : (encodeChar c).length = Text.units c := by
      unfold encodeChar Text.units
      dsimp only
      split <;> rfl
    rw [encode, List.flatMap_cons, List.length_append, here, ← encode, ih, Text.utf16Length_cons]

/-- The zero unit is the zero character: those of a pair are surrogates. -/
theorem zero_mem_encode {text : List Char} : 0 ∈ encode text ↔ Char.ofNat 0 ∈ text := by
  have each : ∀ c : Char, 0 ∈ encodeChar c ↔ c.toNat = 0 := by
    intro c
    have valid : c.toNat < 0xD800 ∨ 0xDFFF < c.toNat ∧ c.toNat < 0x110000 := c.valid
    have zero : ∀ n, 0 = unit n ↔ n % 65536 = 0 := by
      intro n
      rw [Fin.ext_iff, unit_val, eq_comm]
      rfl
    unfold encodeChar
    dsimp only
    split
    · rw [List.mem_singleton, zero]
      omega
    · rw [List.mem_pair, zero, zero]
      omega
  rw [encode, List.mem_flatMap]
  constructor
  · rintro ⟨c, member, zero⟩
    rw [← Char.ofNat_toNat c, (each c).mp zero] at member
    exact member
  · intro member
    exact ⟨_, member, (each _).mpr rfl⟩

def isHigh (u : CodeUnit) : Bool := 0xD800 ≤ u.val && u.val ≤ 0xDBFF

def isLow (u : CodeUnit) : Bool := 0xDC00 ≤ u.val && u.val ≤ 0xDFFF

/-- The character of a surrogate pair. -/
def pair (high low : CodeUnit) : Char :=
  Char.ofNat (0x10000 + (high.val - 0xD800) * 1024 + (low.val - 0xDC00))

/-- The characters of well-formed code units. -/
def decode? : List CodeUnit → Option (List Char)
  | [] => some []
  | [u] => if isHigh u || isLow u then none else some [Char.ofNat u]
  | u :: v :: rest =>
    if isHigh u then
      if isLow v then (decode? rest).map (pair u v :: ·) else none
    else if isLow u then none
    else (decode? (v :: rest)).map (Char.ofNat u :: ·)

theorem toNat_ofNat {n : ℕ} (valid : n.isValidChar) : (Char.ofNat n).toNat = n := by
  rw [Char.ofNat, dif_pos valid]
  rfl

theorem toNat_of_unit {u : CodeUnit} (high : isHigh u = false) (low : isLow u = false) :
    (Char.ofNat u).toNat = u := by
  have bound := u.isLt
  apply toNat_ofNat
  simp only [isHigh, isLow, Bool.and_eq_false_iff, decide_eq_false_iff_not] at high low
  unfold Nat.isValidChar
  omega

theorem toNat_pair {u v : CodeUnit} (high : isHigh u) (low : isLow v) :
    (pair u v).toNat = 0x10000 + (u.val - 0xD800) * 1024 + (v.val - 0xDC00) := by
  apply toNat_ofNat
  simp only [isHigh, isLow, Bool.and_eq_true, decide_eq_true_eq] at high low
  unfold Nat.isValidChar
  omega

/-- One unit is a character of its own. -/
theorem encodeChar_unit {u : CodeUnit} (high : isHigh u = false) (low : isLow u = false) :
    encodeChar (Char.ofNat u) = [u] := by
  rw [encodeChar, toNat_of_unit high low, if_pos u.isLt, unit_eq rfl]

/-- A pair is the units of its character. -/
theorem encodeChar_pair {u v : CodeUnit} (high : isHigh u) (low : isLow v) :
    encodeChar (pair u v) = [u, v] := by
  have value := toNat_pair high low
  simp only [isHigh, isLow, Bool.and_eq_true, decide_eq_true_eq] at high low
  have lead : unit (0xD800 + (u.val - 0xD800)) = u := by
    apply unit_eq
    omega
  have trail : unit (0xDC00 + (v.val - 0xDC00)) = v := by
    apply unit_eq
    omega
  rw [encodeChar, value, if_neg (by omega)]
  rw [show 0x10000 + (u.val - 0xD800) * 1024 + (v.val - 0xDC00) - 0x10000 =
    (v.val - 0xDC00) + 1024 * (u.val - 0xD800) by omega]
  rw [Nat.add_mul_div_left _ _ (by omega), Nat.add_mul_mod_self_left,
    Nat.div_eq_of_lt (by omega), Nat.mod_eq_of_lt (by omega), Nat.zero_add, lead, trail]

theorem encode_of_decode? {units : List CodeUnit} {text : List Char}
    (decoded : decode? units = some text) : encode text = units := by
  induction units using decode?.induct generalizing text with
  | case1 =>
    cases decoded
    rfl
  | case2 u lone => simp [decode?, lone] at decoded
  | case3 u plain =>
    rw [decode?, if_neg plain] at decoded
    cases decoded
    rw [Bool.or_eq_true, not_or, Bool.not_eq_true, Bool.not_eq_true] at plain
    rw [encode, List.flatMap_cons, encodeChar_unit plain.1 plain.2]
    rfl
  | case4 u v rest high low ih =>
    rw [decode?, if_pos high, if_pos low] at decoded
    obtain ⟨tail, inner, rfl⟩ := Option.map_eq_some_iff.mp decoded
    rw [encode, List.flatMap_cons, encodeChar_pair high low, ← encode, ih inner]
    rfl
  | case5 u v rest high low => simp [decode?, high, low] at decoded
  | case6 u v rest high low => simp [decode?, high, low] at decoded
  | case7 u v rest high low ih =>
    rw [decode?, if_neg high, if_neg low] at decoded
    obtain ⟨tail, inner, rfl⟩ := Option.map_eq_some_iff.mp decoded
    rw [Bool.not_eq_true] at high low
    rw [encode, List.flatMap_cons, encodeChar_unit high low, ← encode, ih inner]
    rfl

/-- A unit that is no surrogate is decoded on its own. -/
theorem decode?_unit {u : CodeUnit} (high : isHigh u = false) (low : isLow u = false)
    (rest : List CodeUnit) : decode? (u :: rest) = (decode? rest).map (Char.ofNat u :: ·) := by
  cases rest with
  | nil => simp [decode?, high, low]
  | cons v rest => simp [decode?, high, low]

theorem decode?_encodeChar (c : Char) (rest : List CodeUnit) :
    decode? (encodeChar c ++ rest) = (decode? rest).map (c :: ·) := by
  have valid : c.toNat < 0xD800 ∨ 0xDFFF < c.toNat ∧ c.toNat < 0x110000 := c.valid
  have same : Char.ofNat c.toNat = c := Char.ofNat_toNat c
  unfold encodeChar
  dsimp only
  split
  · rename_i basic
    have value : (unit c.toNat).val = c.toNat := by
      rw [unit_val]
      omega
    have high : isHigh (unit c.toNat) = false := by
      simp only [isHigh, value, Bool.and_eq_false_iff, decide_eq_false_iff_not]
      omega
    have low : isLow (unit c.toNat) = false := by
      simp only [isLow, value, Bool.and_eq_false_iff, decide_eq_false_iff_not]
      omega
    rw [List.singleton_append, decode?_unit high low, value, same]
  · rename_i wide
    generalize c.toNat = n at valid same wide ⊢
    have first : (unit (0xD800 + (n - 0x10000) / 1024)).val = 0xD800 + (n - 0x10000) / 1024 := by
      rw [unit_val]
      omega
    have second : (unit (0xDC00 + (n - 0x10000) % 1024)).val = 0xDC00 + (n - 0x10000) % 1024 := by
      rw [unit_val]
      omega
    have high : isHigh (unit (0xD800 + (n - 0x10000) / 1024)) = true := by
      simp only [isHigh, first, Bool.and_eq_true, decide_eq_true_eq]
      omega
    have low : isLow (unit (0xDC00 + (n - 0x10000) % 1024)) = true := by
      simp only [isLow, second, Bool.and_eq_true, decide_eq_true_eq]
      omega
    have whole : pair (unit (0xD800 + (n - 0x10000) / 1024)) (unit (0xDC00 + (n - 0x10000) % 1024)) =
        c := by
      have code : 0x10000 + (0xD800 + (n - 0x10000) / 1024 - 0xD800) * 1024 +
          (0xDC00 + (n - 0x10000) % 1024 - 0xDC00) = n := by
        have split := Nat.div_add_mod (n - 0x10000) 1024
        omega
      rw [pair, first, second, code, same]
    rw [List.cons_append, List.singleton_append, decode?, if_pos high, if_pos low, whole]

@[simp] theorem decode?_encode (text : List Char) : decode? (encode text) = some text := by
  induction text with
  | nil => rfl
  | cons c text ih =>
    rw [encode, List.flatMap_cons, decode?_encodeChar, ← encode, ih]
    rfl

/-- `text.trim()`: a surrogate is no blank. -/
def trim (units : List CodeUnit) : List CodeUnit :=
  (units.dropWhile blank).rdropWhile blank
where
  blank (u : CodeUnit) : Bool := Text.isBlank (Char.ofNat u)

end Utf16
