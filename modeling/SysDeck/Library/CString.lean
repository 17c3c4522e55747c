import Mathlib.Data.List.TakeWhile
import SysDeck.Library.Utf8

/-! Strings of C: the bytes before the first zero. -/

structure CString where
  bytes : List Byte
  terminated : 0 ∉ bytes
  deriving DecidableEq

namespace CString

/-- What a C function reads of a buffer. -/
def ofBytes (buffer : List Byte) : CString where
  bytes := buffer.takeWhile (· ≠ 0)
  terminated := by
    intro member
    have nonzero := List.mem_takeWhile_imp member
    simp at nonzero

/-- Only a buffer without a zero is read whole. -/
theorem bytes_ofBytes_iff {buffer : List Byte} : (ofBytes buffer).bytes = buffer ↔ 0 ∉ buffer := by
  constructor
  · intro same
    rw [← same]
    exact (ofBytes buffer).terminated
  · intro free
    apply List.takeWhile_eq_self_iff.mpr
    intro b member
    rw [decide_eq_true_eq]
    rintro rfl
    exact free member

/-- The zero byte is the zero character, as no other one has it in its encoding. -/
theorem zero_mem_encode {text : List Char} : 0 ∈ Utf8.encode text ↔ Char.ofNat 0 ∈ text := by
  rw [Utf8.encode, List.mem_flatMap]
  constructor
  · rintro ⟨c, member, zero⟩
    have same : c.toNat = 0 := Utf8.zero_mem_encodeChar.mp zero
    rw [← Char.ofNat_toNat c, same] at member
    exact member
  · intro member
    exact ⟨_, member, Utf8.zero_mem_encodeChar.mpr rfl⟩

end CString
