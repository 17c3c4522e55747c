import Mathlib.Data.List.Infix
import SysDeck.Library.Text

/-! Numbers, ports and IPv4 addresses as the tools of the packet filter read them: a leading
zero is for octal. -/

namespace Ipv4

structure Cidr where
  address : BitVec 32
  length : ℕ
  deriving DecidableEq

def Cidr.contains (cidr : Cidr) (address : BitVec 32) : Bool :=
  (address ^^^ cidr.address) >>> (32 - cidr.length) = 0#32

def digit (c : Char) : Bool := decide ('0' ≤ c) && decide (c ≤ '9')

def number (base : ℕ) (text : List Char) : ℕ :=
  text.foldl (fun value c => base * value + (c.toNat - 48)) 0

def readNumber (text : List Char) : Option ℕ :=
  if text = [] ∨ text.all digit = false then none
  else if text.head? = some '0' then
    if text.all (fun c => c ≤ '7') then some (number 8 text) else none
  else some (number 10 text)

def readPort (text : String) : Option (BitVec 16) :=
  ((readNumber text.toList).filter (· < 65536)).map (BitVec.ofNat 16)

def readAddress (text : List Char) : Option (BitVec 32) :=
  match (text.splitOn '.').map fun part => (readNumber part).filter (· < 256) with
  | [some a, some b, some c, some d] =>
    some (BitVec.ofNat 32 (((a * 256 + b) * 256 + c) * 256 + d))
  | _ => none

def readCidr (text : String) : Option Cidr :=
  match text.toList.splitOn '/' with
  | [address] => (readAddress address).map (⟨·, 32⟩)
  | [address, length] =>
    (readAddress address).bind fun address =>
      ((readNumber length).filter (· ≤ 32)).map (⟨address, ·⟩)
  | _ => none

/-! ### What can be read -/

theorem digit_of_readNumber {text : List Char} {value : ℕ} (reads : readNumber text = some value) :
    text ≠ [] ∧ ∀ c ∈ text, digit c := by
  unfold readNumber at reads
  split at reads
  · cases reads
  next bad =>
    rw [not_or, Bool.not_eq_false, List.all_eq_true] at bad
    exact bad

theorem digit_of_readPort {text : List Char} {port : BitVec 16}
    (reads : readPort (String.ofList text) = some port) : text ≠ [] ∧ ∀ c ∈ text, digit c := by
  obtain ⟨value, found, -⟩ := Option.map_eq_some_iff.mp reads
  rw [String.toList_ofList] at found
  exact digit_of_readNumber (Option.filter_eq_some_iff.mp found).1

theorem digit_of_readAddress {text : List Char} {address : BitVec 32}
    (reads : readAddress text = some address) : text ≠ [] ∧ ∀ c ∈ text, c = '.' ∨ digit c := by
  unfold readAddress at reads
  split at reads
  next a b c d parts =>
    have read : ∀ part ∈ text.splitOn '.', ∃ value, readNumber part = some value := by
      intro part member
      have image := List.mem_map_of_mem (f := fun part => (readNumber part).filter (· < 256)) member
      rw [parts] at image
      simp only [List.mem_cons, List.not_mem_nil, or_false] at image
      rcases image with read | read | read | read <;>
        exact ⟨_, (Option.filter_eq_some_iff.mp read).1⟩
    refine ⟨?_, fun letter member => (Text.mem_part_of_mem member).imp_right ?_⟩
    · rintro rfl
      obtain ⟨value, found⟩ := read [] (by simp)
      cases found
    · rintro ⟨part, inside, here⟩
      obtain ⟨value, found⟩ := read part inside
      exact (digit_of_readNumber found).2 letter here
  · cases reads

end Ipv4
