import Mathlib.Data.List.DropRight
import Mathlib.Data.List.Induction
import Mathlib.Algebra.BigOperators.Group.List.Basic
import Mathlib.Algebra.GroupWithZero.Nat

/-! Text as a list of characters, with the string primitives of ECMAScript: the
blank characters of `\s` and trim(). Splitting at a character is `List.splitOn`. -/

namespace Text

/-- White space and line terminators. -/
def isBlank (c : Char) : Bool :=
  let n := c.toNat
  (0x9 ≤ n && n ≤ 0xD) || n = 0x20 || n = 0xA0 || n = 0x1680 || (0x2000 ≤ n && n ≤ 0x200A) ||
    n = 0x2028 || n = 0x2029 || n = 0x202F || n = 0x205F || n = 0x3000 || n = 0xFEFF

def trimStart (text : List Char) : List Char := text.dropWhile isBlank

def trim (text : List Char) : List Char := (trimStart text).rdropWhile isBlank

/-- A text that begins and ends with a visible character. -/
def Tight (text : List Char) : Prop :=
  (∀ c ∈ text.head?, isBlank c = false) ∧ ∀ c ∈ text.getLast?, isBlank c = false

theorem trimStart_of_head {text : List Char} (visible : ∀ c ∈ text.head?, isBlank c = false) :
    trimStart text = text := by
  cases text with
  | nil => rfl
  | cons head tail => exact List.dropWhile_cons_of_neg (by simp [visible head rfl])

theorem trim_of_tight {text : List Char} (tight : Tight text) : trim text = text := by
  rw [trim, trimStart_of_head tight.1, List.rdropWhile_eq_self_iff]
  intro nonempty
  rw [tight.2 _ (List.getLast_mem_getLast? nonempty)]
  exact Bool.false_ne_true

theorem tight_append {first second : List Char} (nonempty : first ≠ []) (nonempty' : second ≠ [])
    (head : ∀ c ∈ first.head?, isBlank c = false) (last : ∀ c ∈ second.getLast?, isBlank c = false) :
    Tight (first ++ second) := by
  constructor
  · rwa [List.head?_append_of_ne_nil _ nonempty]
  · rwa [List.getLast?_append_of_ne_nil _ nonempty']

theorem tight_of_visible {text : List Char} (visible : ∀ c ∈ text, isBlank c = false) : Tight text :=
  ⟨fun c first => visible c (List.mem_of_mem_head? first),
    fun c last => visible c (List.mem_of_mem_getLast? last)⟩

theorem head?_trimStart (text : List Char) : ∀ c ∈ (trimStart text).head?, isBlank c = false := by
  intro c head
  have stop := List.head?_dropWhile_not isBlank text
  rw [Option.mem_def] at head
  unfold trimStart at head
  rw [head] at stop
  simpa using stop

theorem tight_trim (text : List Char) : Tight (trim text) := by
  constructor
  · intro c member
    obtain ⟨rest, whole⟩ := List.rdropWhile_prefix isBlank (trimStart text)
    refine head?_trimStart text c ?_
    unfold trim at member
    cases front : (trimStart text).rdropWhile isBlank with
    | nil =>
      rw [front] at member
      cases member
    | cons d front' =>
      rw [front] at member whole
      rw [← whole]
      exact member
  · intro c member
    have nonempty : trim text ≠ [] := by
      intro empty
      rw [empty] at member
      cases member
    have last := List.rdropWhile_last_not isBlank (trimStart text) nonempty
    rw [Option.mem_def, List.getLast?_eq_some_getLast nonempty, Option.some.injEq] at member
    rw [← member]
    exact Bool.eq_false_iff.mpr last

theorem not_mem_of_mem_splitOn {α : Type*} [BEq α] [LawfulBEq α] {separator : α} {text part : List α}
    (member : part ∈ text.splitOn separator) : separator ∉ part := by
  induction text generalizing part with
  | nil =>
    rw [List.splitOn_nil, List.mem_singleton] at member
    simp [member]
  | cons c text ih =>
    rw [List.splitOn_cons_eq_if_modifyHead] at member
    split at member
    · rcases List.mem_cons.mp member with rfl | member
      · exact List.not_mem_nil
      · exact ih member
    · rename_i differ
      obtain ⟨first, rest, split⟩ := List.exists_cons_of_ne_nil (List.splitOn_ne_nil separator text)
      rw [split, List.modifyHead_cons, List.mem_cons] at member
      rcases member with rfl | member
      · have inner : separator ∉ first := ih (by simp [split])
        rw [List.mem_cons, not_or]
        exact ⟨fun same => differ (beq_iff_eq.mpr same.symm), inner⟩
      · exact ih (by simp [split, member])

theorem mem_part_of_mem {α : Type*} [BEq α] [LawfulBEq α] {separator c : α} {text : List α}
    (member : c ∈ text) : c = separator ∨ ∃ part ∈ text.splitOn separator, c ∈ part := by
  induction text with
  | nil => cases member
  | cons d text ih =>
    rw [List.splitOn_cons_eq_if_modifyHead]
    split
    · rename_i same
      rcases List.mem_cons.mp member with rfl | later
      · exact .inl (beq_iff_eq.mp same)
      · exact (ih later).imp_right fun ⟨part, inside, here⟩ => ⟨part, List.mem_cons_of_mem _ inside, here⟩
    · obtain ⟨first, rest, split⟩ := List.exists_cons_of_ne_nil (List.splitOn_ne_nil separator text)
      rw [split, List.modifyHead_cons]
      rcases List.mem_cons.mp member with rfl | later
      · exact .inr ⟨c :: first, List.mem_cons_self, List.mem_cons_self⟩
      · refine (ih later).imp_right ?_
        rintro ⟨part, inside, here⟩
        rw [split, List.mem_cons] at inside
        rcases inside with rfl | inside
        · exact ⟨d :: part, List.mem_cons_self, List.mem_cons_of_mem _ here⟩
        · exact ⟨part, List.mem_cons_of_mem _ inside, here⟩

theorem mem_of_mem_part {α : Type*} [BEq α] [LawfulBEq α] {separator c : α} {text part : List α}
    (inside : part ∈ text.splitOn separator) (member : c ∈ part) : c ∈ text := by
  induction text generalizing part with
  | nil =>
    rw [List.splitOn_nil, List.mem_singleton] at inside
    rw [inside] at member
    cases member
  | cons d text ih =>
    rw [List.splitOn_cons_eq_if_modifyHead] at inside
    split at inside
    · rcases List.mem_cons.mp inside with rfl | later
      · cases member
      · exact List.mem_cons_of_mem d (ih later member)
    · obtain ⟨first, rest, split⟩ := List.exists_cons_of_ne_nil (List.splitOn_ne_nil separator text)
      rw [split, List.modifyHead_cons] at inside
      rcases List.mem_cons.mp inside with rfl | later
      · rcases List.mem_cons.mp member with rfl | member
        · exact List.mem_cons_self
        · exact List.mem_cons_of_mem d (ih (split ▸ List.mem_cons_self) member)
      · exact List.mem_cons_of_mem d (ih (split ▸ List.mem_cons_of_mem first later) member)

theorem mem_intercalate {α : Type*} {separator c : α} {parts : List (List α)}
    (member : c ∈ [separator].intercalate parts) : c = separator ∨ ∃ part ∈ parts, c ∈ part := by
  induction parts with
  | nil => cases member
  | cons part parts ih =>
    cases parts with
    | nil =>
      rw [List.intercalate_singleton] at member
      exact .inr ⟨part, List.mem_cons_self, member⟩
    | cons next parts =>
      rw [List.intercalate_cons_cons] at member
      rcases List.mem_append.mp member with front | later
      · rcases List.mem_append.mp front with own | mark
        · exact .inr ⟨part, List.mem_cons_self, own⟩
        · exact .inl (List.mem_singleton.mp mark)
      · refine (ih later).imp_right ?_
        rintro ⟨other, inside, here⟩
        exact ⟨other, List.mem_cons_of_mem _ inside, here⟩

/-- The parts between separators, and no others, are free of them. -/
theorem splitOn_eq_iff {α : Type*} [BEq α] [LawfulBEq α] {separator : α} {text : List α}
    {parts : List (List α)} (nonempty : parts ≠ []) :
    text.splitOn separator = parts ↔
      text = [separator].intercalate parts ∧ ∀ part ∈ parts, separator ∉ part := by
  constructor
  · rintro rfl
    exact ⟨(List.intercalate_splitOn separator).symm, fun part => not_mem_of_mem_splitOn⟩
  · rintro ⟨rfl, free⟩
    exact List.splitOn_intercalate separator free nonempty

theorem intercalate_append {α : Type*} {separator : List α} {first second : List (List α)}
    (nonempty : first ≠ []) (nonempty' : second ≠ []) :
    separator.intercalate (first ++ second) =
      separator.intercalate first ++ separator ++ separator.intercalate second := by
  induction first with
  | nil => exact absurd rfl nonempty
  | cons line first ih =>
    rw [List.cons_append, List.intercalate_cons_of_ne_nil (by simp [nonempty'])]
    by_cases last : first = []
    · simp [last]
    · rw [ih last, List.intercalate_cons_of_ne_nil last]
      simp

/-- Joined blocks of joined lines are the joined lines. -/
theorem intercalate_flatten {α : Type*} {separator : List α} {blocks : List (List (List α))}
    (nonempty : ∀ block ∈ blocks, block ≠ []) :
    separator.intercalate (blocks.map separator.intercalate) =
      separator.intercalate blocks.flatten := by
  induction blocks with
  | nil => rfl
  | cons block blocks ih =>
    have rest := ih fun other member => nonempty other (List.mem_cons_of_mem _ member)
    rw [List.map_cons, List.flatten_cons]
    by_cases last : blocks = []
    · simp [last]
    · obtain ⟨second, blocks, rfl⟩ := List.exists_cons_of_ne_nil last
      have more : (second :: blocks).flatten ≠ [] := by
        rw [List.flatten_cons]
        exact List.append_ne_nil_of_left_ne_nil
          (nonempty second (List.mem_cons_of_mem _ List.mem_cons_self)) _
      rw [List.intercalate_cons_of_ne_nil (by simp), rest,
        intercalate_append (nonempty block List.mem_cons_self) more]

/-- The UTF-16 code units of a character. -/
def units (c : Char) : ℕ := if c.toNat < 0x10000 then 1 else 2

theorem units_pos (c : Char) : 0 < units c := by
  unfold units
  split <;> decide

/-- The length in UTF-16 code units. -/
def utf16Length (text : List Char) : ℕ := (text.map units).sum

@[simp] theorem utf16Length_cons (c : Char) (text : List Char) :
    utf16Length (c :: text) = units c + utf16Length text := by
  rw [utf16Length, List.map_cons, List.sum_cons, ← utf16Length]

theorem utf16Length_of_basic {text : List Char} (basic : ∀ c ∈ text, c.toNat < 0x10000) :
    utf16Length text = text.length := by
  induction text with
  | nil => rfl
  | cons c text ih =>
    have here : units c = 1 := if_pos (basic c (List.mem_cons_self ..))
    have rest := ih fun d member => basic d (List.mem_cons_of_mem _ member)
    rw [utf16Length_cons, here, rest, List.length_cons, Nat.add_comm]

theorem utf16Length_eq_zero {text : List Char} : utf16Length text = 0 ↔ text = [] := by
  cases text with
  | nil => exact iff_of_true rfl rfl
  | cons c text =>
    have := units_pos c
    rw [utf16Length_cons]
    exact iff_of_false (by omega) (List.cons_ne_nil c text)

/-- The first n UTF-16 code units; half a surrogate pair is the replacement character. -/
def slice : ℕ → List Char → List Char
  | _, [] => []
  | n, c :: rest =>
    if units c ≤ n then c :: slice (n - units c) rest
    else if n = 0 then [] else [Char.ofNat 0xFFFD]

theorem utf16Length_slice_le (n : ℕ) (text : List Char) : utf16Length (slice n text) ≤ n := by
  induction text generalizing n with
  | nil => exact Nat.zero_le n
  | cons c text ih =>
    rw [slice]
    split
    · have rest := ih (n - units c)
      rw [utf16Length_cons]
      omega
    · split
      · exact Nat.zero_le n
      · have half : utf16Length [Char.ofNat 0xFFFD] = 1 := by decide
        omega

theorem slice_of_le {n : ℕ} {text : List Char} (short : utf16Length text ≤ n) :
    slice n text = text := by
  induction text generalizing n with
  | nil => rfl
  | cons c text ih =>
    rw [utf16Length_cons] at short
    rw [slice, if_pos (by omega), ih (by omega)]

attribute [local simp] slice

/-- Only a longer text is cut. -/
theorem slice_eq_self_iff {n : ℕ} {text : List Char} : slice n text = text ↔ utf16Length text ≤ n :=
  ⟨fun same => same ▸ utf16Length_slice_le n text, slice_of_le⟩

theorem mem_slice {n : ℕ} {text : List Char} {c : Char} (member : c ∈ slice n text) :
    c ∈ text ∨ c = Char.ofNat 0xFFFD := by
  induction text generalizing n with
  | nil => cases member
  | cons d text ih =>
    rw [slice] at member
    split at member
    · rcases List.mem_cons.mp member with rfl | later
      · exact .inl List.mem_cons_self
      · exact (ih later).imp_left (List.mem_cons_of_mem d)
    · split at member
      · cases member
      · exact .inr (List.mem_singleton.mp member)

/-- The last n UTF-16 code units. -/
def lastUnits (n : ℕ) (text : List Char) : List Char := (slice n text.reverse).reverse

theorem utf16Length_reverse (text : List Char) : utf16Length text.reverse = utf16Length text := by
  rw [utf16Length, List.map_reverse, List.sum_reverse, utf16Length]

theorem lastUnits_of_le {n : ℕ} {text : List Char} (short : utf16Length text ≤ n) :
    lastUnits n text = text := by
  rw [lastUnits, slice_of_le, List.reverse_reverse]
  rw [utf16Length_reverse]
  exact short

/-- `text.replace(pattern, replacement)`: the first occurrence. -/
def replaceFirst (pattern replacement : List Char) : List Char → List Char
  | [] => if pattern = [] then replacement else []
  | c :: rest =>
    if pattern <+: c :: rest then replacement ++ (c :: rest).drop pattern.length
    else c :: replaceFirst pattern replacement rest

end Text
