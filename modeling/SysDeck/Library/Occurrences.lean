import Mathlib.Algebra.GroupWithZero.Nat
import Mathlib.Data.List.Infix

/-! How often a text occurs in another, counted from the left without overlaps. -/

namespace Occurrences

variable {Letter : Type*} [DecidableEq Letter] {needle : List Letter}

/-- The count after some letters that an occurrence took. -/
def countFrom (needle : List Letter) : ℕ → List Letter → ℕ
  | _, [] => 0
  | taken + 1, _ :: rest => countFrom needle taken rest
  | 0, c :: rest =>
    if needle <+: c :: rest then countFrom needle (needle.length - 1) rest + 1
    else countFrom needle 0 rest

/-- `text.count(needle)` of a needle that is not empty. -/
def count (needle text : List Letter) : ℕ := countFrom needle 0 text

theorem countFrom_eq (taken : ℕ) (text : List Letter) :
    countFrom needle taken text = count needle (text.drop taken) := by
  induction text generalizing taken with
  | nil => simp [count, countFrom]
  | cons c text ih =>
    cases taken with
    | zero => rfl
    | succ taken => rw [countFrom, ih, List.drop_succ_cons]

@[simp] theorem count_nil : count needle [] = 0 := rfl

theorem count_needle_append (begun : needle ≠ []) (rest : List Letter) :
    count needle (needle ++ rest) = count needle rest + 1 := by
  obtain ⟨c, needle', same⟩ := List.exists_cons_of_ne_nil begun
  have occurs : needle <+: c :: (needle' ++ rest) := by
    rw [same]
    exact List.prefix_append (c :: needle') rest
  have later : (needle' ++ rest).drop (needle.length - 1) = rest := by
    rw [same, List.length_cons, Nat.add_sub_cancel, List.drop_left]
  conv_lhs => arg 2; rw [same, List.cons_append]
  rw [count, countFrom, if_pos occurs, countFrom_eq, later]

theorem count_of_not_head {c : Letter} {rest : List Letter} (other : ¬ needle <+: c :: rest) :
    count needle (c :: rest) = count needle rest := by
  rw [count, countFrom, if_neg other, count]

theorem count_eq_zero_of_not_infix {text : List Letter} (absent : ¬ needle <:+: text) :
    count needle text = 0 := by
  induction text with
  | nil => rfl
  | cons c text ih =>
    rw [count_of_not_head fun occurs => absent occurs.isInfix]
    exact ih fun occurs => absent (List.infix_cons occurs)

/-- There is an occurrence just when the needle is a part of the text. -/
theorem count_eq_zero_iff (begun : needle ≠ []) {text : List Letter} :
    count needle text = 0 ↔ ¬ needle <:+: text := by
  refine ⟨fun none => ?_, count_eq_zero_of_not_infix⟩
  induction text with
  | nil => exact fun occurs => begun (List.infix_nil.mp occurs)
  | cons c text ih =>
    intro occurs
    by_cases first : needle <+: c :: text
    · obtain ⟨rest, whole⟩ := first
      rw [← whole, count_needle_append begun] at none
      cases none
    · rw [count_of_not_head first] at none
      exact ih none ((List.infix_cons_iff.mp occurs).resolve_left first)

/-! ### Marks -/

variable {mark : Letter}

omit [DecidableEq Letter] in
/-- A needle does not reach over a mark that it does not have. -/
theorem prefix_append_mark_iff (free : mark ∉ needle) {before after : List Letter} :
    needle <+: before ++ mark :: after ↔ needle <+: before := by
  constructor
  · intro occurs
    rcases List.prefix_or_prefix_of_prefix occurs (List.prefix_append before _) with inside | ⟨rest, rfl⟩
    · exact inside
    · cases rest with
      | nil => rw [List.append_nil]
      | cons c rest =>
        obtain ⟨same, -⟩ := List.cons_prefix_cons.mp ((List.prefix_append_right_inj _).mp occurs)
        exact absurd (same ▸ List.mem_append_right before List.mem_cons_self) free
  · exact fun occurs => occurs.trans (List.prefix_append _ _)

theorem count_append_mark (begun : needle ≠ []) (free : mark ∉ needle) (before after : List Letter) :
    count needle (before ++ mark :: after) = count needle before + count needle after := by
  induction length : before.length using Nat.strong_induction_on generalizing before with
  | _ n ih =>
  by_cases occurs : needle <+: before
  · -- What is left after an occurrence is shorter, as the needle is not empty.
    obtain ⟨rest, rfl⟩ := occurs
    have shorter : rest.length < n := by
      have := List.length_pos_iff.mpr begun
      rw [List.length_append] at length
      omega
    rw [List.append_assoc, count_needle_append begun, count_needle_append begun, ih _ shorter rest rfl]
    omega
  · cases before with
    | nil =>
      have other : ¬ needle <+: mark :: after := fun there =>
        occurs ((prefix_append_mark_iff free).mp (show needle <+: [] ++ mark :: after from there))
      rw [List.nil_append, count_of_not_head other, count_nil, Nat.zero_add]
    | cons c before =>
      have other : ¬ needle <+: c :: (before ++ mark :: after) := fun there =>
        occurs ((prefix_append_mark_iff free).mp there)
      rw [List.cons_append, count_of_not_head other, count_of_not_head occurs,
        ih before.length (by simp [← length]) before rfl]

/-- The occurrences in parts that are joined with a mark. -/
theorem count_intercalate (begun : needle ≠ []) (free : mark ∉ needle) (parts : List (List Letter)) :
    count needle ([mark].intercalate parts) = (parts.map (count needle)).sum := by
  induction parts with
  | nil => rfl
  | cons part parts ih =>
    cases parts with
    | nil => rw [List.intercalate_singleton, List.map_singleton, List.sum_singleton]
    | cons next parts =>
      rw [List.intercalate_cons_cons, List.append_assoc, List.singleton_append,
        count_append_mark begun free, ih]
      rfl

section Ended

variable {word : List Letter}

omit [DecidableEq Letter] in
theorem ended_prefix_iff (free : mark ∉ word) {before after : List Letter} (clear : mark ∉ before) :
    word ++ [mark] <+: before ++ mark :: after ↔ word = before := by
  constructor
  · intro occurs
    have inside : word <+: before :=
      (prefix_append_mark_iff free).mp ((List.prefix_append word [mark]).trans occurs)
    obtain ⟨rest, rfl⟩ := inside
    rw [List.append_assoc, List.prefix_append_right_inj] at occurs
    cases rest with
    | nil => rw [List.append_nil]
    | cons c rest =>
      obtain ⟨same, -⟩ := List.cons_prefix_cons.mp occurs
      exact absurd (same ▸ List.mem_append_right word List.mem_cons_self) clear
  · rintro rfl
    exact ⟨after, by simp⟩

/-- A needle that ends with the mark occurs once for each part that ends with its word. -/
theorem count_ended (free : mark ∉ word) {before : List Letter} (clear : mark ∉ before)
    (after : List Letter) :
    count (word ++ [mark]) (before ++ mark :: after) =
      (if word <:+ before then 1 else 0) + count (word ++ [mark]) after := by
  have begun : word ++ [mark] ≠ [] := List.concat_ne_nil mark word
  induction before with
  | nil =>
    by_cases whole : word = []
    · subst whole
      rw [if_pos List.suffix_rfl, Nat.add_comm]
      exact count_needle_append begun after
    · have other : ¬ word ++ [mark] <+: mark :: after := fun occurs =>
        whole ((ended_prefix_iff free clear).mp (show word ++ [mark] <+: [] ++ mark :: after from occurs))
      rw [List.nil_append, count_of_not_head other, if_neg (by simpa using whole), Nat.zero_add]
  | cons c before ih =>
    have clear' : mark ∉ before := fun member => clear (List.mem_cons_of_mem c member)
    by_cases whole : word = c :: before
    · have parts : word ++ mark :: after = word ++ [mark] ++ after := by simp
      rw [← whole, if_pos List.suffix_rfl, Nat.add_comm, parts, count_needle_append begun]
    · have other : ¬ word ++ [mark] <+: c :: (before ++ mark :: after) := fun occurs =>
        whole ((ended_prefix_iff free clear).mp occurs)
      have same : word <:+ c :: before ↔ word <:+ before := by
        rw [List.suffix_cons_iff, or_iff_right whole]
      rw [List.cons_append, count_of_not_head other, ih clear']
      simp only [same]

end Ended

end Occurrences
