import Mathlib.Data.List.DropRight
import Mathlib.Data.List.Infix

/-! A text without the blanks around it. -/

namespace Strip

variable {blank : Char → Bool}

def stripBy (blank : Char → Bool) (text : List Char) : List Char :=
  (text.dropWhile blank).rdropWhile blank

theorem stripBy_infix (text : List Char) : stripBy blank text <:+: text :=
  (List.rdropWhile_prefix _ _).isInfix.trans (List.dropWhile_suffix _).isInfix

theorem stripBy_of_ends {text : List Char} (starts : ∀ c ∈ text.head?, blank c = false)
    (ends : ∀ c ∈ text.getLast?, blank c = false) : stripBy blank text = text := by
  have front : text.dropWhile blank = text := by
    cases text with
    | nil => rfl
    | cons c text => exact List.dropWhile_cons_of_neg (by simp [starts c rfl])
  rw [stripBy, front, List.rdropWhile_eq_self_iff]
  intro nonempty
  simp [ends _ (List.getLast_mem_getLast? nonempty)]

theorem head_dropWhile (text : List Char) : ∀ c ∈ (text.dropWhile blank).head?, blank c = false := by
  intro c head
  have stop := List.head?_dropWhile_not blank text
  rw [Option.mem_def.mp head] at stop
  simpa using stop

theorem head_stripBy (text : List Char) : ∀ c ∈ (stripBy blank text).head?, blank c = false := by
  intro c head
  obtain ⟨rest, whole⟩ := List.rdropWhile_prefix blank (text.dropWhile blank)
  refine head_dropWhile text c ?_
  rw [← whole, ← stripBy]
  cases front : stripBy blank text with
  | nil =>
    rw [front] at head
    cases head
  | cons d front' =>
    rw [front] at head
    exact head

theorem last_stripBy (text : List Char) : ∀ c ∈ (stripBy blank text).getLast?, blank c = false := by
  intro c last
  have nonempty : stripBy blank text ≠ [] := by
    intro empty
    rw [empty] at last
    cases last
  have stop := List.rdropWhile_last_not blank (text.dropWhile blank) nonempty
  rw [Option.mem_def, List.getLast?_eq_some_getLast nonempty, Option.some.injEq] at last
  rw [← last]
  exact Bool.eq_false_iff.mpr stop

theorem stripBy_stripBy (text : List Char) : stripBy blank (stripBy blank text) = stripBy blank text :=
  stripBy_of_ends (head_stripBy text) (last_stripBy text)

/-- Blanks before and after what is left play no part. -/
theorem stripBy_of_blanks {before text after : List Char} (all : ∀ c ∈ before, blank c)
    (all' : ∀ c ∈ after, blank c) (starts : ∀ c ∈ text.head?, blank c = false)
    (ends : ∀ c ∈ text.getLast?, blank c = false) (begun : text ≠ []) :
    stripBy blank (before ++ text ++ after) = text := by
  obtain ⟨c, text, rfl⟩ := List.exists_cons_of_ne_nil begun
  have front : (before ++ c :: text ++ after).dropWhile blank = c :: text ++ after := by
    rw [List.append_assoc, List.dropWhile_append_of_pos all]
    exact List.dropWhile_cons_of_neg (by simp [starts c rfl])
  have back : (c :: text).rdropWhile blank = c :: text := by
    rw [List.rdropWhile_eq_self_iff]
    intro nonempty
    simp [ends _ (List.getLast_mem_getLast? nonempty)]
  rw [stripBy, front]
  induction after using List.reverseRecOn with
  | nil => rw [List.append_nil, back]
  | append_singleton after d ih =>
    rw [← List.append_assoc, List.rdropWhile_concat_pos _ _ _ (all' d (by simp))]
    refine ih (fun e member => all' e (by simp [member])) ?_
    rw [List.append_assoc, List.dropWhile_append_of_pos all]
    exact List.dropWhile_cons_of_neg (by simp [starts c rfl])

theorem stripBy_eq_nil_iff {text : List Char} : stripBy blank text = [] ↔ ∀ c ∈ text, blank c := by
  constructor
  · intro empty
    rw [stripBy, List.rdropWhile_eq_nil_iff] at empty
    have whole := List.takeWhile_append_dropWhile (p := blank) (l := text)
    intro c member
    rw [← whole] at member
    rcases List.mem_append.mp member with front | back
    · exact List.mem_takeWhile_imp front
    · exact empty c back
  · intro all
    rw [stripBy, List.dropWhile_eq_nil_iff.mpr all]
    rfl

end Strip
