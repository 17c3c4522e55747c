import Mathlib.Data.List.Basic

/-! Text joined with a separator splits back in one way, at the last separator
when the right part has none and at the first when the left part has none. -/

universe u

namespace Separator

variable {Letter : Type u}

/-- Two joins at a separator the left parts do not contain agree part by part. -/
theorem first_inj {mark : Letter} {left right left' right' : List Letter}
    (free : mark ∉ left) (free' : mark ∉ left')
    (same : left ++ mark :: right = left' ++ mark :: right') : left = left' ∧ right = right' := by
  induction left generalizing left' with
  | nil =>
    cases left' with
    | nil => exact ⟨rfl, by simpa using same⟩
    | cons head tail =>
      simp only [List.nil_append, List.cons_append, List.cons.injEq] at same
      exact absurd (same.1 ▸ List.mem_cons_self) free'
  | cons head tail ih =>
    cases left' with
    | nil =>
      simp only [List.nil_append, List.cons_append, List.cons.injEq] at same
      exact absurd (same.1 ▸ List.mem_cons_self) free
    | cons head' tail' =>
      simp only [List.cons_append, List.cons.injEq] at same
      rw [List.mem_cons, not_or] at free free'
      obtain ⟨tails, rights⟩ := ih free.2 free'.2 same.2
      exact ⟨by rw [same.1, tails], rights⟩

/-- Two joins at a separator the right parts do not contain agree part by part. -/
theorem last_inj {mark : Letter} {left right left' right' : List Letter}
    (free : mark ∉ right) (free' : mark ∉ right')
    (same : left ++ mark :: right = left' ++ mark :: right') : left = left' ∧ right = right' := by
  have mirrored : right.reverse ++ mark :: left.reverse = right'.reverse ++ mark :: left'.reverse := by
    simpa using congrArg List.reverse same
  obtain ⟨rights, lefts⟩ := first_inj (by simpa using free) (by simpa using free') mirrored
  exact ⟨List.reverse_injective lefts, List.reverse_injective rights⟩

/-- A text with a single separator splits in one way. -/
theorem single_inj {mark : Letter} {left right left' right' : List Letter}
    (free : mark ∉ left') (free' : mark ∉ right')
    (same : left ++ mark :: right = left' ++ mark :: right') : left = left' ∧ right = right' := by
  refine first_inj ?_ free same
  intro inside
  induction left generalizing left' with
  | nil => cases inside
  | cons head tail ih =>
    cases left' with
    | nil =>
      simp only [List.nil_append, List.cons_append, List.cons.injEq] at same
      exact free' (same.2 ▸ List.mem_append_right _ List.mem_cons_self)
    | cons head' tail' =>
      simp only [List.cons_append, List.cons.injEq] at same
      rw [List.mem_cons, not_or] at free
      rcases List.mem_cons.mp inside with here | later
      · exact free.1 (here.trans same.1)
      · exact ih free.2 same.2 later

/-- The text before the first separator has none. -/
theorem split_first [DecidableEq Letter] {mark found : Letter} {letters rest : List Letter}
    (tail : letters.dropWhile (· ≠ mark) = found :: rest) :
    letters = letters.takeWhile (· ≠ mark) ++ mark :: rest ∧
      mark ∉ letters.takeWhile (· ≠ mark) := by
  induction letters with
  | nil => cases tail
  | cons head letters ih =>
    by_cases same : head = mark
    · subst same
      simp only [ne_eq, not_true_eq_false, decide_false, Bool.false_eq_true, not_false_eq_true,
        List.dropWhile_cons_of_neg, List.cons.injEq] at tail
      simp [tail.2]
    · have later : letters.dropWhile (· ≠ mark) = found :: rest := by
        simpa [List.dropWhile_cons, same] using tail
      obtain ⟨split, free⟩ := ih later
      rw [List.takeWhile_cons_of_pos (by simpa using same)]
      refine ⟨by rw [List.cons_append, ← split], ?_⟩
      rw [List.mem_cons, not_or]
      exact ⟨Ne.symm same, free⟩

theorem takeWhile_join [DecidableEq Letter] {mark : Letter} {left : List Letter}
    (free : mark ∉ left) (right : List Letter) :
    (left ++ mark :: right).takeWhile (· ≠ mark) = left ∧
      (left ++ mark :: right).dropWhile (· ≠ mark) = mark :: right := by
  have apart : ∀ letter ∈ left, decide (letter ≠ mark) = true := by
    intro letter member
    exact decide_eq_true fun same => free (same ▸ member)
  rw [List.takeWhile_append_of_pos apart, List.dropWhile_append_of_pos apart]
  simp

/-- The same for strings joined with a one-letter separator. -/
theorem join_last_inj {mark : String} (letter : Char) (single : mark.toList = [letter])
    {left right left' right' : String} (free : letter ∉ right.toList) (free' : letter ∉ right'.toList)
    (same : left ++ mark ++ right = left' ++ mark ++ right') : left = left' ∧ right = right' := by
  have lists : left.toList ++ letter :: right.toList = left'.toList ++ letter :: right'.toList := by
    simpa [single] using congrArg String.toList same
  obtain ⟨lefts, rights⟩ := last_inj free free' lists
  exact ⟨String.toList_inj.mp lefts, String.toList_inj.mp rights⟩

end Separator
