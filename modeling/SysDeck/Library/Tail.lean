import Mathlib.Data.List.DropRight
import Mathlib.Data.Nat.Init
import Mathlib.Tactic.Common

/-! The last elements of a list, where two lists end alike, and how many copies of one element a
list ends with. -/

namespace Tail

section

variable {α : Type*}

theorem rtake_of_length_le {n : ℕ} {l : List α} (short : l.length ≤ n) : l.rtake n = l := by
  rw [List.rtake, Nat.sub_eq_zero_of_le short, List.drop_zero]

theorem take_append_take (n : ℕ) (front back : List α) :
    (front ++ back.take n).take n = (front ++ back).take n := by
  rw [List.take_append, List.take_append, List.take_take, Nat.min_eq_left (Nat.sub_le ..)]

/-- What a cut to the last `n` elements drops is no part of the last `n` later. -/
theorem rtake_append (n : ℕ) (front back : List α) :
    (front.rtake n ++ back).rtake n = (front ++ back).rtake n := by
  rw [List.rtake_eq_reverse_take_reverse, List.rtake_eq_reverse_take_reverse,
    List.rtake_eq_reverse_take_reverse, List.reverse_append, List.reverse_append,
    List.reverse_reverse, take_append_take]

end

variable {α : Type*} [DecidableEq α]

/-- How many copies of the element the list begins with. -/
def lead (fill : α) (l : List α) : ℕ := (l.takeWhile (· = fill)).length

/-- How many copies of the element the list ends with. -/
def trail (fill : α) (l : List α) : ℕ := lead fill l.reverse

@[simp] theorem lead_nil (fill : α) : lead fill [] = 0 := rfl

@[simp] theorem lead_cons_self (fill : α) (l : List α) : lead fill (fill :: l) = lead fill l + 1 := by
  simp [lead]

theorem lead_cons_of_ne {fill x : α} (other : x ≠ fill) (l : List α) : lead fill (x :: l) = 0 := by
  simp [lead, other]

theorem lead_replicate_append (fill : α) (n : ℕ) (l : List α) :
    lead fill (List.replicate n fill ++ l) = n + lead fill l := by
  induction n with
  | zero => simp
  | succ n ih =>
    rw [List.replicate_succ, List.cons_append, lead_cons_self, ih]
    omega

/-- The longer run of copies stays the longer one behind any elements. -/
theorem lead_append_le {fill : α} {l m : List α} (le : lead fill l ≤ lead fill m) (front : List α) :
    lead fill (front ++ l) ≤ lead fill (front ++ m) := by
  induction front with
  | nil => exact le
  | cons x front ih =>
    by_cases same : x = fill
    · subst same
      rw [List.cons_append, List.cons_append, lead_cons_self, lead_cons_self]
      exact Nat.succ_le_succ ih
    · rw [List.cons_append, lead_cons_of_ne same]
      exact Nat.zero_le _

/-- Two lists that begin with different numbers of copies agree up to the smaller number. -/
theorem take_eq_iff {fill : α} {l m : List α} (less : lead fill m < lead fill l) (n : ℕ) :
    l.take n = m.take n ↔ n ≤ lead fill m := by
  induction m generalizing l n with
  | nil =>
    cases l with
    | nil => exact absurd less (Nat.lt_irrefl 0)
    | cons x l => simp
  | cons y m ih =>
    cases l with
    | nil => exact absurd less (Nat.not_lt_zero _)
    | cons x l =>
      have head : x = fill := by
        by_contra other
        rw [lead_cons_of_ne other] at less
        exact Nat.not_lt_zero _ less
      subst head
      cases n with
      | zero => simp
      | succ n =>
        by_cases same : y = x
        · subst same
          rw [lead_cons_self, lead_cons_self] at less
          rw [List.take_succ_cons, List.take_succ_cons, lead_cons_self, List.cons_inj_right,
            ih (Nat.lt_of_succ_lt_succ less), Nat.succ_le_succ_iff]
        · rw [List.take_succ_cons, List.take_succ_cons, lead_cons_of_ne same]
          exact iff_of_false (fun equal => same (List.cons.inj equal).1.symm) (Nat.not_succ_le_zero n)

theorem take_append_eq_iff {fill : α} {l m : List α} (less : lead fill m < lead fill l)
    (front : List α) (n : ℕ) :
    (front ++ l).take n = (front ++ m).take n ↔ n ≤ front.length + lead fill m := by
  rw [List.take_append, List.take_append, List.append_cancel_left_eq, take_eq_iff less]
  omega

theorem trail_replicate (fill : α) (n : ℕ) (l : List α) :
    trail fill (l ++ List.replicate n fill) = n + trail fill l := by
  rw [trail, List.reverse_append, List.reverse_replicate, lead_replicate_append, trail]

theorem trail_concat_of_ne {fill x : α} (other : x ≠ fill) (l : List α) :
    trail fill (l ++ [x]) = 0 := by
  rw [trail, List.reverse_append, List.reverse_singleton, List.singleton_append, lead_cons_of_ne other]

theorem trail_append_le {fill : α} {l m : List α} (le : trail fill l ≤ trail fill m)
    (back : List α) : trail fill (l ++ back) ≤ trail fill (m ++ back) := by
  rw [trail, trail, List.reverse_append, List.reverse_append]
  exact lead_append_le le _

/-- Lists that end with different numbers of copies before the same elements end alike up to the
smaller number. -/
theorem rtake_append_eq_iff {fill : α} {l m : List α} (less : trail fill m < trail fill l)
    (back : List α) (n : ℕ) :
    (l ++ back).rtake n = (m ++ back).rtake n ↔ n ≤ back.length + trail fill m := by
  rw [List.rtake_eq_reverse_take_reverse, List.rtake_eq_reverse_take_reverse,
    List.reverse_inj, List.reverse_append, List.reverse_append, take_append_eq_iff less,
    List.length_reverse, trail]

end Tail
