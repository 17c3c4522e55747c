import SysDeck.Library.Lines
import SysDeck.Library.Scan
import SysDeck.Library.Strip

/-! The fields of a line: the maximal runs of characters between blanks. -/

namespace Scan

variable {blank : Char → Bool}

/-- No character of a text is of the kind, by a test of the text. -/
theorem forall_of_all {kind : Char → Bool} {text : List Char}
    (none : text.all (fun c => !kind c) = true) : ∀ c ∈ text, kind c = false :=
  fun c member => by simpa using List.all_eq_true.mp none c member

theorem fields_nil : fields blank [] = [] := rfl

/-- A blank at the head is passed over. -/
theorem fields_cons_blank {c : Char} (isBlank : blank c) (text : List Char) :
    fields blank (c :: text) = fields blank text := by
  simp [fields, List.splitOnP_cons_eq_if_modifyHead, isBlank]

theorem fields_blanks {blanks : List Char} (all : ∀ c ∈ blanks, blank c) (text : List Char) :
    fields blank (blanks ++ text) = fields blank text := by
  induction blanks with
  | nil => rfl
  | cons c blanks ih =>
    rw [List.cons_append, fields_cons_blank (all c List.mem_cons_self)]
    exact ih fun d member => all d (List.mem_cons_of_mem _ member)

/-- No field goes past a blank. -/
theorem fields_append_blank {c : Char} (isBlank : blank c) (first second : List Char) :
    fields blank (first ++ c :: second) = fields blank first ++ fields blank second := by
  unfold fields
  rw [List.splitOnP_append_cons first second isBlank, List.filter_append]

theorem mem_fields {text field : List Char} (member : field ∈ fields blank text) :
    field ≠ [] ∧ ∀ c ∈ field, blank c = false := by
  obtain ⟨part, begun⟩ := List.mem_filter.mp member
  exact ⟨of_decide_eq_true begun, Lines.oneLine_of_mem_splitOnP part⟩

/-- Blanks at the end are passed over. -/
theorem fields_append_blanks {blanks : List Char} (all : ∀ c ∈ blanks, blank c) (text : List Char) :
    fields blank (text ++ blanks) = fields blank text := by
  cases blanks with
  | nil => rw [List.append_nil]
  | cons c blanks =>
    obtain ⟨isBlank, all⟩ := List.forall_mem_cons.mp all
    have nothing := fields_blanks all []
    rw [List.append_nil, fields_nil] at nothing
    rw [fields_append_blank isBlank, nothing, List.append_nil]

theorem fields_stripBy (text : List Char) : fields blank (Strip.stripBy blank text) = fields blank text := by
  have front := List.takeWhile_append_dropWhile (p := blank) (l := text)
  have back := List.rdropWhile_append_rtakeWhile (p := blank) (l := text.dropWhile blank)
  conv_rhs => rw [← front, fields_blanks fun c => List.mem_takeWhile_imp, ← back,
    fields_append_blanks fun c => List.mem_rtakeWhile_imp]
  rfl

/-- A run at the head that a blank or the end follows is the first field. -/
theorem fields_run {run rest : List Char} (begun : run ≠ []) (visible : ∀ c ∈ run, blank c = false)
    (stop : ∀ c ∈ rest.head?, blank c) : fields blank (run ++ rest) = run :: fields blank rest := by
  cases rest with
  | nil => simp [fields, List.splitOnP_eq_singleton visible, begun]
  | cons c rest =>
    have ends : blank c := stop c rfl
    rw [fields_cons_blank ends, fields,
      List.splitOnP_append_cons_of_forall_mem visible c ends]
    simp [fields, begun]

theorem fields_single {run : List Char} (begun : run ≠ []) (visible : ∀ c ∈ run, blank c = false) :
    fields blank run = [run] := by
  have one := @fields_run blank run [] begun visible fun c member => by cases member
  rwa [List.append_nil, fields_nil] at one

/-- The fields of a text are those of its lines, where blanks end the lines. -/
theorem fields_lines {ends : Char → Bool} (blanks : ∀ c, ends c → blank c) (text : List Char) :
    fields blank text = (Lines.cut ends text).flatMap (fields blank) := by
  induction length : text.length using Nat.strong_induction_on generalizing text with
  | _ n ih =>
    by_cases one : Lines.OneLine ends text
    · by_cases begun : text = []
      · rw [begun]
        rfl
      · rw [Lines.cut_oneLine one begun, List.flatMap_singleton]
    · have whole := List.takeWhile_append_dropWhile (p := fun c => !ends c) (l := text)
      have body : Lines.OneLine ends (text.takeWhile fun c => !ends c) := by
        intro c member
        simpa using List.mem_takeWhile_imp member
      cases after : text.dropWhile fun c => !ends c with
      | nil =>
        rw [after, List.append_nil] at whole
        rw [whole] at body
        exact absurd body one
      | cons e rest =>
        have ends' : ends e := by
          have head := List.head?_dropWhile_not (fun c => !ends c) text
          simpa [after] using head
        rw [after] at whole
        have shorter : rest.length < n := by
          rw [← length, ← whole, List.length_append, List.length_cons]
          omega
        rw [← whole, Lines.cut_line body ends', List.flatMap_cons, fields_append_blank (blanks e ends'),
          ih rest.length shorter rest rfl]

/-- The first field of a text, and what stands around it. -/
theorem fields_eq_cons {text first : List Char} {others : List (List Char)}
    (found : fields blank text = first :: others) :
    ∃ blanks rest, text = blanks ++ first ++ rest ∧ (∀ c ∈ blanks, blank c) ∧ first ≠ [] ∧
      (∀ c ∈ first, blank c = false) ∧ (∀ c ∈ rest.head?, blank c) ∧ fields blank rest = others := by
  have leading := List.takeWhile_append_dropWhile (p := blank) (l := text)
  have all : ∀ c ∈ text.takeWhile blank, blank c := fun c => List.mem_takeWhile_imp
  cases after : text.dropWhile blank with
  | nil =>
    rw [after] at leading
    rw [← leading, fields_blanks all, fields_nil] at found
    cases found
  | cons c tail =>
    have starts : blank c = false := by
      have head := List.head?_dropWhile_not blank text
      simpa [after] using head
    have whole := List.takeWhile_append_dropWhile (p := fun d => !blank d) (l := c :: tail)
    have visible : ∀ d ∈ (c :: tail).takeWhile fun d => !blank d, blank d = false := by
      intro d member
      simpa using List.mem_takeWhile_imp member
    have begun : ((c :: tail).takeWhile fun d => !blank d) ≠ [] := by simp [starts]
    have stop : ∀ d ∈ ((c :: tail).dropWhile fun d => !blank d).head?, blank d := by
      intro d member
      have head := List.head?_dropWhile_not (fun d => !blank d) (c :: tail)
      rw [Option.mem_def.mp member] at head
      simpa using head
    have split : text = text.takeWhile blank ++ ((c :: tail).takeWhile fun d => !blank d) ++
        (c :: tail).dropWhile fun d => !blank d := by
      rw [List.append_assoc, whole, ← after, leading]
    rw [split, List.append_assoc, fields_blanks all, fields_run begun visible stop] at found
    obtain ⟨rfl, rest⟩ := List.cons.inj found
    exact ⟨_, _, split, all, begun, visible, stop, rest⟩

/-- A run, the blanks after it and the rest. -/
theorem fields_run_gap {run gap rest : List Char} (begun : run ≠ [])
    (visible : ∀ c ∈ run, blank c = false) (wide : gap ≠ []) (all : ∀ c ∈ gap, blank c) :
    fields blank (run ++ (gap ++ rest)) = run :: fields blank rest := by
  obtain ⟨c, gap, rfl⟩ := List.exists_cons_of_ne_nil wide
  rw [fields_run begun visible, fields_blanks all]
  intro d head
  obtain rfl : c = d := by simpa using head
  exact all c List.mem_cons_self

/-- A run at the head begins the first field. -/
theorem fields_of_begun {run : List Char} (rest : List Char) (begun : run ≠ [])
    (visible : ∀ c ∈ run, blank c = false) :
    ∃ more others, fields blank (run ++ rest) = (run ++ more) :: others := by
  have whole := List.takeWhile_append_dropWhile (p := fun d => !blank d) (l := rest)
  refine ⟨rest.takeWhile fun d => !blank d, fields blank (rest.dropWhile fun d => !blank d), ?_⟩
  conv_lhs => rw [← whole, ← List.append_assoc]
  refine fields_run (by simp [begun]) ?_ ?_
  · intro c member
    rcases List.mem_append.mp member with member | member
    · exact visible c member
    · simpa using List.mem_takeWhile_imp member
  · intro c member
    have head := List.head?_dropWhile_not (fun d => !blank d) rest
    rw [Option.mem_def.mp member] at head
    simpa using head

/-- The first field of a text that begins visibly. -/
theorem fields_eq_cons_of_starts {text first : List Char} {others : List (List Char)}
    (starts : ∀ c ∈ text.head?, blank c = false) (found : fields blank text = first :: others) :
    ∃ rest, text = first ++ rest ∧ first ≠ [] ∧ (∀ c ∈ first, blank c = false) ∧
      (∀ c ∈ rest.head?, blank c) ∧ fields blank rest = others := by
  obtain ⟨blanks, rest, rfl, all, begun, visible, stop, later⟩ := fields_eq_cons found
  cases blanks with
  | nil => exact ⟨rest, rfl, begun, visible, stop, later⟩
  | cons c blanks =>
    have isBlank : blank c := all c List.mem_cons_self
    rw [starts c rfl] at isBlank
    cases isBlank

/-- The first of two fields, and the blanks between them. -/
theorem fields_eq_cons_cons {text first second : List Char} {others : List (List Char)}
    (starts : ∀ c ∈ text.head?, blank c = false)
    (found : fields blank text = first :: second :: others) :
    ∃ gap rest, text = first ++ (gap ++ rest) ∧ first ≠ [] ∧ (∀ c ∈ first, blank c = false) ∧
      gap ≠ [] ∧ (∀ c ∈ gap, blank c) ∧ (∀ c ∈ rest.head?, blank c = false) ∧
      fields blank rest = second :: others := by
  obtain ⟨tail, rfl, begun, visible, stop, later⟩ := fields_eq_cons_of_starts starts found
  obtain ⟨gap, rest, rfl, all, begun', visible', stop', last⟩ := fields_eq_cons later
  obtain ⟨d, second, rfl⟩ := List.exists_cons_of_ne_nil begun'
  have shown : blank d = false := visible' d List.mem_cons_self
  refine ⟨gap, d :: second ++ rest, by simp, begun, visible, ?_, all, by simpa using shown, ?_⟩
  · rintro rfl
    have isBlank := stop d rfl
    rw [shown] at isBlank
    cases isBlank
  · rw [fields_run begun' visible' stop', last]

theorem splitOnP_congr {other : Char → Bool} {text : List Char}
    (same : ∀ c ∈ text, blank c = other c) : text.splitOnP blank = text.splitOnP other := by
  induction text with
  | nil => rfl
  | cons c text ih =>
    rw [List.splitOnP_cons_eq_if_modifyHead, List.splitOnP_cons_eq_if_modifyHead,
      same c List.mem_cons_self, ih fun d member => same d (List.mem_cons_of_mem _ member)]

theorem fields_congr {other : Char → Bool} {text : List Char}
    (same : ∀ c ∈ text, blank c = other c) : fields blank text = fields other text := by
  rw [fields, fields, splitOnP_congr same]

end Scan
