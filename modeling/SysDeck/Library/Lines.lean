import Mathlib.Algebra.Order.Group.Nat
import Mathlib.Data.List.Infix
import SysDeck.Library.Text

/-! The lines of a text, where more than one character ends a line. -/

namespace Lines

variable {p : Char → Bool}

/-- The line terminators of ECMAScript. -/
def terminator (c : Char) : Bool :=
  c = '\n' || c = '\r' || c.toNat = 0x2028 || c.toNat = 0x2029

/-- No character of the text ends a line. -/
def OneLine (p : Char → Bool) (text : List Char) : Prop := ∀ c ∈ text, p c = false

theorem OneLine.append {first second : List Char} (one : OneLine p first) (one' : OneLine p second) :
    OneLine p (first ++ second) := List.forall_mem_append.mpr ⟨one, one'⟩

theorem oneLine_append_iff {first second : List Char} :
    OneLine p (first ++ second) ↔ OneLine p first ∧ OneLine p second := List.forall_mem_append

/-- A string literal, by its characters. -/
theorem OneLine.literal {chars : List Char} (none : chars.all (fun c => !p c) = true) :
    OneLine p (String.ofList chars).toList := by
  intro c member
  rw [String.toList_ofList] at member
  simpa using List.all_eq_true.mp none c member

theorem mem_of_terminator {c : Char} (ends : terminator c) :
    c ∈ ['\n', '\r', '\u2028', '\u2029'] := by
  simp only [terminator, Bool.or_eq_true, decide_eq_true_eq] at ends
  rcases ends with ((rfl | rfl) | ends) | ends
  · simp
  · simp
  · have same : c = '\u2028' := Char.toNat_inj.mp ends
    simp [same]
  · have same : c = '\u2029' := Char.toNat_inj.mp ends
    simp [same]

/-- A text of one kind of character that ends no line. -/
theorem oneLine_of_kind {kind : Char → Bool}
    (apart : ['\n', '\r', '\u2028', '\u2029'].all (fun c => !kind c) = true) {text : List Char}
    (all : ∀ c ∈ text, kind c) : OneLine terminator text := by
  intro c member
  refine Bool.eq_false_iff.mpr fun ends => ?_
  have other := List.all_eq_true.mp apart c (mem_of_terminator ends)
  simp [all c member] at other

theorem countP_eq_zero_iff {text : List Char} : text.countP p = 0 ↔ OneLine p text := by
  rw [List.countP_eq_zero]
  exact forall₂_congr fun c _ => Bool.eq_false_iff.symm

/-- There is one line more than there are ends of lines. -/
theorem length_splitOnP (text : List Char) : (text.splitOnP p).length = text.countP p + 1 := by
  induction text with
  | nil => rfl
  | cons c text ih =>
    rw [List.splitOnP_cons_eq_if_modifyHead, List.countP_cons]
    by_cases ends : p c
    · simp [ends, ih]
    · simp [ends, ih]

/-- No part of a text that is split has an end of line. -/
theorem oneLine_of_mem_splitOnP {text line : List Char} (part : line ∈ text.splitOnP p) :
    OneLine p line := by
  induction text generalizing line with
  | nil =>
    obtain rfl : line = [] := by simpa using part
    simp [OneLine]
  | cons d text ih =>
    rw [List.splitOnP_cons_eq_if_modifyHead] at part
    split at part
    · rcases List.mem_cons.mp part with rfl | part
      · simp [OneLine]
      · exact ih part
    next inside =>
    cases parts : text.splitOnP p with
    | nil => simp [parts] at part
    | cons first rest =>
      rw [parts] at part ih
      rcases List.mem_cons.mp part with rfl | part
      · exact List.forall_mem_cons.mpr ⟨by simpa using inside, ih List.mem_cons_self⟩
      · exact ih (List.mem_cons_of_mem _ part)

/-- Lines that are joined by an end of line are the lines of the text. -/
theorem splitOnP_intercalate {mark : Char} (ends : p mark) {lines : List (List Char)}
    (nonempty : lines ≠ []) (one : ∀ line ∈ lines, OneLine p line) :
    ([mark].intercalate lines).splitOnP p = lines := by
  induction lines with
  | nil => exact absurd rfl nonempty
  | cons line rest ih =>
    have first := one line List.mem_cons_self
    cases rest with
    | nil => simpa [List.intercalate] using List.splitOnP_eq_singleton first
    | cons next rest =>
      rw [List.intercalate_cons_cons, List.append_assoc, List.singleton_append,
        List.splitOnP_append_cons_of_forall_mem first mark ends,
        ih (by simp) fun line member => one line (List.mem_cons_of_mem _ member)]

/-- The ends of lines of a joined text: one between two parts, and those inside the parts. -/
theorem countP_intercalate {mark : Char} (ends : p mark) {parts : List (List Char)}
    (nonempty : parts ≠ []) :
    ([mark].intercalate parts).countP p + 1 =
      parts.length + (parts.map (List.countP p)).sum := by
  induction parts with
  | nil => exact absurd rfl nonempty
  | cons part rest ih =>
    cases rest with
    | nil =>
      simp [List.intercalate]
      omega
    | cons next rest =>
      have tail := ih (by simp)
      rw [List.intercalate_cons_cons, List.append_assoc, List.countP_append, List.countP_append]
      simp only [List.countP_singleton, ends, if_true, List.map_cons, List.sum_cons,
        List.length_cons] at tail ⊢
      omega

/-- A joined text with as many lines as it has parts has no end of line inside a part. -/
theorem oneLine_of_length {mark : Char} (ends : p mark) {parts : List (List Char)}
    (nonempty : parts ≠ [])
    (length : (([mark].intercalate parts).splitOnP p).length = parts.length) :
    ∀ part ∈ parts, OneLine p part := by
  rw [length_splitOnP, countP_intercalate ends nonempty] at length
  have total : (parts.map (List.countP p)).sum = 0 := by omega
  intro part member
  exact countP_eq_zero_iff.mp
    (List.sum_eq_zero_iff_forall_eq_nat.mp total _ (List.mem_map_of_mem member))

/-! ### Without the ends -/

/-- The lines of a text without their ends; after the last end there is none. -/
def cut (p : Char → Bool) : List Char → List (List Char)
  | [] => []
  | c :: rest =>
    if p c then [] :: cut p rest
    else
      match cut p rest with
      | [] => [[c]]
      | line :: later => (c :: line) :: later

attribute [local simp] cut

/-- The parts between the ends, where the last one is no line when nothing is in it. -/
theorem cut_eq_splitOnP (text : List Char) : cut p text =
    if (text.splitOnP p).getLast? = some [] then (text.splitOnP p).dropLast else text.splitOnP p := by
  induction text with
  | nil => rfl
  | cons c text ih =>
    obtain ⟨first, others, parts⟩ := List.exists_cons_of_ne_nil (List.splitOnP_ne_nil p text)
    rw [parts] at ih
    rw [List.splitOnP_cons_eq_if_modifyHead, cut, ih, parts]
    by_cases ends : p c
    · rw [if_pos ends, if_pos ends, List.getLast?_cons_cons]
      split <;> rfl
    · rw [if_neg ends, if_neg ends, List.modifyHead_cons]
      cases others with
      | nil => by_cases nothing : first = [] <;> simp [nothing]
      | cons second others =>
        rw [List.getLast?_cons_cons, List.getLast?_cons_cons]
        by_cases nothing : (second :: others).getLast? = some []
        · rw [if_pos nothing, if_pos nothing]
          rfl
        · rw [if_neg nothing, if_neg nothing]

theorem oneLine_of_mem_cut {text line : List Char} (member : line ∈ cut p text) : OneLine p line := by
  rw [cut_eq_splitOnP] at member
  split at member
  · exact oneLine_of_mem_splitOnP (List.mem_of_mem_dropLast member)
  · exact oneLine_of_mem_splitOnP member

/-- What ends no line is in one. -/
theorem mem_cut {text : List Char} {c : Char} (member : c ∈ text) (inside : p c = false) :
    ∃ line ∈ cut p text, c ∈ line := by
  induction text with
  | nil => cases member
  | cons d text ih =>
    rw [cut]
    by_cases ends : p d
    · rw [if_pos ends]
      rcases List.mem_cons.mp member with rfl | member
      · rw [ends] at inside
        cases inside
      · obtain ⟨line, present, member⟩ := ih member
        exact ⟨line, List.mem_cons_of_mem _ present, member⟩
    · rw [if_neg ends]
      cases lines : cut p text with
      | nil =>
        rcases List.mem_cons.mp member with rfl | member
        · exact ⟨[c], List.mem_cons_self, List.mem_cons_self⟩
        · obtain ⟨line, present, -⟩ := ih member
          rw [lines] at present
          cases present
      | cons first later =>
        rcases List.mem_cons.mp member with rfl | member
        · exact ⟨c :: first, List.mem_cons_self, List.mem_cons_self⟩
        · obtain ⟨line, present, member⟩ := ih member
          rw [lines] at present
          rcases List.mem_cons.mp present with rfl | present
          · exact ⟨d :: line, List.mem_cons_self, List.mem_cons_of_mem _ member⟩
          · exact ⟨line, List.mem_cons_of_mem _ present, member⟩

theorem cut_ne_nil {text : List Char} (begun : text ≠ []) : cut p text ≠ [] := by
  cases text with
  | nil => exact absurd rfl begun
  | cons c rest =>
    rw [cut]
    split
    · exact List.cons_ne_nil _ _
    · split <;> exact List.cons_ne_nil _ _

/-- A text in front of which a part of a line stands. -/
theorem cut_append_oneLine {line rest : List Char} (one : OneLine p line) (begun : rest ≠ []) :
    cut p (line ++ rest) = (cut p rest).modifyHead (line ++ ·) := by
  induction line with
  | nil =>
    obtain ⟨first, later, lines⟩ := List.exists_cons_of_ne_nil (cut_ne_nil (p := p) begun)
    rw [List.nil_append, lines]
    rfl
  | cons c line ih =>
    obtain ⟨inside, one⟩ := List.forall_mem_cons.mp one
    obtain ⟨first, later, lines⟩ := List.exists_cons_of_ne_nil (cut_ne_nil (p := p) begun)
    rw [List.cons_append, cut, if_neg (Bool.eq_false_iff.mp inside), ih one, lines]
    rfl

theorem length_cut_append (front rest : List Char) : (cut p rest).length ≤ (cut p (front ++ rest)).length := by
  induction front with
  | nil => exact Nat.le_refl _
  | cons c front ih =>
    refine Nat.le_trans ih ?_
    rw [List.cons_append, cut]
    split
    · exact Nat.le_succ _
    · split
      next nothing =>
        rw [nothing]
        exact Nat.zero_le _
      next first later lines =>
        rw [lines]
        exact Nat.le_refl _

theorem cut_oneLine {line : List Char} (one : OneLine p line) (begun : line ≠ []) : cut p line = [line] := by
  obtain ⟨front, c, rfl⟩ := List.eq_nil_or_concat line |>.resolve_left begun
  rw [List.concat_eq_append] at one ⊢
  obtain ⟨one, last⟩ := oneLine_append_iff.mp one
  have single : cut p [c] = [[c]] := by
    rw [cut, if_neg (Bool.eq_false_iff.mp (last c List.mem_cons_self))]
    rfl
  rw [cut_append_oneLine one (List.cons_ne_nil _ _), single]
  rfl

/-- Lines with their ends stand apart from what follows them. -/
theorem cut_append_ended {front : List Char} {e : Char} (ends : p e) (rest : List Char) :
    cut p (front ++ [e] ++ rest) = cut p (front ++ [e]) ++ cut p rest := by
  induction front with
  | nil =>
    rw [List.nil_append, List.singleton_append, cut, if_pos ends, cut, if_pos ends]
    rfl
  | cons c front ih =>
    rw [List.append_assoc] at ih
    rw [List.cons_append, List.cons_append, List.append_assoc, cut, cut]
    split
    · rw [ih]
      rfl
    · obtain ⟨first, later, lines⟩ := List.exists_cons_of_ne_nil
        (cut_ne_nil (p := p) (List.concat_ne_nil e front))
      rw [ih, lines]
      rfl

theorem cut_line {body : List Char} (one : OneLine p body) {e : Char} (ends : p e) (rest : List Char) :
    cut p (body ++ e :: rest) = body :: cut p rest := by
  rw [cut_append_oneLine one (List.cons_ne_nil _ _), cut, if_pos ends, List.modifyHead_cons, List.append_nil]

/-- An end after the last line adds none. -/
theorem cut_concat {text : List Char} {e : Char} (ends : p e) (begun : text ≠ [])
    (open_ : ∀ c ∈ text.getLast?, p c = false) : cut p (text ++ [e]) = cut p text := by
  induction text with
  | nil => exact absurd rfl begun
  | cons c rest ih =>
    cases rest with
    | nil =>
      have inside := Bool.eq_false_iff.mp (open_ c rfl)
      have one : OneLine p [c] := List.forall_mem_singleton.mpr (open_ c rfl)
      have single : cut p [e] = [[]] := by
        rw [cut, if_pos ends]
        rfl
      rw [cut_append_oneLine one (List.cons_ne_nil _ _), single, cut_oneLine one (List.cons_ne_nil _ _)]
      rfl
    | cons d rest =>
      have later := ih (List.cons_ne_nil _ _) open_
      rw [List.cons_append, cut, later, cut.eq_def p (c :: d :: rest)]

end Lines
