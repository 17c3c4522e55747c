import SysDeck.Library.Text

/-! Text with quoted parts: the marks that a reader of a language sees outside of quotes,
and texts that leave the reader as they found it. -/

namespace Quoting

/-- The characters that group or separate the directives of a language, and whether a
backslash hides the next character of a quoted part. -/
structure Dialect where
  grouping : List Char
  escapes : Bool
  /-- A quote opens a quoted part and has no other meaning. -/
  unquoted : '"' ∉ grouping

inductive Mode where
  | plain
  | quoted
  | escaped
  deriving DecidableEq

namespace Dialect

variable {dialect : Dialect}

def next (dialect : Dialect) : Mode → Char → Mode
  | .plain, c => if c = '"' then .quoted else .plain
  | .quoted, c =>
    if c = '"' then .plain else if dialect.escapes ∧ c = '\\' then .escaped else .quoted
  | .escaped, _ => .quoted

def modeAfter (dialect : Dialect) (mode : Mode) (text : List Char) : Mode :=
  text.foldl dialect.next mode

@[simp] theorem modeAfter_nil (mode : Mode) : dialect.modeAfter mode [] = mode := rfl

@[simp] theorem modeAfter_cons (mode : Mode) (c : Char) (text : List Char) :
    dialect.modeAfter mode (c :: text) = dialect.modeAfter (dialect.next mode c) text := rfl

theorem modeAfter_append (mode : Mode) (first second : List Char) :
    dialect.modeAfter mode (first ++ second) =
      dialect.modeAfter (dialect.modeAfter mode first) second :=
  List.foldl_append

/-- Line ends, and the grouping characters outside of quotes. -/
def marksFrom (dialect : Dialect) : Mode → List Char → List Char
  | _, [] => []
  | mode, c :: rest =>
    if c = '\n' ∨ mode = .plain ∧ c ∈ dialect.grouping then
      c :: marksFrom dialect (dialect.next mode c) rest
    else marksFrom dialect (dialect.next mode c) rest

def marks (dialect : Dialect) (text : List Char) : List Char := dialect.marksFrom .plain text

theorem marksFrom_append (mode : Mode) (first second : List Char) :
    dialect.marksFrom mode (first ++ second) =
      dialect.marksFrom mode first ++ dialect.marksFrom (dialect.modeAfter mode first) second := by
  induction first generalizing mode with
  | nil => rfl
  | cons c first ih =>
    rw [List.cons_append, marksFrom, marksFrom, ih, modeAfter_cons]
    split <;> rfl

/-- A text after which the reader is outside of quotes again. -/
def Closed (dialect : Dialect) (text : List Char) : Prop := dialect.modeAfter .plain text = .plain

theorem Closed.marks_append {first : List Char} (closed : dialect.Closed first) (second : List Char) :
    dialect.marks (first ++ second) = dialect.marks first ++ dialect.marks second := by
  rw [marks, marksFrom_append, closed]
  rfl

theorem Closed.append {first second : List Char} (closed : dialect.Closed first)
    (closed' : dialect.Closed second) : dialect.Closed (first ++ second) := by
  rw [Closed, modeAfter_append, closed, closed']

/-- A text without marks that closes what it opens. -/
structure Contained (dialect : Dialect) (text : List Char) : Prop where
  unmarked : dialect.marks text = []
  closed : dialect.Closed text

instance (text : List Char) : Decidable (dialect.Contained text) :=
  decidable_of_iff (dialect.marks text = [] ∧ dialect.modeAfter .plain text = .plain)
    ⟨fun ⟨unmarked, closed⟩ => ⟨unmarked, closed⟩, fun ⟨unmarked, closed⟩ => ⟨unmarked, closed⟩⟩

theorem Contained.nil : dialect.Contained [] := ⟨rfl, rfl⟩

theorem Contained.append {first second : List Char} (contained : dialect.Contained first)
    (contained' : dialect.Contained second) : dialect.Contained (first ++ second) where
  unmarked := by rw [contained.closed.marks_append, contained.unmarked, contained'.unmarked]; rfl
  closed := contained.closed.append contained'.closed

/-- What follows a contained text is read as if it stood alone. -/
theorem Contained.append_iff {first second : List Char} (contained : dialect.Contained first) :
    dialect.Contained (first ++ second) ↔ dialect.Contained second := by
  constructor
  · intro whole
    have marks := whole.unmarked
    have closed := whole.closed
    rw [contained.closed.marks_append, contained.unmarked] at marks
    rw [Closed, modeAfter_append, contained.closed] at closed
    exact ⟨marks, closed⟩
  · exact contained.append

/-- A line end is a mark in quotes too. -/
theorem newline_mem_marksFrom {text : List Char} (member : '\n' ∈ text) (mode : Mode) :
    '\n' ∈ dialect.marksFrom mode text := by
  induction text generalizing mode with
  | nil => cases member
  | cons c text ih =>
    rw [marksFrom]
    rcases List.mem_cons.mp member with rfl | later
    · rw [if_pos (.inl rfl)]
      exact List.mem_cons_self
    · split
      · exact List.mem_cons_of_mem _ (ih later _)
      · exact ih later _

theorem Contained.oneLine {text : List Char} (contained : dialect.Contained text) : '\n' ∉ text := by
  intro member
  have mark : '\n' ∈ dialect.marks text := newline_mem_marksFrom member .plain
  rw [contained.unmarked] at mark
  cases mark

/-- Neither a quote, nor a line end, nor a grouping character. -/
def Bare (dialect : Dialect) (c : Char) : Prop := c ≠ '"' ∧ c ≠ '\n' ∧ c ∉ dialect.grouping

instance (c : Char) : Decidable (dialect.Bare c) :=
  inferInstanceAs (Decidable (c ≠ '"' ∧ c ≠ '\n' ∧ c ∉ dialect.grouping))

theorem bare_of_all {text : List Char} (all : text.all (fun c => decide (dialect.Bare c)) = true) :
    ∀ c ∈ text, dialect.Bare c :=
  fun c member => of_decide_eq_true (List.all_eq_true.mp all c member)

theorem Contained.of_bare {text : List Char} (bare : ∀ c ∈ text, dialect.Bare c) :
    dialect.Contained text := by
  induction text with
  | nil => exact .nil
  | cons c text ih =>
    obtain ⟨unquoted, sameLine, ungrouped⟩ := bare c List.mem_cons_self
    have rest := ih fun d member => bare d (List.mem_cons_of_mem _ member)
    have stays : dialect.next .plain c = .plain := if_neg unquoted
    constructor
    · rw [marks, marksFrom, if_neg (by simp [sameLine, ungrouped]), stays]
      exact rest.unmarked
    · rw [Closed, modeAfter_cons, stays]
      exact rest.closed

/-- The body of a quoted part: no quote and no line end, and it hides nothing after it. -/
structure Body (dialect : Dialect) (text : List Char) : Prop where
  unquoted : '"' ∉ text
  sameLine : '\n' ∉ text
  open' : dialect.modeAfter .quoted text = .quoted

theorem next_inside {mode : Mode} {c : Char} (inside : mode ≠ .plain) (unquoted : c ≠ '"') :
    dialect.next mode c ≠ .plain := by
  cases mode with
  | plain => exact absurd rfl inside
  | quoted =>
    rw [next, if_neg unquoted]
    split <;> exact fun same => by cases same
  | escaped => exact fun same => by cases same

/-- Only a quote leads out of a quoted part. -/
theorem modeAfter_inside {text : List Char} (unquoted : '"' ∉ text) {mode : Mode}
    (inside : mode ≠ .plain) : dialect.modeAfter mode text ≠ .plain := by
  induction text generalizing mode with
  | nil => exact inside
  | cons c text ih =>
    rw [List.mem_cons, not_or] at unquoted
    exact ih unquoted.2 (next_inside inside fun same => unquoted.1 same.symm)

theorem modeAfter_plain {text : List Char} (unquoted : '"' ∉ text) :
    dialect.modeAfter .plain text = .plain := by
  induction text with
  | nil => rfl
  | cons c text ih =>
    rw [List.mem_cons, not_or] at unquoted
    have stays : dialect.next .plain c = .plain := if_neg fun same => unquoted.1 same.symm
    rw [modeAfter_cons, stays, ih unquoted.2]

theorem marksFrom_quoted {text : List Char} (unquoted : '"' ∉ text) (sameLine : '\n' ∉ text)
    {mode : Mode} (inside : mode ≠ .plain) : dialect.marksFrom mode text = [] := by
  induction text generalizing mode with
  | nil => rfl
  | cons c text ih =>
    rw [List.mem_cons, not_or] at unquoted sameLine
    have stays : dialect.next mode c ≠ .plain := next_inside inside fun same => unquoted.1 same.symm
    rw [marksFrom, if_neg, ih unquoted.2 sameLine.2 stays]
    rintro (same | ⟨same, -⟩)
    · exact sameLine.1 same.symm
    · exact inside same

theorem marksFrom_quoted_close (dialect : Dialect) : dialect.marksFrom .quoted ['"'] = [] := by
  rw [marksFrom, if_neg]
  · rfl
  · rintro (same | ⟨same, -⟩)
    · exact absurd same (by decide)
    · cases same

theorem Contained.quote {text : List Char} (body : dialect.Body text) :
    dialect.Contained ('"' :: text ++ ['"']) := by
  have opens : dialect.next .plain '"' = .quoted := rfl
  constructor
  · have skipped : ¬ (('"' : Char) = '\n' ∨ Mode.plain = .plain ∧ '"' ∈ dialect.grouping) := by
      rintro (same | ⟨-, member⟩)
      · exact absurd same (by decide)
      · exact dialect.unquoted member
    rw [marks, List.cons_append, marksFrom, if_neg skipped, opens, marksFrom_append,
      marksFrom_quoted body.unquoted body.sameLine (by decide), body.open']
    exact marksFrom_quoted_close dialect
  · rw [Closed, List.cons_append, modeAfter_cons, modeAfter_append, opens, body.open']
    rfl

/-- Without escapes, a text without quotes stays inside. -/
theorem modeAfter_quoted {text : List Char} (plain : dialect.escapes = false ∨ '\\' ∉ text)
    (unquoted : '"' ∉ text) : dialect.modeAfter .quoted text = .quoted := by
  induction text with
  | nil => rfl
  | cons c text ih =>
    rw [List.mem_cons, not_or] at unquoted
    have unescaped : ¬ (dialect.escapes = true ∧ c = '\\') := by
      rintro ⟨escapes, rfl⟩
      rcases plain with never | absent
      · rw [never] at escapes
        cases escapes
      · exact absent List.mem_cons_self
    have stays : dialect.next .quoted c = .quoted := by
      rw [next, if_neg fun same => unquoted.1 same.symm, if_neg unescaped]
    rw [modeAfter_cons, stays]
    exact ih (plain.imp_right fun absent later => absent (List.mem_cons_of_mem c later)) unquoted.2

theorem Contained.unmarked_left {first second : List Char}
    (contained : dialect.Contained (first ++ second)) : dialect.marks first = [] := by
  have unmarked := contained.unmarked
  rw [marks, marksFrom_append] at unmarked
  exact (List.append_eq_nil_iff.mp unmarked).1

theorem Contained.of_append_unquoted {first second : List Char} (unquoted : '"' ∉ second)
    (contained : dialect.Contained (first ++ second)) : dialect.Contained first := by
  refine ⟨contained.unmarked_left, Classical.byContradiction fun inside => ?_⟩
  have outside : dialect.modeAfter (dialect.modeAfter .plain first) second ≠ .plain :=
    modeAfter_inside unquoted inside
  rw [← modeAfter_append] at outside
  exact outside contained.closed

/-- The quote at the end of a quoted part is only seen where nothing hides it. -/
theorem quoted_of_closes {body : List Char} (unquoted : '"' ∉ body)
    (closed : dialect.modeAfter (dialect.modeAfter .quoted body) ['"'] = .plain) :
    dialect.modeAfter .quoted body = .quoted := by
  cases inner : dialect.modeAfter .quoted body with
  | quoted => rfl
  | plain => exact absurd inner (modeAfter_inside unquoted (by decide))
  | escaped =>
    rw [inner] at closed
    cases closed

/-- A quoted part at the end closes nothing that was opened before it. -/
theorem Contained.of_append_quote {before body : List Char} (unquoted : '"' ∉ body)
    (settled : dialect.modeAfter .plain before ≠ .escaped)
    (contained : dialect.Contained (before ++ ('"' :: body ++ ['"']))) :
    dialect.Contained before ∧ dialect.modeAfter .quoted body = .quoted := by
  have closed := contained.closed
  rw [Closed, modeAfter_append, List.cons_append, modeAfter_cons, modeAfter_append] at closed
  cases mode : dialect.modeAfter .plain before with
  | plain =>
    rw [mode] at closed
    exact ⟨⟨contained.unmarked_left, mode⟩, quoted_of_closes unquoted closed⟩
  | quoted =>
    rw [mode] at closed
    change dialect.modeAfter (dialect.modeAfter .plain body) ['"'] = .plain at closed
    rw [modeAfter_plain unquoted] at closed
    cases closed
  | escaped => exact absurd mode settled

/-- What stands between a contained text and a bare one is read as if it stood alone. -/
theorem contained_middle_iff {lead middle rest : List Char} (contained : dialect.Contained lead)
    (bare : ∀ c ∈ rest, dialect.Bare c) :
    dialect.Contained (lead ++ middle ++ rest) ↔ dialect.Contained middle := by
  constructor
  · intro whole
    have front : dialect.Contained (lead ++ middle) :=
      whole.of_append_unquoted fun member => (bare _ member).1 rfl
    exact contained.append_iff.mp front
  · intro middle
    exact (contained.append middle).append (.of_bare bare)

theorem modeAfter_blank_ne_escaped (text : List Char) (mode : Mode) :
    dialect.modeAfter mode (text ++ [' ']) ≠ .escaped := by
  rw [modeAfter_append]
  have space : dialect.modeAfter (dialect.modeAfter mode text) [' '] =
      dialect.next (dialect.modeAfter mode text) ' ' := rfl
  rw [space]
  cases dialect.modeAfter mode text with
  | plain => exact fun same => by cases same
  | quoted => simp [next]
  | escaped => exact fun same => by cases same

/-! Blank characters at the ends do not matter. -/

theorem next_blank {mode : Mode} {c : Char} (blank : Text.isBlank c) :
    dialect.next mode c = .plain ↔ mode = .plain := by
  have unquoted : c ≠ '"' := by
    rintro rfl
    exact absurd blank (by decide)
  cases mode with
  | plain => simp [next, unquoted]
  | quoted =>
    rw [next, if_neg unquoted]
    split <;> simp
  | escaped => simp [next]

theorem Contained.dropWhile_blank {text : List Char} (contained : dialect.Contained text) :
    dialect.Contained (text.dropWhile Text.isBlank) := by
  induction text with
  | nil => exact contained
  | cons c text ih =>
    rw [List.dropWhile_cons]
    split
    · rename_i blank
      refine ih ?_
      have stays : dialect.next .plain c = .plain := (next_blank blank).mpr rfl
      obtain ⟨unmarked, closed⟩ := contained
      rw [marks, marksFrom, stays] at unmarked
      rw [Closed, modeAfter_cons, stays] at closed
      split at unmarked
      · cases unmarked
      · exact ⟨unmarked, closed⟩
    · exact contained

theorem Contained.dropLast_blank {text : List Char} {c : Char} (blank : Text.isBlank c)
    (contained : dialect.Contained (text ++ [c])) : dialect.Contained text := by
  obtain ⟨unmarked, closed⟩ := contained
  rw [marks, marksFrom_append] at unmarked
  rw [Closed, modeAfter_append] at closed
  exact ⟨(List.append_eq_nil_iff.mp unmarked).1, (next_blank blank).mp closed⟩

theorem Contained.rdropWhile_blank {text : List Char} (contained : dialect.Contained text) :
    dialect.Contained (text.rdropWhile Text.isBlank) := by
  induction text using List.reverseRecOn with
  | nil => exact contained
  | append_singleton text c ih =>
    by_cases blank : Text.isBlank c
    · rw [List.rdropWhile_concat_pos _ _ _ blank]
      exact ih (contained.dropLast_blank blank)
    · rw [List.rdropWhile_concat_neg _ _ _ blank]
      exact contained

theorem Contained.trim {text : List Char} (contained : dialect.Contained text) :
    dialect.Contained (Text.trim text) :=
  contained.dropWhile_blank.rdropWhile_blank

/-- The marks of closed lines, line by line. -/
theorem marks_lines {lines : List (List Char)} (closed : ∀ line ∈ lines, dialect.Closed line) :
    dialect.marks (['\n'].intercalate lines) = ['\n'].intercalate (lines.map dialect.marks) := by
  induction lines with
  | nil => rfl
  | cons line lines ih =>
    cases lines with
    | nil => simp
    | cons second rest =>
      have break' : ∀ text, dialect.marks ('\n' :: text) = '\n' :: dialect.marks text := fun _ => rfl
      rw [List.intercalate_cons_cons, List.append_assoc,
        (closed line List.mem_cons_self).marks_append, List.singleton_append, break',
        ih fun other member => closed other (List.mem_cons_of_mem _ member), List.map_cons,
        List.map_cons, List.map_cons, List.intercalate_cons_cons]
      simp

end Dialect

end Quoting
