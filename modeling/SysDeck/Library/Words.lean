import SysDeck.Library.Quoting

/-! The words of a line: what stands between blanks outside of quotes. A quoted part
belongs to the word it stands in. -/

namespace Quoting

namespace Dialect

variable {dialect : Dialect}

/-- The words of a text, from the mode and the letters of the word it goes on with. -/
def wordsFrom (dialect : Dialect) : Mode → List Char → List Char → List (List Char)
  | _, [], [] => []
  | _, letter :: word, [] => [(letter :: word).reverse]
  | mode, word, c :: rest =>
    if mode = .plain ∧ c = ' ' then
      (if word = [] then [] else [word.reverse]) ++ wordsFrom dialect .plain [] rest
    else wordsFrom dialect (dialect.next mode c) (c :: word) rest

def words (dialect : Dialect) (text : List Char) : List (List Char) := dialect.wordsFrom .plain [] text

theorem wordsFrom_append {text : List Char} {mode : Mode} {word : List Char}
    (closed : dialect.modeAfter mode text = .plain) (rest : List Char) :
    dialect.wordsFrom mode word (text ++ ' ' :: rest) =
      dialect.wordsFrom mode word text ++ dialect.words rest := by
  induction text generalizing mode word with
  | nil =>
    have plain : mode = .plain := closed
    subst plain
    cases word with
    | nil => rfl
    | cons letter word => rfl
  | cons c text ih =>
    rw [List.cons_append, wordsFrom, wordsFrom]
    split
    · rename_i separator
      have stays : dialect.next mode c = .plain := by
        rw [separator.1, separator.2]
        rfl
      rw [modeAfter_cons, stays] at closed
      rw [ih closed, List.append_assoc]
    · exact ih closed

/-- A closed text before a blank ends its last word. -/
theorem words_append {text : List Char} (closed : dialect.Closed text) (rest : List Char) :
    dialect.words (text ++ ' ' :: rest) = dialect.words text ++ dialect.words rest :=
  wordsFrom_append closed rest

theorem words_blank (text : List Char) : dialect.words (' ' :: text) = dialect.words text := by
  have empty : dialect.Closed [] := rfl
  exact words_append empty text

/-- A text without a blank outside of its quotes. -/
def Solid (dialect : Dialect) : Mode → List Char → Prop
  | _, [] => True
  | mode, c :: rest => ¬ (mode = .plain ∧ c = ' ') ∧ Solid dialect (dialect.next mode c) rest

theorem wordsFrom_solid {text : List Char} {mode : Mode} {word : List Char}
    (solid : dialect.Solid mode text) (nonempty : text ≠ [] ∨ word ≠ []) :
    dialect.wordsFrom mode word text = [word.reverse ++ text] := by
  induction text generalizing mode word with
  | nil =>
    cases word with
    | nil => exact absurd nonempty (by simp)
    | cons letter word => simp [wordsFrom]
  | cons c text ih =>
    rw [wordsFrom, if_neg solid.1, ih solid.2 (.inr (List.cons_ne_nil _ _))]
    simp

/-- A word that is closed and has no blank of its own. -/
structure Word (dialect : Dialect) (text : List Char) : Prop where
  closed : dialect.Closed text
  solid : dialect.Solid .plain text
  nonempty : text ≠ []

theorem Word.words {text : List Char} (word : dialect.Word text) : dialect.words text = [text] :=
  wordsFrom_solid word.solid (.inl word.nonempty)

theorem solid_plain {text : List Char} (plain : ∀ c ∈ text, c ≠ ' ' ∧ c ≠ '"') :
    dialect.Solid .plain text := by
  induction text with
  | nil => trivial
  | cons c text ih =>
    obtain ⟨visible, unquoted⟩ := plain c List.mem_cons_self
    have stays : dialect.next .plain c = .plain := if_neg unquoted
    refine ⟨fun separator => visible separator.2, ?_⟩
    rw [stays]
    exact ih fun d member => plain d (List.mem_cons_of_mem _ member)

/-- A word without quotes. -/
theorem Word.of_plain {text : List Char} (plain : ∀ c ∈ text, c ≠ ' ' ∧ c ≠ '"')
    (nonempty : text ≠ []) : dialect.Word text where
  closed := modeAfter_plain fun member => (plain _ member).2 rfl
  solid := solid_plain plain
  nonempty := nonempty

theorem solid_quoted {text : List Char} (unquoted : '"' ∉ text) (rest : List Char) {mode : Mode}
    (inside : mode ≠ .plain) (after : dialect.Solid (dialect.modeAfter mode text) rest) :
    dialect.Solid mode (text ++ rest) := by
  induction text generalizing mode with
  | nil => exact after
  | cons c text ih =>
    rw [List.mem_cons, not_or] at unquoted
    refine ⟨fun separator => inside separator.1, ih unquoted.2 ?_ after⟩
    exact next_inside inside fun same => unquoted.1 same.symm

/-- A quoted part is one word, whatever its blanks. -/
theorem Word.quote {text : List Char} (body : dialect.Body text) :
    dialect.Word ('"' :: text ++ ['"']) where
  closed := (Contained.quote body).closed
  solid := by
    have opens : dialect.next .plain '"' = .quoted := rfl
    refine ⟨fun separator => absurd separator.2 (by decide), ?_⟩
    rw [opens]
    refine solid_quoted body.unquoted _ (fun same => by cases same) ?_
    exact ⟨fun separator => absurd separator.2 (by decide), trivial⟩
  nonempty := List.cons_ne_nil _ _

end Dialect

end Quoting
