import SysDeck.Cockpit.ServicePorts

/-! What the search for a port finds, and that it finds the same place after the digits there are
replaced. -/

namespace SysDeck.Cockpit.ServicePorts

open Packages (isSpace)
open PythonInt (isDigit)
open Matcher (literal one many many1 maybe Avoids put)

/-! ### Digits -/

theorem nought_of_isDigit {c : Char} (digit : isDigit c) :
    ∃ nought ∈ PythonInt.zeros, ∃ n < 10, c = Char.ofNat (nought + n) := by
  rw [isDigit, PythonInt.digit?, Option.isSome_map, List.find?_isSome] at digit
  obtain ⟨nought, member, inside⟩ := digit
  rw [Bool.and_eq_true, decide_eq_true_eq, decide_eq_true_eq] at inside
  refine ⟨nought, member, c.toNat - nought, by omega, ?_⟩
  rw [Nat.add_sub_cancel' inside.1, Char.ofNat_toNat]

/-- What no digit is in any script. -/
def marker (c : Char) : Bool :=
  isSpace c || c.isAlpha || c = '\n' || c = ':' || c = '=' || c = '-' || c = '_' || c = '"' || c = '\''

theorem marker_of_isDigit {c : Char} (digit : isDigit c) : marker c = false := by
  have every : ∀ nought ∈ PythonInt.zeros, ∀ n < 10, marker (Char.ofNat (nought + n)) = false := by
    exact of_decide_eq_true rfl
  obtain ⟨nought, member, n, small, rfl⟩ := nought_of_isDigit digit
  exact every nought member n small

theorem isDigit_of_marker {c : Char} (mark : marker c) : isDigit c = false := by
  cases digit : isDigit c with
  | false => rfl
  | true => rw [marker_of_isDigit digit] at mark; cases mark

theorem isDigit_of_isSpace {c : Char} (space : isSpace c) : isDigit c = false :=
  isDigit_of_marker (by simp [marker, space])

theorem isSpace_of_isDigit {c : Char} (digit : isDigit c) : isSpace c = false := by
  have none := marker_of_isDigit digit
  simp only [marker, Bool.or_eq_false_iff] at none
  exact none.1.1.1.1.1.1.1.1

theorem decimal_ne_nil (port : ℕ) : decimal port ≠ [] := Nat.toDigits_ne_nil

theorem ascii_of_mem_decimal {port : ℕ} : ∀ c ∈ decimal port, c.isDigit :=
  fun _ member => Nat.isDigit_of_mem_toDigits (by decide) (by decide) member

theorem isDigit_of_mem_decimal {port : ℕ} : ∀ c ∈ decimal port, isDigit c :=
  fun c member => PythonInt.isDigit_of_ascii (ascii_of_mem_decimal c member)

/-! ### After the digits -/

def EndsLine (text : List Char) : Prop := ∀ c ∈ text.head?, c = '\n'

theorem all_head_iff {text : List Char} : text.head?.all (· = '\n') = true ↔ EndsLine text := by
  cases text with
  | nil => simp [EndsLine]
  | cons c text => simp [EndsLine]

theorem ending_eq_some {text blank rest : List Char} (ended : ending text = some (blank, rest)) :
    text = blank ++ rest ∧ (∀ c ∈ blank, isSpace c) ∧ EndsLine rest ∧
      ∀ more later, rest = more ++ later → more ≠ [] → (∀ c ∈ more, isSpace c) → ¬EndsLine later := by
  obtain ⟨run, after, split, all, found, longest⟩ := Scan.greedyFrom_eq_some ended
  rw [List.nil_append] at found
  split at found
  · rename_i ends
    obtain ⟨rfl, rfl⟩ := Prod.mk.inj (Option.some.inj found)
    refine ⟨split, all, all_head_iff.mp ends, ?_⟩
    intro more later again begun blank ends
    have failed := longest more later again begun blank
    rw [if_pos (all_head_iff.mpr ends)] at failed
    cases failed
  · cases found

theorem ending_ne_none {blank rest : List Char} (all : ∀ c ∈ blank, isSpace c) (ends : EndsLine rest) :
    ending (blank ++ rest) ≠ none := by
  intro failed
  have here := Scan.greedyFrom_eq_none failed all
  rw [if_pos (all_head_iff.mpr ends)] at here
  cases here

variable {pattern : Pattern}

theorem close_append {text swallowed rest : List Char}
    (closed : pattern.close text = some (swallowed, rest)) : text = swallowed ++ rest := by
  unfold Pattern.close at closed
  split at closed
  · exact (ending_eq_some closed).1
  · obtain ⟨rfl, rfl⟩ := Prod.mk.inj (Option.some.inj closed)
    rfl

theorem close_endsLine {text swallowed rest : List Char}
    (closed : pattern.close text = some (swallowed, rest)) (line : pattern.line) : EndsLine rest := by
  rw [Pattern.close, if_pos line] at closed
  exact (ending_eq_some closed).2.2.1

/-- After what the expression took, there is nothing more to take. -/
theorem close_rest {text swallowed rest : List Char}
    (closed : pattern.close text = some (swallowed, rest)) : pattern.close rest = some ([], rest) := by
  unfold Pattern.close at closed ⊢
  split at closed
  · rename_i line
    rw [if_pos line]
    obtain ⟨rfl, blank, ends, longest⟩ := ending_eq_some closed
    have none : ∀ c ∈ ([] : List Char), isSpace c := fun c member => absurd member List.not_mem_nil
    cases again : ending rest with
    | none => exact absurd again (ending_ne_none none ends)
    | some more =>
      obtain ⟨split, spaces, last, -⟩ := ending_eq_some again
      by_cases nothing : more.1 = []
      · rw [nothing, List.nil_append] at split
        rw [split, ← nothing]
      · exact absurd last (longest more.1 more.2 split nothing spaces)
  · rename_i other
    rw [if_neg other]

theorem close_of_digit {c : Char} {rest : List Char} (line : pattern.line) (digit : isDigit c) :
    pattern.close (c :: rest) = none := by
  have visible : ¬isSpace c := by simp [isSpace_of_isDigit digit]
  have other : c ≠ '\n' := by
    rintro rfl
    exact absurd (marker_of_isDigit digit) (by decide)
  rw [Pattern.close, if_pos line, ending, Scan.many, Scan.greedyFrom, if_neg visible]
  simp [other]

/-! ### The digits -/

/-- The digits are taken whole. -/
theorem number_append {pre digits after : List Char} (begun : digits ≠ []) (all : ∀ c ∈ digits, isDigit c)
    (stop : ∀ c ∈ after.head?, isDigit c = false) :
    pattern.number pre (digits ++ after) =
      (pattern.close after).map fun (swallowed, rest) => ⟨pre, digits, swallowed, rest⟩ := by
  cases line : pattern.line with
  | true =>
    obtain ⟨run, left⟩ := Scan.takeWhile_of_split rfl all stop
    rw [Pattern.number, Scan.many1_of_stuck, run, left, if_neg begun]
    intro run c rest digit
    rw [close_of_digit line digit]
    rfl
  | false =>
    have closed : pattern.close after = some ([], after) := by
      rw [Pattern.close, if_neg (by rw [line]; exact Bool.false_ne_true)]
    rw [closed]
    refine Scan.many1_of_longest begun all stop ?_
    rw [closed]
    rfl

/-- What a match is made of. -/
structure Reads (pattern : Pattern) (text : List Char) (found : Found) : Prop where
  split : text = found.pre ++ (found.digits ++ (found.swallowed ++ found.rest))
  pre : pattern.pre.Lang found.pre
  begun : found.digits ≠ []
  digits : ∀ c ∈ found.digits, isDigit c
  stop : ∀ c ∈ (found.swallowed ++ found.rest).head?, isDigit c = false
  close : pattern.close (found.swallowed ++ found.rest) = some (found.swallowed, found.rest)

theorem number_eq_some {pre after : List Char} {found : Found} (matched : pattern.number pre after = some found)
    (begun : pattern.pre.Lang pre) : found.pre = pre ∧ Reads pattern (pre ++ after) found := by
  have whole := List.takeWhile_append_dropWhile (p := isDigit) (l := after)
  have all : ∀ c ∈ after.takeWhile isDigit, isDigit c := fun c member => List.mem_takeWhile_imp member
  have stop : ∀ c ∈ (after.dropWhile isDigit).head?, isDigit c = false := by
    intro c head
    have none := List.head?_dropWhile_not isDigit after
    rw [Option.mem_def.mp head] at none
    simpa using none
  by_cases some : after.takeWhile isDigit = []
  · exfalso
    obtain ⟨run, rest, split, started, digits, -⟩ := Scan.many1_eq_some matched
    obtain ⟨c, run, rfl⟩ := List.exists_cons_of_ne_nil started
    rw [split, List.cons_append, List.takeWhile_cons_of_pos (digits c List.mem_cons_self)] at some
    cases some
  · rw [← whole, number_append some all stop] at matched
    obtain ⟨⟨swallowed, rest⟩, closed, same⟩ := Option.map_eq_some_iff.mp matched
    subst same
    have split := close_append closed
    refine ⟨rfl, ?_, begun, some, all, ?_, ?_⟩
    · rw [← split, whole]
    · rw [← split]
      exact stop
    · rw [← split]
      exact closed

theorem matchAt_eq_some {text : List Char} {found : Found} (matched : pattern.matchAt text = some found) :
    Reads pattern text found := by
  obtain ⟨⟨pre, after⟩, member, number⟩ := List.exists_of_findSome?_eq_some matched
  obtain ⟨rfl, begun⟩ := pattern.pre.reads.mp member
  exact (number_eq_some number begun).2

/-- Where digits follow what the prefix matches, there is a match. -/
theorem matchAt_ne_none {pre digits after : List Char} (lang : pattern.pre.Lang pre) (begun : digits ≠ [])
    (all : ∀ c ∈ digits, isDigit c) (stop : ∀ c ∈ after.head?, isDigit c = false)
    (closed : pattern.close after ≠ none) : pattern.matchAt (pre ++ (digits ++ after)) ≠ none := by
  intro failed
  have here : pattern.number pre (digits ++ after) = none :=
    List.findSome?_eq_none_iff.mp failed (pre, digits ++ after) (pattern.pre.reads.mpr ⟨rfl, lang⟩)
  rw [number_append begun all stop, Option.map_eq_none_iff] at here
  exact closed here

/-- The port in the place of the digits. -/
theorem Reads.edit {text : List Char} {found : Found} (reads : Reads pattern text found) (port : ℕ) :
    Reads pattern (found.pre ++ (decimal port ++ found.rest)) ⟨found.pre, decimal port, [], found.rest⟩ := by
  refine ⟨rfl, reads.pre, decimal_ne_nil port, isDigit_of_mem_decimal, ?_, close_rest reads.close⟩
  intro c head
  by_cases line : pattern.line
  · obtain rfl := close_endsLine reads.close line c head
    exact isDigit_of_marker (by decide)
  · have nothing : found.swallowed = [] := by
      have closed := reads.close
      rw [Pattern.close, if_neg line] at closed
      exact (Prod.mk.inj (Option.some.inj closed)).1.symm
    apply reads.stop c
    rw [nothing]
    exact head

/-! ### One place -/

/-- At most one way to match at a place. -/
def Pattern.Single (pattern : Pattern) : Prop :=
  ∀ text one other, Reads pattern text one → Reads pattern text other → one.pre = other.pre

/-- No match goes over the start of a port from a place before the prefix of that port. -/
def Pattern.Apart (pattern : Pattern) : Prop :=
  ∀ skipped pre more later port rest, skipped ≠ [] → pattern.pre.Lang pre →
    pattern.pre.Lang (skipped ++ pre ++ more) → decimal port ++ rest = more ++ later →
    (pattern.line → EndsLine rest) → more = []

theorem Reads.number {text : List Char} {found : Found} (reads : Reads pattern text found) :
    pattern.number found.pre (found.digits ++ (found.swallowed ++ found.rest)) = some found := by
  rw [number_append reads.begun reads.digits reads.stop, reads.close]
  rfl

theorem Reads.matchAt {text : List Char} {found : Found} (reads : Reads pattern text found)
    (single : ∀ other, Reads pattern text other → other.pre = found.pre) :
    pattern.matchAt text = some found := by
  refine Matcher.findSome?_of_single (pattern.pre.reads.mpr ⟨reads.split, reads.pre⟩) reads.number ?_
  rintro ⟨pre, after⟩ member hit
  obtain ⟨split, lang⟩ := pattern.pre.reads.mp member
  obtain ⟨other, number⟩ := Option.ne_none_iff_exists'.mp hit
  obtain ⟨same, again⟩ := number_eq_some number lang
  have first : pre = found.pre := same ▸ single other (split ▸ again)
  subst first
  exact Prod.ext rfl (List.append_cancel_left (split.symm.trans reads.split))

/-- A prefix without digits is all that is before the first one. -/
theorem Reads.takeWhile {text : List Char} {found : Found} (reads : Reads pattern text found)
    (avoids : ∀ c ∈ found.pre, ¬isDigit c) : text.takeWhile (!isDigit ·) = found.pre := by
  refine (Scan.takeWhile_of_split reads.split ?_ ?_).1
  · intro c member
    simpa using avoids c member
  · intro c head
    obtain ⟨d, digits, split⟩ := List.exists_cons_of_ne_nil reads.begun
    rw [split] at head
    obtain rfl : d = c := by simpa using head
    simp [reads.digits d (by rw [split]; exact List.mem_cons_self)]

theorem single_of_avoids (avoids : pattern.pre.Avoids (isDigit ·)) : pattern.Single := by
  intro text one other first second
  rw [← first.takeWhile (avoids _ first.pre), second.takeWhile (avoids _ second.pre)]

theorem single_of_closes {last : Char} (closes : pattern.pre.Closes last) : pattern.Single := by
  have lead : ∀ text found, Reads pattern text found → text.takeWhile (· ≠ last) ++ [last] = found.pre := by
    intro text found reads
    obtain ⟨body, whole, absent⟩ := closes found.pre reads.pre
    have split := reads.split
    rw [whole, List.append_assoc] at split
    rw [(Scan.takeWhile_of_split split ?_ ?_).1, whole]
    · intro c member
      have other : c ≠ last := fun same => absent (same ▸ member)
      simpa using other
    · intro c head
      obtain rfl : last = c := by simpa using head
      simp
  intro text one other first second
  rw [← lead text one first, lead text other second]

theorem apart_of_closes {last : Char} (closes : pattern.pre.Closes last) : pattern.Apart := by
  intro skipped pre more later port rest _ begun lang split _
  obtain ⟨body, rfl, -⟩ := closes pre begun
  obtain ⟨longer, whole, absent⟩ := closes _ lang
  by_contra nonempty
  have same := congrArg List.dropLast whole
  rw [List.dropLast_append_of_ne_nil nonempty, List.dropLast_concat] at same
  exact absent (by rw [← same]; simp)

/-- What has no digits does not go over the start of a port. -/
theorem nil_of_no_digit {more later rest : List Char} {port : ℕ} (split : decimal port ++ rest = more ++ later)
    (avoids : ∀ c ∈ more, ¬isDigit c) : more = [] := by
  cases more with
  | nil => rfl
  | cons c more =>
    obtain ⟨d, digits, same⟩ := List.exists_cons_of_ne_nil (decimal_ne_nil port)
    rw [same] at split
    obtain rfl : d = c := (List.cons.inj split).1
    have digit : isDigit d := isDigit_of_mem_decimal d (by rw [same]; exact List.mem_cons_self)
    exact absurd digit (avoids d List.mem_cons_self)

theorem apart_of_avoids (avoids : pattern.pre.Avoids (isDigit ·)) : pattern.Apart :=
  fun _ _ _ _ _ _ _ _ lang split _ =>
    nil_of_no_digit split fun c member => avoids _ lang c (List.mem_append_right _ member)

/-! ### The first place -/

theorem here_eq_some {begun : Bool} {text before : List Char} {found : Found} :
    pattern.here begun text = some (before, found) ↔
      (pattern.line && !begun) = false ∧ before = [] ∧ pattern.matchAt text = some found := by
  unfold Pattern.here
  split
  · rename_i skipped
    simp [skipped]
  · rename_i tried
    rw [Bool.not_eq_true] at tried
    simp only [tried, Option.map_eq_some_iff, Prod.mk.injEq, true_and]
    constructor
    · rintro ⟨_, matched, rfl, rfl⟩
      exact ⟨rfl, matched⟩
    · rintro ⟨rfl, matched⟩
      exact ⟨found, matched, rfl, rfl⟩

theorem search_of_here {begun : Bool} {text : List Char} {result : List Char × Found}
    (here : pattern.here begun text = some result) : pattern.search begun text = some result := by
  cases text with
  | nil => exact here
  | cons c text => rw [Pattern.search, here, Option.some_or]

theorem search_cons_eq_some {begun : Bool} {c : Char} {text before : List Char} {found : Found} :
    pattern.search begun (c :: text) = some (c :: before, found) ↔
      pattern.here begun (c :: text) = none ∧ pattern.search (c = '\n') text = some (before, found) := by
  rw [Pattern.search, Option.or_eq_some_iff]
  constructor
  · rintro (here | ⟨none, later⟩)
    · cases (here_eq_some.mp here).2.1
    · obtain ⟨⟨front, _⟩, matched, same⟩ := Option.map_eq_some_iff.mp later
      obtain ⟨⟨-, rfl⟩, rfl⟩ := by simpa using same
      exact ⟨none, matched⟩
  · rintro ⟨none, later⟩
    exact .inr ⟨none, by rw [later]; rfl⟩

/-- A match with nothing before it is the one at the start. -/
theorem search_nil {begun : Bool} {text : List Char} {found : Found}
    (matched : pattern.search begun text = some ([], found)) :
    pattern.here begun text = some ([], found) := by
  cases text with
  | nil => exact matched
  | cons c text =>
    rw [Pattern.search, Option.or_eq_some_iff] at matched
    rcases matched with here | ⟨-, later⟩
    · exact here
    · obtain ⟨_, _, same⟩ := Option.map_eq_some_iff.mp later
      cases same

theorem search_split {begun : Bool} {text before : List Char} {found : Found}
    (matched : pattern.search begun text = some (before, found)) :
    ∃ rest, text = before ++ rest ∧ pattern.matchAt rest = some found := by
  induction text generalizing begun before with
  | nil =>
    obtain ⟨-, rfl, hit⟩ := here_eq_some.mp matched
    exact ⟨[], rfl, hit⟩
  | cons c text ih =>
    cases before with
    | nil => exact ⟨c :: text, rfl, (here_eq_some.mp (search_nil matched)).2.2⟩
    | cons d before =>
      obtain rfl : d = c := by
        rw [Pattern.search, Option.or_eq_some_iff] at matched
        rcases matched with here | ⟨-, later⟩
        · cases (here_eq_some.mp here).2.1
        · obtain ⟨_, _, same⟩ := Option.map_eq_some_iff.mp later
          exact (List.cons.inj (Prod.mk.inj same).1).1.symm
      obtain ⟨rest, rfl, hit⟩ := ih (search_cons_eq_some.mp matched).2
      exact ⟨rest, rfl, hit⟩

/-- A new match in the place of the first one is the first where no earlier place has one. -/
theorem search_of_apart {begun : Bool} {before old new : List Char} {found other : Found}
    (matched : pattern.search begun (before ++ old) = some (before, found))
    (hit : pattern.matchAt new = some other)
    (apart : ∀ skipped, skipped ≠ [] → pattern.matchAt (skipped ++ new) ≠ none →
      pattern.matchAt (skipped ++ old) ≠ none) :
    pattern.search begun (before ++ new) = some (before, other) := by
  induction before generalizing begun with
  | nil =>
    obtain ⟨tried, -, -⟩ := here_eq_some.mp (search_nil matched)
    exact search_of_here (here_eq_some.mpr ⟨tried, rfl, hit⟩)
  | cons c before ih =>
    obtain ⟨none, later⟩ := search_cons_eq_some.mp matched
    refine search_cons_eq_some.mpr ⟨?_, ih later⟩
    unfold Pattern.here at none ⊢
    split
    · rfl
    · rename_i tried
      rw [if_neg tried, Option.map_eq_none_iff] at none
      rw [Option.map_eq_none_iff]
      by_contra again
      exact apart (c :: before) (fun nothing => nomatch nothing) again none

theorem head_digit (port : ℕ) (rest : List Char) :
    ∃ c later, decimal port ++ rest = c :: later ∧ isDigit c := by
  obtain ⟨c, digits, same⟩ := List.exists_cons_of_ne_nil (decimal_ne_nil port)
  refine ⟨c, digits ++ rest, by rw [same]; rfl, ?_⟩
  exact isDigit_of_mem_decimal c (by rw [same]; exact List.mem_cons_self)

/-- A line end that is found before a digit is there whatever comes in its place. -/
theorem close_across {front later swallowed rest : List Char} {c : Char}
    (closed : pattern.close (front ++ c :: later) = some (swallowed, rest)) (digit : isDigit c)
    (other : List Char) : pattern.close (front ++ other) ≠ none := by
  by_cases line : pattern.line
  · rw [Pattern.close, if_pos line] at closed ⊢
    obtain ⟨split, blank, ends, -⟩ := ending_eq_some closed
    have visible : c ≠ '\n' := by
      rintro rfl
      exact absurd (marker_of_isDigit digit) (by decide)
    rcases List.append_eq_append_iff.mp split with ⟨more, whole, tail⟩ | ⟨more, whole, tail⟩
    · exfalso
      cases more with
      | nil => exact visible (ends c (by rw [← List.nil_append rest, ← tail]; rfl))
      | cons d more =>
        obtain ⟨rfl, -⟩ := List.cons.inj tail
        have space := blank c (by rw [whole]; simp)
        rw [isSpace_of_isDigit digit] at space
        cases space
    · cases more with
      | nil => exact absurd (ends c (by rw [tail]; rfl)) visible
      | cons d more =>
        rw [whole, List.append_assoc]
        refine ending_ne_none blank ?_
        intro e head
        obtain rfl : d = e := by simpa using head
        exact ends d (by rw [tail]; rfl)
  · rw [Pattern.close, if_neg line]
    exact Option.some_ne_none _

/-- A match from an earlier place that is there with the port is there with the digits. -/
theorem matchAt_of_edited {text skipped : List Char} {found : Found} (reads : Reads pattern text found)
    (apart : pattern.Apart) (port : ℕ) (begun : skipped ≠ [])
    (again : pattern.matchAt (skipped ++ (found.pre ++ (decimal port ++ found.rest))) ≠ none) :
    pattern.matchAt (skipped ++ text) ≠ none := by
  obtain ⟨other, matched⟩ := Option.ne_none_iff_exists'.mp again
  have inner := matchAt_eq_some matched
  obtain ⟨first, later, start, digit⟩ := head_digit port found.rest
  have outer : pattern.close (found.swallowed ++ found.rest) ≠ none := by
    rw [reads.close]
    exact Option.some_ne_none _
  -- the prefix ends before the port
  have short : ∃ left, skipped ++ found.pre = other.pre ++ left ∧
      other.digits ++ (other.swallowed ++ other.rest) = left ++ (decimal port ++ found.rest) := by
    have split := inner.split
    rw [← List.append_assoc skipped] at split
    rcases List.append_eq_append_iff.mp split with ⟨more, whole, tail⟩ | ⟨left, whole, tail⟩
    · have nothing := apart skipped found.pre more _ port found.rest begun reads.pre (whole ▸ inner.pre)
        tail (close_endsLine reads.close)
      subst nothing
      exact ⟨[], by simpa using whole.symm, by simpa using tail.symm⟩
    · exact ⟨left, whole, tail⟩
  obtain ⟨left, whole, tail⟩ := short
  rw [reads.split, ← List.append_assoc skipped, whole, List.append_assoc]
  rcases List.append_eq_append_iff.mp tail with ⟨more, run, after⟩ | ⟨more, run, after⟩
  · have stop := inner.stop
    have closed := inner.close
    rw [after, start] at stop closed
    rw [run, List.append_assoc]
    refine matchAt_ne_none inner.pre inner.begun inner.digits ?_ (close_across closed digit _)
    -- the digits of the match end before the port too
    cases more with
    | nil =>
      have none := stop first rfl
      rw [digit] at none
      cases none
    | cons c more => exact stop
  · rw [← List.append_assoc left]
    have begun : left ++ found.digits ≠ [] := List.append_ne_nil_of_right_ne_nil left reads.begun
    refine matchAt_ne_none inner.pre begun ?_ reads.stop outer
    intro c member
    cases List.mem_append.mp member with
    | inl member => exact inner.digits c (by rw [run]; exact List.mem_append_left _ member)
    | inr member => exact reads.digits c member

end SysDeck.Cockpit.ServicePorts
