import SysDeck.Library.Fields
import SysDeck.Cockpit.Packages

/-! Where the readers of the cockpit and of the web console take the same rows from the report of
a package manager. -/

namespace SysDeck.Cockpit.Packages

open Scan
open Web.Packages (UpdateRow SearchRow visible lines)

/-- A text in which both editions see the same blanks and the same ends of lines. -/
def Plain (text : List Char) : Prop :=
  ∀ c ∈ text, isSpace c = Text.isBlank c ∧ (lineEnd c ↔ c = '\n')

instance (text : List Char) : Decidable (Plain text) :=
  List.decidableBAll (fun c => isSpace c = Text.isBlank c ∧ (lineEnd c ↔ c = '\n')) text

/-! ### Lines -/

theorem joinReturns_plain {text : List Char} (plain : Plain text) : joinReturns text = text := by
  induction text with
  | nil => rfl
  | cons c rest ih =>
    have other : c ≠ '\r' := by
      rintro rfl
      exact absurd ((plain '\r' List.mem_cons_self).2.mp (by decide)) (by decide)
    have later := ih fun d member => plain d (List.mem_cons_of_mem _ member)
    rw [joinReturns, later]
    rintro rest' rfl
    exact absurd rfl other

/-- The lines of a plain text, without the empty one after its last newline. -/
theorem splitlines_plain {raw : String} (plain : Plain raw.toList) :
    splitlines raw = if (lines raw).getLast? = some [] then (lines raw).dropLast else lines raw := by
  have same : raw.toList.splitOnP lineEnd = lines raw := by
    refine splitOnP_congr fun c member => ?_
    rw [Bool.eq_iff_iff, (plain c member).2]
    simp
  rw [splitlines, joinReturns_plain plain, same]

theorem mem_of_mem_splitOnP {p : Char → Bool} {text line : List Char} {c : Char}
    (part : line ∈ text.splitOnP p) (member : c ∈ line) : c ∈ text := by
  induction text generalizing line with
  | nil =>
    obtain rfl : line = [] := by simpa using part
    cases member
  | cons d text ih =>
    rw [List.splitOnP_cons_eq_if_modifyHead] at part
    split at part
    · rcases List.mem_cons.mp part with rfl | part
      · cases member
      · exact List.mem_cons_of_mem _ (ih part member)
    · cases parts : text.splitOnP p with
      | nil => simp [parts] at part
      | cons first rest =>
        rw [parts] at part ih
        rcases List.mem_cons.mp part with rfl | part
        · rcases List.mem_cons.mp member with rfl | member
          · exact List.mem_cons_self
          · exact List.mem_cons_of_mem _ (ih List.mem_cons_self member)
        · exact List.mem_cons_of_mem _ (ih (List.mem_cons_of_mem _ part) member)

theorem mem_lines_plain {raw : String} (plain : Plain raw.toList) {line : List Char}
    (member : line ∈ lines raw) : Plain line :=
  fun c inside => plain c (mem_of_mem_splitOnP member inside)

/-- A reader that takes nothing from an empty line. -/
theorem filterMap_splitlines {α : Type} {raw : String} (plain : Plain raw.toList)
    {reader : List Char → Option α} (empty : reader [] = none) :
    (splitlines raw).filterMap reader = (lines raw).filterMap reader := by
  rw [splitlines_plain plain]
  split
  · next last =>
    have whole := List.dropLast_append_getLast? [] last
    rw [← whole]
    simp [empty]
  · rfl

theorem split_plain {line : List Char} (plain : Plain line) : split line = fields Text.isBlank line :=
  fields_congr fun c member => (plain c member).1

/-- A reader that takes a row where another does takes at least as many. -/
theorem length_filterMap_le {α β : Type} {lines : List α} {first second : α → Option β}
    (more : ∀ line ∈ lines, second line ≠ none → first line ≠ none) :
    (lines.filterMap second).length ≤ (lines.filterMap first).length := by
  induction lines with
  | nil => exact Nat.le_refl 0
  | cons line lines ih =>
    have later := ih fun other member => more other (List.mem_cons_of_mem _ member)
    have here := more line List.mem_cons_self
    cases taken : second line with
    | none =>
      rw [List.filterMap_cons_none taken]
      exact Nat.le_trans later (by cases given : first line <;> simp [given])
    | some row =>
      obtain ⟨row', given⟩ := Option.ne_none_iff_exists'.mp (here (by simp [taken]))
      rw [List.filterMap_cons_some taken, List.filterMap_cons_some given]
      exact Nat.succ_le_succ later

/-- Two readers take the same rows of a text, the first taking one where the second does, just
where they take the same of each line. -/
theorem filterMap_eq_iff {α β : Type} {lines : List α} {first second : α → Option β}
    (more : ∀ line ∈ lines, second line ≠ none → first line ≠ none) :
    lines.filterMap first = lines.filterMap second ↔ ∀ line ∈ lines, first line = second line := by
  constructor
  · intro same
    induction lines with
    | nil => simp
    | cons line lines ih =>
      have more' := fun other member => more other (List.mem_cons_of_mem line member)
      have here := more line List.mem_cons_self
      cases taken : second line with
      | none =>
        rw [List.filterMap_cons_none taken] at same
        cases given : first line with
        | none =>
          rw [List.filterMap_cons_none given] at same
          exact List.forall_mem_cons.mpr ⟨given.trans taken.symm, ih more' same⟩
        | some row =>
          have count := congrArg List.length same
          rw [List.filterMap_cons_some given, List.length_cons] at count
          have least := length_filterMap_le more'
          omega
      | some row =>
        obtain ⟨row', given⟩ := Option.ne_none_iff_exists'.mp (here (by simp [taken]))
        rw [List.filterMap_cons_some taken, List.filterMap_cons_some given] at same
        obtain ⟨equal, later⟩ := List.cons.inj same
        refine List.forall_mem_cons.mpr ⟨?_, ih more' later⟩
        rw [given, taken, equal]
  · intro same
    exact List.filterMap_congr same

/-! ### pacman -/

/-- A line of which both pacman readers take the same. -/
def PacmanAgrees (line : List Char) : Prop :=
  (fields Text.isBlank line).length < 2 ∨
    (∀ c ∈ line.head?, Text.isBlank c = false) ∧ ∃ name current others,
      fields Text.isBlank line = name :: current :: "->".toList :: "->".toList :: others

theorem two_not_few (first second : List Char) (others : List (List Char)) :
    ¬ (first :: second :: others).length < 2 := by
  rw [List.length_cons, List.length_cons]
  omega

/-- A run that no visible character continues. -/
theorem blank_of_longest {rest : List Char}
    (longest : ∀ longer left, rest = longer ++ left → longer ≠ [] → ¬ ∀ c ∈ longer, visible c) :
    ∀ c ∈ rest.head?, Text.isBlank c := by
  intro c head
  obtain ⟨rest', rfl⟩ : ∃ rest', rest = c :: rest' := List.head?_eq_some_iff.mp head
  by_contra solid
  exact longest [c] rest' rfl (by simp) (by simpa [visible] using solid)

/-- What the reader of the web console takes: the current version ends before an arrow, and the
candidate begins after it. -/
theorem pacmanUpdate_eq_some {line : List Char} {row : UpdateRow}
    (matched : Web.Packages.pacmanUpdate line = some row) :
    ∃ name gap current gap' gap'' candidate rest,
      line = name ++ (gap ++ (current ++ (gap' ++ ("->".toList ++ (gap'' ++ (candidate ++ rest)))))) ∧
      name ≠ [] ∧ (∀ c ∈ name, visible c) ∧ gap ≠ [] ∧ (∀ c ∈ gap, Text.isBlank c) ∧
      current ≠ [] ∧ (∀ c ∈ current, visible c) ∧ (∀ c ∈ gap', Text.isBlank c) ∧
      (∀ c ∈ gap'', Text.isBlank c) ∧ candidate ≠ [] ∧ (∀ c ∈ candidate, visible c) ∧
      (∀ c ∈ rest.head?, Text.isBlank c) ∧
      row = { name := String.ofList name, current := String.ofList current,
              candidate := String.ofList candidate } := by
  obtain ⟨name, r1, rfl, begun, shown, matched, -⟩ := many1_eq_some matched
  obtain ⟨gap, r2, rfl, wide, blanks, matched, -⟩ := many1_eq_some matched
  obtain ⟨current, r3, rfl, begun', shown', matched, -⟩ := many1_eq_some matched
  obtain ⟨gap', r4, rfl, blanks', matched, -⟩ := greedyFrom_eq_some matched
  obtain ⟨r5, rfl, matched⟩ := literal_eq_some matched
  obtain ⟨gap'', r6, rfl, blanks'', matched, -⟩ := greedyFrom_eq_some matched
  obtain ⟨candidate, rest, rfl, begun'', shown'', matched, longest⟩ := many1_eq_some matched
  refine ⟨name, gap, current, gap', gap'', candidate, rest, rfl, begun, shown, wide, blanks,
    begun', shown', blanks', blanks'', begun'', shown'', ?_, (Option.some.inj matched).symm⟩
  exact blank_of_longest fun longer left cut more all => by simpa using longest longer left cut more all

theorem shown_of_visible {text : List Char} (all : ∀ c ∈ text, visible c) :
    ∀ c ∈ text, Text.isBlank c = false :=
  fun c member => by simpa [visible] using all c member

theorem visible_of_shown {text : List Char} (all : ∀ c ∈ text, Text.isBlank c = false) :
    ∀ c ∈ text, visible c :=
  fun c member => by simpa [visible] using all c member

theorem starts_of_visible {run : List Char} (rest : List Char) (begun : run ≠ [])
    (all : ∀ c ∈ run, visible c) : ∀ c ∈ (run ++ rest).head?, Text.isBlank c = false := by
  obtain ⟨d, run, rfl⟩ := List.exists_cons_of_ne_nil begun
  intro c head
  obtain rfl : d = c := by simpa using head
  exact shown_of_visible all d List.mem_cons_self

theorem ofList_inj {first second : List Char} (same : String.ofList first = String.ofList second) :
    first = second := String.ofList_injective same

/-- Where both pacman readers take the same row of a line, there are two arrows in it. -/
theorem pacmanAgrees_of_some {line : List Char} {row : UpdateRow} (plain : Plain line)
    (matched : Web.Packages.pacmanUpdate line = some row) (same : pacmanUpdate line = some row) :
    PacmanAgrees line := by
  obtain ⟨name, gap, current, gap', gap'', candidate, rest, split, begun, shown, wide, blanks, begun',
    shown', blanks', blanks'', begun'', shown'', stop, rfl⟩ := pacmanUpdate_eq_some matched
  refine Or.inr ⟨?_, name, current, fields Text.isBlank rest, ?_⟩
  · rw [split]
    exact starts_of_visible _ begun shown
  have first : fields Text.isBlank line = name :: fields Text.isBlank
      (current ++ (gap' ++ ("->".toList ++ (gap'' ++ (candidate ++ rest))))) := by
    rw [split]
    exact fields_run_gap begun (shown_of_visible shown) wide blanks
  have last : fields Text.isBlank (candidate ++ rest) = candidate :: fields Text.isBlank rest :=
    fields_run begun'' (shown_of_visible shown'') stop
  have arrow : ∀ c ∈ "->".toList, Text.isBlank c = false := forall_of_all (by decide)
  rw [pacmanUpdate, split_plain plain, first] at same
  rw [first]
  cases second : fields Text.isBlank
      (current ++ (gap' ++ ("->".toList ++ (gap'' ++ (candidate ++ rest))))) with
  | nil =>
    rw [second] at same
    cases same
  | cons current' others =>
    rw [second, Option.some.injEq, UpdateRow.mk.injEq] at same
    obtain ⟨-, sameCurrent, sameCandidate⟩ := same
    obtain rfl := ofList_inj sameCurrent
    have candidate_eq := ofList_inj sameCandidate
    -- the second field ends where the match ends it, so a blank stands before the arrow
    obtain ⟨tail, cut, -, -, ends, rfl⟩ :=
      fields_eq_cons_of_starts (starts_of_visible _ begun' shown') second
    obtain rfl := List.append_cancel_left cut
    have wide' : gap' ≠ [] := by
      rintro rfl
      exact absurd (ends '-' rfl) (by decide)
    rw [fields_blanks blanks'] at candidate_eq ⊢
    by_cases wide'' : gap'' = []
    · subst wide''
      have joined : ∀ c ∈ "->".toList ++ candidate, Text.isBlank c = false := by
        intro c member
        rcases List.mem_append.mp member with member | member
        · exact arrow c member
        · exact shown_of_visible shown'' c member
      rw [List.nil_append, ← List.append_assoc, fields_run (by simp) joined stop] at candidate_eq
      have longer := congrArg List.length candidate_eq
      simp at longer
      omega
    · rw [fields_run_gap (by decide) arrow wide'' blanks'', last] at candidate_eq ⊢
      obtain rfl : "->".toList = candidate := candidate_eq
      rfl

/-- A match has two fields, so that the reader of the cockpit takes a row as well. -/
theorem pacmanUpdate_more {line : List Char} (plain : Plain line)
    (matched : Web.Packages.pacmanUpdate line ≠ none) : pacmanUpdate line ≠ none := by
  obtain ⟨row, matched⟩ := Option.ne_none_iff_exists'.mp matched
  obtain ⟨name, gap, current, gap', gap'', candidate, rest, split, begun, shown, wide, blanks, begun',
    shown', -⟩ := pacmanUpdate_eq_some matched
  obtain ⟨more, others, second⟩ := fields_of_begun
    (gap' ++ ("->".toList ++ (gap'' ++ (candidate ++ rest)))) begun' (shown_of_visible shown')
  rw [pacmanUpdate, split_plain plain, split,
    fields_run_gap begun (shown_of_visible shown) wide blanks, second]
  simp

/-- Two arrows after the current version: the web console takes the second one as the candidate,
as the cockpit takes the first. -/
theorem pacmanUpdate_of_arrows {line name current : List Char} {others : List (List Char)}
    (starts : ∀ c ∈ line.head?, Text.isBlank c = false)
    (found : fields Text.isBlank line = name :: current :: "->".toList :: "->".toList :: others) :
    Web.Packages.pacmanUpdate line = some
      { name := String.ofList name, current := String.ofList current, candidate := "->" } := by
  obtain ⟨gap, r1, rfl, begun, shown, wide, blanks, starts1, found1⟩ :=
    fields_eq_cons_cons starts found
  obtain ⟨gap', r2, rfl, begun', shown', wide', blanks', starts2, found2⟩ :=
    fields_eq_cons_cons starts1 found1
  obtain ⟨gap'', r3, rfl, -, -, wide'', blanks'', starts3, found3⟩ :=
    fields_eq_cons_cons starts2 found2
  obtain ⟨rest, rfl, begun3, shown3, stop, -⟩ := fields_eq_cons_of_starts starts3 found3
  have solid {text : List Char} (head : ∀ c ∈ text.head?, Text.isBlank c) :
      ∀ c ∈ text.head?, visible c = false := fun c first => by simpa [visible] using head c first
  have gapHead {gap : List Char} (rest : List Char) (wide : gap ≠ [])
      (blanks : ∀ c ∈ gap, Text.isBlank c) : ∀ c ∈ (gap ++ rest).head?, visible c = false := by
    obtain ⟨d, gap, rfl⟩ := List.exists_cons_of_ne_nil wide
    intro c head
    obtain rfl : d = c := by simpa using head
    simpa [visible] using blanks d List.mem_cons_self
  refine many1_of_longest begun (visible_of_shown shown) (gapHead _ wide blanks) ?_
  refine many1_of_longest wide blanks starts1 ?_
  refine many1_of_longest begun' (visible_of_shown shown') (gapHead _ wide' blanks') ?_
  refine many_of_longest blanks' starts2 ?_
  rw [literal_append]
  refine many_of_longest blanks'' starts3 ?_
  refine many1_of_longest begun3 (visible_of_shown shown3) (solid stop) ?_
  rfl

theorem pacman_eq_iff {line : List Char} (plain : Plain line) :
    pacmanUpdate line = Web.Packages.pacmanUpdate line ↔ PacmanAgrees line := by
  constructor
  · intro same
    cases matched : Web.Packages.pacmanUpdate line with
    | some row => exact pacmanAgrees_of_some plain matched (same.trans matched)
    | none =>
      rw [matched, pacmanUpdate, split_plain plain] at same
      refine Or.inl ?_
      split at same
      · cases same
      · next short =>
        match found : fields Text.isBlank line with
        | [] => simp
        | [_] => simp
        | first :: second :: rest => exact absurd found (short first second rest)
  · rintro (few | ⟨starts, name, current, others, found⟩)
    · have nothing : pacmanUpdate line = none := by
        rw [pacmanUpdate, split_plain plain]
        split
        · next found =>
          rw [found] at few
          exact absurd few (two_not_few _ _ _)
        · rfl
      rw [nothing, eq_comm]
      by_contra matched
      exact pacmanUpdate_more plain matched nothing
    · rw [pacmanUpdate_of_arrows starts found, pacmanUpdate, split_plain plain, found]
      rfl

/-! ### apt -/

/-- A line of which both apt readers take the same. -/
def AptAgrees (line : List Char) : Prop :=
  (fields Text.isBlank line).length < 2 ∨
    ¬ "Listing".toList <+: line ∧ (∀ c ∈ line.head?, Text.isBlank c = false) ∧
      ∃ name origin candidate others,
        fields Text.isBlank line = (name ++ '/' :: origin) :: candidate :: others ∧
          name ≠ [] ∧ '/' ∉ name ∧ origin ≠ [] ∧ '/' ∉ origin.dropLast

def nameCandidate (row : UpdateRow) : String × String := (row.name, row.candidate)

theorem aptRest_ne_none {name origin gap candidate : List Char} (rest : List Char)
    (begun : origin ≠ []) (shown : ∀ c ∈ origin, visible c) (wide : gap ≠ [])
    (blanks : ∀ c ∈ gap, Text.isBlank c) (begun' : candidate ≠ []) (shown' : ∀ c ∈ candidate, visible c) :
    literal ['/'] (many1 visible fun _ rest => many1 Text.isBlank (fun _ rest => many1 visible
      (fun candidate rest => some
        { name := String.ofList name, current := String.ofList (Web.Packages.upgradedFrom rest),
          candidate := String.ofList candidate : UpdateRow }) rest) rest)
      (['/'] ++ (origin ++ (gap ++ (candidate ++ rest)))) ≠ none := by
  rw [literal_append]
  refine many1_ne_none begun shown ?_
  refine many1_ne_none wide blanks ?_
  refine many1_ne_none begun' shown' ?_
  simp

/-- What the reader of the web console takes: the name ends at the last slash that more of the
field follows. -/
theorem aptUpdate_eq_some {line : List Char} {row : UpdateRow}
    (matched : Web.Packages.aptUpdate line = some row) :
    ¬ "Listing".toList <+: line ∧ (∀ c ∈ line.head?, Text.isBlank c = false) ∧
      ∃ name origin candidate others,
        fields Text.isBlank line = (name ++ '/' :: origin) :: candidate :: others ∧
          name ≠ [] ∧ origin ≠ [] ∧ '/' ∉ origin.dropLast ∧
          nameCandidate row = (String.ofList name, String.ofList candidate) := by
  rw [Web.Packages.aptUpdate] at matched
  split at matched
  · cases matched
  next notListing =>
  obtain ⟨name, r1, rfl, begun, shown, matched, longest⟩ := many1_eq_some matched
  obtain ⟨r2, rfl, matched⟩ := literal_eq_some matched
  obtain ⟨origin, r3, rfl, begun', shown', matched, -⟩ := many1_eq_some matched
  obtain ⟨gap, r4, rfl, wide, blanks, matched, -⟩ := many1_eq_some matched
  obtain ⟨candidate, rest, rfl, begun'', shown'', matched, longest''⟩ := many1_eq_some matched
  have stop := blank_of_longest fun longer left cut more all => by
    simpa using longest'' longer left cut more all
  have joined : ∀ c ∈ name ++ '/' :: origin, Text.isBlank c = false := by
    intro c member
    rcases List.mem_append.mp member with member | member
    · exact shown_of_visible shown c member
    rcases List.mem_cons.mp member with rfl | member
    · decide
    · exact shown_of_visible shown' c member
  have first := @fields_run_gap Text.isBlank (name ++ '/' :: origin) _ (candidate ++ rest) (by simp) joined
    wide blanks
  rw [fields_run begun'' (shown_of_visible shown'') stop] at first
  refine ⟨fun listing => notListing (Or.inr listing), starts_of_visible _ begun shown, name, origin,
    candidate, _, by simpa using first, begun, begun', ?_, ?_⟩
  · intro slash
    obtain ⟨before, after, cut⟩ := List.append_of_mem slash
    have whole : origin = before ++ '/' :: (after ++ [origin.getLast begun']) := by
      conv_lhs => rw [← List.dropLast_append_getLast begun', cut]
      simp
    generalize origin.getLast begun' = last at whole
    subst whole
    have longer : ∀ c ∈ '/' :: before, visible c := by
      intro c member
      rcases List.mem_cons.mp member with rfl | member
      · decide
      · exact shown' c (List.mem_append_left _ member)
    refine absurd (longest ('/' :: before) (['/'] ++ ((after ++ [last]) ++ (gap ++ (candidate ++ rest))))
      (by simp) (by simp) longer) ?_
    exact aptRest_ne_none rest (by simp)
      (fun c member => shown' c (List.mem_append_right _ (List.mem_cons_of_mem _ member)))
      wide blanks begun'' shown''
  · obtain rfl := Option.some.inj matched
    rfl

theorem aptUpdate_ne_none {line name origin candidate : List Char} {others : List (List Char)}
    (listed : ¬ "Listing".toList <+: line) (starts : ∀ c ∈ line.head?, Text.isBlank c = false)
    (found : fields Text.isBlank line = (name ++ '/' :: origin) :: candidate :: others)
    (begun : name ≠ []) (begun' : origin ≠ []) : Web.Packages.aptUpdate line ≠ none := by
  obtain ⟨gap, r1, rfl, -, shown, wide, blanks, starts1, found1⟩ := fields_eq_cons_cons starts found
  obtain ⟨rest, rfl, begun2, shown2, -, -⟩ := fields_eq_cons_of_starts starts1 found1
  have shownName : ∀ c ∈ name, visible c :=
    visible_of_shown fun c member => shown c (List.mem_append_left _ member)
  have shownOrigin : ∀ c ∈ origin, visible c :=
    visible_of_shown fun c member => shown c (List.mem_append_right _ (List.mem_cons_of_mem _ member))
  have notSkipped : ¬ ((name ++ '/' :: origin) ++ (gap ++ (candidate ++ rest)) = [] ∨
      "Listing".toList <+: (name ++ '/' :: origin) ++ (gap ++ (candidate ++ rest))) := by
    rintro (empty | listing)
    · simp [begun] at empty
    · exact listed listing
  rw [Web.Packages.aptUpdate, if_neg notSkipped, List.append_assoc]
  refine many1_ne_none begun shownName ?_
  exact aptRest_ne_none rest begun' shownOrigin wide blanks begun2 (visible_of_shown shown2)

/-- A text that is cut at a character is cut at its first one, or after it. -/
theorem cut_first {separator : Char} {before after before' after' : List Char}
    (same : before ++ separator :: after = before' ++ separator :: after')
    (first : separator ∉ before') :
    before = before' ∨
      ∃ more, before = before' ++ separator :: more ∧ after' = more ++ separator :: after := by
  rcases List.append_eq_append_iff.mp same with ⟨more, rfl, cut⟩ | ⟨more, rfl, cut⟩
  · cases more with
    | nil => simp
    | cons c more =>
      obtain ⟨rfl, -⟩ := List.cons.inj cut
      simp at first
  · cases more with
    | nil => simp
    | cons c more =>
      obtain ⟨rfl, later⟩ := List.cons.inj cut
      exact Or.inr ⟨more, rfl, later⟩

theorem takeWhile_first {separator : Char} {before : List Char} (after : List Char)
    (first : separator ∉ before) :
    (before ++ separator :: after).takeWhile (· ≠ separator) = before := by
  have kept : ∀ c ∈ before, decide (c ≠ separator) = true := by
    intro c member
    simpa using fun (same : c = separator) => first (same ▸ member)
  rw [List.takeWhile_append_of_pos kept]
  simp

theorem not_mem_takeWhile (separator : Char) (text : List Char) :
    separator ∉ text.takeWhile (· ≠ separator) := by
  intro member
  simpa using List.mem_takeWhile_imp member

/-- Where a line has fewer than two fields, or more. -/
theorem two_fields (line : List Char) :
    (fields Text.isBlank line).length < 2 ∨
      ∃ first second others, fields Text.isBlank line = first :: second :: others := by
  match fields Text.isBlank line with
  | [] => simp
  | [_] => simp
  | first :: second :: others => exact Or.inr ⟨first, second, others, rfl⟩

theorem aptUpdate_of_two {line first second : List Char} {others : List (List Char)}
    (plain : Plain line) (found : fields Text.isBlank line = first :: second :: others) :
    aptUpdate line = some (String.ofList (first.takeWhile (· ≠ '/')), String.ofList second) := by
  rw [aptUpdate, split_plain plain, found]

theorem aptUpdate_of_few {line : List Char} (plain : Plain line)
    (few : (fields Text.isBlank line).length < 2) : aptUpdate line = none := by
  rw [aptUpdate, split_plain plain]
  split
  · next found =>
    rw [found] at few
    exact absurd few (two_not_few _ _ _)
  · rfl

theorem apt_eq_iff {line : List Char} (plain : Plain line) :
    aptUpdate line = (Web.Packages.aptUpdate line).map nameCandidate ↔ AptAgrees line := by
  rcases two_fields line with few | ⟨first, second, others, found⟩
  · refine iff_of_true ?_ (Or.inl few)
    rw [aptUpdate_of_few plain few]
    cases matched : Web.Packages.aptUpdate line with
    | none => rfl
    | some row =>
      obtain ⟨-, -, name, origin, candidate, others, found, -⟩ := aptUpdate_eq_some matched
      rw [found] at few
      exact absurd few (two_not_few _ _ _)
  · rw [aptUpdate_of_two plain found]
    constructor
    · intro same
      obtain ⟨row, matched, row_eq⟩ := Option.map_eq_some_iff.mp same.symm
      obtain ⟨listed, starts, name, origin, candidate, others', found', begun, begun', last, taken⟩ :=
        aptUpdate_eq_some matched
      refine Or.inr ⟨listed, starts, name, origin, candidate, others', found', begun, ?_, begun', last⟩
      obtain ⟨rfl, -⟩ := List.cons.inj (found.symm.trans found')
      rw [row_eq, Prod.mk.injEq] at taken
      rw [← ofList_inj taken.1]
      exact not_mem_takeWhile _ _
    · rintro (few | ⟨listed, starts, name, origin, candidate, others', found', begun, first', begun',
        last⟩)
      · rw [found] at few
        exact absurd few (two_not_few _ _ _)
      obtain ⟨row, matched⟩ := Option.ne_none_iff_exists'.mp
        (aptUpdate_ne_none listed starts found' begun begun')
      obtain ⟨-, -, name', origin', candidate', others'', found'', -, begun'', -, taken⟩ :=
        aptUpdate_eq_some matched
      obtain ⟨rfl, rest⟩ := List.cons.inj (found.symm.trans found')
      obtain ⟨cut, rest'⟩ := List.cons.inj (found.symm.trans found'')
      obtain ⟨rfl, -⟩ := List.cons.inj rest
      obtain ⟨rfl, -⟩ := List.cons.inj rest'
      have same : name' = name := by
        rcases cut_first cut.symm first' with same | ⟨more, -, after⟩
        · exact same
        · exfalso
          rw [after, List.dropLast_append_of_ne_nil (by simp)] at last
          refine last (List.mem_append_right _ ?_)
          rw [List.dropLast_cons_of_ne_nil begun'']
          exact List.mem_cons_self
      rw [matched, Option.map_some, taken, same, takeWhile_first _ first']

/-! ### dnf and yum -/

/-- A line that only the web console reads, for it skips `Last ` and the cockpit `Last`. -/
def LastRow (line : List Char) : Prop :=
  "Last".toList <+: line ∧ ¬ "Last ".toList <+: line ∧ ∃ name arch candidate third others,
    fields Text.isBlank line = (name ++ '.' :: arch) :: candidate :: third :: others ∧
      name ≠ [] ∧ arch ≠ []

/-- A line of which both rpm readers take the same. -/
def RpmAgrees (line : List Char) : Prop :=
  (fields Text.isBlank line).length < 2 ∨ [' '] <+: line ∨ ("Last".toList <+: line ∧ ¬ LastRow line) ∨
    ¬ "Last".toList <+: line ∧ (∀ c ∈ line.head?, Text.isBlank c = false) ∧
      ∃ name arch candidate third others,
        fields Text.isBlank line = (name ++ '.' :: arch) :: candidate :: third :: others ∧
          name ≠ [] ∧ '.' ∉ name ∧ arch ≠ []

theorem rpmRest_ne_none {name arch gap candidate gap' third : List Char} (rest : List Char)
    (begun : arch ≠ []) (shown : ∀ c ∈ arch, visible c) (wide : gap ≠ [])
    (blanks : ∀ c ∈ gap, Text.isBlank c) (begun' : candidate ≠ []) (shown' : ∀ c ∈ candidate, visible c)
    (wide' : gap' ≠ []) (blanks' : ∀ c ∈ gap', Text.isBlank c) (begun'' : third ≠ [])
    (shown'' : ∀ c ∈ third, visible c) :
    literal ['.'] (many1 visible fun _ rest => many1 Text.isBlank (fun _ rest => many1 visible
      (fun candidate rest => many1 Text.isBlank (fun _ rest => many1 visible (fun _ _ => some
        { name := String.ofList name, current := "",
          candidate := String.ofList candidate : UpdateRow }) rest) rest) rest) rest)
      (['.'] ++ (arch ++ (gap ++ (candidate ++ (gap' ++ (third ++ rest)))))) ≠ none := by
  rw [literal_append]
  refine many1_ne_none begun shown ?_
  refine many1_ne_none wide blanks ?_
  refine many1_ne_none begun' shown' ?_
  refine many1_ne_none wide' blanks' ?_
  refine many1_ne_none begun'' shown'' ?_
  simp

/-- What the reader of the web console takes: the name ends at the first dot that is not its first
character. -/
theorem rpmUpdate_eq_some {line : List Char} {row : UpdateRow}
    (matched : Web.Packages.rpmUpdate line = some row) :
    ¬ "Last ".toList <+: line ∧ ¬ [' '] <+: line ∧ (∀ c ∈ line.head?, Text.isBlank c = false) ∧
      ∃ name arch candidate third others,
        fields Text.isBlank line = (name ++ '.' :: arch) :: candidate :: third :: others ∧
          name ≠ [] ∧ arch ≠ [] ∧ (∀ before after, name = before ++ '.' :: after → before = []) ∧
          nameCandidate row = (String.ofList name, String.ofList candidate) := by
  rw [Web.Packages.rpmUpdate] at matched
  split at matched
  · cases matched
  next taken =>
  obtain ⟨name, r1, rfl, begun, shown, matched, shortest⟩ := lazyMany1_eq_some matched
  obtain ⟨r2, rfl, matched⟩ := literal_eq_some matched
  obtain ⟨arch, r3, rfl, begun', shown', matched, -⟩ := many1_eq_some matched
  obtain ⟨gap, r4, rfl, wide, blanks, matched, -⟩ := many1_eq_some matched
  obtain ⟨candidate, r5, rfl, begun'', shown'', matched, -⟩ := many1_eq_some matched
  obtain ⟨gap', r6, rfl, wide', blanks', matched, -⟩ := many1_eq_some matched
  obtain ⟨third, rest, rfl, begun3, shown3, matched, -⟩ := many1_eq_some matched
  have joined : ∀ c ∈ name ++ '.' :: arch, Text.isBlank c = false := by
    intro c member
    rcases List.mem_append.mp member with member | member
    · exact shown_of_visible shown c member
    rcases List.mem_cons.mp member with rfl | member
    · decide
    · exact shown_of_visible shown' c member
  obtain ⟨more, others, last⟩ := fields_of_begun rest begun3 (shown_of_visible shown3)
  have first : fields Text.isBlank
      ((name ++ '.' :: arch) ++ (gap ++ (candidate ++ (gap' ++ (third ++ rest))))) =
        (name ++ '.' :: arch) :: candidate :: (third ++ more) :: others := by
    rw [fields_run_gap (by simp) joined wide blanks,
      fields_run_gap begun'' (shown_of_visible shown'') wide' blanks', last]
  refine ⟨fun last => taken (Or.inr (Or.inl last)), fun space => taken (Or.inr (Or.inr space)),
    starts_of_visible _ begun shown, name, arch, candidate, third ++ more, others,
    by simpa using first, begun, begun', ?_, ?_⟩
  · rintro before after rfl
    by_contra early
    refine absurd (shortest before ('.' :: after) rfl early (by simp)) ?_
    have shownAfter : ∀ c ∈ after ++ '.' :: arch, visible c := by
      intro c member
      rcases List.mem_append.mp member with member | member
      · exact shown c (List.mem_append_right _ (List.mem_cons_of_mem _ member))
      rcases List.mem_cons.mp member with rfl | member
      · decide
      · exact shown' c member
    have failed := @rpmRest_ne_none before _ _ _ _ _ rest (by simp) shownAfter wide blanks begun''
      shown'' wide' blanks' begun3 shown3
    simpa using failed
  · obtain rfl := Option.some.inj matched
    rfl

theorem blankLine_of_begun {run : List Char} (rest : List Char) (begun : run ≠ [])
    (shown : ∀ c ∈ run, Text.isBlank c = false) : ¬ Web.Packages.blankLine (run ++ rest) := by
  obtain ⟨c, run, rfl⟩ := List.exists_cons_of_ne_nil begun
  have solid : Text.isBlank c = false := shown c List.mem_cons_self
  intro blankLine
  have empty : Text.trim (c :: run ++ rest) = [] := by
    simpa [Web.Packages.blankLine] using blankLine
  rw [Text.trim, Text.trimStart_of_head (by simpa using solid), List.rdropWhile_eq_nil_iff] at empty
  have isBlank := empty c (by simp)
  rw [solid] at isBlank
  cases isBlank

theorem rpmUpdate_ne_none {line name arch candidate third : List Char} {others : List (List Char)}
    (last : ¬ "Last ".toList <+: line) (starts : ∀ c ∈ line.head?, Text.isBlank c = false)
    (found : fields Text.isBlank line = (name ++ '.' :: arch) :: candidate :: third :: others)
    (begun : name ≠ []) (begun' : arch ≠ []) : Web.Packages.rpmUpdate line ≠ none := by
  obtain ⟨gap, r1, rfl, -, shown, wide, blanks, starts1, found1⟩ := fields_eq_cons_cons starts found
  obtain ⟨gap', r2, rfl, begun1, shown1, wide1, blanks1, starts2, found2⟩ :=
    fields_eq_cons_cons starts1 found1
  obtain ⟨rest, rfl, begun2, shown2, -, -⟩ := fields_eq_cons_of_starts starts2 found2
  have shownName : ∀ c ∈ name, visible c :=
    visible_of_shown fun c member => shown c (List.mem_append_left _ member)
  have shownArch : ∀ c ∈ arch, visible c :=
    visible_of_shown fun c member => shown c (List.mem_append_right _ (List.mem_cons_of_mem _ member))
  have notSpace : ¬ [' '] <+: (name ++ '.' :: arch) ++ (gap ++ (candidate ++ (gap' ++ (third ++ rest)))) := by
    rintro ⟨tail, space⟩
    have solid := starts ' ' (by rw [← space]; rfl)
    exact absurd solid (by decide)
  have notBlank : ¬ Web.Packages.blankLine
      ((name ++ '.' :: arch) ++ (gap ++ (candidate ++ (gap' ++ (third ++ rest))))) :=
    blankLine_of_begun _ (by simp) shown
  rw [Web.Packages.rpmUpdate, if_neg (by rintro (blank | skip | space) <;> contradiction), List.append_assoc]
  refine lazyMany1_ne_none begun shownName ?_
  exact rpmRest_ne_none rest begun' shownArch wide blanks begun1 (visible_of_shown shown1)
    wide1 blanks1 begun2 (visible_of_shown shown2)

theorem rpmUpdate_of_two {line first second : List Char} {others : List (List Char)}
    (plain : Plain line) (found : fields Text.isBlank line = first :: second :: others) :
    rpmUpdate line = if "Last".toList <+: line ∨ [' '] <+: line then none
      else some (String.ofList (first.takeWhile (· ≠ '.')), String.ofList second) := by
  rw [rpmUpdate, split_plain plain, found]

theorem rpmUpdate_of_few {line : List Char} (plain : Plain line)
    (few : (fields Text.isBlank line).length < 2) : rpmUpdate line = none := by
  rw [rpmUpdate, split_plain plain]
  split
  · next found =>
    rw [found] at few
    exact absurd few (two_not_few _ _ _)
  · rfl

/-- The lines beginning `Last` are skipped by both readers, or only by the cockpit's. -/
theorem rpm_of_last {line : List Char} (last : "Last".toList <+: line) :
    Web.Packages.rpmUpdate line = none ↔ ¬ LastRow line := by
  have starts : ∀ c ∈ line.head?, Text.isBlank c = false := by
    obtain ⟨rest, rfl⟩ := last
    intro c head
    obtain rfl : 'L' = c := by simpa using head
    decide
  constructor
  · rintro matched ⟨-, notLast, name, arch, candidate, third, others, found, begun, begun'⟩
    exact rpmUpdate_ne_none notLast starts found begun begun' matched
  · intro noRow
    by_contra matched
    obtain ⟨row, matched⟩ := Option.ne_none_iff_exists'.mp matched
    obtain ⟨notLast, -, -, name, arch, candidate, third, others, found, begun, begun', -⟩ :=
      rpmUpdate_eq_some matched
    exact noRow ⟨last, notLast, name, arch, candidate, third, others, found, begun, begun'⟩

theorem rpm_eq_iff {line : List Char} (plain : Plain line) :
    rpmUpdate line = (Web.Packages.rpmUpdate line).map nameCandidate ↔ RpmAgrees line := by
  rcases two_fields line with few | ⟨first, second, others, found⟩
  · refine iff_of_true ?_ (Or.inl few)
    rw [rpmUpdate_of_few plain few]
    cases matched : Web.Packages.rpmUpdate line with
    | none => rfl
    | some row =>
      obtain ⟨-, -, -, name, arch, candidate, third, others, found, -⟩ := rpmUpdate_eq_some matched
      rw [found] at few
      exact absurd few (two_not_few _ _ _)
  have many : ¬ (fields Text.isBlank line).length < 2 := by
    rw [found]
    simp
  rw [rpmUpdate_of_two plain found]
  by_cases space : [' '] <+: line
  · refine iff_of_true ?_ (Or.inr (Or.inl space))
    rw [if_pos (Or.inr space)]
    cases matched : Web.Packages.rpmUpdate line with
    | none => rfl
    | some row => exact absurd space (rpmUpdate_eq_some matched).2.1
  by_cases last : "Last".toList <+: line
  · rw [if_pos (Or.inl last), eq_comm, Option.map_eq_none_iff, rpm_of_last last]
    simp only [RpmAgrees, many, space, last, true_and, not_true_eq_false, false_and, or_false, false_or]
  rw [if_neg (by simp only [space, last, or_self, not_false_iff])]
  constructor
  · intro same
    obtain ⟨row, matched, row_eq⟩ := Option.map_eq_some_iff.mp same.symm
    obtain ⟨-, -, starts, name, arch, candidate, third, others', found', begun, begun', -, taken⟩ :=
      rpmUpdate_eq_some matched
    refine Or.inr (Or.inr (Or.inr ⟨last, starts, name, arch, candidate, third, others', found', begun,
      ?_, begun'⟩))
    obtain ⟨rfl, -⟩ := List.cons.inj (found.symm.trans found')
    rw [row_eq, Prod.mk.injEq] at taken
    rw [← ofList_inj taken.1]
    exact not_mem_takeWhile _ _
  · rintro (few | space' | ⟨last', -⟩ | ⟨-, starts, name, arch, candidate, third, others', found',
      begun, first', begun'⟩)
    · exact absurd few many
    · exact absurd space' space
    · exact absurd last' last
    have notLast : ¬ "Last ".toList <+: line :=
      fun longer => last (List.IsPrefix.trans (by decide) longer)
    obtain ⟨row, matched⟩ := Option.ne_none_iff_exists'.mp
      (rpmUpdate_ne_none notLast starts found' begun begun')
    obtain ⟨-, -, -, name', arch', candidate', third', others'', found'', -, -, shortest, taken⟩ :=
      rpmUpdate_eq_some matched
    obtain ⟨rfl, rest⟩ := List.cons.inj (found.symm.trans found')
    obtain ⟨cut, rest'⟩ := List.cons.inj (found.symm.trans found'')
    obtain ⟨rfl, -⟩ := List.cons.inj rest
    obtain ⟨rfl, -⟩ := List.cons.inj rest'
    have same : name' = name := by
      rcases cut_first cut.symm first' with same | ⟨more, whole, -⟩
      · exact same
      · exact absurd (shortest name more whole) begun
    rw [matched, Option.map_some, taken, same, takeWhile_first _ first']

/-! ### zypper -/

theorem strip_plain {text : List Char} (plain : Plain text) : strip text = Text.trim text := by
  have front {part : List Char} (plain : Plain part) :
      part.dropWhile isSpace = part.dropWhile Text.isBlank := by
    induction part with
    | nil => rfl
    | cons c part ih =>
      rw [List.dropWhile_cons, List.dropWhile_cons, (plain c List.mem_cons_self).1,
        ih fun d member => plain d (List.mem_cons_of_mem _ member)]
  have kept : Plain (text.dropWhile Text.isBlank).reverse := fun c member =>
    plain c ((List.dropWhile_suffix _).subset (List.mem_reverse.mp member))
  rw [strip, Text.trim, Text.trimStart, front plain, List.rdropWhile, List.rdropWhile, front kept]

theorem columns_plain {line : List Char} (plain : Plain line) :
    columns line = Web.Packages.columns line :=
  List.map_congr_left fun _ member =>
    strip_plain fun c inside => plain c (mem_of_mem_splitOnP member inside)

/-- The cells of the rows of a table. -/
def table (raw : String) : List (List (List Char)) :=
  ((lines raw).filter (·.contains '|')).map Web.Packages.columns

theorem table_plain {raw : String} (plain : Plain raw.toList) :
    ((splitlines raw).filter (·.contains '|')).map columns = table raw := by
  have kept : (splitlines raw).filter (·.contains '|') = (lines raw).filter (·.contains '|') := by
    rw [splitlines_plain plain]
    split
    · next last =>
      have whole := List.dropLast_append_getLast? [] last
      rw [← whole]
      simp
    · rfl
  rw [kept, table]
  refine List.map_congr_left fun line member => columns_plain (mem_lines_plain plain ?_)
  exact List.mem_of_mem_filter member

theorem separatorRow_eq : separatorRow = Web.Packages.separatorRow := by
  funext cols
  simp only [separatorRow, Web.Packages.separatorRow, Bool.or_comm]

theorem zypperTable_plain {raw : String} (plain : Plain raw.toList) (wanted : List (List Char)) :
    zypperTable raw wanted = Web.Packages.zypperTable raw wanted := by
  rw [zypperTable, Web.Packages.zypperTable, table_plain plain, separatorRow_eq]
  rfl

theorem zypperUpdate_eq (header : List ℕ) (cols : List (List Char)) :
    zypperUpdate header cols = Web.Packages.zypperUpdate header cols := by
  match header with
  | [iName, iCurrent, iAvailable] =>
    rw [zypperUpdate, Web.Packages.zypperUpdate]
    by_cases short : cols.length ≤ max iName (max iCurrent iAvailable)
    · rw [if_pos short]
      split
      · next hasName hasCurrent hasAvailable =>
        have least := (List.getElem?_eq_some_iff.mp hasName).1
        have least' := (List.getElem?_eq_some_iff.mp hasCurrent).1
        have least'' := (List.getElem?_eq_some_iff.mp hasAvailable).1
        omega
      · rfl
    · have hasName : iName < cols.length := by omega
      have hasCurrent : iCurrent < cols.length := by omega
      have hasAvailable : iAvailable < cols.length := by omega
      simp [hasName, hasCurrent, hasAvailable]
  | [] => rfl
  | [_] => rfl
  | [_, _] => rfl
  | _ :: _ :: _ :: _ :: _ => rfl

theorem zypperListUpdates_plain {raw : String} (plain : Plain raw.toList) :
    zypperListUpdates raw = Web.Packages.zypperUpdates raw := by
  rw [zypperListUpdates, Web.Packages.zypperUpdates, zypperTable_plain plain]
  cases Web.Packages.zypperTable raw ["Name".toList, "Current".toList, "Available".toList] with
  | mk header rows =>
    cases header with
    | none => rfl
    | some header => exact congrArg (fun reader => rows.filterMap reader) (funext (zypperUpdate_eq header))

/-- A row that has a name and ends before the summary. -/
def Ragged (iName iSum : ℕ) (cols : List (List Char)) : Prop :=
  cols.getD iName [] ≠ [] ∧ cols.length ≤ iSum

theorem zypperFound_iff (iName iSum : ℕ) (rows : List (List (List Char))) :
    zypperFound iName iSum rows = some (rows.filterMap (Web.Packages.zypperFound [iName, iSum])) ↔
      ∀ cols ∈ rows, ¬ Ragged iName iSum cols := by
  induction rows with
  | nil => simp [zypperFound]
  | cons cols rows ih =>
    rw [zypperFound, List.forall_mem_cons, ← ih]
    by_cases unnamed : cols.getD iName [] = []
    · have skipped : Web.Packages.zypperFound [iName, iSum] cols = none := by
        rw [Web.Packages.zypperFound]
        split
        · next name description hasName hasSum =>
          rw [List.getD_eq_getElem?_getD, hasName] at unnamed
          exact if_pos unnamed
        · rfl
      have fine : ¬ Ragged iName iSum cols := fun ragged => ragged.1 unnamed
      rw [if_pos (Or.inr unnamed), List.filterMap_cons_none skipped]
      simp only [fine, not_false_eq_true, true_and]
    · have long : iName < cols.length := by
        by_contra short
        exact unnamed (by rw [List.getD_eq_getElem?_getD, List.getElem?_eq_none (by omega)]; rfl)
      rw [if_neg (by rintro (short | empty) <;> [omega; exact unnamed empty])]
      cases found : cols[iSum]? with
      | none =>
        have ragged : Ragged iName iSum cols := ⟨unnamed, List.getElem?_eq_none_iff.mp found⟩
        simp only [reduceCtorEq, ragged, not_true_eq_false, false_and]
      | some description =>
        have fine : ¬ Ragged iName iSum cols := by
          rintro ⟨-, short⟩
          rw [List.getElem?_eq_none short] at found
          cases found
        have hasName : cols[iName]? = some (cols.getD iName []) := by simp [long]
        have kept : Web.Packages.zypperFound [iName, iSum] cols = some
            { name := String.ofList (cols.getD iName []), version := "",
              description := String.ofList description, installed := cols.head? = some ['i'] } := by
          rw [Web.Packages.zypperFound, hasName, found]
          exact if_neg unnamed
        rw [List.filterMap_cons_some kept]
        simp only [fine, not_false_eq_true, true_and, Option.map_eq_some_iff, List.cons.injEq]
        constructor
        · rintro ⟨_, later, rfl⟩
          exact later
        · intro later
          exact ⟨_, later, rfl⟩

/-- The columns are found in the first row that has all of them. -/
theorem zypperTable_header {raw : String} {wanted header : List (List Char)}
    {above below : List (List (List Char))} (cut : table raw = above ++ header :: below)
    (early : ∀ row ∈ above, ¬ ∀ column ∈ wanted, column ∈ row)
    (found : ∀ column ∈ wanted, column ∈ header) :
    Web.Packages.zypperTable raw wanted = (some (wanted.map (header.idxOf ·)), below.filter fun cols =>
      !Web.Packages.separatorRow cols &&
        !(wanted.zip (wanted.map (header.idxOf ·))).any fun (column, i) => cols[i]? = some column) := by
  have passed : ∀ row ∈ above, (!wanted.all (row.contains ·)) = true := by
    intro row member
    simpa using early row member
  have stop : ¬ (!wanted.all (header.contains ·)) = true := by simpa using found
  have first : (table raw).dropWhile (fun cols => !wanted.all (cols.contains ·)) = header :: below := by
    rw [cut, List.dropWhile_append_of_pos passed]
    exact List.dropWhile_cons_of_neg stop
  rw [table] at first
  rw [Web.Packages.zypperTable, first]

theorem zypperTable_none {raw : String} {wanted : List (List Char)}
    (missing : ∀ row ∈ table raw, ¬ ∀ column ∈ wanted, column ∈ row) :
    Web.Packages.zypperTable raw wanted = (none, []) := by
  have passed : (table raw).dropWhile (fun cols => !wanted.all (cols.contains ·)) = [] := by
    rw [List.dropWhile_eq_nil_iff]
    intro row member
    simpa using missing row member
  rw [table] at passed
  rw [Web.Packages.zypperTable, passed]

theorem table_cases (raw : String) (wanted : List (List Char)) :
    (∀ row ∈ table raw, ¬ ∀ column ∈ wanted, column ∈ row) ∨
      ∃ above header below, table raw = above ++ header :: below ∧
        (∀ row ∈ above, ¬ ∀ column ∈ wanted, column ∈ row) ∧ ∀ column ∈ wanted, column ∈ header := by
  cases first : (table raw).find? (fun row => decide (∀ column ∈ wanted, column ∈ row)) with
  | none =>
    left
    intro row member
    simpa using List.find?_eq_none.mp first row member
  | some header =>
    obtain ⟨found, above, below, cut, early⟩ := List.find?_eq_some_iff_append.mp first
    exact Or.inr ⟨above, header, below, cut, fun row member => by simpa using early row member,
      by simpa using found⟩

/-- Below the first row with both columns of a search, a row that has a name ends before its
summary. -/
def SummaryMissing (raw : String) : Prop :=
  ∃ above header below cols name, table raw = above ++ header :: below ∧
    (∀ row ∈ above, ¬ ∀ column ∈ ["Name".toList, "Summary".toList], column ∈ row) ∧
    (∀ column ∈ ["Name".toList, "Summary".toList], column ∈ header) ∧ cols ∈ below ∧
    Web.Packages.separatorRow cols = false ∧ cols[header.idxOf "Name".toList]? = some name ∧
    name ≠ [] ∧ name ≠ "Name".toList ∧ cols.length ≤ header.idxOf "Summary".toList

theorem kept_iff (header cols : List (List Char)) (first second : List Char) :
    (!Web.Packages.separatorRow cols && !([first, second].zip
      ([first, second].map (header.idxOf ·))).any
        fun (column, i) => cols[i]? = some column) = true ↔
      Web.Packages.separatorRow cols = false ∧
        cols[header.idxOf first]? ≠ some first ∧
        cols[header.idxOf second]? ≠ some second := by
  simp only [List.map_cons, List.map_nil, List.zip_cons_cons, List.zip_nil_right, List.any_cons,
    List.any_nil, Bool.or_false, Bool.and_eq_true, Bool.not_eq_true', Bool.or_eq_false_iff,
    decide_eq_false_iff_not, ne_eq]

/-- The reader of the cockpit raises where a row has no summary, as the web console passes it. -/
theorem zypperSearch_iff {raw : String} (plain : Plain raw.toList) :
    zypperSearch raw = some (Web.Packages.zypperSearch raw) ↔ ¬ SummaryMissing raw := by
  rw [zypperSearch, Web.Packages.zypperSearch, zypperTable_plain plain]
  constructor
  · rintro same ⟨above, header, below, cols, name, cut, early, found, member, notSeparator, hasName,
      begun, notHeader, short⟩
    rw [zypperTable_header cut early found] at same
    have all := (zypperFound_iff _ _ _).mp same
    have kept := (kept_iff header cols _ _).mpr ⟨notSeparator, by rw [hasName]; simpa using notHeader,
      by rw [List.getElem?_eq_none short]; simp⟩
    refine all cols (List.mem_filter.mpr ⟨member, kept⟩) ⟨?_, short⟩
    rw [List.getD_eq_getElem?_getD, hasName]
    exact begun
  · intro complete
    rcases table_cases raw ["Name".toList, "Summary".toList] with missing |
      ⟨above, header, below, cut, early, found⟩
    · rw [zypperTable_none missing]
    · rw [zypperTable_header cut early found]
      refine (zypperFound_iff _ _ _).mpr ?_
      rintro cols member ⟨begun, short⟩
      obtain ⟨member, kept⟩ := List.mem_filter.mp member
      obtain ⟨notSeparator, notHeader, -⟩ := (kept_iff header cols _ _).mp kept
      cases hasName : cols[header.idxOf "Name".toList]? with
      | none =>
        rw [List.getD_eq_getElem?_getD, hasName] at begun
        exact begun rfl
      | some name =>
        rw [List.getD_eq_getElem?_getD, hasName] at begun
        refine complete ⟨above, header, below, cols, name, cut, early, found, member, notSeparator,
          hasName, begun, ?_, short⟩
        rintro rfl
        exact notHeader hasName

/-! ### The agreement -/

/-- Two readers agree on a text just where they agree on each line. -/
theorem rows_eq_iff {β : Type} {raw : String} (plain : Plain raw.toList)
    {first second : List Char → Option β} {Agrees : List Char → Prop} (empty : first [] = none)
    (agree : ∀ line, Plain line → (first line = second line ↔ Agrees line))
    (more : ∀ line ∈ lines raw, second line ≠ none → first line ≠ none) :
    (splitlines raw).filterMap first = (lines raw).filterMap second ↔
      ∀ line ∈ lines raw, Agrees line := by
  rw [filterMap_splitlines plain empty, filterMap_eq_iff more]
  exact forall₂_congr fun line member => agree line (mem_lines_plain plain member)

theorem aptUpdate_more {line : List Char} (plain : Plain line)
    (matched : (Web.Packages.aptUpdate line).map nameCandidate ≠ none) : aptUpdate line ≠ none := by
  obtain ⟨row, matched⟩ := Option.ne_none_iff_exists'.mp matched
  obtain ⟨_, matched, -⟩ := Option.map_eq_some_iff.mp matched
  obtain ⟨-, -, _, _, _, _, found, -⟩ := aptUpdate_eq_some matched
  simp [aptUpdate_of_two plain found]

theorem rpmUpdate_more {line : List Char} (plain : Plain line) (notLast : ¬ LastRow line)
    (matched : (Web.Packages.rpmUpdate line).map nameCandidate ≠ none) : rpmUpdate line ≠ none := by
  obtain ⟨row, matched⟩ := Option.ne_none_iff_exists'.mp matched
  obtain ⟨_, matched, -⟩ := Option.map_eq_some_iff.mp matched
  obtain ⟨notLast', space, -, _, _, _, _, _, found, begun, begun', -⟩ := rpmUpdate_eq_some matched
  rw [rpmUpdate_of_two plain found, if_neg]
  · simp
  · rintro (last | space')
    · exact notLast ⟨last, notLast', _, _, _, _, _, found, begun, begun'⟩
    · exact space space'

/-- A line on which the rpm readers agree is none that only the web console reads. -/
theorem not_lastRow_of_agrees {line : List Char} (agrees : RpmAgrees line) : ¬ LastRow line := by
  rintro last
  rcases agrees with few | space | ⟨-, notLast⟩ | ⟨notLast, -⟩
  · obtain ⟨-, -, _, _, _, _, _, found, -⟩ := last
    rw [found] at few
    exact absurd few (two_not_few _ _ _)
  · obtain ⟨⟨rest, rfl⟩, -⟩ := last
    simp at space
  · exact notLast last
  · exact notLast last.1

/-- On a text with the same blanks and ends of lines for both, the readers of the two editions take
the same rows of `zypper list-updates`, and of the others just where each line has the form that both
read alike. -/
theorem readers_agree_iff {raw : String} (plain : Plain raw.toList) :
    (pacmanListUpdates raw = (lines raw).filterMap Web.Packages.pacmanUpdate ↔
        ∀ line ∈ lines raw, PacmanAgrees line) ∧
      (aptListUpdates raw = ((lines raw).filterMap Web.Packages.aptUpdate).map nameCandidate ↔
        ∀ line ∈ lines raw, AptAgrees line) ∧
      ((∀ line ∈ lines raw, RpmAgrees line) →
        parseRpmUpdateList raw = ((lines raw).filterMap Web.Packages.rpmUpdate).map nameCandidate) ∧
      ((∀ line ∈ lines raw, ¬ LastRow line) →
        parseRpmUpdateList raw = ((lines raw).filterMap Web.Packages.rpmUpdate).map nameCandidate →
        ∀ line ∈ lines raw, RpmAgrees line) ∧
      zypperListUpdates raw = Web.Packages.zypperUpdates raw ∧
      (zypperSearch raw = some (Web.Packages.zypperSearch raw) ↔ ¬ SummaryMissing raw) := by
  have rpm (noLast : ∀ line ∈ lines raw, ¬ LastRow line) :
      parseRpmUpdateList raw = ((lines raw).filterMap Web.Packages.rpmUpdate).map nameCandidate ↔
        ∀ line ∈ lines raw, RpmAgrees line := by
    rw [List.map_filterMap]
    exact rows_eq_iff plain rfl (fun _ => rpm_eq_iff) fun line member =>
      rpmUpdate_more (mem_lines_plain plain member) (noLast line member)
  refine ⟨?_, ?_, ?_, ?_, zypperListUpdates_plain plain, zypperSearch_iff plain⟩
  · exact rows_eq_iff plain rfl (fun _ => pacman_eq_iff) fun line member =>
      pacmanUpdate_more (mem_lines_plain plain member)
  · rw [List.map_filterMap]
    exact rows_eq_iff plain rfl (fun _ => apt_eq_iff) fun line member =>
      aptUpdate_more (mem_lines_plain plain member)
  · intro agrees
    exact (rpm fun line member => not_lastRow_of_agrees (agrees line member)).mpr agrees
  · exact fun noLast => (rpm noLast).mp

def vimUpdate : String := "vim 9.0 -> 9.1\n"

theorem readers_agree_vim :
    Plain vimUpdate.toList ∧
      (pacmanListUpdates vimUpdate = (lines vimUpdate).filterMap Web.Packages.pacmanUpdate ↔
        ∀ line ∈ lines vimUpdate, PacmanAgrees line) ∧
      zypperListUpdates vimUpdate = Web.Packages.zypperUpdates vimUpdate := by
  have plain : Plain vimUpdate.toList := by decide
  exact ⟨plain, (readers_agree_iff plain).1, (readers_agree_iff plain).2.2.2.2.1⟩

/-- The arrow is the candidate for the cockpit. -/
theorem arrow_taken :
    pacmanListUpdates vimUpdate ≠ (lines vimUpdate).filterMap Web.Packages.pacmanUpdate := by
  decide

end SysDeck.Cockpit.Packages
