import SysDeck.Cockpit.MkosiPackages

/-! The include list of a vmdb2 configuration: what the pattern finds, and what a write leaves. -/

namespace SysDeck.Cockpit.PackageFiles

open Scan
open Lines (OneLine)
open Packages (isSpace lineEnd splitlines strip split)

/-! ### Items -/

/-- A line of the list: the blanks before the dash, the name, and the blanks before the newline. -/
structure Entry where
  indent : List Char
  name : Name
  gap : List Char

def Entry.text (entry : Entry) : List Char :=
  entry.indent ++ ("- ".toList ++ (entry.name ++ (entry.gap ++ ['\n'])))

structure Entry.Valid (entry : Entry) : Prop where
  indented : entry.indent ≠ []
  indent : ∀ c ∈ entry.indent, isSpace c
  solid : Solid entry.name
  gap : ∀ c ∈ entry.gap, isSpace c

/-- The blanks at the head of a text hold no newline. -/
def FlatLead (text : List Char) : Prop := '\n' ∉ text.takeWhile isSpace

/-- The last newline of the blanks at the head is passed. -/
theorem many_newline {gap rest : List Char} (blanks : ∀ c ∈ gap, isSpace c) (flat : FlatLead rest) :
    many isSpace (fun _ rest => literal ['\n'] some rest) (gap ++ '\n' :: rest) = some rest := by
  have matched : many isSpace (fun _ rest => literal ['\n'] some rest) (gap ++ '\n' :: rest) ≠ none := by
    intro failed
    have here := greedyFrom_eq_none failed blanks
    simp [literal] at here
  obtain ⟨rest', matched⟩ := Option.ne_none_iff_exists'.mp matched
  rw [matched]
  obtain ⟨more, left, cut, all, found, longest⟩ := greedyFrom_eq_some matched
  obtain ⟨after, rfl, taken⟩ := literal_eq_some found
  obtain rfl : after = rest' := Option.some.inj taken
  rcases List.append_eq_append_iff.mp cut with ⟨between, rfl, later⟩ | ⟨between, rfl, later⟩
  · cases between with
    | nil =>
      have same : rest = after := by simpa using later
      rw [same]
    | cons c between =>
      obtain ⟨rfl, rfl⟩ : '\n' = c ∧ rest = between ++ '\n' :: after := by simpa using later
      refine absurd ?_ flat
      have spaces : ∀ c ∈ between, isSpace c := fun c member =>
        all c (List.mem_append_right _ (List.mem_cons_of_mem _ member))
      rw [List.takeWhile_append_of_pos spaces]
      exact List.mem_append_right _ List.mem_cons_self
  · cases between with
    | nil =>
      have same : after = rest := by simpa using later
      rw [same]
    | cons c between =>
      obtain ⟨rfl, rfl⟩ : '\n' = c ∧ after = between ++ '\n' :: rest := by simpa using later
      have failed := longest ('\n' :: between) ('\n' :: rest) rfl (by simp) fun c member =>
        blanks c (List.mem_append_right _ member)
      simp [literal] at failed

theorem many_newline_eq_some {text rest : List Char}
    (matched : many isSpace (fun _ rest => literal ['\n'] some rest) text = some rest) :
    ∃ gap, text = gap ++ '\n' :: rest ∧ (∀ c ∈ gap, isSpace c) ∧ FlatLead rest := by
  obtain ⟨gap, left, rfl, blanks, found, longest⟩ := greedyFrom_eq_some matched
  obtain ⟨after, rfl, taken⟩ := literal_eq_some found
  obtain rfl : after = rest := Option.some.inj taken
  refine ⟨gap, rfl, blanks, ?_⟩
  intro newline
  obtain ⟨before, back, cut⟩ := List.append_of_mem newline
  have whole := List.takeWhile_append_dropWhile (p := isSpace) (l := after)
  have spaces : ∀ c ∈ before, isSpace c := by
    intro c member
    have inside : c ∈ after.takeWhile isSpace := by
      rw [cut]
      exact List.mem_append_left _ member
    exact List.mem_takeWhile_imp inside
  have split : ['\n'] ++ after = ('\n' :: before) ++ ('\n' :: (back ++ after.dropWhile isSpace)) := by
    conv_lhs => rw [← whole, cut]
    simp
  have failed := longest ('\n' :: before) _ split (by simp) (by
    intro c member
    rcases List.mem_cons.mp member with rfl | member
    · decide
    · exact spaces c member)
  simp [literal] at failed

theorem item_of_entry {entry : Entry} (valid : entry.Valid) {rest : List Char} (flat : FlatLead rest) :
    item (entry.text ++ rest) = some rest := by
  have cut : entry.text ++ rest =
      entry.indent ++ ("- ".toList ++ (entry.name ++ (entry.gap ++ '\n' :: rest))) := by
    simp [Entry.text]
  have stop : ∀ c ∈ (entry.gap ++ '\n' :: rest).head?, (!isSpace c) = false := by
    intro c head
    cases blanks : entry.gap with
    | nil =>
      rw [blanks] at head
      obtain rfl : '\n' = c := by simpa using head
      decide
    | cons d gap =>
      rw [blanks] at head
      obtain rfl : d = c := by simpa using head
      simp [valid.gap d (by simp [blanks])]
  rw [cut]
  refine many1_of_longest valid.indented valid.indent ?_ ?_
  · intro c head
    obtain rfl : '-' = c := by simpa using head
    decide
  rw [literal_append]
  refine many1_of_longest valid.solid.1 (fun c member => by simp [valid.solid.2 c member]) stop ?_
  exact many_newline valid.gap flat

theorem item_ne_none {entry : Entry} (valid : entry.Valid) (rest : List Char) :
    item (entry.text ++ rest) ≠ none := by
  have cut : entry.text ++ rest =
      entry.indent ++ ("- ".toList ++ (entry.name ++ (entry.gap ++ '\n' :: rest))) := by
    simp [Entry.text]
  rw [cut]
  refine many1_ne_none valid.indented valid.indent ?_
  rw [literal_append]
  refine many1_ne_none valid.solid.1 (fun c member => by simp [valid.solid.2 c member]) ?_
  intro failed
  have here := greedyFrom_eq_none failed valid.gap
  simp [literal] at here

theorem item_eq_some {text rest : List Char} (matched : item text = some rest) :
    ∃ entry : Entry, entry.Valid ∧ text = entry.text ++ rest ∧ FlatLead rest := by
  obtain ⟨indent, r1, rfl, indented, spaces, matched, -⟩ := many1_eq_some matched
  obtain ⟨r2, rfl, matched⟩ := literal_eq_some matched
  obtain ⟨name, r3, rfl, begun, visible, matched, -⟩ := many1_eq_some matched
  obtain ⟨gap, rfl, blanks, flat⟩ := many_newline_eq_some matched
  refine ⟨⟨indent, name, gap⟩, ⟨indented, spaces, ⟨begun, ?_⟩, blanks⟩, ?_, flat⟩
  · intro c member
    simpa using visible c member
  · simp [Entry.text]

/-! ### Lists of items -/

def block (entries : List Entry) : List Char := (entries.map Entry.text).flatten

/-- The blanks before the dash end in one that is no newline. -/
def Entry.EndsFlat (entry : Entry) : Prop := ∀ c ∈ entry.indent.getLast?, c ≠ '\n'

theorem last_newline (text : List Char) :
    '\n' ∉ text ∨ ∃ before after, text = before ++ '\n' :: after ∧ '\n' ∉ after := by
  induction text with
  | nil => simp
  | cons c text ih =>
    rcases ih with none | ⟨before, after, rfl, none⟩
    · by_cases newline : c = '\n'
      · exact Or.inr ⟨[], text, by rw [newline]; rfl, none⟩
      · exact Or.inl (by simp [none, Ne.symm newline])
    · exact Or.inr ⟨c :: before, after, rfl, none⟩

theorem lead_entry {entry : Entry} (valid : entry.Valid) (rest : List Char) :
    (entry.text ++ rest).takeWhile isSpace = entry.indent := by
  refine (takeWhile_of_split (p := isSpace) (List.append_assoc _ _ _) valid.indent ?_).1
  intro c head
  obtain rfl : '-' = c := by simpa using head
  decide

/-- An entry gives up the blanks before the last newline in front of it to the one before. -/
theorem item_before {first next : Entry} (valid : first.Valid) (valid' : next.Valid)
    (flat : next.EndsFlat) (rest : List Char) :
    ∃ shorter : Entry, shorter.Valid ∧ shorter.EndsFlat ∧
      item (first.text ++ (next.text ++ rest)) = some (shorter.text ++ rest) ∧
      shorter.text.length ≤ next.text.length := by
  rcases last_newline next.indent with none | ⟨before, after, cut, none⟩
  · refine ⟨next, valid', flat, item_of_entry valid ?_, Nat.le_refl _⟩
    rw [FlatLead, lead_entry valid']
    exact none
  · have begun : after ≠ [] := by
      rintro rfl
      exact flat '\n' (by rw [cut, List.getLast?_concat]; rfl) rfl
    have spaces : ∀ c ∈ before ++ '\n' :: after, isSpace c := by
      rw [← cut]
      exact valid'.indent
    have validShort : Entry.Valid ⟨after, next.name, next.gap⟩ :=
      ⟨begun, fun c member => spaces c (List.mem_append_right _ (List.mem_cons_of_mem _ member)),
        valid'.solid, valid'.gap⟩
    have validLong : Entry.Valid ⟨first.indent, first.name, first.gap ++ '\n' :: before⟩ := by
      refine ⟨valid.indented, valid.indent, valid.solid, fun c member => ?_⟩
      rcases List.mem_append.mp member with member | member
      · exact valid.gap c member
      rcases List.mem_cons.mp member with rfl | member
      · decide
      · exact spaces c (List.mem_append_left _ member)
    refine ⟨⟨after, next.name, next.gap⟩, validShort, ?_, ?_, ?_⟩
    · intro c last
      refine flat c ?_
      rw [cut, List.getLast?_append_of_ne_nil _ (by simp), ← List.singleton_append,
        List.getLast?_append_of_ne_nil _ begun]
      exact last
    · have same : first.text ++ (next.text ++ rest) =
          Entry.text ⟨first.indent, first.name, first.gap ++ '\n' :: before⟩ ++
            (Entry.text ⟨after, next.name, next.gap⟩ ++ rest) := by
        simp [Entry.text, cut]
      rw [same]
      refine item_of_entry validLong ?_
      rw [FlatLead, lead_entry validShort]
      exact none
    · simp [Entry.text, cut]
      omega

theorem length_text_pos (entry : Entry) : 0 < entry.text.length := by
  simp [Entry.text]

/-- All the entries are taken, and what is left is what no item begins. -/
theorem afterItems_block {rest : List Char} (stop : item rest = none) (lead : FlatLead rest)
    (first : Entry) (entries : List Entry) (valid : ∀ entry ∈ first :: entries, entry.Valid)
    (flat : ∀ entry ∈ entries, entry.EndsFlat) (fuel : ℕ)
    (enough : (first.text ++ (block entries ++ rest)).length ≤ fuel) :
    afterItems fuel (first.text ++ (block entries ++ rest)) = rest := by
  induction entries generalizing first fuel with
  | nil =>
    obtain ⟨fuel, rfl⟩ : ∃ less, fuel = less + 1 := by
      have positive := length_text_pos first
      rw [List.length_append] at enough
      exact ⟨fuel - 1, by omega⟩
    have taken : item (first.text ++ (block [] ++ rest)) = some rest :=
      item_of_entry (valid first List.mem_cons_self) lead
    rw [afterItems, taken]
    cases fuel with
    | zero => rfl
    | succ fuel => simp [afterItems, stop]
  | cons next entries ih =>
    have validFirst := valid first List.mem_cons_self
    have validNext := valid next (by simp)
    obtain ⟨shorter, validShort, flatShort, taken, short⟩ := item_before validFirst validNext
      (flat next List.mem_cons_self) (block entries ++ rest)
    have whole : first.text ++ (block (next :: entries) ++ rest) =
        first.text ++ (next.text ++ (block entries ++ rest)) := by
      simp [block]
    obtain ⟨fuel, rfl⟩ : ∃ less, fuel = less + 1 := by
      have positive := length_text_pos first
      rw [List.length_append] at enough
      exact ⟨fuel - 1, by omega⟩
    rw [whole] at enough ⊢
    simp only [afterItems, taken]
    refine ih shorter ?_ (fun entry member => flat entry (List.mem_cons_of_mem _ member)) fuel ?_
    · intro entry member
      rcases List.mem_cons.mp member with rfl | member
      · exact validShort
      · exact valid entry (by simp [member])
    · have positive := length_text_pos first
      simp only [List.length_append] at enough short ⊢
      omega

theorem items_block {rest : List Char} (stop : item rest = none) (lead : FlatLead rest)
    (first : Entry) (entries : List Entry) (valid : ∀ entry ∈ first :: entries, entry.Valid)
    (flat : ∀ entry ∈ entries, entry.EndsFlat) :
    items (first.text ++ (block entries ++ rest)) = some (first.text ++ block entries, rest) := by
  have begins := item_ne_none (valid first List.mem_cons_self) (block entries ++ rest)
  have left := afterItems_block stop lead first entries valid flat _ (Nat.le_refl _)
  unfold items
  rw [if_neg begins]
  simp only [left]
  rw [← List.append_assoc, List.length_append, Nat.add_sub_cancel, List.take_left]

theorem afterItems_spec (fuel : ℕ) {text : List Char} (enough : text.length ≤ fuel) :
    ∃ entries, (∀ entry ∈ entries, entry.Valid) ∧ text = block entries ++ afterItems fuel text ∧
      item (afterItems fuel text) = none ∧ (entries ≠ [] → FlatLead (afterItems fuel text)) := by
  induction fuel generalizing text with
  | zero =>
    obtain rfl : text = [] := List.length_eq_zero_iff.mp (by omega)
    exact ⟨[], by simp, rfl, rfl, fun some => absurd rfl some⟩
  | succ fuel ih =>
    rw [afterItems]
    cases taken : item text with
    | none => exact ⟨[], by simp, rfl, taken, fun some => absurd rfl some⟩
    | some rest =>
      obtain ⟨entry, valid, rfl, lead⟩ := item_eq_some taken
      have positive := length_text_pos entry
      rw [List.length_append] at enough
      obtain ⟨entries, all, cut, stop, flat⟩ := @ih rest (by omega)
      refine ⟨entry :: entries, List.forall_mem_cons.mpr ⟨valid, all⟩, ?_, stop, fun _ => ?_⟩
      · rw [block, List.map_cons, List.flatten_cons, List.append_assoc, ← block, ← cut]
      · cases entries with
        | nil =>
          have same : rest = afterItems fuel rest := cut
          change FlatLead (afterItems fuel rest)
          rw [← same]
          exact lead
        | cons first entries => exact flat (by simp)

/-- What the items are, and what is left after them. -/
theorem items_eq_some {text listed rest : List Char} (matched : items text = some (listed, rest)) :
    ∃ entries, entries ≠ [] ∧ (∀ entry ∈ entries, entry.Valid) ∧ listed = block entries ∧
      text = listed ++ rest ∧ item rest = none ∧ FlatLead rest := by
  unfold items at matched
  split at matched
  · cases matched
  next begins =>
  obtain ⟨taken, rfl⟩ := Prod.mk.inj (Option.some.inj matched)
  obtain ⟨entries, valid, cut, stop, flat⟩ := afterItems_spec text.length (Nat.le_refl _)
  have some : entries ≠ [] := by
    rintro rfl
    rw [show afterItems text.length text = text from cut.symm] at stop
    exact begins stop
  have listed_eq : listed = block entries := by
    have length := congrArg List.length cut
    rw [List.length_append] at length
    rw [← taken, show text.length - (afterItems text.length text).length = (block entries).length by omega]
    conv_lhs => rw [cut]
    exact List.take_left
  exact ⟨entries, some, valid, listed_eq, by rw [listed_eq]; exact cut, stop, flat some⟩

/-! ### The names of a list -/

theorem splitOnP_cons (body : List Char) {e : Char} (ends : lineEnd e) (rest : List Char) :
    (body ++ e :: rest).splitOnP lineEnd = body.splitOnP lineEnd ++ rest.splitOnP lineEnd := by
  induction body with
  | nil =>
    rw [List.nil_append, List.splitOnP_cons_eq_if_modifyHead, if_pos ends]
    rfl
  | cons c body ih =>
    rw [List.cons_append, List.splitOnP_cons_eq_if_modifyHead, List.splitOnP_cons_eq_if_modifyHead, ih]
    split
    · rfl
    · obtain ⟨first, others, parts⟩ := List.exists_cons_of_ne_nil (List.splitOnP_ne_nil lineEnd body)
      rw [parts]
      rfl

/-- What the list takes of a line. -/
def addListed (names : List Name) (line : List Char) : List Name :=
  if "- ".toList <+: strip line then addName names (strip ((strip line).drop 2)) else names

theorem addListed_blank {line : List Char} (blank : ∀ c ∈ line, isSpace c) (names : List Name) :
    addListed names line = names := by
  have empty : strip line = [] := Strip.stripBy_eq_nil_iff.mpr blank
  rw [addListed, empty]
  rfl

theorem foldl_addListed_blank {text : List Char} (blank : ∀ c ∈ text, isSpace c) (names : List Name) :
    (text.splitOnP lineEnd).foldl addListed names = names := by
  induction length : text.length using Nat.strong_induction_on generalizing text with
  | _ n ih =>
    rcases line_cases text with one | ⟨body, e, rest, rfl, one, ends⟩
    · rw [List.splitOnP_eq_singleton one]
      exact addListed_blank blank names
    · rw [List.splitOnP_append_cons_of_forall_mem one e ends, List.foldl_cons,
        addListed_blank fun c member => blank c (List.mem_append_left _ member)]
      refine ih rest.length (by simp at length; omega) (fun c member => ?_) rfl
      exact blank c (List.mem_append_right _ (List.mem_cons_of_mem _ member))

theorem oneLine_solid {name : Name} (solid : Solid name) : OneLine lineEnd name := by
  intro c member
  refine Bool.eq_false_iff.mpr fun ends => ?_
  have space := space_of_lineEnd ends
  rw [solid.2 c member] at space
  cases space

theorem addListed_entry {before after : List Char} {name : Name} (solid : Solid name)
    (blank : ∀ c ∈ before, isSpace c) (blank' : ∀ c ∈ after, isSpace c) (names : List Name) :
    addListed names (before ++ ("- ".toList ++ name) ++ after) = addName names name := by
  have core : strip (before ++ ("- ".toList ++ name) ++ after) = "- ".toList ++ name := by
    refine Strip.stripBy_of_blanks blank blank' ?_ ?_ (by simp)
    · intro c head
      obtain rfl : '-' = c := by simpa using head
      decide
    · intro c last
      rw [List.getLast?_append_of_ne_nil _ solid.1] at last
      exact solid.2 c (List.mem_of_mem_getLast? last)
  have tight : strip name = name := Strip.stripBy_of_ends
    (fun c head => solid.2 c (List.mem_of_mem_head? head))
    fun c last => solid.2 c (List.mem_of_mem_getLast? last)
  have dropped : ("- ".toList ++ name).drop 2 = name := rfl
  rw [addListed, core, if_pos (List.prefix_append _ _), dropped, tight]

/-- A name after its dash is taken, wherever the blanks around it break the line. -/
theorem foldl_addListed_core {before after : List Char} {name : Name} (solid : Solid name)
    (blank : ∀ c ∈ before, isSpace c) (blank' : ∀ c ∈ after, isSpace c) (names : List Name) :
    ((before ++ ("- ".toList ++ name) ++ after).splitOnP lineEnd).foldl addListed names =
      addName names name := by
  induction length : before.length using Nat.strong_induction_on generalizing before with
  | _ n ih =>
    rcases line_cases before with one | ⟨body, e, rest, rfl, one, ends⟩
    · have dash : OneLine lineEnd "- ".toList := forall_of_all (by decide)
      have core := one.append (dash.append (oneLine_solid solid))
      rcases line_cases after with one' | ⟨body, e, rest, rfl, one', ends⟩
      · rw [List.splitOnP_eq_singleton (core.append one')]
        exact addListed_entry solid blank blank' names
      · rw [← List.append_assoc, List.splitOnP_append_cons_of_forall_mem (core.append one') e ends,
          List.foldl_cons,
          addListed_entry solid blank (fun c member => blank' c (List.mem_append_left _ member))]
        exact foldl_addListed_blank
          (fun c member => blank' c (List.mem_append_right _ (List.mem_cons_of_mem _ member))) _
    · have cut : (body ++ e :: rest) ++ ("- ".toList ++ name) ++ after =
          body ++ e :: (rest ++ ("- ".toList ++ name) ++ after) := by
        simp
      rw [cut, List.splitOnP_append_cons_of_forall_mem one e ends, List.foldl_cons,
        addListed_blank fun c member => blank c (List.mem_append_left _ member)]
      refine ih rest.length (by simp at length; omega) (fun c member => ?_) rfl
      exact blank c (List.mem_append_right _ (List.mem_cons_of_mem _ member))

theorem foldl_addListed_block {entries : List Entry} (valid : ∀ entry ∈ entries, entry.Valid)
    (names : List Name) :
    ((block entries).splitOnP lineEnd).foldl addListed names =
      (entries.map Entry.name).foldl addName names := by
  induction entries generalizing names with
  | nil => rfl
  | cons entry rest ih =>
    have first := valid entry List.mem_cons_self
    have cut : block (entry :: rest) =
        (entry.indent ++ ("- ".toList ++ entry.name) ++ entry.gap) ++ '\n' :: block rest := by
      simp [block, Entry.text]
    rw [cut, splitOnP_cons _ rfl, List.foldl_append,
      foldl_addListed_core first.solid first.indent first.gap,
      ih fun other member => valid other (List.mem_cons_of_mem _ member)]
    rfl

/-- The names of a list of entries. -/
theorem listedNames_block {entries : List Entry} (valid : ∀ entry ∈ entries, entry.Valid)
    (none : '\r' ∉ block entries) : listedNames (block entries) = (entries.map Entry.name).foldl addName [] := by
  have whole : listedNames (block entries) =
      (splitlines (String.ofList (block entries))).foldl addListed [] := rfl
  rw [whole, splitlines, String.toList_ofList, joinReturns_of_none none,
    ← foldl_addListed_block valid]
  split
  · next last =>
    obtain ⟨parts, cut⟩ := List.getLast?_eq_some_iff.mp last
    rw [cut, List.dropLast_concat, List.foldl_append]
    exact (@addListed_blank [] (by simp) _).symm
  · rfl

/-! ### The include block -/

/-- The text has an include line at its head, and an item below it. -/
def Begins (text : List Char) : Prop :=
  ∃ indent run entry rest, text =
      indent ++ ("include:".toList ++ (run ++ '\n' :: (Entry.text entry ++ rest))) ∧
    indent ≠ [] ∧ (∀ c ∈ indent, isSpace c) ∧ (∀ c ∈ run, isSpace c) ∧ entry.Valid

/-- What the pattern takes at the head of a text. -/
theorem includeAt_eq_some {text : List Char} {found : Include} (matched : includeAt text = some found) :
    ∃ run entries, text = found.heading ++ (found.listed ++ found.after) ∧
      found.heading = found.indent ++ ("include:".toList ++ (run ++ ['\n'])) ∧
      found.indent ≠ [] ∧ (∀ c ∈ found.indent, isSpace c) ∧ (∀ c ∈ run, isSpace c) ∧
      found.listed = block entries ∧ entries ≠ [] ∧ (∀ entry ∈ entries, entry.Valid) ∧
      item found.after = none ∧ FlatLead found.after := by
  obtain ⟨indent, r1, rfl, indented, blanks, matched1, -⟩ := many1_eq_some matched
  obtain ⟨r2, rfl, matched2⟩ := literal_eq_some matched1
  obtain ⟨run, r3, rfl, blanks', matched3, -⟩ := greedyFrom_eq_some matched2
  obtain ⟨r4, rfl, matched4⟩ := literal_eq_some matched3
  obtain ⟨⟨listed, after⟩, taken, rfl⟩ := Option.map_eq_some_iff.mp matched4
  obtain ⟨entries, nonempty, valid, listed_eq, rfl, stop, lead⟩ := items_eq_some taken
  exact ⟨run, entries, by simp, by simp, indented, blanks, blanks', listed_eq, nonempty, valid, stop, lead⟩

theorem includeAt_ne_none {text : List Char} (begins : Begins text) : includeAt text ≠ none := by
  obtain ⟨indent, run, entry, rest, rfl, indented, blanks, blanks', valid⟩ := begins
  refine many1_ne_none indented blanks ?_
  rw [literal_append]
  intro failed
  have here := greedyFrom_eq_none failed blanks'
  have taken : items (entry.text ++ rest) = none := by simpa [literal] using here
  unfold items at taken
  split at taken
  · next none => exact item_ne_none valid rest none
  · cases taken

theorem begins_of_includeAt {text : List Char} (matched : includeAt text ≠ none) : Begins text := by
  obtain ⟨found, matched⟩ := Option.ne_none_iff_exists'.mp matched
  obtain ⟨run, entries, whole, heading, indented, blanks, blanks', listed, nonempty, valid, -⟩ :=
    includeAt_eq_some matched
  obtain ⟨entry, others, rfl⟩ := List.exists_cons_of_ne_nil nonempty
  refine ⟨found.indent, run, entry, block others ++ found.after, ?_, indented, blanks, blanks',
    valid entry List.mem_cons_self⟩
  rw [whole, heading, listed]
  simp [block]

theorem Begins.append {text : List Char} (begins : Begins text) (more : List Char) :
    Begins (text ++ more) := by
  obtain ⟨indent, run, entry, rest, rfl, conditions⟩ := begins
  exact ⟨indent, run, entry, rest ++ more, by simp, conditions⟩

/-- The blanks at the head of a text end in one place. -/
theorem lead_unique {lead lead' rest rest' : List Char} (same : lead ++ rest = lead' ++ rest')
    (all : ∀ c ∈ lead, isSpace c) (all' : ∀ c ∈ lead', isSpace c)
    (stop : ∀ c ∈ rest.head?, isSpace c = false) (stop' : ∀ c ∈ rest'.head?, isSpace c = false) :
    lead = lead' ∧ rest = rest' := by
  obtain ⟨first, left⟩ := takeWhile_of_split (p := isSpace) rfl all stop
  obtain ⟨first', left'⟩ := takeWhile_of_split (p := isSpace) same all' stop'
  exact ⟨first.symm.trans first', left.symm.trans left'⟩

/-- A block below an include line is found, with all its names. -/
theorem includeAt_block {indent run after : List Char} {first : Entry} {entries : List Entry}
    (indented : indent ≠ []) (blanks : ∀ c ∈ indent, isSpace c) (blanks' : ∀ c ∈ run, isSpace c)
    (valid : ∀ entry ∈ first :: entries, entry.Valid)
    (flat : ∀ entry ∈ entries, entry.EndsFlat) (stop : item after = none) (lead : FlatLead after) :
    ∃ found names, includeAt (indent ++ ("include:".toList ++
        (run ++ '\n' :: (first.text ++ (block entries ++ after))))) = some found ∧
      found.listed = block names ∧ (∀ entry ∈ names, entry.Valid) ∧
      names.map Entry.name = (first :: entries).map Entry.name := by
  have matched : includeAt (indent ++ ("include:".toList ++
      (run ++ '\n' :: (first.text ++ (block entries ++ after))))) ≠ none :=
    includeAt_ne_none ⟨indent, run, first, _, rfl, indented, blanks, blanks', valid first List.mem_cons_self⟩
  obtain ⟨found, matched⟩ := Option.ne_none_iff_exists'.mp matched
  obtain ⟨indent', r1, cut, -, shown, matched1, -⟩ := many1_eq_some matched
  obtain ⟨r2, rfl, matched2⟩ := literal_eq_some matched1
  obtain ⟨run', r3, rfl, shown', matched3, -⟩ := greedyFrom_eq_some matched2
  obtain ⟨r4, rfl, matched4⟩ := literal_eq_some matched3
  obtain ⟨⟨listed, left⟩, taken, rfl⟩ := Option.map_eq_some_iff.mp matched4
  have word {text : List Char} : ∀ c ∈ ("include:".toList ++ text).head?, isSpace c = false := by
    intro c head
    obtain rfl : 'i' = c := by simpa using head
    decide
  -- the include line is the same one, for nothing before it is visible
  have below := List.append_cancel_left (lead_unique cut blanks shown word word).2
  have dash : ∀ c ∈ ("- ".toList ++ (first.name ++ (first.gap ++ '\n' :: (block entries ++ after)))).head?,
      isSpace c = false := by
    intro c head
    obtain rfl : '-' = c := by simpa using head
    decide
  have validFirst := valid first List.mem_cons_self
  have allBlank : ∀ c ∈ run ++ '\n' :: first.indent, isSpace c := by
    intro c member
    rcases List.mem_append.mp member with member | member
    · exact blanks' c member
    rcases List.mem_cons.mp member with rfl | member
    · decide
    · exact validFirst.indent c member
  have shown'' : ∀ c ∈ run' ++ ['\n'], isSpace c := by
    intro c member
    rcases List.mem_append.mp member with member | member
    · exact shown' c member
    · rw [List.mem_singleton.mp member]
      decide
  have split : (run' ++ ['\n']) ++ r4 = (run ++ '\n' :: first.indent) ++
      ("- ".toList ++ (first.name ++ (first.gap ++ '\n' :: (block entries ++ after)))) := by
    rw [List.append_assoc, ← below]
    simp [Entry.text]
  -- the item below it is the same one, with the blanks that the include line leaves it
  obtain ⟨blankRun, tail⟩ := takeWhile_of_split (p := isSpace) split allBlank dash
  rw [List.takeWhile_append_of_pos shown''] at blankRun
  rw [List.dropWhile_append_of_pos shown''] at tail
  have whole := List.takeWhile_append_dropWhile (p := isSpace) (l := r4)
  rw [tail] at whole
  have blanks4 : ∀ c ∈ r4.takeWhile isSpace, isSpace c := fun c => List.mem_takeWhile_imp
  generalize r4.takeWhile isSpace = indent4 at blankRun whole blanks4
  have begun4 : indent4 ≠ [] := by
    rintro rfl
    obtain ⟨others, nonempty, valid', listed_eq, r4_eq, -, -⟩ := items_eq_some taken
    obtain ⟨entry, others, rfl⟩ := List.exists_cons_of_ne_nil nonempty
    have validEntry := valid' entry List.mem_cons_self
    obtain ⟨c, indent5, indent_eq⟩ := List.exists_cons_of_ne_nil validEntry.indented
    rw [r4_eq, listed_eq] at whole
    have heads := congrArg List.head? whole
    obtain rfl : '-' = c := by simpa [block, Entry.text, indent_eq] using heads
    have blank := validEntry.indent '-' (by rw [indent_eq]; exact List.mem_cons_self)
    exact absurd blank (by decide)
  have validFirst4 : Entry.Valid ⟨indent4, first.name, first.gap⟩ :=
    ⟨begun4, blanks4, validFirst.solid, validFirst.gap⟩
  have r4_eq : r4 = Entry.text ⟨indent4, first.name, first.gap⟩ ++ (block entries ++ after) := by
    rw [← whole]
    simp [Entry.text]
  have found := items_block stop lead ⟨indent4, first.name, first.gap⟩ entries
    (List.forall_mem_cons.mpr ⟨validFirst4, fun entry member => valid entry (List.mem_cons_of_mem _ member)⟩)
    flat
  rw [← r4_eq, taken, Option.some.injEq, Prod.mk.injEq] at found
  refine ⟨_, ⟨indent4, first.name, first.gap⟩ :: entries, matched, ?_, ?_, rfl⟩
  · exact found.1
  · exact List.forall_mem_cons.mpr ⟨validFirst4, fun entry member => valid entry (List.mem_cons_of_mem _ member)⟩

/-! ### Before the block -/

/-- A text whose last line is ended is past what holds no newline. -/
theorem past_word {text more word rest : List Char} (same : text ++ more = word ++ rest)
    (none : '\n' ∉ word) (ended : text.getLast? = some '\n') :
    ∃ text', text = word ++ text' ∧ rest = text' ++ more ∧ text'.getLast? = some '\n' := by
  rcases List.append_eq_append_iff.mp same with ⟨between, rfl, later⟩ | ⟨between, rfl, later⟩
  · exfalso
    exact none (List.mem_append_left _ (List.mem_of_getLast? ended))
  · refine ⟨between, rfl, later, ?_⟩
    cases between with
    | nil =>
      rw [List.append_nil] at ended
      exact absurd (List.mem_of_getLast? ended) none
    | cons c between => rwa [List.getLast?_append_of_ne_nil _ (by simp)] at ended

/-- The first newline after blanks comes before what follows an ended line. -/
theorem past_blanks {text more gap rest : List Char} (same : text ++ more = gap ++ '\n' :: rest)
    (blanks : ∀ c ∈ gap, isSpace c) (ended : text.getLast? = some '\n') :
    ∃ before after, text = before ++ '\n' :: after ∧ ∀ c ∈ before, isSpace c := by
  have short {blank : List Char} (prefixed : ∃ after, blank ++ after = gap)
      (ended : blank.getLast? = some '\n') :
      ∃ before after, blank = before ++ '\n' :: after ∧ ∀ c ∈ before, isSpace c := by
    obtain ⟨before, rfl⟩ := List.getLast?_eq_some_iff.mp ended
    obtain ⟨after, rfl⟩ := prefixed
    exact ⟨before, [], rfl, fun c member => blanks c (by simp [member])⟩
  rcases List.append_eq_append_iff.mp same with ⟨between, cut, -⟩ | ⟨between, rfl, later⟩
  · exact short ⟨between, cut.symm⟩ ended
  · cases between with
    | nil =>
      rw [List.append_nil] at ended ⊢
      exact short ⟨[], List.append_nil gap⟩ ended
    | cons c between =>
      obtain ⟨rfl, -⟩ := List.cons.inj later
      exact ⟨gap, between, rfl, blanks⟩

/-- A list that begins before an ended line begins there on its own, unless the list is begun by
what follows. -/
theorem begins_before {text more : List Char} (begins : Begins (text ++ more))
    (ended : text.getLast? = some '\n') (other : ∀ c ∈ (more.dropWhile isSpace).head?, c ≠ '-') :
    Begins text ∨ ∀ c ∈ text, isSpace c := by
  obtain ⟨indent, run, entry, rest, whole, indented, blanks, blanks', valid⟩ := begins
  rcases List.append_eq_append_iff.mp whole with ⟨between, rfl, -⟩ | ⟨text1, rfl, whole1⟩
  · exact Or.inr fun c member => blanks c (List.mem_append_left _ member)
  cases text1 with
  | nil => exact Or.inr (by simpa using blanks)
  | cons c text1 =>
  left
  rw [List.getLast?_append_of_ne_nil _ (by simp)] at ended
  obtain ⟨text2, cut2, whole2, ended2⟩ := past_word whole1.symm (by decide) ended
  have allBlank : ∀ c ∈ run ++ '\n' :: entry.indent, isSpace c := by
    intro c member
    rcases List.mem_append.mp member with member | member
    · exact blanks' c member
    rcases List.mem_cons.mp member with rfl | member
    · decide
    · exact valid.indent c member
  have split : text2 ++ more = (run ++ '\n' :: entry.indent) ++
      ("- ".toList ++ (entry.name ++ (entry.gap ++ '\n' :: rest))) := by
    rw [← whole2]
    simp [Entry.text]
  -- the dash is before the end of the line, for nothing after it begins with one
  have notAfter {between : List Char} (spaces : ∀ c ∈ between, isSpace c)
      (cut : more = between ++ ("- ".toList ++ (entry.name ++ (entry.gap ++ '\n' :: rest)))) : False := by
    refine other '-' ?_ rfl
    rw [cut, List.dropWhile_append_of_pos spaces]
    rfl
  rcases List.append_eq_append_iff.mp split with ⟨between, cut3, later⟩ | ⟨text3, cut3, whole3⟩
  · refine (notAfter (fun c member => allBlank c ?_) later).elim
    rw [cut3]
    exact List.mem_append_right _ member
  have begun3 : text3 ≠ [] := by
    rintro rfl
    exact @notAfter [] (by simp) whole3.symm
  have ended3 : text3.getLast? = some '\n' := by
    rwa [cut3, List.getLast?_append_of_ne_nil _ begun3] at ended2
  obtain ⟨text4, cut4, whole4, ended4⟩ := past_word whole3.symm (by decide) ended3
  have noNewline : '\n' ∉ entry.name := by
    intro member
    have visible := valid.solid.2 _ member
    exact absurd visible (by decide)
  obtain ⟨text5, cut5, whole5, ended5⟩ := past_word whole4.symm noNewline ended4
  obtain ⟨gap, back, cut6, spaces⟩ := past_blanks whole5.symm valid.gap ended5
  refine ⟨indent, run, ⟨entry.indent, entry.name, gap⟩, back, ?_, indented, blanks, blanks',
    ⟨valid.indented, valid.indent, valid.solid, spaces⟩⟩
  rw [cut2, cut3, cut4, cut5, cut6]
  simp [Entry.text]

/-! ### The search -/

/-- What is before a place ends a line, or is nothing at a place where a line starts. -/
def AtLine (starts : Bool) (before : List Char) : Prop :=
  (before = [] → starts = true) ∧ ∀ c ∈ before.getLast?, c = '\n'

theorem atLine_cons {starts : Bool} {c : Char} {before : List Char} :
    AtLine starts (c :: before) ↔ AtLine (c = '\n') before := by
  cases before with
  | nil => simp [AtLine]
  | cons d before => simp [AtLine, List.getLast?_cons_cons]

theorem searchFrom_eq_some {starts : Bool} {text before : List Char} {found : Include}
    (matched : searchFrom starts text = some (before, found)) :
    ∃ rest, text = before ++ rest ∧ includeAt rest = some found ∧ AtLine starts before ∧
      ∀ front back, before = front ++ back → back ≠ [] → AtLine starts front →
        includeAt (back ++ rest) = none := by
  induction text generalizing starts before with
  | nil => cases matched
  | cons c text ih =>
    rw [searchFrom] at matched
    cases here : (if starts then includeAt (c :: text) else none) with
    | some first =>
      rw [here] at matched
      obtain ⟨rfl, rfl⟩ := Prod.mk.inj (Option.some.inj matched)
      have begins : starts = true := by
        by_contra off
        rw [if_neg off] at here
        cases here
      rw [if_pos begins] at here
      refine ⟨c :: text, rfl, here, ⟨fun _ => begins, by simp⟩, ?_⟩
      intro front back cut some
      exact absurd (List.append_eq_nil_iff.mp cut.symm).2 some
    | none =>
      rw [here] at matched
      obtain ⟨⟨before', found'⟩, later, same⟩ := Option.map_eq_some_iff.mp matched
      obtain ⟨rfl, rfl⟩ := Prod.mk.inj same
      obtain ⟨rest, rfl, taken, atLine, early⟩ := ih later
      refine ⟨rest, rfl, taken, atLine_cons.mpr atLine, ?_⟩
      intro front back cut some atFront
      cases front with
      | nil =>
        rw [List.nil_append] at cut
        rw [if_pos (atFront.1 rfl)] at here
        rw [← cut]
        exact here
      | cons d front =>
        obtain ⟨rfl, cut'⟩ := List.cons.inj cut
        exact early front back cut' some (atLine_cons.mp atFront)

theorem searchFrom_eq_none {starts : Bool} {text : List Char} (failed : searchFrom starts text = none) :
    ∀ front back, text = front ++ back → back ≠ [] → AtLine starts front → includeAt back = none := by
  induction text generalizing starts with
  | nil =>
    intro front back cut some
    exact absurd (List.append_eq_nil_iff.mp cut.symm).2 some
  | cons c text ih =>
    rw [searchFrom] at failed
    cases here : (if starts then includeAt (c :: text) else none) with
    | some first =>
      rw [here] at failed
      cases failed
    | none =>
      rw [here] at failed
      have later := ih (Option.map_eq_none_iff.mp failed)
      intro front back cut some atFront
      cases front with
      | nil =>
        rw [List.nil_append] at cut
        rw [if_pos (atFront.1 rfl)] at here
        rw [← cut]
        exact here
      | cons d front =>
        obtain ⟨rfl, cut'⟩ := List.cons.inj cut
        exact later front back cut' some (atLine_cons.mp atFront)

/-- Where the place before which a list is looked for has one, and every earlier place has one of
the same kind or none, one of this kind is found. -/
theorem searchFrom_of_at {kind : Include → Prop} {starts : Bool} {before rest : List Char}
    (atLine : AtLine starts before) (here : ∃ found, includeAt rest = some found ∧ kind found)
    (early : ∀ front back found, before = front ++ back → back ≠ [] → AtLine starts front →
      includeAt (back ++ rest) = some found → kind found) :
    ∃ place found, searchFrom starts (before ++ rest) = some (place, found) ∧ kind found := by
  induction before generalizing starts with
  | nil =>
    obtain ⟨found, taken, ok⟩ := here
    cases rest with
    | nil => cases taken
    | cons c rest => exact ⟨[], found, by simp [searchFrom, atLine.1 rfl, taken], ok⟩
  | cons c before ih =>
    rw [List.cons_append, searchFrom]
    cases first : (if starts then includeAt (c :: (before ++ rest)) else none) with
    | some found =>
      have begins : starts = true := by
        by_contra off
        rw [if_neg off] at first
        cases first
      rw [if_pos begins] at first
      exact ⟨[], found, rfl, early [] (c :: before) found rfl (by simp) ⟨fun _ => begins, by simp⟩ first⟩
    | none =>
      obtain ⟨place, found, later, ok⟩ := ih (atLine_cons.mp atLine) fun front back found cut some atFront =>
        early (c :: front) back found (by rw [cut]; rfl) some (atLine_cons.mpr atFront)
      exact ⟨c :: place, found, by rw [later]; rfl, ok⟩

/-! ### What a write leaves -/

/-- A list whose items have the names. -/
def Lists (names : List Name) (found : Include) : Prop :=
  ∃ entries, found.listed = block entries ∧ (∀ entry ∈ entries, entry.Valid) ∧
    entries.map Entry.name = names

/-- The lines that are written under an indent. -/
def writtenEntry (indent : List Char) (name : Name) : Entry := ⟨indent ++ "  ".toList, name, []⟩

theorem includeLines_eq (indent : List Char) (names : List Name) :
    includeLines indent names = block (names.map (writtenEntry indent)) := by
  have dash : "  - ".toList = "  ".toList ++ "- ".toList := rfl
  rw [includeLines, block, List.map_map]
  refine congrArg List.flatten (List.map_congr_left fun name _ => ?_)
  rw [dash]
  simp [writtenEntry, Entry.text]

theorem valid_written {indent : List Char} (blanks : ∀ c ∈ indent, isSpace c) {name : Name}
    (solid : Solid name) : (writtenEntry indent name).Valid := by
  refine ⟨?_, ?_, solid, by simp [writtenEntry]⟩
  · simp [writtenEntry]
  · intro c member
    rcases List.mem_append.mp member with member | member
    · exact blanks c member
    · obtain rfl : c = ' ' := by simpa using member
      decide

theorem endsFlat_written (indent : List Char) (name : Name) : (writtenEntry indent name).EndsFlat := by
  intro c last
  rw [writtenEntry, List.getLast?_append_of_ne_nil _ (by simp)] at last
  obtain rfl : ' ' = c := by simpa using last
  decide

/-- A list that is written below an include line is the one that is found. -/
theorem searchInclude_written {before indent run after outer : List Char} {names : List Name}
    (atLine : AtLine true before)
    (early : ∀ front back, before = front ++ back → back ≠ [] → AtLine true front → ¬ Begins back)
    (indented : indent ≠ []) (blanks : ∀ c ∈ indent, isSpace c) (blanks' : ∀ c ∈ run, isSpace c)
    (blanks'' : ∀ c ∈ outer, isSpace c) (stop : item after = none) (lead : FlatLead after)
    (nonempty : names ≠ []) (solid : ∀ name ∈ names, Solid name) :
    ∃ place found, searchInclude (before ++ (indent ++ ("include:".toList ++
        (run ++ '\n' :: (includeLines outer names ++ after))))) = some (place, found) ∧
      Lists names found := by
  obtain ⟨name, names, rfl⟩ := List.exists_cons_of_ne_nil nonempty
  have valid : ∀ entry ∈ (name :: names).map (writtenEntry outer), entry.Valid := by
    intro entry member
    obtain ⟨other, present, rfl⟩ := List.mem_map.mp member
    exact valid_written blanks'' (solid other present)
  have flat : ∀ entry ∈ names.map (writtenEntry outer), entry.EndsFlat := by
    intro entry member
    obtain ⟨other, -, rfl⟩ := List.mem_map.mp member
    exact endsFlat_written outer other
  have cut : includeLines outer (name :: names) ++ after =
      (writtenEntry outer name).text ++ (block (names.map (writtenEntry outer)) ++ after) := by
    rw [includeLines_eq]
    simp [block]
  have taken {indent : List Char} (indented : indent ≠ []) (blanks : ∀ c ∈ indent, isSpace c) :
      ∃ found, includeAt (indent ++ ("include:".toList ++
        (run ++ '\n' :: (includeLines outer (name :: names) ++ after)))) = some found ∧
        Lists (name :: names) found := by
    obtain ⟨found, entries, matched, listed, valid', same⟩ := includeAt_block indented blanks blanks'
      valid flat stop lead
    refine ⟨found, by rw [cut]; exact matched, entries, listed, valid', ?_⟩
    rw [same]
    simp [writtenEntry, Function.comp_def]
  refine searchFrom_of_at atLine (taken indented blanks) ?_
  intro front back found split begun atFront matched
  have ended : back.getLast? = some '\n' := by
    obtain ⟨c, last⟩ := Option.ne_none_iff_exists'.mp (mt List.getLast?_eq_none_iff.mp begun)
    have newline := atLine.2 c (by rw [split, List.getLast?_append_of_ne_nil _ begun]; exact last)
    rw [last, newline]
  have begins := begins_of_includeAt (by rw [matched]; simp)
  rcases begins_before begins ended (by
    intro c head
    rw [List.dropWhile_append_of_pos blanks] at head
    obtain rfl : 'i' = c := by simpa [isSpace] using head
    decide) with begins | spaces
  · exact absurd begins (early front back split begun atFront)
  · obtain ⟨found', taken', lists⟩ := @taken (back ++ indent) (by simp [begun])
      (List.forall_mem_append.mpr ⟨spaces, blanks⟩)
    rw [List.append_assoc, matched] at taken'
    rw [Option.some.inj taken']
    exact lists

/-- The text is empty or ends a line. -/
def Terminated (text : List Char) : Prop := text = [] ∨ text.getLast? = some '\n'

/-- What is left of the parts of a text that the list is found in. -/
theorem searchInclude_parts {existing before : List Char} {found : Include}
    (matched : searchInclude existing = some (before, found)) :
    existing = before ++ (found.heading ++ (found.listed ++ found.after)) := by
  obtain ⟨rest, rfl, taken, -⟩ := searchFrom_eq_some matched
  obtain ⟨run, entries, whole, -⟩ := includeAt_eq_some taken
  rw [whole]

/-- The list that a write leaves is found with its names. -/
theorem searchInclude_write {existing : List Char} (terminated : Terminated existing)
    {names : List Name} (nonempty : names ≠ []) (solid : ∀ name ∈ names, Solid name) :
    ∃ place found, searchInclude (writeVmdb2 existing names) = some (place, found) ∧
      Lists names found := by
  cases matched : searchInclude existing with
  | some pair =>
    obtain ⟨before, found⟩ := pair
    obtain ⟨rest, whole, taken, atLine, early⟩ := searchFrom_eq_some matched
    obtain ⟨run, entries, -, heading, indented, blanks, blanks', -, -, -, stop, lead⟩ :=
      includeAt_eq_some taken
    have written : writeVmdb2 existing names = before ++ (found.indent ++ ("include:".toList ++
        (run ++ '\n' :: (includeLines found.indent names ++ found.after)))) := by
      unfold writeVmdb2
      rw [matched]
      simp only [heading, List.append_assoc, List.cons_append, List.nil_append]
    rw [written]
    refine searchInclude_written atLine ?_ indented blanks blanks' blanks stop lead nonempty solid
    intro front back split begun atFront begins
    exact includeAt_ne_none (begins.append rest) (early front back split begun atFront)
  | none =>
    have failed := searchFrom_eq_none matched
    have written : writeVmdb2 existing names = (existing.rdropWhile (· = '\n') ++ ['\n']) ++
        ("\n    ".toList ++ ("include:".toList ++
          ([] ++ '\n' :: (includeLines "    ".toList names ++ [])))) := by
      have word : "include:\n".toList = "include:".toList ++ ['\n'] := rfl
      have indent : "\n    ".toList = ['\n'] ++ "    ".toList := rfl
      unfold writeVmdb2
      rw [matched, indent]
      simp only [word, List.append_assoc, List.cons_append, List.nil_append, List.append_nil]
    rw [written]
    refine searchInclude_written ?_ ?_ (by decide) (List.all_eq_true.mp (by decide)) (by simp)
      (List.all_eq_true.mp (by decide)) rfl
      (by simp [FlatLead]) nonempty solid
    · exact ⟨by simp, by simp⟩
    · intro front back split begun atFront begins
      rcases terminated with rfl | ended
      · obtain ⟨indent, run, entry, rest, rfl, -⟩ := begins
        have visible : 'i' ∈ [].rdropWhile (fun c => decide (c = '\n')) ++ ['\n'] := by
          rw [split]
          simp
        simp at visible
      · rcases trimmed_cases existing with same | ⟨more, whole⟩
        · have nonempty : existing.rdropWhile (fun c => decide (c = '\n')) ≠ [] := by
            rw [same]
            rintro rfl
            cases ended
          have last := List.rdropWhile_last_not _ existing nonempty
          have ended' : (existing.rdropWhile fun c => decide (c = '\n')).getLast? = some '\n' := by
            rw [same]
            exact ended
          rw [List.getLast?_eq_some_getLast nonempty, Option.some.injEq] at ended'
          rw [ended'] at last
          exact last rfl
        · refine includeAt_ne_none (begins.append more) (failed front (back ++ more) ?_ (by simp [begun])
            atFront)
          rw [← List.append_assoc, ← split]
          exact whole

end SysDeck.Cockpit.PackageFiles
