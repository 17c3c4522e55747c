import SysDeck.Cockpit.MkosiEdit
import SysDeck.Cockpit.PackageAppend
import SysDeck.Library.Matcher

/-! The old form of an mkosi package list, a line for each name below `Packages=`, and its rewriting
to one line. -/

namespace SysDeck.Cockpit.PackageFiles

open Scan
open Lines (OneLine cut)
open Packages (isSpace lineEnd splitlines strip split)

attribute [local instance] lawful_names

/-- `^(Packages=)\s*\n` -/
def oldHead : Matcher Char :=
  .seq (.literal id "Packages=".toList) (.seq (.many isSpace) (.one fun c => c = '\n'))

/-- `[ \t]+[^\s\n][^\n]*\n` -/
def oldRow : Matcher Char :=
  .seq (.many1 fun c => c = ' ' || c = '\t')
    (.seq (.one fun c => !isSpace c) (.seq (.many fun c => c ≠ '\n') (.one fun c => c = '\n')))

/-- The rows at the head of a text, and the text after them; each of them is longer than nothing. -/
def oldRows : ℕ → List Char → List Char × List Char
  | 0, text => ([], text)
  | fuel + 1, text =>
    match (oldRow.run text).head? with
    | none => ([], text)
    | some (row, rest) => (row ++ (oldRows fuel rest).1, (oldRows fuel rest).2)

/-- What `old_pat` matches, by its groups, and the text after it. -/
structure OldBlock where
  heading : List Char
  listed : List Char
  after : List Char
  deriving DecidableEq

/-- `old_pat` at the head of a text -/
def oldAt (text : List Char) : Option OldBlock :=
  (oldHead.run text).findSome? fun (heading, rest) =>
    let (listed, after) := oldRows rest.length rest
    if listed = [] then none else some ⟨heading, listed, after⟩

/-- `old_pat.search(content)` -/
def searchOld (content : List Char) : Option (List Char × OldBlock) := searchLine oldAt true content

/-- The names of an indented block. -/
def blockNames (listed : List Char) : List Name :=
  (splitlines (String.ofList listed)).foldl (fun packages line => addName packages (strip line)) []

inductive Migration where
  | kept (reason : String)
  | migrated (count : ℕ) (packages : List Name)

/-- `_migrate_legacy_mkosi_packages` on a file that can be read and written -/
def migrateLegacyMkosiPackages (file : Option (List Char)) : Migration × Option (List Char) :=
  let content := readText file
  if ¬"[Packages]".toList <:+: content then (.kept "no [Packages] section", file)
  else
    match searchOld content with
    | none => (.kept "already uses single-line syntax", file)
    | some (before, found) =>
      let packages := blockNames found.listed
      if packages = [] then (.kept "no packages found in indented block", file)
      else (.migrated packages.length packages, some (before ++ valueLine packages ++ found.after))

/-! ### Rows -/

theorem closes_oldRow : oldRow.Closes '\n' := by
  have gap : (Matcher.many1 fun c : Char => c = ' ' || c = '\t').Avoids (· = '\n') := by
    apply Matcher.avoids_many1
    rintro c blank rfl
    exact absurd blank (by decide)
  have begins : (Matcher.one fun c : Char => !isSpace c).Avoids (· = '\n') := by
    apply Matcher.avoids_one
    rintro c visible rfl
    exact absurd visible (by decide)
  have more : (Matcher.many fun c : Char => c ≠ '\n').Avoids (· = '\n') := by
    apply Matcher.avoids_many
    rintro c other rfl
    exact absurd other (by decide)
  have ends : (Matcher.one fun c : Char => c = '\n').Closes '\n' :=
    Matcher.closes_one fun c same => of_decide_eq_true same
  exact gap.seq_closes (begins.seq_closes (more.seq_closes ends))

theorem oldRow_cases {row : List Char} (lang : oldRow.Lang row) :
    ∃ gap c more, row = gap ++ c :: more ∧ gap ≠ [] ∧ (∀ d ∈ gap, d = ' ' ∨ d = '\t') ∧ isSpace c = false := by
  obtain ⟨gap, _, rfl, ⟨_, blanks, rfl, ⟨d, rfl, first⟩, others⟩, _, more, rfl, ⟨c, rfl, visible⟩, -⟩ := lang
  refine ⟨[d] ++ blanks, c, more, rfl, List.cons_ne_nil _ _, ?_, by simpa using visible⟩
  intro e member
  rcases List.mem_cons.mp member with rfl | member
  · simpa using first
  · simpa using others e member

theorem oldRow_begins {last : List Char} (lang : oldRow.Lang (last ++ ['\n'])) :
    ∃ c rest, last = c :: rest ∧ isSpace c := by
  obtain ⟨gap, d, more, whole, begun, flat, -⟩ := oldRow_cases lang
  obtain ⟨c, gap, rfl⟩ := List.exists_cons_of_ne_nil begun
  cases last with
  | nil =>
    obtain ⟨rfl, -⟩ := List.cons.inj whole
    rcases flat _ List.mem_cons_self with other | other <;> cases other
  | cons e rest =>
    obtain ⟨rfl, -⟩ := List.cons.inj whole
    refine ⟨e, rest, rfl, ?_⟩
    rcases flat e List.mem_cons_self with rfl | rfl <;> rfl

theorem oldHead_cases {heading : List Char} (lang : oldHead.Lang heading) :
    ∃ blanks, heading = "Packages=".toList ++ (blanks ++ ['\n']) ∧ ∀ c ∈ blanks, isSpace c := by
  obtain ⟨key, _, rfl, word, blanks, _, rfl, all, c, rfl, ends⟩ := lang
  have same : key = "Packages=".toList := (List.map_id key).symm.trans word
  exact ⟨blanks, by rw [same, of_decide_eq_true ends], all⟩

theorem oldRow_ne_nil {row : List Char} (lang : oldRow.Lang row) : row ≠ [] := by
  obtain ⟨body, rfl, -⟩ := closes_oldRow row lang
  exact List.concat_ne_nil _ _

/-- The row at the head of a text is the only one. -/
theorem head?_oldRow {row : List Char} (lang : oldRow.Lang row) (rest : List Char) :
    (oldRow.run (row ++ rest)).head? = some (row, rest) :=
  closes_oldRow.head?_run (oldRow.reads.mpr ⟨rfl, lang⟩)

theorem oldRows_flatten {rows : List (List Char)} {after : List Char} (all : ∀ row ∈ rows, oldRow.Lang row)
    (stop : oldRow.run after = []) {fuel : ℕ} (enough : (rows.flatten ++ after).length ≤ fuel) :
    oldRows fuel (rows.flatten ++ after) = (rows.flatten, after) := by
  induction rows generalizing fuel with
  | nil =>
    cases fuel with
    | zero => rfl
    | succ fuel =>
      rw [List.flatten_nil, List.nil_append, oldRows, stop]
      rfl
  | cons row rows ih =>
    obtain ⟨lang, all⟩ := List.forall_mem_cons.mp all
    have long := List.length_pos_of_ne_nil (oldRow_ne_nil lang)
    rw [List.flatten_cons, List.append_assoc] at enough ⊢
    rw [List.length_append] at enough
    obtain ⟨fuel, rfl⟩ := Nat.exists_eq_succ_of_ne_zero (Nat.pos_iff_ne_zero.mp (by omega : 0 < fuel))
    have later := @ih all fuel (by omega)
    rw [oldRows, head?_oldRow lang]
    change (row ++ (oldRows fuel (rows.flatten ++ after)).1, (oldRows fuel (rows.flatten ++ after)).2) = _
    rw [later]

theorem oldRows_spec {fuel : ℕ} {text : List Char} (enough : text.length ≤ fuel) :
    ∃ rows : List (List Char), (∀ row ∈ rows, oldRow.Lang row) ∧ (oldRows fuel text).1 = rows.flatten ∧
      text = rows.flatten ++ (oldRows fuel text).2 ∧ oldRow.run (oldRows fuel text).2 = [] := by
  induction fuel generalizing text with
  | zero =>
    obtain rfl := List.length_eq_zero_iff.mp (Nat.le_zero.mp enough)
    exact ⟨[], fun row member => absurd member List.not_mem_nil, rfl, rfl, rfl⟩
  | succ fuel ih =>
    rw [oldRows]
    cases first : (oldRow.run text).head? with
    | none =>
      exact ⟨[], fun row member => absurd member List.not_mem_nil, rfl, rfl, List.head?_eq_none_iff.mp first⟩
    | some match_ =>
      obtain ⟨row, rest⟩ := match_
      obtain ⟨rfl, lang⟩ := oldRow.reads.mp (List.mem_of_head? first)
      have long := List.length_pos_of_ne_nil (oldRow_ne_nil lang)
      rw [List.length_append] at enough
      obtain ⟨rows, all, listed, split, stop⟩ := @ih rest (by omega)
      refine ⟨row :: rows, List.forall_mem_cons.mpr ⟨lang, all⟩, ?_, ?_, stop⟩
      · change row ++ (oldRows fuel rest).1 = _
        rw [List.flatten_cons, listed]
      · change row ++ rest = _ ++ (oldRows fuel rest).2
        rw [List.flatten_cons, List.append_assoc, ← split]

/-! ### What is found -/

/-- What a match is: a heading, rows below it, and a text that begins with no row. -/
structure OldBlock.At (found : OldBlock) (text : List Char) (rows : List (List Char)) : Prop where
  split : text = found.heading ++ (rows.flatten ++ found.after)
  heading : oldHead.Lang found.heading
  listed : found.listed = rows.flatten
  begun : rows ≠ []
  rows : ∀ row ∈ rows, oldRow.Lang row
  stop : oldRow.run found.after = []

/-- A text that begins with a heading and a row. -/
def OldBegins (text : List Char) : Prop :=
  ∃ heading row rest, text = heading ++ (row ++ rest) ∧ oldHead.Lang heading ∧ oldRow.Lang row

/-- Only blanks could be added to a heading, and a row goes past them. -/
theorem eq_nil_of_oldHead {heading more row rest after : List Char} (lang : oldHead.Lang heading)
    (longer : oldHead.Lang (heading ++ more)) (begins : oldRow.Lang row) (same : row ++ rest = more ++ after) :
    more = [] := by
  by_contra begun
  obtain ⟨blanks, rfl, -⟩ := oldHead_cases lang
  obtain ⟨blanks', split, all⟩ := oldHead_cases longer
  rw [List.append_assoc, List.append_cancel_left_eq, List.append_assoc, List.singleton_append] at split
  obtain ⟨more, c, rfl⟩ := List.eq_nil_or_concat more |>.resolve_left begun
  rw [List.concat_eq_append] at split same
  have inner : (blanks ++ '\n' :: more) ++ [c] = blanks' ++ ['\n'] := by simpa using split
  obtain ⟨front, last⟩ := List.append_inj' inner rfl
  obtain rfl := (List.cons.inj last).1
  have blank : ∀ d ∈ more ++ ['\n'], isSpace d := by
    intro d member
    rcases List.mem_append.mp member with member | member
    · apply all d
      rw [← front]
      exact List.mem_append_right _ (List.mem_cons_of_mem _ member)
    · rw [List.mem_singleton.mp member]
      rfl
  obtain ⟨gap, d, others, rfl, -, flat, visible⟩ := oldRow_cases begins
  rw [List.append_assoc] at same
  rcases List.append_eq_append_iff.mp same with ⟨back, whole, tail⟩ | ⟨back, whole, -⟩
  · cases back with
    | nil =>
      have member : '\n' ∈ gap := by
        rw [← List.append_nil gap, ← whole]
        exact List.mem_append_right _ List.mem_cons_self
      rcases flat _ member with other | other <;> cases other
    | cons e back =>
      obtain ⟨rfl, -⟩ := List.cons.inj tail
      have inside := blank d (by rw [whole]; exact List.mem_append_right _ List.mem_cons_self)
      rw [visible] at inside
      cases inside
  · have member : '\n' ∈ gap := by
      rw [whole]
      exact List.mem_append_left _ (List.mem_append_right _ List.mem_cons_self)
    rcases flat _ member with other | other <;> cases other

theorem oldHead_unique {heading heading' row row' rest rest' : List Char} (lang : oldHead.Lang heading)
    (lang' : oldHead.Lang heading') (begins : oldRow.Lang row) (begins' : oldRow.Lang row')
    (same : heading ++ (row ++ rest) = heading' ++ (row' ++ rest')) : heading = heading' := by
  rcases List.append_eq_append_iff.mp same with ⟨more, rfl, tail⟩ | ⟨more, rfl, tail⟩
  · rw [eq_nil_of_oldHead lang lang' begins tail, List.append_nil]
  · rw [eq_nil_of_oldHead lang' lang begins' tail, List.append_nil]

theorem oldAt_eq_some_iff {text : List Char} {found : OldBlock} :
    oldAt text = some found ↔ ∃ rows, found.At text rows := by
  constructor
  · intro matched
    obtain ⟨⟨heading, rest⟩, member, result⟩ := List.exists_of_findSome?_eq_some matched
    obtain ⟨rfl, lang⟩ := oldHead.reads.mp member
    obtain ⟨rows, all, listed, split, stop⟩ := oldRows_spec (Nat.le_refl rest.length)
    by_cases nothing : (oldRows rest.length rest).1 = []
    · simp only [if_pos nothing] at result
      cases result
    · simp only [if_neg nothing] at result
      obtain rfl := Option.some.inj result
      have begun : rows ≠ [] := by
        rintro rfl
        exact nothing listed
      exact ⟨rows, congrArg _ split, lang, listed, begun, all, stop⟩
  · rintro ⟨rows, at_⟩
    obtain ⟨heading, listed, after⟩ := found
    obtain ⟨split, lang, listed', begun, all, stop⟩ := at_
    simp only at split lang listed' stop
    subst listed' split
    obtain ⟨row, others, rfl⟩ := List.exists_cons_of_ne_nil begun
    have begins := all row List.mem_cons_self
    have nonempty : (row :: others).flatten ≠ [] := by
      rw [List.flatten_cons]
      exact List.append_ne_nil_of_left_ne_nil (oldRow_ne_nil begins) _
    have here := oldRows_flatten all stop (Nat.le_refl _)
    refine Matcher.findSome?_of_single (oldHead.reads.mpr ⟨rfl, lang⟩) ?_ ?_
    · simp only [here, if_neg nonempty]
    · rintro ⟨heading', rest'⟩ member hit
      obtain ⟨split, lang'⟩ := oldHead.reads.mp member
      obtain ⟨rows', all', listed', split', -⟩ := oldRows_spec (Nat.le_refl rest'.length)
      cases rows' with
      | nil =>
        simp only [listed', List.flatten_nil, if_true, ne_eq, not_true] at hit
      | cons row' others' =>
        have same := split
        rw [split', List.flatten_cons, List.flatten_cons, List.append_assoc, List.append_assoc] at same
        obtain rfl := oldHead_unique lang lang' begins (all' row' List.mem_cons_self) same
        rw [List.append_cancel_left_eq] at split
        rw [split]

theorem oldAt_ne_none_iff {text : List Char} : oldAt text ≠ none ↔ OldBegins text := by
  constructor
  · intro matched
    obtain ⟨found, matched⟩ := Option.ne_none_iff_exists'.mp matched
    obtain ⟨rows, at_⟩ := oldAt_eq_some_iff.mp matched
    obtain ⟨row, others, rfl⟩ := List.exists_cons_of_ne_nil at_.begun
    refine ⟨found.heading, row, others.flatten ++ found.after, ?_, at_.heading, at_.rows row List.mem_cons_self⟩
    rw [at_.split, List.flatten_cons, List.append_assoc]
  · rintro ⟨heading, row, rest, rfl, lang, begins⟩ failed
    have tried := List.findSome?_eq_none_iff.mp failed _ (oldHead.reads.mpr ⟨rfl, lang⟩)
    obtain ⟨rows, all, listed, split, stop⟩ := oldRows_spec (Nat.le_refl (row ++ rest).length)
    cases rows with
    | nil =>
      rw [List.flatten_nil, List.nil_append] at split
      rw [← split] at stop
      exact List.ne_nil_of_mem (oldRow.reads.mpr ⟨rfl, begins⟩) stop
    | cons row' others =>
      have nonempty : (row' :: others).flatten ≠ [] := by
        rw [List.flatten_cons]
        exact List.append_ne_nil_of_left_ne_nil (oldRow_ne_nil (all row' List.mem_cons_self)) _
      simp only [listed, if_neg nonempty] at tried
      cases tried

/-! ### Where it is found -/

theorem OldBegins.append {text : List Char} (begins : OldBegins text) (more : List Char) :
    OldBegins (text ++ more) := by
  obtain ⟨heading, row, rest, rfl, lang, lang'⟩ := begins
  exact ⟨heading, row, rest ++ more, by simp only [List.append_assoc], lang, lang'⟩

/-- A match ends with a newline, so that what has none is past it. -/
theorem oldBegins_of_append {text last : List Char} (none : '\n' ∉ last) (begins : OldBegins (text ++ last)) :
    OldBegins text := by
  obtain ⟨heading, row, rest, same, lang, lang'⟩ := begins
  obtain ⟨body, rfl, -⟩ := closes_oldRow row lang'
  rw [← List.append_assoc] at same
  rcases List.append_eq_append_iff.mp same with ⟨back, whole, tail⟩ | ⟨back, rfl, tail⟩
  · cases List.eq_nil_or_concat back with
    | inl empty =>
      rw [empty, List.append_nil] at whole
      exact ⟨heading, body ++ ['\n'], [], by rw [List.append_nil, whole], lang, lang'⟩
    | inr split =>
      obtain ⟨back, c, rfl⟩ := split
      rw [List.concat_eq_append, ← List.append_assoc, ← List.append_assoc] at whole
      obtain ⟨-, ends⟩ := List.append_inj' whole rfl
      obtain rfl := (List.cons.inj ends).1
      refine absurd ?_ none
      rw [tail, List.concat_eq_append]
      exact List.mem_append_left _ (List.mem_append_right _ List.mem_cons_self)
  · exact ⟨heading, body ++ ['\n'], back, List.append_assoc .., lang, lang'⟩

theorem newline_of_oldBegins {text : List Char} (begins : OldBegins text) : '\n' ∈ text := by
  by_contra none
  obtain ⟨heading, row, rest, nothing, -, lang⟩ := @oldBegins_of_append [] text none begins
  have empty := (List.append_eq_nil_iff.mp (List.append_eq_nil_iff.mp nothing.symm).2).1
  exact oldRow_ne_nil lang empty

theorem searchOld_eq_none_iff {text : List Char} : searchOld text = none ↔
    ∀ front back, text = front ++ back → atLine true front → ¬OldBegins back := by
  rw [searchOld, searchLine_eq_none_iff]
  simp only [← oldAt_ne_none_iff, not_not]

theorem searchOld_eq_some_iff {text before : List Char} {found : OldBlock} :
    searchOld text = some (before, found) ↔ ∃ rest rows, text = before ++ rest ∧ atLine true before ∧
      found.At rest rows ∧
      ∀ front more, before = front ++ more → more ≠ [] → atLine true front → ¬OldBegins (more ++ rest) := by
  rw [searchOld, searchLine_eq_some_iff]
  simp only [← oldAt_ne_none_iff, not_not, oldAt_eq_some_iff]
  constructor
  · rintro ⟨rest, split, line, ⟨rows, at_⟩, first⟩
    exact ⟨rest, rows, split, line, at_, first⟩
  · rintro ⟨rest, rows, split, line, at_, first⟩
    exact ⟨rest, split, line, ⟨rows, at_⟩, first⟩

/-- What has no newline at the end of a text plays no part. -/
theorem searchOld_append {text last : List Char} (absent : '\n' ∉ last) (failed : searchOld text = none) :
    searchOld (text ++ last) = none := by
  apply searchOld_eq_none_iff.mpr
  intro front back split line begins
  rcases List.append_eq_append_iff.mp split with ⟨more, -, rfl⟩ | ⟨more, rfl, rfl⟩
  · exact absent (List.mem_append_right _ (newline_of_oldBegins begins))
  · exact searchOld_eq_none_iff.mp failed front more rfl line (oldBegins_of_append absent begins)

/-- There is nothing to be found before the first match. -/
theorem searchOld_before {text before : List Char} {found : OldBlock}
    (matched : searchOld text = some (before, found)) : searchOld before = none := by
  obtain ⟨rest, rows, -, -, -, first⟩ := searchOld_eq_some_iff.mp matched
  apply searchOld_eq_none_iff.mpr
  intro front back split line begins
  have begun : back ≠ [] := by
    rintro rfl
    exact absurd (newline_of_oldBegins begins) List.not_mem_nil
  exact first front back split begun line (begins.append rest)

/-- After the first newline of a heading there are blanks. -/
theorem blank_of_oldHead {heading front back : List Char} (lang : oldHead.Lang heading)
    (split : heading = front ++ '\n' :: back) : ∀ c ∈ back, isSpace c := by
  obtain ⟨blanks, rfl, all⟩ := oldHead_cases lang
  have ended : ∀ c ∈ blanks ++ ['\n'], isSpace c := by
    intro c member
    rcases List.mem_append.mp member with member | member
    · exact all c member
    · rw [List.mem_singleton.mp member]
      rfl
  rcases List.append_eq_append_iff.mp split with ⟨more, -, tail⟩ | ⟨more, key, tail⟩
  · intro c member
    apply ended c
    rw [tail]
    exact List.mem_append_right _ (List.mem_cons_of_mem _ member)
  · cases more with
    | nil =>
      intro c member
      apply ended c
      rw [← List.nil_append (blanks ++ ['\n']), ← tail]
      exact List.mem_cons_of_mem _ member
    | cons d more =>
      obtain ⟨rfl, -⟩ := List.cons.inj tail
      have inside : '\n' ∈ "Packages=".toList := by
        rw [key]
        exact List.mem_append_right _ List.mem_cons_self
      exact absurd inside (by decide)

/-- A heading without a row holds no match. -/
theorem not_oldBegins_of_oldHead {heading front back : List Char} (lang : oldHead.Lang heading)
    (split : heading = front ++ back) : ¬OldBegins back := by
  rintro ⟨heading', row, rest, rfl, lang', begins⟩
  obtain ⟨blanks, rfl, -⟩ := oldHead_cases lang'
  obtain ⟨gap, c, more, rfl, -, -, visible⟩ := oldRow_cases begins
  have blank := @blank_of_oldHead _ (front ++ "Packages=".toList ++ blanks) (gap ++ c :: more ++ rest) lang (by
    rw [split]
    simp only [List.append_assoc, List.cons_append, List.nil_append])
  have inside := blank c (List.mem_append_left _ (List.mem_append_right _ List.mem_cons_self))
  rw [visible] at inside
  cases inside

/-! ### A last line without its end -/

/-- A text with the end of its last line. -/
def withEnd (text : List Char) : List Char :=
  if text.getLast?.all (· = '\n') then text else text ++ ['\n']

/-- A text that is not ended has a last line. -/
theorem withEnd_cases (text : List Char) : withEnd text = text ∨
    withEnd text = text ++ ['\n'] ∧ text ≠ [] ∧ ∀ c ∈ text.getLast?, decide (c = '\n') = false := by
  unfold withEnd
  cases last : text.getLast? with
  | none => exact .inl rfl
  | some c =>
    by_cases ends : c = '\n'
    · exact .inl (if_pos (decide_eq_true ends))
    · refine .inr ⟨if_neg (by simpa using ends), ?_, ?_⟩
      · rintro rfl
        cases last
      · intro d same
        obtain rfl := Option.some.inj same
        exact decide_eq_false ends

theorem cut_withEnd (text : List Char) : cut (· = '\n') (withEnd text) = cut (· = '\n') text := by
  rcases withEnd_cases text with same | ⟨same, begun, open_⟩
  · rw [same]
  · rw [same]
    exact Lines.cut_concat rfl begun open_

theorem oldRow_run_of_append {text more : List Char} (stop : oldRow.run (text ++ more) = []) :
    oldRow.run text = [] := by
  apply List.eq_nil_iff_forall_not_mem.mpr
  rintro ⟨row, rest⟩ member
  obtain ⟨rfl, lang⟩ := oldRow.reads.mp member
  have found : (row, rest ++ more) ∈ oldRow.run (row ++ rest ++ more) :=
    oldRow.reads.mpr ⟨List.append_assoc .., lang⟩
  rw [stop] at found
  cases found

/-- A text without the end of its last line, where that line is after the block. -/
theorem searchOld_open {text before : List Char} {found : OldBlock} {after : List Char}
    (matched : searchOld (text ++ ['\n']) = some (before, found)) (more : found.after = after ++ ['\n']) :
    searchOld text = some (before, { found with after := after }) := by
  obtain ⟨rest, rows, split, line, at_, first⟩ := searchOld_eq_some_iff.mp matched
  have whole : text ++ ['\n'] = (before ++ (found.heading ++ (rows.flatten ++ after))) ++ ['\n'] := by
    rw [split, at_.split, more]
    simp only [List.append_assoc]
  obtain ⟨same, -⟩ := List.append_inj' whole rfl
  apply searchOld_eq_some_iff.mpr
  refine ⟨found.heading ++ (rows.flatten ++ after), rows, same, line, ?_, ?_⟩
  · exact ⟨rfl, at_.heading, at_.listed, at_.begun, at_.rows, oldRow_run_of_append (more ▸ at_.stop)⟩
  · intro front back whole' begun line' begins
    refine first front back whole' begun line' ?_
    have longer := begins.append ['\n']
    rw [at_.split, more]
    simpa only [List.append_assoc] using longer

/-- A text without the end of its last line, where that line is the last one of the block. -/
theorem searchOld_open_last {text before : List Char} {found : OldBlock}
    (matched : searchOld (text ++ ['\n']) = some (before, found)) (nothing : found.after = []) :
    ∃ (earlier : List (List Char)) (last : List Char), found.listed = earlier.flatten ++ (last ++ ['\n']) ∧
      (∀ row ∈ earlier, oldRow.Lang row) ∧ oldRow.Lang (last ++ ['\n']) ∧ '\n' ∉ last ∧
      (earlier = [] → searchOld text = none) ∧
      (earlier ≠ [] → searchOld text = some (before, ⟨found.heading, earlier.flatten, last⟩)) := by
  obtain ⟨rest, rows, split, line, at_, first⟩ := searchOld_eq_some_iff.mp matched
  obtain ⟨earlier, row, rfl⟩ := List.eq_nil_or_concat rows |>.resolve_left at_.begun
  have rows := at_.rows
  have listed := at_.listed
  rw [List.concat_eq_append] at rows listed
  have lang := rows row (List.mem_append_right _ List.mem_cons_self)
  obtain ⟨last, rfl, absent⟩ := closes_oldRow row lang
  rw [List.flatten_append, List.flatten_singleton] at listed
  have whole : text ++ ['\n'] = (before ++ (found.heading ++ (earlier.flatten ++ last))) ++ ['\n'] := by
    rw [split, at_.split, nothing, ← at_.listed, listed]
    simp only [List.append_assoc, List.append_nil]
  obtain ⟨same, -⟩ := List.append_inj' whole rfl
  have later {more : List Char} (begins : OldBegins (more ++ (found.heading ++ (earlier.flatten ++ last)))) :
      OldBegins (more ++ rest) := by
    have longer := begins.append ['\n']
    rw [at_.split, nothing, ← at_.listed, listed]
    simpa only [List.append_assoc, List.append_nil] using longer
  have earlierRows : ∀ row ∈ earlier, oldRow.Lang row := fun row member =>
    rows row (List.mem_append_left _ member)
  refine ⟨earlier, last, listed, earlierRows, lang, absent, ?_, ?_⟩
  · rintro rfl
    have front : searchOld (before ++ found.heading) = none := by
      apply searchOld_eq_none_iff.mpr
      intro front back split' line' begins
      rcases List.append_eq_append_iff.mp split' with ⟨more, -, whole'⟩ | ⟨more, whole', rfl⟩
      · exact not_oldBegins_of_oldHead at_.heading whole' begins
      · by_cases begun : more = []
        · subst begun
          exact @not_oldBegins_of_oldHead found.heading [] _ at_.heading rfl begins
        · refine first front more whole' begun line' (later ?_)
          have longer := begins.append last
          rwa [List.append_assoc] at longer
    rw [same, List.flatten_nil, List.nil_append, ← List.append_assoc]
    exact searchOld_append absent front
  · intro begun
    apply searchOld_eq_some_iff.mpr
    refine ⟨_, earlier, same, line, ⟨rfl, at_.heading, rfl, begun, earlierRows, ?_⟩, ?_⟩
    · apply List.eq_nil_iff_forall_not_mem.mpr
      rintro ⟨row, more⟩ member
      obtain ⟨rfl, lang'⟩ := oldRow.reads.mp member
      obtain ⟨body, rfl, -⟩ := closes_oldRow row lang'
      exact absent (List.mem_append_left _ (List.mem_append_right _ List.mem_cons_self))
    · intro front more whole' begun' line' begins
      exact first front more whole' begun' line' (later begins)

/-! ### The names of a block -/

theorem splitlines_eq_cut {text : List Char} (none : '\r' ∉ text) :
    splitlines (String.ofList text) = cut lineEnd text := by
  rw [splitlines, String.toList_ofList, joinReturns_of_none none, Lines.cut_eq_splitOnP]

/-- What the lines of a text are, without the blanks around them. -/
def stripped (text : List Char) : List Name := (cut lineEnd text).map strip

theorem blockNames_eq {listed : List Char} (none : '\r' ∉ listed) :
    blockNames listed = (stripped listed).foldl addName [] := by
  rw [blockNames, splitlines_eq_cut none, stripped, List.foldl_map]

theorem nodup_blockNames {listed : List Char} (none : '\r' ∉ listed) : (blockNames listed).Nodup := by
  rw [blockNames_eq none]
  exact nodup_foldl_addName List.nodup_nil _

theorem oneLine_blockNames {listed : List Char} (none : '\r' ∉ listed) :
    ∀ name ∈ blockNames listed, OneLine lineEnd name := by
  intro name member
  rw [blockNames_eq none] at member
  rcases mem_of_mem_foldl_addName member with member | member
  · cases member
  · obtain ⟨line, present, rfl⟩ := List.mem_map.mp member
    exact OneLine.of_infix (Lines.oneLine_of_mem_cut present) (Strip.stripBy_infix line)

theorem mem_blockNames {listed : List Char} (none : '\r' ∉ listed) {name : Name}
    (member : name ∈ stripped listed) (begun : name ≠ []) : name ∈ blockNames listed := by
  rw [blockNames_eq none]
  exact mem_foldl_addName (.inr ⟨member, begun⟩)

/-- Every row has a name. -/
theorem blockNames_ne_nil {rows : List (List Char)} (all : ∀ row ∈ rows, oldRow.Lang row) (begun : rows ≠ [])
    (none : '\r' ∉ rows.flatten) : blockNames rows.flatten ≠ [] := by
  obtain ⟨row, others, rfl⟩ := List.exists_cons_of_ne_nil begun
  obtain ⟨gap, c, more, rfl, -, -, visible⟩ := oldRow_cases (all row List.mem_cons_self)
  have member : c ∈ ((gap ++ c :: more) :: others).flatten := by
    rw [List.flatten_cons]
    exact List.mem_append_left _ (List.mem_append_right _ List.mem_cons_self)
  have inside : lineEnd c = false := by
    apply Bool.eq_false_iff.mpr
    intro ends
    rw [space_of_lineEnd ends] at visible
    cases visible
  obtain ⟨line, present, within⟩ := Lines.mem_cut member inside
  have shown : strip line ≠ [] := by
    intro empty
    rw [Strip.stripBy_eq_nil_iff.mp empty c within] at visible
    cases visible
  exact List.ne_nil_of_mem (mem_blockNames none (List.mem_map_of_mem present) shown)

theorem stripped_append (front : List Char) (back : List Char) :
    stripped (front ++ ['\n'] ++ back) = stripped (front ++ ['\n']) ++ stripped back := by
  have ends : lineEnd '\n' = true := rfl
  rw [stripped, Lines.cut_append_ended ends, List.map_append]
  rfl

/-- The blocks one after the other. -/
theorem blockNames_append {front back : List Char} (none : '\r' ∉ front ++ ['\n'] ++ back) :
    blockNames (front ++ ['\n'] ++ back) = (stripped back).foldl addName (blockNames (front ++ ['\n'])) := by
  rw [blockNames_eq none, blockNames_eq fun member => none (List.mem_append_left _ member), stripped_append,
    List.foldl_append]

/-- The words of a text each line of which is one word, or none. -/
theorem split_eq_stripped {text : List Char} (solid : ∀ name ∈ stripped text, name ≠ [] → Solid name) :
    split text = (stripped text).filter (· ≠ []) := by
  have one (line : List Char) (solid : strip line ≠ [] → Solid (strip line)) :
      fields isSpace line = [strip line].filter (· ≠ []) := by
    have same : fields isSpace line = fields isSpace (strip line) := (fields_stripBy line).symm
    rw [same]
    by_cases empty : strip line = []
    · rw [empty]
      rfl
    · rw [fields_single empty (solid empty).2, List.filter_cons_of_pos (by simpa using empty)]
      rfl
  rw [split, fields_lines fun c => space_of_lineEnd]
  unfold stripped at solid ⊢
  generalize cut lineEnd text = lines at solid
  induction lines with
  | nil => rfl
  | cons line lines ih =>
    rw [List.map_cons, List.forall_mem_cons] at solid
    rw [List.flatMap_cons, one line solid.1, ih solid.2, ← List.filter_append]
    rfl

theorem foldl_addName_filter (found names : List Name) :
    names.foldl addName found = (names.filter (· ≠ [])).foldl addNew found := by
  induction names generalizing found with
  | nil => rfl
  | cons name names ih =>
    rw [List.foldl_cons, ih, addName]
    by_cases empty : name = []
    · rw [if_pos empty, List.filter_cons_of_neg (by simpa using empty)]
    · rw [if_neg empty, List.filter_cons_of_pos (by simpa using empty), List.foldl_cons]

/-- Where every name is one word, the last line of a block adds its words that are new. -/
theorem blockNames_last {front last : List Char} (none : '\r' ∉ front ++ ['\n'] ++ (last ++ ['\n']))
    (solid : ∀ name ∈ blockNames (front ++ ['\n'] ++ (last ++ ['\n'])), Solid name) :
    blockNames (front ++ ['\n'] ++ (last ++ ['\n'])) = (split last).foldl addNew (blockNames (front ++ ['\n'])) := by
  have words : split last = (stripped (last ++ ['\n'])).filter (· ≠ []) := by
    have blank : ∀ c ∈ ['\n'], isSpace c := List.forall_mem_singleton.mpr rfl
    have same : split (last ++ ['\n']) = split last := fields_append_blanks blank last
    rw [← same]
    apply split_eq_stripped
    intro name member begun
    refine solid name (mem_blockNames none ?_ begun)
    rw [stripped_append]
    exact List.mem_append_right _ member
  rw [blockNames_append none, foldl_addName_filter, words]

/-! ### What the migration leaves -/

/-- One line lists the names of the block, the other lines are those around it, and another run
leaves the file as it is. -/
structure Preserved (before : List Char) (found : OldBlock) (file : Option (List Char)) : Prop where
  lines : ∃ value, cut (· = '\n') (readText file) =
      cut (· = '\n') before ++ ("Packages=".toList ++ value) :: cut (· = '\n') found.after ∧
    split value = blockNames found.listed
  again : (migrateLegacyMkosiPackages file).2 = file

/-- The block ends the text, no name in it has a blank, and its last line is ended; or its last line
has names only that are not on the lines before it, of which there is one. -/
structure Migratable (content : List Char) (found : OldBlock) : Prop where
  opened : "[Packages]".toList <:+: content
  last : found.after = []
  solid : ∀ name ∈ blockNames found.listed, Solid name
  ended : withEnd content = content ∨ ∃ earlier last, found.listed = earlier ++ ['\n'] ++ (last ++ ['\n']) ∧
    '\n' ∉ last ∧ (blockNames (earlier ++ ['\n']) ++ split last).Nodup

theorem migrate_unchanged {file : Option (List Char)}
    (kept : "[Packages]".toList <:+: readText file → searchOld (readText file) = none) :
    (migrateLegacyMkosiPackages file).2 = file := by
  unfold migrateLegacyMkosiPackages
  by_cases opened : "[Packages]".toList <:+: readText file
  · simp only [if_neg (not_not.mpr opened), kept opened]
  · simp only [if_pos opened]

theorem migrate_found {file : Option (List Char)} (opened : "[Packages]".toList <:+: readText file)
    {before : List Char} {found : OldBlock} (matched : searchOld (readText file) = some (before, found))
    (begun : blockNames found.listed ≠ []) : (migrateLegacyMkosiPackages file).2 =
      some (before ++ valueLine (blockNames found.listed) ++ found.after) := by
  unfold migrateLegacyMkosiPackages
  simp only [if_neg (not_not.mpr opened), matched, if_neg begun]

theorem cut_append_place {front : List Char} (line : atLine true front) (rest : List Char) :
    cut (· = '\n') (front ++ rest) = cut (· = '\n') front ++ cut (· = '\n') rest := by
  by_cases begun : front = []
  · rw [begun]
    rfl
  · obtain ⟨body, rfl⟩ := exists_of_atLine line begun
    exact Lines.cut_append_ended rfl rest

/-- A file that is left as it is has the lines of the block still. -/
theorem not_lines_of_unchanged {content before : List Char} {found : OldBlock}
    (old : searchOld (withEnd content) = some (before, found)) (value : List Char) :
    cut (· = '\n') content ≠
      cut (· = '\n') before ++ ("Packages=".toList ++ value) :: cut (· = '\n') found.after := by
  obtain ⟨rest, rows, split, line, at_, -⟩ := searchOld_eq_some_iff.mp old
  obtain ⟨blanks, heading, -⟩ := oldHead_cases at_.heading
  obtain ⟨row, others, rfl⟩ := List.exists_cons_of_ne_nil at_.begun
  obtain ⟨body, rfl, -⟩ := closes_oldRow row (at_.rows row List.mem_cons_self)
  have lines : cut (· = '\n') content = cut (· = '\n') before ++ (cut (· = '\n') found.heading ++
      (cut (· = '\n') (body ++ ['\n']) ++ cut (· = '\n') (others.flatten ++ found.after))) := by
    have first := @Lines.cut_append_ended (· = '\n') ("Packages=".toList ++ blanks) '\n' rfl
      ((body ++ ['\n']) ++ (others.flatten ++ found.after))
    have second := @Lines.cut_append_ended (· = '\n') body '\n' rfl (others.flatten ++ found.after)
    rw [List.append_assoc "Packages=".toList, ← heading] at first
    rw [← cut_withEnd, split, cut_append_place line, at_.split, List.flatten_cons, List.append_assoc (body ++ _),
      first, second]
  intro same
  rw [lines, List.append_cancel_left_eq] at same
  have sizes := congrArg List.length same
  rw [List.length_append, List.length_append, List.length_cons] at sizes
  have one := List.length_pos_of_ne_nil (@Lines.cut_ne_nil (· = '\n') found.heading (by rw [heading]; exact List.cons_ne_nil _ _))
  have two := List.length_pos_of_ne_nil (@Lines.cut_ne_nil (· = '\n') (body ++ ['\n']) (List.concat_ne_nil _ _))
  have more := @Lines.length_cut_append (· = '\n') others.flatten found.after
  omega

section

variable {before rest : List Char} {found : OldBlock} {names : List Name}

theorem newline_of_lineEnd {text : List Char} (one : OneLine lineEnd text) : OneLine (· = '\n') text := by
  intro c member
  apply decide_eq_false
  rintro rfl
  exact absurd (one _ member) (by decide)

theorem lines_written (line : atLine true before) (value : List Char) :
    cut (· = '\n') (before ++ valueLine names ++ rest) =
        cut (· = '\n') before ++ ("Packages=".toList ++ value) :: cut (· = '\n') found.after ↔
      cut (· = '\n') (valueLine names ++ rest) = ("Packages=".toList ++ value) :: cut (· = '\n') found.after := by
  rw [List.append_assoc, cut_append_place line, List.append_cancel_left_eq]

theorem return_not_mem_written (noReturn : '\r' ∉ before) (noReturn' : '\r' ∉ rest)
    (one : ∀ name ∈ names, OneLine lineEnd name) : '\r' ∉ before ++ valueLine names ++ rest := by
  intro member
  rcases List.mem_append.mp member with member | member
  · rcases List.mem_append.mp member with member | member
    · exact noReturn member
    · exact return_not_mem_of_oneLine (oneLine_valueLine one) member
  · exact noReturn' member

theorem readText_some {text : List Char} (none : '\r' ∉ text) : readText (some text) = text :=
  universal_of_none none

/-- Text that follows the line of names is no line of its own. -/
theorem not_preserved_of_more (line : atLine true before) (noReturn : '\r' ∉ before ++ valueLine names ++ rest)
    (one : ∀ name ∈ names, OneLine lineEnd name) (more : rest ≠ [])
    (same : cut (· = '\n') found.after = cut (· = '\n') rest) :
    ¬Preserved before found (some (before ++ valueLine names ++ rest)) := by
  rintro ⟨⟨value, lines, -⟩, -⟩
  rw [readText_some noReturn, lines_written line,
    Lines.cut_append_oneLine (newline_of_lineEnd (oneLine_valueLine one)) more, same] at lines
  have sizes := congrArg List.length lines
  rw [List.length_modifyHead, List.length_cons] at sizes
  omega

/-- At the end of a text the line of names is a line, and what it lists is all that matters. -/
theorem preserved_written_iff (line : atLine true before)
    (noReturn : '\r' ∉ before ++ valueLine names ++ rest) (one : ∀ name ∈ names, OneLine lineEnd name)
    (absent : '\n' ∉ rest) (fresh : searchOld before = none) (last : found.after = []) :
    Preserved before found (some (before ++ valueLine names ++ rest)) ↔
      split ([' '].intercalate names ++ rest) = blockNames found.listed := by
  have oneRest : OneLine (· = '\n') rest := by
    intro c member
    apply decide_eq_false
    rintro rfl
    exact absent member
  have oneLine := (newline_of_lineEnd (oneLine_valueLine one)).append oneRest
  have whole : valueLine names ++ rest = "Packages=".toList ++ ([' '].intercalate names ++ rest) :=
    List.append_assoc ..
  have single : cut (· = '\n') (valueLine names ++ rest) = [valueLine names ++ rest] :=
    Lines.cut_oneLine oneLine (by rw [whole]; exact List.cons_ne_nil _ _)
  constructor
  · rintro ⟨⟨value, lines, same⟩, -⟩
    rw [readText_some noReturn, lines_written line, single, last, whole] at lines
    obtain ⟨first, -⟩ := List.cons.inj lines
    rw [List.append_cancel_left_eq] at first
    rw [first]
    exact same
  · intro same
    refine ⟨⟨_, ?_, same⟩, ?_⟩
    · rw [readText_some noReturn, lines_written line, single, last, whole]
      rfl
    · apply migrate_unchanged
      intro _
      rw [readText_some noReturn, List.append_assoc]
      apply searchOld_append ?_ fresh
      intro member
      exact absurd (oneLine _ member) (by decide)

end

theorem solid_of_split {text : List Char} {names : List Name} (same : split text = names) :
    ∀ name ∈ names, Solid name := by
  intro name member
  rw [← same] at member
  exact mem_fields member

/-- The words of the names, and of a last line that begins with a blank. -/
theorem split_join_last {names : List Name} (solid : ∀ name ∈ names, Solid name) {last : List Char} {c : Char}
    (blank : isSpace c) : split ([' '].intercalate names ++ c :: last) = names ++ split (c :: last) := by
  have front := split_join solid
  unfold split at front ⊢
  rw [fields_append_blank blank, front, fields_cons_blank blank]

/-- The text of a match, of which every part is free of what the text is free of. -/
theorem searchOld_parts {text before : List Char} {found : OldBlock} (matched : searchOld text = some (before, found)) :
    text = before ++ (found.heading ++ (found.listed ++ found.after)) ∧ atLine true before ∧
      ∃ rows, found.listed = rows.flatten ∧ rows ≠ [] ∧ ∀ row ∈ rows, oldRow.Lang row := by
  obtain ⟨rest, rows, split, line, at_, -⟩ := searchOld_eq_some_iff.mp matched
  rw [split, at_.split, at_.listed]
  exact ⟨rfl, line, rows, rfl, at_.begun, at_.rows⟩

/-- In a text that is found as it is, the names that are written and what they are written before. -/
theorem migrate_text {file : Option (List Char)} (opened : "[Packages]".toList <:+: readText file)
    {before : List Char} {found : OldBlock} (matched : searchOld (readText file) = some (before, found)) :
    (migrateLegacyMkosiPackages file).2 = some (before ++ valueLine (blockNames found.listed) ++ found.after) ∧
      '\r' ∉ before ++ valueLine (blockNames found.listed) ++ found.after ∧ '\r' ∉ found.listed := by
  have noReturn := return_not_mem_universal (file.getD [])
  obtain ⟨split, -, rows, listed, begun, all⟩ := searchOld_parts matched
  rw [← readText, split] at noReturn
  simp only [List.mem_append, not_or] at noReturn
  obtain ⟨front, -, inside, back⟩ := noReturn
  have names : blockNames found.listed ≠ [] := by
    rw [listed] at inside ⊢
    exact blockNames_ne_nil all begun inside
  exact ⟨migrate_found opened matched names, return_not_mem_written front back (oneLine_blockNames inside), inside⟩

/-- A block after which the text goes on is not replaced by a line. -/
theorem not_preserved_of_after {file : Option (List Char)} (opened : "[Packages]".toList <:+: readText file)
    {before : List Char} {found : OldBlock} (matched : searchOld (readText file) = some (before, found))
    (more : found.after ≠ []) {old : OldBlock}
    (same : cut (· = '\n') old.after = cut (· = '\n') found.after) :
    ¬Preserved before old (migrateLegacyMkosiPackages file).2 := by
  obtain ⟨written, noReturn, inside⟩ := migrate_text opened matched
  rw [written]
  exact not_preserved_of_more (searchOld_parts matched).2.1 noReturn (oneLine_blockNames inside) more same

theorem preserved_iff_of_ended {file : Option (List Char)} (opened : "[Packages]".toList <:+: readText file)
    {before : List Char} {found : OldBlock} (matched : searchOld (readText file) = some (before, found))
    (last : found.after = []) : Preserved before found (migrateLegacyMkosiPackages file).2 ↔
      ∀ name ∈ blockNames found.listed, Solid name := by
  obtain ⟨written, noReturn, inside⟩ := migrate_text opened matched
  rw [written, preserved_written_iff (searchOld_parts matched).2.1 noReturn (oneLine_blockNames inside)
    (by rw [last]; exact List.not_mem_nil) (searchOld_before matched) last, last, List.append_nil]
  exact ⟨solid_of_split, split_join⟩

/-- Where the last line of the block is not ended, it is what stands after the block that is found. -/
theorem preserved_iff_of_open {file : Option (List Char)} (opened : "[Packages]".toList <:+: readText file)
    {before earlier last : List Char} {found old : OldBlock}
    (matched : searchOld (readText file) = some (before, found)) (listed : found.listed = earlier ++ ['\n'])
    (after : found.after = last) (lang : oldRow.Lang (last ++ ['\n'])) (absent : '\n' ∉ last)
    (nothing : old.after = []) (whole : old.listed = earlier ++ ['\n'] ++ (last ++ ['\n'])) :
    Preserved before old (migrateLegacyMkosiPackages file).2 ↔
      (∀ name ∈ blockNames old.listed, Solid name) ∧ (blockNames (earlier ++ ['\n']) ++ split last).Nodup := by
  obtain ⟨written, noReturn, inside⟩ := migrate_text opened matched
  have inside' : '\r' ∉ earlier ++ ['\n'] ++ (last ++ ['\n']) := by
    intro member
    rw [after] at noReturn
    rcases List.mem_append.mp member with member | member
    · rw [listed] at inside
      exact inside member
    · rcases List.mem_append.mp member with member | member
      · exact noReturn (List.mem_append_right _ member)
      · exact absurd member (by decide)
  obtain ⟨c, rest, rfl, blank⟩ := oldRow_begins lang
  rw [written, preserved_written_iff (searchOld_parts matched).2.1 noReturn (oneLine_blockNames inside)
    (by rw [after]; exact absent) (searchOld_before matched) nothing, whole, listed, after]
  have earlierSolid (solid : ∀ name ∈ blockNames (earlier ++ ['\n'] ++ (c :: rest ++ ['\n'])), Solid name) :
      ∀ name ∈ blockNames (earlier ++ ['\n']), Solid name := by
    intro name member
    apply solid
    rw [blockNames_append inside']
    exact mem_foldl_addName (.inl member)
  constructor
  · intro same
    have solid := solid_of_split same
    have nodup := nodup_blockNames inside'
    refine ⟨solid, ?_⟩
    rw [← split_join_last (earlierSolid solid) blank, same]
    exact nodup
  · rintro ⟨solid, nodup⟩
    have names := blockNames_last inside' solid
    rw [names, foldl_addNew nodup, split_join_last (earlierSolid solid) blank]

/-- The last line of a block that is ended, in one way. -/
theorem last_unique {earlier last earlier' last' : List Char} (absent : '\n' ∉ last) (absent' : '\n' ∉ last')
    (same : earlier ++ ['\n'] ++ (last ++ ['\n']) = earlier' ++ ['\n'] ++ (last' ++ ['\n'])) :
    earlier = earlier' ∧ last = last' := by
  rw [← List.append_assoc, ← List.append_assoc] at same
  obtain ⟨same, -⟩ := List.append_inj' same rfl
  have reversed := congrArg List.reverse same
  simp only [List.reverse_append, List.reverse_singleton, List.singleton_append] at reversed
  obtain ⟨lasts, earliers⟩ := Matcher.append_cons_inj_of_absent (fun member => absent (List.mem_reverse.mp member))
    (fun member => absent' (List.mem_reverse.mp member)) reversed
  exact ⟨List.reverse_injective earliers, List.reverse_injective lasts⟩

/-- A block whose last line is the last of a text that has no end. -/
theorem migration_open_last_iff {file : Option (List Char)} {before : List Char} {found : OldBlock}
    (opened : "[Packages]".toList <:+: readText file)
    (old : searchOld (readText file ++ ['\n']) = some (before, found)) (last : found.after = [])
    (unchanged : ("[Packages]".toList <:+: readText file → searchOld (readText file) = none) →
      ¬Preserved before found (migrateLegacyMkosiPackages file).2)
    (noEnd : withEnd (readText file) ≠ readText file) :
    Preserved before found (migrateLegacyMkosiPackages file).2 ↔ Migratable (readText file) found := by
  obtain ⟨earlier, row, listed, rows, lang, absent, alone, several⟩ := searchOld_open_last old last
  cases List.eq_nil_or_concat earlier with
  | inl empty =>
    refine iff_of_false (unchanged fun _ => alone empty) fun fits => ?_
    obtain ⟨front, row', listed', -, -⟩ := fits.ended.resolve_left noEnd
    rw [listed', empty, List.flatten_nil, List.nil_append, ← List.append_assoc] at listed
    obtain ⟨whole, -⟩ := List.append_inj' listed rfl
    apply absent
    rw [← whole]
    exact List.mem_append_left _ (List.mem_append_right _ List.mem_cons_self)
  | inr some_ =>
    obtain ⟨rest, previous, rfl⟩ := some_
    rw [List.concat_eq_append] at listed rows several
    obtain ⟨body, rfl, -⟩ := closes_oldRow previous (rows previous (List.mem_append_right _ List.mem_cons_self))
    have flat : (rest ++ [body ++ ['\n']]).flatten = (rest.flatten ++ body) ++ ['\n'] := by
      rw [List.flatten_append, List.flatten_singleton, List.append_assoc]
    have matched := several (List.concat_ne_nil _ _)
    rw [flat] at listed matched
    rw [preserved_iff_of_open opened matched rfl rfl lang absent last listed]
    constructor
    · rintro ⟨solid, nodup⟩
      exact ⟨opened, last, solid, .inr ⟨_, row, listed, absent, nodup⟩⟩
    · rintro ⟨-, -, solid, ended⟩
      obtain ⟨front, row', listed', absent', nodup⟩ := ended.resolve_left noEnd
      obtain ⟨rfl, rfl⟩ := last_unique absent absent' (listed.symm.trans listed')
      exact ⟨solid, nodup⟩

/-- A block that other lines follow, the last of which has no end. -/
theorem not_preserved_of_open {file : Option (List Char)} {before : List Char} {found : OldBlock}
    (opened : "[Packages]".toList <:+: readText file)
    (old : searchOld (readText file ++ ['\n']) = some (before, found))
    (open_ : ∀ c ∈ (readText file).getLast?, decide (c = '\n') = false) (more : found.after ≠ []) :
    ¬Preserved before found (migrateLegacyMkosiPackages file).2 := by
  obtain ⟨after, c, ends⟩ := List.eq_nil_or_concat found.after |>.resolve_left more
  rw [List.concat_eq_append] at ends
  obtain ⟨split, -, rows, listed, some_, all⟩ := searchOld_parts old
  rw [ends, ← List.append_assoc, ← List.append_assoc, ← List.append_assoc] at split
  obtain ⟨whole, ends'⟩ := List.append_inj' split rfl
  obtain rfl := (List.cons.inj ends').1
  have more : after ≠ [] := by
    rintro rfl
    obtain ⟨rest, row, rfl⟩ := List.eq_nil_or_concat rows |>.resolve_left some_
    rw [List.concat_eq_append] at listed all
    obtain ⟨body, rfl, -⟩ := closes_oldRow row (all row (List.mem_append_right _ List.mem_cons_self))
    rw [List.flatten_append, List.flatten_singleton, ← List.append_assoc] at listed
    rw [listed, List.append_nil, ← List.append_assoc] at whole
    have ended := open_ '\n' (by rw [whole]; exact List.getLast?_concat)
    cases ended
  have inner : cut (· = '\n') found.after = cut (· = '\n') after := by
    rw [ends]
    refine Lines.cut_concat rfl more fun d member => open_ d ?_
    rw [whole]
    exact (List.getLast?_append_of_ne_nil _ more).trans member
  exact not_preserved_of_after opened (searchOld_open old ends) more inner

/-- For every text in the old form, the migration keeps the list and the lines around it exactly where
the block ends the text and every line of it has one word. -/
theorem migration_preserves_iff {file : Option (List Char)} {before : List Char} {found : OldBlock}
    (old : searchOld (withEnd (readText file)) = some (before, found)) :
    Preserved before found (migrateLegacyMkosiPackages file).2 ↔ Migratable (readText file) found := by
  have unchanged (kept : "[Packages]".toList <:+: readText file → searchOld (readText file) = none) :
      ¬Preserved before found (migrateLegacyMkosiPackages file).2 := by
    rw [migrate_unchanged kept]
    rintro ⟨⟨value, lines, -⟩, -⟩
    exact not_lines_of_unchanged old value lines
  by_cases opened : "[Packages]".toList <:+: readText file
  · rcases withEnd_cases (readText file) with same | ⟨same, begun, open_⟩
    · rw [same] at old
      by_cases last : found.after = []
      · rw [preserved_iff_of_ended opened old last]
        exact ⟨fun solid => ⟨opened, last, solid, .inl same⟩, fun fits => fits.solid⟩
      · exact iff_of_false (not_preserved_of_after opened old last rfl) fun fits => last fits.last
    · rw [same] at old
      by_cases last : found.after = []
      · apply migration_open_last_iff opened old last unchanged
        rw [same]
        intro whole
        exact List.cons_ne_nil _ _ (List.append_right_eq_self.mp whole)
      · exact iff_of_false (not_preserved_of_open opened old open_ last) fun fits => last fits.last
  · exact iff_of_false (unchanged fun inside => absurd inside opened) fun fits => opened fits.opened

/-- A section whose block ends the text. -/
def lastBlock : Option (List Char) := some "[Packages]\nPackages=\n    vim\n    git\n".toList

theorem a_last_block_is_migrated :
    Preserved "[Packages]\n".toList ⟨"Packages=\n".toList, "    vim\n    git\n".toList, []⟩
        (migrateLegacyMkosiPackages lastBlock).2 ↔
      Migratable (readText lastBlock) ⟨"Packages=\n".toList, "    vim\n    git\n".toList, []⟩ :=
  migration_preserves_iff (by decide)

/-- A section that another one follows. -/
def innerBlock : Option (List Char) := some "[Packages]\nPackages=\n  a\n  b\n[Output]\n".toList

theorem the_header_after_a_block_is_lost :
    searchOld (withEnd (readText innerBlock)) = some ("[Packages]\n".toList,
        ⟨"Packages=\n".toList, "  a\n  b\n".toList, "[Output]\n".toList⟩) ∧
      (migrateLegacyMkosiPackages innerBlock).2 = some "[Packages]\nPackages=a b[Output]\n".toList ∧
      ¬Preserved "[Packages]\n".toList ⟨"Packages=\n".toList, "  a\n  b\n".toList, "[Output]\n".toList⟩
        (migrateLegacyMkosiPackages innerBlock).2 := by
  refine ⟨by decide, by decide, ?_⟩
  rintro ⟨⟨value, lines, -⟩, -⟩
  have sizes := congrArg List.length lines
  rw [List.length_append, List.length_cons] at sizes
  exact absurd sizes (by decide)

end SysDeck.Cockpit.PackageFiles
