import SysDeck.Library.Matcher
import SysDeck.Library.Separator
import SysDeck.Cockpit.PackageAgreement
import SysDeck.Cockpit.PackageText

/-! The names that both editions take out of one word of a report: `name-version` and `name.arch`. -/

namespace SysDeck.Cockpit.Packages

open Scan
open Lines (OneLine)
open Matcher (one seq)
open Web.Packages (verTail UpdateRow lines)

/-! ### Names and versions -/

def verChar (c : Char) : Bool := c.isAlphanum || c = '.' || c = '_' || c = '+' || c = '-'

def verEnd (c : Char) : Bool := c.isAlphanum || c = '.' || c = '_' || c = '+'

def VER_TAIL_RE : Matcher Char := seq (one Char.isDigit) (seq (Matcher.many verChar) (one verEnd))

/-- `_split_name_ver`; its test that a digit is first asks for no more than the pattern. -/
def splitNameVer : List Char → List Char × List Char
  | [] => ([], [])
  | c :: rest =>
    if c = '-' ∧ VER_TAIL_RE.matchesLine rest then ([], rest)
    else let (name, version) := splitNameVer rest; (c :: name, version)

theorem verChar_iff (c : Char) : verChar c ↔ verEnd c ∨ c = '-' := by
  simp [verChar, verEnd]

/-- Two characters at least: a digit, and one that is no hyphen at the end. -/
theorem verTail_iff (tail : List Char) : verTail tail ↔
    2 ≤ tail.length ∧ (∃ c ∈ tail.head?, c.isDigit) ∧ (∀ c ∈ tail, verChar c) ∧ ∃ c ∈ tail.getLast?, c ≠ '-' := by
  simp [verTail, verChar, and_assoc, Option.any_eq_true]

theorem lang_verTail (tail : List Char) : VER_TAIL_RE.Lang tail ↔ verTail tail := by
  rw [verTail_iff]
  constructor
  · rintro ⟨_, _, rfl, ⟨c, rfl, digit⟩, middle, _, rfl, all, last, rfl, ends⟩
    have final : ([c] ++ (middle ++ [last])).getLast? = some last := by
      rw [← List.append_assoc, List.getLast?_concat]
    refine ⟨by simp, ⟨c, rfl, digit⟩, ?_, last, final, ?_⟩
    · intro d member
      simp only [List.singleton_append, List.mem_cons, List.mem_append, List.not_mem_nil, or_false] at member
      rcases member with rfl | inside | rfl
      · simp [verChar, Char.isAlphanum, digit]
      · exact all d inside
      · exact (verChar_iff d).mpr (.inl ends)
    · rintro rfl
      exact absurd ends (by decide)
  · rintro ⟨size, ⟨c, head, digit⟩, all, last, final, differ⟩
    obtain ⟨rest, rfl⟩ := List.head?_eq_some_iff.mp head
    obtain ⟨front, whole⟩ := List.getLast?_eq_some_iff.mp final
    cases front with
    | nil =>
      rw [whole] at size
      exact absurd size (by simp)
    | cons d middle =>
      obtain ⟨rfl, rfl⟩ := List.cons.inj whole
      refine ⟨[c], middle ++ [last], rfl, ⟨c, rfl, digit⟩, middle, [last], rfl, ?_, last, rfl, ?_⟩
      · intro e member
        exact all e (by simp [member])
      · exact ((verChar_iff last).mp (all last (by simp))).resolve_right differ

theorem matchesLine_verTail {tail : List Char} (last : tail.getLast? ≠ some '\n') :
    VER_TAIL_RE.matchesLine tail ↔ verTail tail := by
  rw [Matcher.matchesLine_iff, lang_verTail]
  constructor
  · rintro (whole | ⟨body, rfl, -⟩)
    · exact whole
    · exact absurd List.getLast?_concat last
  · exact Or.inl

/-- The editions differ only for an atom with a newline at its end. -/
theorem splitNameVer_eq {atom : List Char} (last : atom.getLast? ≠ some '\n') :
    splitNameVer atom = Web.Packages.splitNameVer atom := by
  induction atom with
  | nil => rfl
  | cons c rest ih =>
    have later : rest.getLast? ≠ some '\n' := by
      intro final
      rw [List.getLast?_cons, final] at last
      exact last rfl
    rw [splitNameVer, Web.Packages.splitNameVer, ih later]
    exact if_congr (and_congr_right fun _ => matchesLine_verTail later) rfl rfl

/-- The split is the right one just where the version has its shape and no earlier hyphen is before a
text of that shape. -/
theorem splitNameVer_join (name version : List Char) :
    Web.Packages.splitNameVer (name ++ '-' :: version) = (name, version) ↔
      verTail version ∧ ∀ front back, name = front ++ '-' :: back → ¬verTail (back ++ '-' :: version) := by
  induction name with
  | nil =>
    rw [List.nil_append, Web.Packages.splitNameVer]
    by_cases shaped : verTail version
    · rw [if_pos ⟨rfl, shaped⟩]
      simp [shaped]
    · rw [if_neg fun both => shaped both.2]
      simp [shaped]
  | cons c name ih =>
    rw [List.cons_append, Web.Packages.splitNameVer]
    by_cases early : c = '-' ∧ verTail (name ++ '-' :: version)
    · rw [if_pos early]
      refine iff_of_false (by simp) ?_
      rintro ⟨-, none⟩
      exact none [] name (by rw [early.1]; rfl) early.2
    · rw [if_neg early]
      have step : (c :: (Web.Packages.splitNameVer (name ++ '-' :: version)).1,
          (Web.Packages.splitNameVer (name ++ '-' :: version)).2) = (c :: name, version) ↔
          Web.Packages.splitNameVer (name ++ '-' :: version) = (name, version) := by
        rw [Prod.mk.injEq, List.cons.injEq, Prod.ext_iff]
        simp
      refine (step.trans ih).trans (and_congr_right fun _ => ?_)
      constructor
      · intro none front back split
        cases front with
        | nil =>
          obtain ⟨rfl, rfl⟩ := List.cons.inj split
          exact fun shaped => early ⟨rfl, shaped⟩
        | cons d front => exact none front back (List.cons.inj split).2
      · intro none front back split
        exact none (c :: front) back (by rw [split]; rfl)

/-- A version starts with a digit. -/
structure Version where
  chars : List Char
  starts : ∃ c ∈ chars.head?, c.isDigit
  all : ∀ c ∈ chars, verChar c

theorem Version.ne_nil (version : Version) : version.chars ≠ [] := by
  obtain ⟨c, head, -⟩ := version.starts
  rintro empty
  rw [empty] at head
  cases head

theorem Version.verTail_iff (version : Version) :
    verTail version.chars ↔ 2 ≤ version.chars.length ∧ version.chars.getLast? ≠ some '-' := by
  rw [Packages.verTail_iff]
  constructor
  · rintro ⟨size, -, -, last, final, differ⟩
    refine ⟨size, fun hyphen => differ ?_⟩
    exact Option.some.inj (final.symm.trans hyphen)
  · rintro ⟨size, differ⟩
    obtain ⟨last, final⟩ : ∃ last, version.chars.getLast? = some last :=
      ⟨_, List.getLast?_eq_some_getLast version.ne_nil⟩
    refine ⟨size, version.starts, version.all, last, final, ?_⟩
    rintro rfl
    exact differ final

/-- A text that a hyphen and the version after it would make a version of. -/
def Ambiguous (back : List Char) : Prop := (∃ c ∈ back.head?, c.isDigit) ∧ ∀ c ∈ back, verChar c

theorem Version.verTail_join_iff (version : Version) (last : version.chars.getLast? ≠ some '-')
    (back : List Char) : verTail (back ++ '-' :: version.chars) ↔ Ambiguous back := by
  rw [Packages.verTail_iff, Ambiguous]
  constructor
  · rintro ⟨-, ⟨c, head, digit⟩, all, -⟩
    refine ⟨?_, fun d member => all d (List.mem_append_left _ member)⟩
    cases back with
    | nil =>
      obtain rfl : '-' = c := Option.some.inj head
      exact absurd digit (by decide)
    | cons d back => exact ⟨c, head, digit⟩
  · rintro ⟨⟨c, head, digit⟩, all⟩
    obtain ⟨rest, rfl⟩ := List.head?_eq_some_iff.mp head
    obtain ⟨final, same⟩ : ∃ final, version.chars.getLast? = some final :=
      ⟨_, List.getLast?_eq_some_getLast version.ne_nil⟩
    have size : 2 ≤ (c :: rest ++ '-' :: version.chars).length := by
      rw [List.length_append, List.length_cons, List.length_cons]
      omega
    refine ⟨size, ⟨c, rfl, digit⟩, ?_, final, ?_, ?_⟩
    · intro d member
      rcases List.mem_append.mp member with inside | later
      · exact all d inside
      · rcases List.mem_cons.mp later with rfl | inside
        · decide
        · exact version.all d inside
    · rw [List.getLast?_append_of_ne_nil _ (List.cons_ne_nil _ _), List.getLast?_cons, same]
      rfl
    · rintro rfl
      exact last same

/-- Of a version of two characters or more both editions split off the name, where the version does not
end with a hyphen and no hyphen of the name is before what could begin a version. -/
theorem splitNameVer_inverts_iff (name : List Char) (version : Version) (size : 2 ≤ version.chars.length) :
    Web.Packages.splitNameVer (name ++ '-' :: version.chars) = (name, version.chars) ∧
        splitNameVer (name ++ '-' :: version.chars) = (name, version.chars) ↔
      version.chars.getLast? ≠ some '-' ∧ ∀ front back, name = front ++ '-' :: back → ¬Ambiguous back := by
  have newline : (name ++ '-' :: version.chars).getLast? ≠ some '\n' := by
    rw [List.getLast?_append_of_ne_nil _ (List.cons_ne_nil _ _)]
    intro last
    have member : '\n' ∈ '-' :: version.chars := List.mem_of_getLast? last
    rcases List.mem_cons.mp member with other | inside
    · exact absurd other (by decide)
    · exact absurd (version.all '\n' inside) (by decide)
  rw [splitNameVer_eq newline, and_self, splitNameVer_join, version.verTail_iff]
  constructor
  · rintro ⟨⟨-, last⟩, none⟩
    exact ⟨last, fun front back split => mt (version.verTail_join_iff last back).mpr (none front back split)⟩
  · rintro ⟨last, none⟩
    exact ⟨⟨size, last⟩, fun front back split => mt (version.verTail_join_iff last back).mp (none front back split)⟩

theorem linux_headers_split :
    Web.Packages.splitNameVer "linux-headers-6.1".toList = ("linux-headers".toList, "6.1".toList) ∧
        splitNameVer "linux-headers-6.1".toList = ("linux-headers".toList, "6.1".toList) ↔
      "6.1".toList.getLast? ≠ some '-' ∧
        ∀ front back, "linux-headers".toList = front ++ '-' :: back → ¬Ambiguous back :=
  splitNameVer_inverts_iff "linux-headers".toList ⟨"6.1".toList, ⟨'6', rfl, rfl⟩, List.all_eq_true.mp rfl⟩ (by decide)

theorem a_digit_after_a_hyphen_splits_early :
    Web.Packages.splitNameVer "java-1.8.0-openjdk-1.8.0.412".toList =
        ("java".toList, "1.8.0-openjdk-1.8.0.412".toList) ∧
      ¬∀ (name : List Char) (version : Version),
        Web.Packages.splitNameVer (name ++ '-' :: version.chars) = (name, version.chars) := by
  refine ⟨by decide, fun inverts => ?_⟩
  have split := inverts "java-1.8.0-openjdk".toList 
    ⟨"1.8.0.412".toList, ⟨'1', rfl, rfl⟩, List.all_eq_true.mp rfl⟩
  exact absurd split (by decide)

/-! ### Rows of dnf and yum -/

def rpmListed (line : List Char) : Option (String × String) :=
  match split line with
  | first :: version :: _ =>
    if "Last".toList <+: line then none
    else some (String.ofList (first.takeWhile (· ≠ '.')), String.ofList version)
  | _ => none

/-- `_parse_rpm_list` -/
def parseRpmList (raw : String) : List (String × String) := (splitlines raw).filterMap rpmListed

/-- What the update reader of the web console takes of a report. -/
def updateRows (stdout : String) : List UpdateRow := (lines stdout).filterMap Web.Packages.rpmUpdate

structure Line where
  chars : List Char
  one : OneLine lineEnd chars

def report (lines : List Line) : String := String.ofList (PackageFiles.unlines (lines.map Line.chars))

/-- What stands in a column. -/
structure Column where
  chars : List Char
  begun : chars ≠ []
  solid : ∀ c ∈ chars, isSpace c = false ∧ Text.isBlank c = false

/-- `name.arch version repo` -/
structure RpmRow where
  name : Column
  arch : Column
  version : Column
  repo : Column
  gaps : ℕ × ℕ
  dotless : '.' ∉ arch.chars

def RpmRow.chars (row : RpmRow) : List Char :=
  (row.name.chars ++ '.' :: row.arch.chars) ++ (List.replicate (row.gaps.1 + 1) ' ' ++
    (row.version.chars ++ (List.replicate (row.gaps.2 + 1) ' ' ++ (row.repo.chars ++ []))))

theorem RpmRow.solid (row : RpmRow) :
    ∀ c ∈ row.name.chars ++ '.' :: row.arch.chars, isSpace c = false ∧ Text.isBlank c = false := by
  intro c member
  rcases List.mem_append.mp member with inside | later
  · exact row.name.solid c inside
  · rcases List.mem_cons.mp later with rfl | inside
    · decide
    · exact row.arch.solid c inside

theorem RpmRow.fields_chars (row : RpmRow) {blank : Char → Bool} (space : blank ' ')
    (apart : ∀ c, isSpace c = false ∧ Text.isBlank c = false → blank c = false) :
    fields blank row.chars =
      [row.name.chars ++ '.' :: row.arch.chars, row.version.chars, row.repo.chars] := by
  have spaces (gap : ℕ) : ∀ c ∈ List.replicate (gap + 1) ' ', blank c := by
    intro c member
    rw [(List.mem_replicate.mp member).2]
    exact space
  have solid (column : Column) : ∀ c ∈ column.chars, blank c = false := fun c member =>
    apart c (column.solid c member)
  rw [RpmRow.chars, fields_run_gap (by simp) (fun c member => apart c (row.solid c member)) (by simp) (spaces _),
    fields_run_gap row.version.begun (solid _) (by simp) (spaces _),
    fields_run row.repo.begun (solid _) (by simp), fields_nil]

theorem oneLine_of_solid {text : List Char} (solid : ∀ c ∈ text, isSpace c = false ∧ Text.isBlank c = false) :
    OneLine lineEnd text := by
  intro c member
  apply Bool.eq_false_iff.mpr
  intro ends
  have blank := (solid c member).1
  rw [PackageFiles.space_of_lineEnd ends] at blank
  cases blank

theorem RpmRow.one (row : RpmRow) : OneLine lineEnd row.chars := by
  have spaces (gap : ℕ) : OneLine lineEnd (List.replicate gap ' ') := by
    intro c member
    rw [(List.mem_replicate.mp member).2]
    rfl
  have repo : OneLine lineEnd (row.repo.chars ++ []) := by
    rw [List.append_nil]
    exact oneLine_of_solid row.repo.solid
  have version : OneLine lineEnd (row.version.chars ++ (List.replicate (row.gaps.2 + 1) ' ' ++ (row.repo.chars ++ []))) :=
    (oneLine_of_solid row.version.solid).append ((spaces _).append repo)
  exact (oneLine_of_solid row.solid).append ((spaces _).append version)

def RpmRow.line (row : RpmRow) : Line := ⟨row.chars, row.one⟩

theorem splitlines_report (lines : List Line) : splitlines (report lines) = lines.map Line.chars := by
  refine PackageFiles.splitlines_unlines fun chars member => ?_
  obtain ⟨line, -, rfl⟩ := List.mem_map.mp member
  exact line.one

theorem lines_report (rows : List Line) : lines (report rows) = rows.map Line.chars ++ [[]] := by
  have one : ∀ chars ∈ rows.map Line.chars, OneLine lineEnd chars := by
    intro chars member
    obtain ⟨line, -, rfl⟩ := List.mem_map.mp member
    exact line.one
  rw [lines, report, String.toList_ofList, ← PackageFiles.splitOnP_unlines one]
  refine splitOnP_congr fun c member => ?_
  obtain ⟨part, inside, member⟩ := List.mem_flatten.mp member
  obtain ⟨chars, present, rfl⟩ := List.mem_map.mp inside
  rcases List.mem_append.mp member with member | member
  · have other : c ≠ '\n' := by
      rintro rfl
      exact absurd (one chars present '\n' member) (by decide)
    rw [one chars present c member]
    exact beq_eq_false_iff_ne.mpr other
  · obtain rfl := List.mem_singleton.mp member
    decide

/-- A reader of lines takes a row from a line in its place just where it takes it from the line. -/
theorem filterMap_middle_iff {α β : Type} {read : α → Option β} {before after : List α} {line : α} {row : β} :
    (before ++ line :: after).filterMap read = before.filterMap read ++ row :: after.filterMap read ↔
      read line = some row := by
  rw [List.filterMap_append, List.append_cancel_left_eq]
  cases taken : read line with
  | none =>
    rw [List.filterMap_cons_none taken]
    refine iff_of_false (fun same => ?_) nofun
    have size := congrArg List.length same
    rw [List.length_cons] at size
    omega
  | some other =>
    rw [List.filterMap_cons_some taken, List.cons.injEq, Option.some.injEq]
    exact and_iff_left rfl

theorem RpmRow.last_prefix_iff (row : RpmRow) :
    "Last".toList <+: row.chars ↔ "Last".toList <+: row.name.chars := by
  constructor
  · rintro ⟨tail, split⟩
    rw [RpmRow.chars, List.append_assoc] at split
    rcases List.append_eq_append_iff.mp split with ⟨more, whole, -⟩ | ⟨more, whole, tail⟩
    · exact ⟨more, whole.symm⟩
    · cases more with
      | nil => exact ⟨[], whole.symm ▸ by simp⟩
      | cons c more =>
        obtain ⟨rfl, -⟩ := List.cons.inj tail
        have dot : '.' ∈ "Last".toList := by
          rw [whole]
          simp
        exact absurd dot (by decide)
  · rintro ⟨more, whole⟩
    rw [RpmRow.chars, List.append_assoc, ← whole]
    exact ⟨_, (List.append_assoc ..).symm⟩

theorem RpmRow.not_space_prefix (row : RpmRow) : ¬[' '] <+: row.chars := by
  rintro ⟨tail, split⟩
  obtain ⟨c, name, named⟩ := List.exists_cons_of_ne_nil row.name.begun
  rw [RpmRow.chars, named] at split
  obtain ⟨rfl, -⟩ := List.cons.inj split
  have solid := row.name.solid ' ' (by rw [named]; exact List.mem_cons_self)
  exact absurd solid.1 (by decide)

theorem ofList_takeWhile_eq_iff (row : RpmRow) :
    String.ofList ((row.name.chars ++ '.' :: row.arch.chars).takeWhile (· ≠ '.')) = String.ofList row.name.chars ↔
      '.' ∉ row.name.chars := by
  constructor
  · intro same dot
    rw [← String.ofList_inj.mp same] at dot
    have other := List.mem_takeWhile_imp dot
    exact absurd other (by decide)
  · intro free
    rw [(Separator.takeWhile_join free row.arch.chars).1]

theorem rpmListed_row_iff (row : RpmRow) :
    rpmListed row.chars = some (String.ofList row.name.chars, String.ofList row.version.chars) ↔
      '.' ∉ row.name.chars ∧ ¬"Last".toList <+: row.name.chars := by
  rw [rpmListed, split, row.fields_chars rfl fun _ solid => solid.1]
  dsimp only
  split
  · rename_i last
    exact iff_of_false nofun fun both => both.2 (row.last_prefix_iff.mp last)
  · rename_i other
    rw [Option.some.injEq, Prod.mk.injEq, ofList_takeWhile_eq_iff]
    exact ⟨fun both => ⟨both.1, mt row.last_prefix_iff.mpr other⟩, fun both => ⟨both.1, rfl⟩⟩

theorem rpmUpdate_row (row : RpmRow) : rpmUpdate row.chars = rpmListed row.chars := by
  rw [rpmUpdate, rpmListed, split, row.fields_chars rfl fun _ solid => solid.1]
  exact if_congr (or_iff_left row.not_space_prefix) rfl rfl

theorem RpmRow.not_header_prefix (row : RpmRow) : ¬"Last ".toList <+: row.chars := by
  rintro ⟨tail, split⟩
  rw [RpmRow.chars] at split
  rcases List.append_eq_append_iff.mp split with ⟨more, whole, -⟩ | ⟨more, whole, -⟩
  · have solid := row.solid ' ' (by rw [whole]; simp)
    exact absurd solid.1 (by decide)
  · have dot : '.' ∈ "Last ".toList := by
      rw [whole]
      simp
    exact absurd dot (by decide)

theorem current_of_rpmUpdate {line : List Char} {row : UpdateRow}
    (matched : Web.Packages.rpmUpdate line = some row) : row.current = "" := by
  rw [Web.Packages.rpmUpdate] at matched
  split at matched
  · cases matched
  obtain ⟨_, _, -, -, -, matched, -⟩ := lazyMany1_eq_some matched
  obtain ⟨_, -, matched⟩ := literal_eq_some matched
  obtain ⟨_, _, -, -, -, matched, -⟩ := many1_eq_some matched
  obtain ⟨_, _, -, -, -, matched, -⟩ := many1_eq_some matched
  obtain ⟨_, _, -, -, -, matched, -⟩ := many1_eq_some matched
  obtain ⟨_, _, -, -, -, matched, -⟩ := many1_eq_some matched
  obtain ⟨_, _, -, -, -, matched, -⟩ := many1_eq_some matched
  rw [← Option.some.inj matched]

/-- The first dot that is not the first character. -/
theorem dot_inj {name name' arch arch' : List Char} (begun : name ≠ []) (begun' : name' ≠ [])
    (free : '.' ∉ name.tail) (free' : '.' ∉ name'.tail) (same : name ++ '.' :: arch = name' ++ '.' :: arch') :
    name = name' := by
  obtain ⟨c, name, rfl⟩ := List.exists_cons_of_ne_nil begun
  obtain ⟨d, name', rfl⟩ := List.exists_cons_of_ne_nil begun'
  obtain ⟨rfl, rest⟩ := List.cons.inj same
  exact congrArg (c :: ·) (Separator.first_inj free free' rest).1

/-- The pattern of the web console ends the name there. -/
theorem webRpmUpdate_row_iff (row : RpmRow) :
    Web.Packages.rpmUpdate row.chars = some ⟨String.ofList row.name.chars, "", String.ofList row.version.chars⟩ ↔
      '.' ∉ row.name.chars.tail := by
  have columns := @RpmRow.fields_chars row Text.isBlank rfl fun _ solid => solid.2
  have starts : ∀ c ∈ row.chars.head?, Text.isBlank c = false := by
    intro c head
    obtain ⟨d, name, named⟩ := List.exists_cons_of_ne_nil row.name.begun
    rw [RpmRow.chars, named] at head
    obtain rfl : d = c := Option.some.inj head
    exact (row.name.solid d (by rw [named]; exact List.mem_cons_self)).2
  obtain ⟨taken, matched⟩ := Option.ne_none_iff_exists'.mp
    (rpmUpdate_ne_none row.not_header_prefix starts columns row.name.begun row.arch.begun)
  have current := current_of_rpmUpdate matched
  obtain ⟨-, -, -, name, arch, candidate, third, others, found, begun, -, first, pair⟩ := rpmUpdate_eq_some matched
  obtain ⟨whole, rest⟩ := List.cons.inj (columns.symm.trans found)
  obtain ⟨same, -⟩ := List.cons.inj rest
  have free : '.' ∉ name.tail := by
    intro dot
    obtain ⟨c, name, rfl⟩ := List.exists_cons_of_ne_nil begun
    obtain ⟨front, back, split⟩ := List.append_of_mem dot
    rw [List.tail_cons] at split
    have nothing := first (c :: front) back (by rw [split]; rfl)
    cases nothing
  rw [matched, Option.some.injEq]
  obtain ⟨shown, version⟩ := Prod.mk.inj pair
  constructor
  · rintro rfl
    rwa [String.ofList_inj.mp shown]
  · intro free'
    have named := dot_inj row.name.begun begun free' free whole
    rw [← named] at shown
    rw [← same] at version
    exact (congrArg₂ (UpdateRow.mk · taken.current ·) shown version).trans (by rw [current])

/-- A row stands in the report as itself: in the cockpit's readers where its name has no dot and does not
begin with Last, in the web console's where its name has no dot after the first character. -/
theorem rpm_name_reported_iff (row : RpmRow) (before after : List Line) :
    (parseRpmList (report (before ++ row.line :: after)) = parseRpmList (report before) ++
        (String.ofList row.name.chars, String.ofList row.version.chars) :: parseRpmList (report after) ↔
      '.' ∉ row.name.chars ∧ ¬"Last".toList <+: row.name.chars) ∧
    (parseRpmUpdateList (report (before ++ row.line :: after)) = parseRpmUpdateList (report before) ++
        (String.ofList row.name.chars, String.ofList row.version.chars) :: parseRpmUpdateList (report after) ↔
      '.' ∉ row.name.chars ∧ ¬"Last".toList <+: row.name.chars) ∧
    (updateRows (report (before ++ row.line :: after)) = updateRows (report before) ++
        ⟨String.ofList row.name.chars, "", String.ofList row.version.chars⟩ :: updateRows (report after) ↔
      '.' ∉ row.name.chars.tail) := by
  refine ⟨?_, ?_, ?_⟩
  · simp only [parseRpmList, splitlines_report, List.map_append, List.map_cons]
    exact filterMap_middle_iff.trans (rpmListed_row_iff row)
  · simp only [parseRpmUpdateList, splitlines_report, List.map_append, List.map_cons]
    rw [filterMap_middle_iff, RpmRow.line, rpmUpdate_row]
    exact rpmListed_row_iff row
  · have empty : [[]].filterMap Web.Packages.rpmUpdate = [] := rfl
    simp only [updateRows, lines_report, List.map_append, List.map_cons, List.filterMap_append, empty,
      List.append_nil]
    rw [← List.filterMap_append]
    exact filterMap_middle_iff.trans (webRpmUpdate_row_iff row)

theorem solid_of_all {chars : List Char} (all : chars.all fun c => !isSpace c && !Text.isBlank c) :
    ∀ c ∈ chars, isSpace c = false ∧ Text.isBlank c = false := fun c member => by
  simpa using List.all_eq_true.mp all c member

/-- `java-1.8.0-openjdk.x86_64 1:1.8 base` -/
def openjdk : RpmRow where
  name := ⟨"java-1.8.0-openjdk".toList, nofun, solid_of_all rfl⟩
  arch := ⟨"x86_64".toList, nofun, solid_of_all rfl⟩
  version := ⟨"1:1.8".toList, nofun, solid_of_all rfl⟩
  repo := ⟨"base".toList, nofun, solid_of_all rfl⟩
  gaps := ⟨0, 0⟩
  dotless := by decide

theorem a_dotted_name_is_cut :
    parseRpmList (report [openjdk.line]) = [("java-1", "1:1.8")] ∧
      parseRpmUpdateList (report [openjdk.line]) = [("java-1", "1:1.8")] ∧
      updateRows (report [openjdk.line]) = [⟨"java-1", "", "1:1.8"⟩] ∧
      String.ofList openjdk.name.chars ≠ "java-1" := by
  decide

end SysDeck.Cockpit.Packages
