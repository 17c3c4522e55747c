import SysDeck.Web.Packages

/-! The names that the packages bridge reports, against the names that its commands accept. -/

namespace SysDeck.Web.Packages

open Scan
open Firewall (trim)

/-- A name that `list` or `updates` shows. -/
def Reported (host : Host) (b : Backend) (name : String) : Prop :=
  (∃ args, ∃ row ∈ list host b args, row.name = name) ∨ ∃ row ∈ updates host b, row.name = name

/-- Every reported name is accepted, and a request for reported names is about all of them. -/
structure Actionable (host : Host) (b : Backend) : Prop where
  accepted : ∀ name, Reported host b name → pkgNameOk name ∧ infoAccepts name
  kept : ∀ names, (∀ name ∈ names, Reported host b name) → cleanNames ⟨some names, none⟩ = names

theorem reported_iff {host : Host} {b : Backend} {name : String} :
    Reported host b name ↔
      (∃ row ∈ b.listInstalled host, row.name = name) ∨ ∃ row ∈ updates host b, row.name = name := by
  refine or_congr_left ⟨?_, ?_⟩
  · intro ⟨args, row, member, same⟩
    refine ⟨row, ?_, same⟩
    have filtered := List.mem_of_mem_drop (List.mem_of_mem_take member)
    split at filtered
    · exact filtered
    · exact List.mem_of_mem_filter filtered
  · intro ⟨row, member, same⟩
    -- the page that begins at the row
    obtain ⟨i, bound, rfl⟩ := List.mem_iff_getElem.mp member
    refine ⟨⟨none, none, some i⟩, _, ?_, same⟩
    simp only [list, Option.getD_none, host.lowerCase_empty, if_true, Option.getD_some]
    have fifty : (max 1 (min 500 50) : ℤ).toNat = 50 := rfl
    have offset : (max 0 (i : ℤ)).toNat = i := by omega
    rw [fifty, offset, List.drop_eq_getElem_cons bound]
    exact List.mem_cons_self

theorem actionable_iff_ok {host : Host} {b : Backend} :
    Actionable host b ↔ ∀ name, Reported host b name → pkgNameOk name := by
  constructor
  · intro actionable name reported
    exact (actionable.accepted name reported).1
  · intro ok
    refine ⟨?_, ?_⟩
    · intro name reported
      have valid := ok name reported
      exact ⟨valid, by simp [infoAccepts, trim_of_ok valid, valid, ne_empty_of_ok valid]⟩
    · intro names reported
      exact cleanNames_of_ok fun name member => ok name (reported name member)

/-! ### Where the name of a row stands -/

/-- The fields of the rows that a reader finds in a text. -/
def rowFields {Row : Type} (reader : List Char → Option Row) (field : List Char → List Char)
    (raw : String) : List (List Char) :=
  (lines raw).filterMap fun line => (reader line).map fun _ => field line

/-- The first word of a line. -/
def firstWord (line : List Char) : List Char := (Text.trim line).takeWhile visible

/-- The first word up to its last slash, the last character apart. -/
def archiveName (line : List Char) : List Char :=
  ((line.takeWhile visible).dropLast.rdropWhile (· ≠ '/')).dropLast

/-- The first word up to its first dot, the first character apart. -/
def dottedName (line : List Char) : List Char :=
  line.take 1 ++ (line.drop 1).takeWhile (· ≠ '.')

/-- The second word of a line of `xbps-query -l`. -/
def secondWord (line : List Char) : List Char :=
  ((line.drop 2).dropWhile Text.isBlank).takeWhile visible

theorem headD_splitOnP (p : Char → Bool) (text : List Char) :
    (text.splitOnP p).headD [] = text.takeWhile fun c => !p c := by
  induction text with
  | nil => rfl
  | cons c text ih =>
    rw [List.splitOnP_cons_eq_if_modifyHead]
    by_cases separator : p c
    · simp [separator]
    · obtain ⟨first, rest, split⟩ := List.exists_cons_of_ne_nil (List.splitOnP_ne_nil p text)
      simp only [separator, split] at ih ⊢
      simpa [List.takeWhile_cons, separator] using ih

theorem headD_splitOn (separator : Char) (text : List Char) :
    (text.splitOn separator).headD [] = text.takeWhile (· ≠ separator) := by
  rw [List.splitOn_eq_splitOnP, headD_splitOnP]
  congr 1
  funext c
  by_cases same : c = separator
  · simp [same]
  · simp [same]

theorem headD_splitRuns (separator : Char → Bool) (line : List Char) :
    (splitRuns separator line).headD [] = (Text.trim line).takeWhile fun c => !separator c := by
  rw [← headD_splitOnP]
  unfold splitRuns
  cases (Text.trim line).splitOnP separator with
  | nil => rfl
  | cons first rest => rfl

theorem dpkgRow_name {line : List Char} {row : PkgRow} (read : dpkgRow line = some row) :
    row.name = String.ofList (line.takeWhile (· ≠ '\t')) := by
  rw [← headD_splitOn]
  simp only [dpkgRow] at read
  split at read
  · cases read
  · rw [← Option.some.inj read]
    rfl

theorem rpmRow_name {line : List Char} {row : PkgRow} (read : rpmRow line = some row) :
    row.name = String.ofList (line.takeWhile (· ≠ '\t')) := by
  rw [← headD_splitOn]
  simp only [rpmRow] at read
  split at read
  · cases read
  · rw [← Option.some.inj read]
    rfl

theorem pacmanRow_name {line : List Char} {row : PkgRow} (read : pacmanRow line = some row) :
    row.name = String.ofList (line.takeWhile (· ≠ ' ')) := by
  rw [← headD_splitOn]
  simp only [pacmanRow] at read
  split at read
  · rw [← Option.some.inj read]
    rfl
  · cases read

theorem stateRow_name {separator : Char → Bool} {line : List Char} {row : PkgRow}
    (read : stateRow separator line = some row) :
    row.name = String.ofList ((Text.trim line).takeWhile fun c => !separator c) := by
  rw [← headD_splitRuns]
  simp only [stateRow] at read
  split at read
  · cases read
  · rw [← Option.some.inj read]
    rfl

theorem versionedRow_name {atom : List Char} {row : PkgRow} (read : versionedRow atom = some row) :
    row.name = String.ofList (splitNameVer atom).1 := by
  simp only [versionedRow] at read
  split at read
  · cases read
  · rw [← Option.some.inj read]

theorem apkRow_name {line : List Char} {row : PkgRow} (read : apkRow line = some row) :
    row.name = String.ofList (splitNameVer (Text.trim line)).1 := by
  unfold apkRow at read
  split at read
  · cases read
  · exact versionedRow_name read

theorem apkUpdate_name {line : List Char} {row : UpdateRow} (read : apkUpdate line = some row) :
    row.name = String.ofList (splitNameVer (firstWord line)).1 := by
  have first : (tokens line).headD [] = firstWord line := headD_splitRuns _ _
  simp only [apkUpdate, first] at read
  split at read
  · cases read
  · split at read
    · cases read
    · rw [← Option.some.inj read]

theorem xbpsUpdate_name {line : List Char} {row : UpdateRow} (read : xbpsUpdate line = some row) :
    row.name = String.ofList (splitNameVer (firstWord line)).1 := by
  have first : (tokens line).headD [] = firstWord line := headD_splitRuns _ _
  simp only [xbpsUpdate, first] at read
  split at read
  · cases read
  · split at read
    · cases read
    · rw [← Option.some.inj read]

theorem queueUpdate_name {line : List Char} {row : UpdateRow} (read : queueUpdate line = some row) :
    row.name = String.ofList (firstWord line) := by
  have first : (tokens line).headD [] = firstWord line := headD_splitRuns _ _
  simp only [queueUpdate, first] at read
  split at read
  · cases read
  · rw [← Option.some.inj read]

theorem not_visible {c : Char} (blank : Text.isBlank c) : visible c = false := by
  simp [visible, blank]

theorem pacmanUpdate_name {line : List Char} {row : UpdateRow}
    (read : pacmanUpdate line = some row) :
    row.name = String.ofList (line.takeWhile visible) := by
  obtain ⟨name, rest, split, _, all, after, _⟩ := many1_eq_some read
  have stop : ∀ c ∈ rest.head?, visible c = false :=
    fun c head => not_visible (head_of_many1 after c head)
  rw [(takeWhile_of_split split all stop).1]
  obtain ⟨_, _, _, _, _, after, _⟩ := many1_eq_some after
  obtain ⟨_, _, _, _, _, after, _⟩ := many1_eq_some after
  obtain ⟨_, _, _, _, after, _⟩ := greedyFrom_eq_some after
  obtain ⟨_, _, after⟩ := literal_eq_some after
  obtain ⟨_, _, _, _, after, _⟩ := greedyFrom_eq_some after
  obtain ⟨_, _, _, _, _, after, _⟩ := many1_eq_some after
  rw [← Option.some.inj after]

theorem xbpsRow_name {line : List Char} {row : PkgRow} (read : xbpsRow line = some row) :
    row.name = String.ofList (splitNameVer (secondWord line)).1 := by
  obtain ⟨rest, rfl, after⟩ := literal_eq_some read
  obtain ⟨blanks, rest, rfl, _, blank, after, _⟩ := many1_eq_some after
  have begins := head_of_many1 after
  obtain ⟨atom, rest, rfl, _, all, after, _⟩ := many1_eq_some after
  have stop : ∀ c ∈ rest.head?, visible c = false :=
    fun c head => not_visible (head_of_many1 after c head)
  have second : secondWord ("ii".toList ++ (blanks ++ (atom ++ rest))) = atom := by
    have dropped := (takeWhile_of_split rfl blank fun c head => by
      simpa [visible] using begins c head).2
    have cut : ("ii".toList ++ (blanks ++ (atom ++ rest))).drop 2 = blanks ++ (atom ++ rest) := rfl
    rw [secondWord, cut, dropped, (takeWhile_of_split rfl all stop).1]
  rw [second]
  obtain ⟨_, _, _, _, _, after, _⟩ := many1_eq_some after
  obtain ⟨_, _, _, _, after, _⟩ := greedyFrom_eq_some after
  split at after
  · exact versionedRow_name after
  · cases after

/-- `\s+(\S+)` and what is read after it, in a row of apt. -/
def aptCandidate (name rest : List Char) : Option UpdateRow :=
  many1 Text.isBlank (fun _ rest => many1 visible (fun candidate rest =>
    some { name := String.ofList name, current := String.ofList (upgradedFrom rest),
           candidate := String.ofList candidate }) rest) rest

theorem aptCandidate_eq (name other rest : List Char) :
    aptCandidate name rest =
      (aptCandidate other rest).map ({ · with name := String.ofList name }) := by
  unfold aptCandidate
  rw [← many1_map]
  congr 1
  funext _ rest
  rw [← many1_map]
  rfl

theorem aptCandidate_ends (name : List Char) (c : Char) (rest : List Char) (seen : visible c) :
    aptCandidate name (c :: rest) = none := by
  cases found : aptCandidate name (c :: rest) with
  | none => rfl
  | some row =>
    have blank := head_of_many1 found c rfl
    simp [visible, blank] at seen

theorem rdropWhile_append {front back : List Char} {c : Char} (free : c ∉ back) :
    ((front ++ [c]) ++ back).rdropWhile (· ≠ c) = front ++ [c] := by
  induction back using List.reverseRecOn with
  | nil => rw [List.append_nil, List.rdropWhile_concat_neg _ _ _ (by simp)]
  | append_singleton back d ih =>
    have other : d ≠ c := fun same => free (by simp [same])
    rw [← List.append_assoc, List.rdropWhile_concat_pos _ _ _ (by simpa using other)]
    exact ih fun member => free (List.mem_append_left _ member)

theorem aptUpdate_name {line : List Char} {row : UpdateRow} (read : aptUpdate line = some row) :
    row.name = String.ofList (archiveName line) := by
  unfold aptUpdate at read
  split at read
  · cases read
  obtain ⟨name, rest, rfl, begun, all, after, longest⟩ := many1_eq_some read
  obtain ⟨rest, rfl, after⟩ := literal_eq_some after
  obtain ⟨archive, rest, rfl, begun', all', after, _⟩ := many1_eq_some after
  have candidate : aptCandidate name rest = some row := after
  have stop : ∀ c ∈ rest.head?, visible c = false :=
    fun c head => not_visible (head_of_many1 candidate c head)
  have named : row.name = String.ofList name := by
    obtain ⟨_, _, _, _, _, after, _⟩ := many1_eq_some candidate
    obtain ⟨_, _, _, _, _, after, _⟩ := many1_eq_some after
    rw [← Option.some.inj after]
  obtain ⟨body, final, rfl⟩ : ∃ body final, archive = body ++ [final] :=
    ⟨_, _, (List.dropLast_append_getLast begun').symm⟩
  -- a slash further on, before the last character, would have been taken
  have last : '/' ∉ body := by
    intro inside
    obtain ⟨first, second, rfl⟩ := List.append_of_mem inside
    have firstVisible : ∀ c ∈ '/' :: first, visible c := by
      intro c member
      rcases List.mem_cons.mp member with rfl | member
      · rfl
      · exact all' c (by simp [member])
    have secondVisible : ∀ c ∈ second ++ [final], visible c := by
      intro c member
      refine all' c ?_
      rw [List.append_assoc]
      exact List.mem_append_right _ (List.mem_cons_of_mem _ member)
    have failed := longest ('/' :: first) (['/'] ++ ((second ++ [final]) ++ rest)) (by simp)
      (by simp) firstVisible
    rw [literal_append] at failed
    have found : aptCandidate (name ++ '/' :: first) rest = none := by
      rw [← failed]
      exact (many1_of_ends (aptCandidate_ends _) (by simp) secondVisible stop).symm
    rw [aptCandidate_eq _ name, candidate] at found
    cases found
  have wordVisible : ∀ c ∈ name ++ '/' :: (body ++ [final]), visible c := by
    intro c member
    rcases List.mem_append.mp member with member | member
    · exact all c member
    · rcases List.mem_cons.mp member with rfl | member
      · rfl
      · exact all' c member
  have word : (name ++ (['/'] ++ ((body ++ [final]) ++ rest))).takeWhile visible =
      ((name ++ ['/']) ++ body) ++ [final] := by
    rw [(takeWhile_of_split (by simp) wordVisible stop).1]
    simp
  rw [named, archiveName, word, List.dropLast_concat, rdropWhile_append last, List.dropLast_concat]

/-- `\s+(\S+)\s+(\S+)` in a row of dnf. -/
def rpmCandidate (name rest : List Char) : Option UpdateRow :=
  many1 Text.isBlank (fun _ rest => many1 visible (fun candidate rest =>
    many1 Text.isBlank (fun _ rest => many1 visible (fun _ _ =>
      some { name := String.ofList name, current := "",
             candidate := String.ofList candidate }) rest) rest) rest) rest

theorem rpmCandidate_eq (name other rest : List Char) :
    rpmCandidate name rest =
      (rpmCandidate other rest).map ({ · with name := String.ofList name }) := by
  unfold rpmCandidate
  rw [← many1_map]
  congr 1
  funext _ rest
  rw [← many1_map]
  congr 1
  funext _ rest
  rw [← many1_map]
  congr 1
  funext _ rest
  rw [← many1_map]
  rfl

theorem rpmCandidate_ends (name : List Char) (c : Char) (rest : List Char) (seen : visible c) :
    rpmCandidate name (c :: rest) = none := by
  cases found : rpmCandidate name (c :: rest) with
  | none => rfl
  | some row =>
    have blank := head_of_many1 found c rfl
    simp [visible, blank] at seen

theorem rpmUpdate_name {line : List Char} {row : UpdateRow} (read : rpmUpdate line = some row) :
    row.name = String.ofList (dottedName line) := by
  unfold rpmUpdate at read
  split at read
  · cases read
  obtain ⟨name, rest, rfl, begun, all, after, shortest⟩ := lazyMany1_eq_some read
  obtain ⟨rest, rfl, after⟩ := literal_eq_some after
  obtain ⟨arch, rest, rfl, begun', all', after, _⟩ := many1_eq_some after
  have candidate : rpmCandidate name rest = some row := after
  have stop : ∀ c ∈ rest.head?, visible c = false :=
    fun c head => not_visible (head_of_many1 candidate c head)
  have named : row.name = String.ofList name := by
    obtain ⟨_, _, _, _, _, after, _⟩ := many1_eq_some candidate
    obtain ⟨_, _, _, _, _, after, _⟩ := many1_eq_some after
    obtain ⟨_, _, _, _, _, after, _⟩ := many1_eq_some after
    obtain ⟨_, _, _, _, _, after, _⟩ := many1_eq_some after
    rw [← Option.some.inj after]
  obtain ⟨head, tail, rfl⟩ := List.exists_cons_of_ne_nil begun
  -- an earlier dot, after the first character, would have ended the name
  have first : '.' ∉ tail := by
    intro inside
    obtain ⟨before, later, rfl⟩ := List.append_of_mem inside
    have failed := shortest (head :: before) ('.' :: later) rfl (by simp) (by simp)
    have laterVisible : ∀ c ∈ later ++ '.' :: arch, visible c := by
      intro c member
      rcases List.mem_append.mp member with member | member
      · exact all c (by simp [member])
      · rcases List.mem_cons.mp member with rfl | member
        · rfl
        · exact all' c member
    have found : rpmCandidate (head :: before) rest = none := by
      rw [← failed]
      have split : '.' :: later ++ (['.'] ++ (arch ++ rest)) =
          ['.'] ++ ((later ++ '.' :: arch) ++ rest) := by simp
      rw [split, literal_append]
      exact (many1_of_ends (rpmCandidate_ends _) (by simp) laterVisible stop).symm
    rw [rpmCandidate_eq _ (head :: (before ++ '.' :: later)), candidate] at found
    cases found
  have free : ∀ c ∈ tail, decide (c ≠ '.') := by
    intro c member
    have other : c ≠ '.' := fun same => first (same ▸ member)
    simpa using other
  have body : (tail ++ (['.'] ++ (arch ++ rest))).takeWhile (· ≠ '.') = tail :=
    (takeWhile_of_split rfl free (by simp)).1
  rw [named]
  exact congrArg (fun t => String.ofList (head :: t)) body.symm

/-- Every name of a preview of emerge has a slash. -/
theorem emergeUpdate_name {line : List Char} {row : UpdateRow}
    (read : emergeUpdate line = some row) : '/' ∈ row.name.toList := by
  obtain ⟨⟨atom, current⟩, _, after⟩ := Option.bind_eq_some_iff.mp read
  simp only [atomUpdate] at after
  split at after
  · rw [← Option.some.inj after]
    simp
  · cases after

theorem vdbRow_name (cat pf : String) : '/' ∈ (vdbRow cat pf).name.toList := by
  simp [vdbRow]

/-- A name with a slash is refused. -/
theorem not_ok_of_slash {name : String} (slash : '/' ∈ name.toList) : ¬ pkgNameOk name := by
  intro ok
  exact absurd ((pkgNameOk_iff.mp ok).2.2.1 '/' slash) (by decide)

/-- The name column of the rows of `zypper list-updates`. -/
def nameColumn (raw : String) : List (List Char) :=
  match zypperTable raw ["Name".toList, "Current".toList, "Available".toList] with
  | (none, _) => []
  | (some header, rows) =>
    rows.filterMap fun cols => (zypperUpdate header cols).map fun _ => cols.getD (header.headD 0) []

theorem zypperUpdate_name {header : List ℕ} {cols : List (List Char)} {row : UpdateRow}
    (read : zypperUpdate header cols = some row) :
    row.name = String.ofList (cols.getD (header.headD 0) []) := by
  unfold zypperUpdate at read
  split at read
  · rename_i iName _ _
    split at read
    · rename_i name _ _ here _ _
      split at read
      · cases read
      · rw [← Option.some.inj read, List.headD_cons, List.getD_eq_getElem?_getD, here]
        rfl
    · cases read
  · cases read

/-! ### The fields of a database -/

/-- The name fields of what a manager says is installed. -/
def installedFields (host : Host) : Manager → List (List Char)
  | .pacman => rowFields pacmanRow (·.takeWhile (· ≠ ' ')) (host.run ["pacman", "-Q"]).stdout
  | .emerge => []
  | .lunar =>
    rowFields (stateRow Text.isBlank) firstWord
      (if answered (host.run ["lvu", "installed"]) then (host.run ["lvu", "installed"]).stdout
        else host.readText "/var/state/lunar/packages")
  | .sorcery =>
    if answered (host.run ["gaze", "installed"]) then
      rowFields (stateRow fun c => Text.isBlank c || c = ':')
        (fun line => (Text.trim line).takeWhile fun c => !(Text.isBlank c || c = ':'))
        (host.run ["gaze", "installed"]).stdout
    else rowFields (stateRow Text.isBlank) firstWord (host.readText "/var/state/sorcery/packages")
  | .xbps =>
    rowFields xbpsRow (fun line => (splitNameVer (secondWord line)).1)
      (host.run ["xbps-query", "-l"]).stdout
  | .apk =>
    rowFields apkRow (fun line => (splitNameVer (Text.trim line)).1)
      (host.run ["apk", "info", "-v"]).stdout
  | .zypper | .dnf | .yum =>
    rowFields rpmRow (·.takeWhile (· ≠ '\t')) (host.run rpmQuery).stdout
  | .apt => rowFields dpkgRow (·.takeWhile (· ≠ '\t')) (host.run dpkgQuery).stdout

/-- The name fields of the preview of a manager. -/
def updateFields (host : Host) : Manager → List (List Char)
  | .pacman => rowFields pacmanUpdate (·.takeWhile visible) (host.run ["pacman", "-Qu"]).stdout
  | .emerge | .lunar => []
  | .sorcery => rowFields queueUpdate firstWord (host.run ["sorcery", "queue"]).stdout
  | .xbps =>
    rowFields xbpsUpdate (fun line => (splitNameVer (firstWord line)).1)
      (host.run [XBPS_BIN, "-Sun"]).stdout
  | .apk =>
    rowFields apkUpdate (fun line => (splitNameVer (firstWord line)).1) (apkPreview host).stdout
  | .zypper => nameColumn (host.run ["zypper", "-q", "list-updates"]).stdout
  | .dnf => dottedFields (host.run ["dnf", "-q", "check-update"])
  | .yum => dottedFields (host.run ["yum", "-q", "check-update"])
  | .apt => rowFields aptUpdate archiveName (host.run ["apt", "list", "--upgradable"]).stdout
where
  dottedFields (r : RunResult) : List (List Char) := rowFields rpmUpdate dottedName r.stdout

/-- The database of a manager has no name that the bridge refuses. The names of emerge all have a
category, so there it has no package at all. -/
def PlainDatabase (host : Host) : Manager → Prop
  | .emerge =>
    (∀ cat ∈ (host.readdir EMERGE_PKG_DB).getD [],
      (host.readdir (EMERGE_PKG_DB ++ "/" ++ cat)).getD [] = []) ∧
    ∀ line ∈ lines (host.run ["emerge", "-p", "-u", "-D", "@world"]).stdout,
      ∀ atom ∈ ebuildAtom line, '/' ∉ atom.1
  | m => ∀ field ∈ installedFields host m ++ updateFields host m, pkgNameOk (String.ofList field)

theorem forall_rowFields {Row : Type} {reader : List Char → Option Row} {name : Row → String}
    {field : List Char → List Char}
    (named : ∀ {line row}, reader line = some row → name row = String.ofList (field line))
    (raw : String) :
    (∀ row ∈ (lines raw).filterMap reader, pkgNameOk (name row)) ↔
      ∀ text ∈ rowFields reader field raw, pkgNameOk (String.ofList text) := by
  simp only [rowFields, List.mem_filterMap, Option.map_eq_some_iff]
  constructor
  · rintro ok text ⟨line, member, row, read, rfl⟩
    rw [← named read]
    exact ok row ⟨line, member, read⟩
  · rintro ok row ⟨line, member, read⟩
    rw [named read]
    exact ok _ ⟨line, member, row, read, rfl⟩

/-- An empty output has no rows, whether or not the command failed. -/
theorem rows_of_output {Row : Type} {reader : List Char → Option Row} (blank : reader [] = none)
    (r : RunResult) {failed : Prop} [Decidable failed] (silent : failed → r.stdout = "") :
    (if failed then none else some ((lines r.stdout).filterMap reader)).getD [] =
      (lines r.stdout).filterMap reader := by
  by_cases failure : failed
  · have empty : lines "" = [[]] := rfl
    simp [failure, silent failure, empty, blank]
  · simp [failure]

theorem ok_of_sorted {host : Host} {rows : List PkgRow} :
    (∀ row ∈ sortRows host rows, pkgNameOk row.name) ↔ ∀ row ∈ rows, pkgNameOk row.name := by
  simp only [sortRows, (List.mergeSort_perm rows _).mem_iff]

theorem ok_iff_rows {host : Host} {b : Backend} :
    (∀ name, Reported host b name → pkgNameOk name) ↔
      (∀ row ∈ b.listInstalled host, pkgNameOk row.name) ∧
        ∀ row ∈ updates host b, pkgNameOk row.name := by
  simp only [reported_iff]
  constructor
  · intro ok
    exact ⟨fun row member => ok _ (.inl ⟨row, member, rfl⟩),
      fun row member => ok _ (.inr ⟨row, member, rfl⟩)⟩
  · rintro ⟨installed, updated⟩ name (⟨row, member, rfl⟩ | ⟨row, member, rfl⟩)
    · exact installed row member
    · exact updated row member

theorem stateRow_firstWord {line : List Char} {row : PkgRow}
    (read : stateRow Text.isBlank line = some row) : row.name = String.ofList (firstWord line) :=
  stateRow_name read

theorem installed_iff (host : Host) {m : Manager} (other : m ≠ .emerge) :
    (∀ row ∈ (BACKENDS m).listInstalled host, pkgNameOk row.name) ↔
      ∀ field ∈ installedFields host m, pkgNameOk (String.ofList field) := by
  cases m with
  | emerge => exact absurd rfl other
  | pacman => exact forall_rowFields pacmanRow_name _
  | lunar =>
    rw [installedFields, ← forall_rowFields stateRow_firstWord]
    simp only [BACKENDS, lunarBackend]
    split
    · rfl
    · exact ok_of_sorted
  | sorcery =>
    simp only [BACKENDS, sorceryBackend, installedFields]
    split
    · exact forall_rowFields stateRow_name _
    · rw [ok_of_sorted]
      exact forall_rowFields stateRow_firstWord _
  | xbps => exact ok_of_sorted.trans (forall_rowFields xbpsRow_name _)
  | apk => exact ok_of_sorted.trans (forall_rowFields apkRow_name _)
  | zypper => exact ok_of_sorted.trans (forall_rowFields rpmRow_name _)
  | dnf => exact ok_of_sorted.trans (forall_rowFields rpmRow_name _)
  | yum => exact ok_of_sorted.trans (forall_rowFields rpmRow_name _)
  | apt => exact forall_rowFields dpkgRow_name _

theorem dotted_iff (r : RunResult) :
    (∀ row ∈ (if r.rc ≠ 0 ∧ r.rc ≠ 100 ∧ r.stdout = "" then none
        else some ((lines r.stdout).filterMap rpmUpdate)).getD [], pkgNameOk row.name) ↔
      ∀ field ∈ updateFields.dottedFields r, pkgNameOk (String.ofList field) := by
  rw [rows_of_output (by rfl) r fun failed => failed.2.2]
  exact forall_rowFields rpmUpdate_name _

theorem zypper_iff (r : RunResult) :
    (∀ row ∈ (if r.rc ≠ 0 ∧ r.stdout = "" then none else some (zypperUpdates r.stdout)).getD [],
        pkgNameOk row.name) ↔
      ∀ field ∈ nameColumn r.stdout, pkgNameOk (String.ofList field) := by
  have rows : (if r.rc ≠ 0 ∧ r.stdout = "" then none else some (zypperUpdates r.stdout)).getD [] =
      zypperUpdates r.stdout := by
    by_cases failed : r.rc ≠ 0 ∧ r.stdout = ""
    · rw [if_pos failed, failed.2]
      rfl
    · rw [if_neg failed]
      rfl
  rw [rows]
  unfold zypperUpdates nameColumn
  generalize zypperTable r.stdout ["Name".toList, "Current".toList, "Available".toList] = table
  obtain ⟨header, rows⟩ := table
  cases header with
  | none => exact iff_of_true (fun row member => by cases member) fun field member => by cases member
  | some header =>
    simp only [List.mem_filterMap, Option.map_eq_some_iff]
    constructor
    · rintro ok field ⟨cols, member, row, read, rfl⟩
      rw [← zypperUpdate_name read]
      exact ok row ⟨cols, member, read⟩
    · rintro ok row ⟨cols, member, read⟩
      rw [zypperUpdate_name read]
      exact ok _ ⟨cols, member, row, read, rfl⟩

theorem updates_iff (host : Host) {m : Manager} (other : m ≠ .emerge) :
    (∀ row ∈ updates host (BACKENDS m), pkgNameOk row.name) ↔
      ∀ field ∈ updateFields host m, pkgNameOk (String.ofList field) := by
  cases m with
  | emerge => exact absurd rfl other
  | pacman => exact forall_rowFields pacmanUpdate_name _
  | lunar => exact iff_of_true (fun row member => by cases member) fun field member => by cases member
  | sorcery =>
    simp only [updates, BACKENDS, sorceryBackend]
    rw [rows_of_output (by rfl) _ fun failed => failed.2]
    exact forall_rowFields queueUpdate_name _
  | xbps => exact forall_rowFields xbpsUpdate_name _
  | apk => exact forall_rowFields apkUpdate_name _
  | zypper => exact zypper_iff _
  | dnf => exact dotted_iff _
  | yum => exact dotted_iff _
  | apt =>
    simp only [updates, BACKENDS, aptBackend]
    rw [rows_of_output (by rfl) _ fun failed => failed.2]
    exact forall_rowFields aptUpdate_name _

/-- Every reported package is actionable exactly when the database has only names that the name
check accepts; on emerge, when it has no package. -/
theorem actionable_iff (host : Host) (m : Manager) :
    Actionable host (BACKENDS m) ↔ PlainDatabase host m := by
  rw [actionable_iff_ok, ok_iff_rows]
  by_cases emerge : m = .emerge
  · subst emerge
    refine and_congr ?_ ?_
    · constructor
      · intro ok cat member
        refine List.eq_nil_iff_forall_not_mem.mpr fun pf inside => ?_
        have listed : vdbRow cat pf ∈ emergeBackend.listInstalled host := by
          refine (List.mergeSort_perm _ _).mem_iff.mpr (List.mem_flatMap.mpr ⟨cat, member, ?_⟩)
          exact List.mem_map_of_mem inside
        exact not_ok_of_slash (vdbRow_name cat pf) (ok _ listed)
      · intro empty row listed
        obtain ⟨cat, member, inside⟩ :=
          List.mem_flatMap.mp ((List.mergeSort_perm _ _).mem_iff.mp listed)
        rw [empty cat member] at inside
        cases inside
    · have rows : updates host (BACKENDS .emerge) =
          (lines (host.run ["emerge", "-p", "-u", "-D", "@world"]).stdout).filterMap emergeUpdate :=
        rows_of_output (by rfl) _ fun failed => failed.2
      rw [rows]
      simp only [List.mem_filterMap]
      constructor
      · intro ok line member atom found slash
        obtain ⟨atom, current⟩ := atom
        have update : (atomUpdate atom current).isSome := by
          simp [atomUpdate, slash]
        obtain ⟨row, read⟩ := Option.isSome_iff_exists.mp update
        have read : emergeUpdate line = some row :=
          Option.bind_eq_some_iff.mpr ⟨_, found, read⟩
        exact not_ok_of_slash (emergeUpdate_name read) (ok row ⟨line, member, read⟩)
      · rintro free row ⟨line, member, read⟩
        obtain ⟨⟨atom, current⟩, found, after⟩ := Option.bind_eq_some_iff.mp read
        have noSlash := free line member _ found
        simp [atomUpdate, noSlash] at after
  · rw [installed_iff host emerge, updates_iff host emerge]
    have plain : PlainDatabase host m ↔
        ∀ field ∈ installedFields host m ++ updateFields host m, pkgNameOk (String.ofList field) := by
      cases m with
      | emerge => exact absurd rfl emerge
      | _ => rfl
    rw [plain, List.forall_mem_append]

/-- A Gentoo host with gcc installed. -/
def gentooHost : Host where
  run _ := ⟨0, ""⟩
  readText _ := ""
  readdir dir :=
    if dir = EMERGE_PKG_DB then some ["sys-devel"]
    else if dir = EMERGE_PKG_DB ++ "/sys-devel" then some ["gcc-13.2.1"] else none
  root := true
  passwordlessSudo := false
  localeCompare a b := decide (a ≤ b)
  toLowerCase text := text
  lowerCase_empty := rfl

/-- The packages of a Gentoo host are reported and refused. -/
theorem gentoo_not_actionable : ¬ Actionable gentooHost (BACKENDS .emerge) := by
  intro actionable
  have reported : Reported gentooHost (BACKENDS .emerge) "sys-devel/gcc" := by
    refine reported_iff.mpr (.inl ⟨vdbRow "sys-devel" "gcc-13.2.1", ?_, by rfl⟩)
    refine (List.mergeSort_perm _ _).mem_iff.mpr (List.mem_flatMap.mpr ⟨"sys-devel", ?_, ?_⟩)
    · exact List.mem_singleton.mpr rfl
    · exact List.mem_singleton.mpr rfl
  exact not_ok_of_slash (by simp) (actionable.accepted _ reported).1

end SysDeck.Web.Packages
