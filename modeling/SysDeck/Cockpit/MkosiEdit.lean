import SysDeck.Cockpit.MkosiPackages
import SysDeck.Cockpit.PackageAgreement

/-! What a write of the package list leaves of the other sections of an mkosi configuration. -/

namespace SysDeck.Cockpit.PackageFiles

open Scan
open Lines (OneLine)
open Packages (isSpace lineEnd splitlines strip split)

/-! ### Sections -/

/-- A header and the lines up to the next one; what is before the first header has none. -/
structure Section where
  header : Option (List Char)
  body : List (List Char)
  deriving DecidableEq

/-- The sections of lines, the first of them begun. -/
def sectionsFrom (current : Section) : List (List Char) → List Section
  | [] => [current]
  | line :: rest =>
    if header (chomp line) then current :: sectionsFrom ⟨some line, []⟩ rest
    else sectionsFrom { current with body := current.body ++ [line] } rest

def sections (text : List Char) : List Section := sectionsFrom ⟨none, []⟩ (keepends text)

/-- A `[Packages]` section, its lines replaced by one. -/
def Section.rewritten (value : List Char) (section_ : Section) : Section :=
  if section_.header = some headLine then { section_ with body := [value] } else section_

theorem eq_headLine_iff {line : List Char} (kept : keptHeader line) :
    strip line = "[Packages]".toList ↔ line = headLine := by
  constructor
  · intro packages
    obtain ⟨body, whole⟩ := keptHeader_cases kept
    have chomped := (header_of_kept kept).2.symm.trans packages
    have cut : line = ('[' :: body ++ [']']) ++ ['\n'] := by
      rw [whole]
      simp
    rw [cut, chomp_ended rfl] at chomped
    rw [cut, chomped]
    rfl
  · rintro rfl
    exact (header_of_kept kept).2.trans chomp_headLine

/-- The rewriting of lines is that of their sections. -/
theorem sectionsFrom_spread {value : List Char} (plain : header (chomp value) = false) {lines : List (List Char)}
    (headers : ∀ line ∈ lines, header (chomp line) → keptHeader line) {inSection : Bool} {old : Section}
    (open_ : inSection = true ↔ old.header = some headLine) :
    sectionsFrom (old.rewritten value) (spread value inSection lines) =
      (sectionsFrom old lines).map (Section.rewritten value) := by
  induction lines generalizing inSection old with
  | nil => rfl
  | cons line rest ih =>
    have later := fun other member => headers other (List.mem_cons_of_mem _ member)
    rw [spread, sectionsFrom]
    by_cases kept : keptHeader line
    · obtain ⟨isHeader, -⟩ := header_of_kept kept
      rw [if_pos kept, if_pos isHeader, List.map_cons]
      by_cases packages : strip line = "[Packages]".toList
      · obtain rfl := (eq_headLine_iff kept).mp packages
        have next := @ih later true ⟨some headLine, []⟩ (iff_of_true rfl rfl)
        rw [Section.rewritten, if_pos rfl] at next
        rw [if_pos packages, sectionsFrom, if_pos isHeader, sectionsFrom, if_neg (by simp [plain])]
        exact congrArg _ next
      · have other : line ≠ headLine := mt (eq_headLine_iff kept).mpr packages
        have next := @ih later false ⟨some line, []⟩ (iff_of_false Bool.false_ne_true (by simpa using other))
        rw [Section.rewritten, if_neg (by simpa using other)] at next
        rw [if_neg packages, sectionsFrom, if_pos isHeader]
        exact congrArg _ next
    · have notHeader : ¬header (chomp line) := fun isHeader => kept (headers line List.mem_cons_self isHeader)
      rw [if_neg kept, if_neg notHeader]
      cases inSection with
      | true =>
        have inside := open_.mp rfl
        have next := @ih later true { old with body := old.body ++ [line] } open_
        rw [if_pos rfl, ← next, Section.rewritten, Section.rewritten, if_pos inside, if_pos inside]
      | false =>
        have outside : ¬old.header = some headLine := fun inside => Bool.false_ne_true (open_.mpr inside)
        have next := @ih later false { old with body := old.body ++ [line] } open_
        rw [Section.rewritten, if_neg outside] at next
        rw [if_neg Bool.false_ne_true, sectionsFrom, if_neg notHeader, Section.rewritten, if_neg outside]
        exact next

theorem sectionsFrom_append_header (current : Section) (lines rest : List (List Char)) {line : List Char}
    (isHeader : header (chomp line)) :
    sectionsFrom current (lines ++ line :: rest) =
      sectionsFrom current lines ++ sectionsFrom ⟨some line, []⟩ rest := by
  induction lines generalizing current with
  | nil => exact if_pos isHeader
  | cons first lines ih =>
    rw [List.cons_append, sectionsFrom, sectionsFrom]
    split
    · rw [ih, List.cons_append]
    · exact ih _

/-! ### Names without ends of lines -/

theorem oneLine_of_mem_split {line name : List Char} (one : OneLine lineEnd line) (member : name ∈ split line) :
    OneLine lineEnd name := fun c inside =>
  one c (Packages.mem_of_mem_splitOnP (List.mem_of_mem_filter member) inside)

theorem oneLine_addName {names : List Name} (all : ∀ name ∈ names, OneLine lineEnd name) {name : Name}
    (one : OneLine lineEnd name) : ∀ other ∈ addName names name, OneLine lineEnd other := by
  unfold addName addNew
  split
  · exact all
  · split
    · exact all
    · intro other member
      rcases List.mem_append.mp member with inside | last
      · exact all other inside
      · rw [List.mem_singleton.mp last]
        exact one

theorem oneLine_foldl_addName {names found : List Name} (all : ∀ name ∈ found, OneLine lineEnd name)
    (all' : ∀ name ∈ names, OneLine lineEnd name) : ∀ name ∈ names.foldl addName found, OneLine lineEnd name := by
  induction names generalizing found with
  | nil => exact all
  | cons name names ih =>
    exact ih (oneLine_addName all (all' name List.mem_cons_self)) fun other member =>
      all' other (List.mem_cons_of_mem _ member)

theorem oneLine_read {reader : Reader} (all : ∀ name ∈ reader.found, OneLine lineEnd name) {line : List Char}
    (one : OneLine lineEnd line) : ∀ name ∈ (reader.read line).found, OneLine lineEnd name := by
  have stripped (text : List Char) (part : text <:+: line) : OneLine lineEnd (strip text) :=
    OneLine.of_infix one ((Strip.stripBy_infix text).trans part)
  have value : (line.dropWhile (· ≠ '=')).drop 1 <:+: line :=
    ((List.drop_suffix _ _).trans (List.dropWhile_suffix _)).isInfix
  unfold Reader.read
  split
  · exact all
  · split
    · exact oneLine_foldl_addName all fun name member =>
        oneLine_of_mem_split (stripped _ value) member
    · split
      · split
        · exact all
        · exact oneLine_addName all (stripped line List.infix_rfl)
      · exact all

theorem oneLine_mkosiPackages (text : List Char) : ∀ name ∈ mkosiPackages text, OneLine lineEnd name := by
  unfold mkosiPackages
  split
  · have run (lines : List (List Char)) (all : ∀ line ∈ lines, OneLine lineEnd line) (reader : Reader)
        (found : ∀ name ∈ reader.found, OneLine lineEnd name) :
        ∀ name ∈ (lines.foldl Reader.read reader).found, OneLine lineEnd name := by
      induction lines generalizing reader with
      | nil => exact found
      | cons line lines ih =>
        exact ih (fun other member => all other (List.mem_cons_of_mem _ member)) _
          (oneLine_read found (all line List.mem_cons_self))
    exact run _ (fun line member => oneLine_of_mem_splitlines member) _ fun name member =>
      absurd member List.not_mem_nil
  · exact fun name member => absurd member List.not_mem_nil

theorem oneLine_final {mode : Mode} {existing packages : List Name}
    (all : ∀ name ∈ existing, OneLine lineEnd name) (all' : ∀ name ∈ packages, OneLine lineEnd name) :
    ∀ name ∈ final mode existing packages, OneLine lineEnd name := by
  cases mode with
  | replace => exact all'
  | append =>
    have added (packages : List Name) (all' : ∀ name ∈ packages, OneLine lineEnd name) (out : List Name)
        (all : ∀ name ∈ out, OneLine lineEnd name) :
        ∀ name ∈ packages.foldl addNew out, OneLine lineEnd name := by
      induction packages generalizing out with
      | nil => exact all
      | cons name packages ih =>
        refine ih (fun other member => all' other (List.mem_cons_of_mem _ member)) _ ?_
        unfold addNew
        split
        · exact all
        · intro other member
          rcases List.mem_append.mp member with inside | last
          · exact all other inside
          · rw [List.mem_singleton.mp last]
            exact all' name List.mem_cons_self
    exact added packages all' existing all

theorem oneLine_valueLine {names : List Name} (all : ∀ name ∈ names, OneLine lineEnd name) :
    OneLine lineEnd (valueLine names) := by
  have key : OneLine lineEnd "Packages=".toList := by
    rw [key_chars]
    exact forall_of_all (by decide)
  refine key.append ?_
  induction names with
  | nil => exact fun c member => absurd member List.not_mem_nil
  | cons name names ih =>
    have later := ih fun other member => all other (List.mem_cons_of_mem _ member)
    have first := all name List.mem_cons_self
    cases names with
    | nil => simpa [List.intercalate] using first
    | cons second others =>
      rw [List.intercalate_cons_cons]
      exact (first.append (List.forall_mem_singleton.mpr (by decide))).append later

theorem ended_value {names : List Name} (all : ∀ name ∈ names, OneLine lineEnd name) :
    Ended (valueLine names ++ ['\n']) := ⟨valueLine names, '\n', rfl, oneLine_valueLine all, rfl⟩

/-! ### What is written -/

/-- Every section stays but `[Packages]`, of which all lines give way to one; where it is absent it is
added. -/
theorem writeMkosi_sections {existing : List Char} {names : List Name}
    (headers : ∀ line ∈ keepends existing, header (chomp line) → keptHeader line)
    (all : ∀ name ∈ names, OneLine lineEnd name) :
    (headLine ∈ keepends existing → sections (writeMkosi existing names) =
        (sections existing).map (Section.rewritten (valueLine names ++ ['\n']))) ∧
      (¬"[Packages]".toList <:+: existing → sections (writeMkosi existing names) =
        sections (existing.rdropWhile (· = '\n') ++ "\n\n".toList) ++
          [⟨some headLine, [valueLine names ++ ['\n']]⟩]) := by
  have plain : header (chomp (valueLine names ++ ['\n'])) = false := by
    rw [chomp_ended rfl]
    exact header_valueLine names
  have ended := ended_value all
  constructor
  · intro present
    obtain ⟨cut, whole⟩ := keepends_spec existing
    have inside : "[Packages]".toList <:+: existing := by
      rw [← whole]
      exact infix_of_headLine present
    have written : writeMkosi existing names =
        (spread (valueLine names ++ ['\n']) false (keepends existing)).flatten := by
      unfold writeMkosi
      rw [if_pos inside, section_eq, flatten_rewrite]
    rw [written, sections, keepends_flatten (segments_spread ended cut false)]
    have outside : false = true ↔ (none : Option (List Char)) = some headLine :=
      iff_of_false Bool.false_ne_true (Option.some_ne_none _).symm
    exact @sectionsFrom_spread _ plain _ headers false ⟨none, []⟩ outside
  · intro absent
    have front : existing.rdropWhile (· = '\n') ++ "\n\n".toList =
        (existing.rdropWhile (· = '\n') ++ ['\n']) ++ ['\n'] := (List.append_assoc _ ['\n'] ['\n']).symm
    have written : writeMkosi existing names = ((existing.rdropWhile (· = '\n') ++ ['\n']) ++ ['\n']) ++
        (headLine ++ (valueLine names ++ ['\n'])) := by
      unfold writeMkosi
      rw [if_neg absent, section_eq, front]
    rw [written, front, sections, sections]
    generalize existing.rdropWhile (· = '\n') ++ ['\n'] = trimmed
    have cut : ∀ line ∈ keepends (trimmed ++ ['\n']), Ended line := fun line member =>
      (mem_keepends_newline member).1
    have single : keepends (headLine ++ (valueLine names ++ ['\n'])) = [headLine, valueLine names ++ ['\n']] := by
      have segments : Segments [headLine, valueLine names ++ ['\n']] :=
        segments_of_ended (by simp [ended_headLine, ended])
      simpa using keepends_flatten segments
    have lines := keepends_append cut (headLine ++ (valueLine names ++ ['\n']))
    rw [(keepends_spec (trimmed ++ ['\n'])).2, single] at lines
    rw [lines, sectionsFrom_append_header _ _ _ (header_of_kept kept_headLine).1, sectionsFrom,
      if_neg (by simp [plain])]
    rfl

/-- The same of the writer, for the list that it writes. -/
theorem mkosi_edit_keeps_sections (profile : Profile) (mode : Mode) (packagesText : String)
    (headers : ∀ line ∈ keepends (readText profile.file), header (chomp line) → keptHeader line) :
    ∃ text, (writeNames .mkosi mode profile (parsePackagesText packagesText)).2 =
        { profile with file := some text } ∧
      let line := valueLine (final mode (mkosiPackages (readText profile.file)) (parsePackagesText packagesText)) ++ ['\n']
      (headLine ∈ keepends (readText profile.file) →
        sections text = (sections (readText profile.file)).map (Section.rewritten line)) ∧
      (¬"[Packages]".toList <:+: readText profile.file →
        sections text = sections ((readText profile.file).rdropWhile (· = '\n') ++ "\n\n".toList) ++
          [⟨some headLine, [line]⟩]) :=
  ⟨_, rfl, writeMkosi_sections headers (oneLine_final (oneLine_mkosiPackages _) fun name member =>
    ((namesOf_listed _).clean name member).oneLine)⟩

def documented : Profile where
  path := "/etc/mkosi/profiles/p/mkosi.conf"
  isDir := false
  file := some "[Packages]\n# keep\nPackages=a\nWithDocs=yes\n[Output]\n".toList
  lists _ := none

theorem an_edit_keeps_the_output_section :
    ∃ text, (writeNames .mkosi .append documented (parsePackagesText "b")).2 =
        { documented with file := some text } ∧
      let line := valueLine (final .append (mkosiPackages (readText documented.file)) (parsePackagesText "b")) ++ ['\n']
      (headLine ∈ keepends (readText documented.file) →
        sections text = (sections (readText documented.file)).map (Section.rewritten line)) ∧
      (¬"[Packages]".toList <:+: readText documented.file →
        sections text = sections ((readText documented.file).rdropWhile (· = '\n') ++ "\n\n".toList) ++
          [⟨some headLine, [line]⟩]) :=
  mkosi_edit_keeps_sections documented .append "b" (by decide)

theorem an_edit_drops_the_other_keys :
    readText documented.file = "[Packages]\n# keep\nPackages=a\nWithDocs=yes\n[Output]\n".toList ∧
      (writeNames .mkosi .append documented (parsePackagesText "b")).2.file =
        some "[Packages]\nPackages=a b\n[Output]\n".toList := by
  decide

end SysDeck.Cockpit.PackageFiles
