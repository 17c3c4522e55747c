import SysDeck.Cockpit.PackageFiles
import SysDeck.Library.Lines
import SysDeck.Library.Strip

/-! The names of a package list: what the builder reads of the lines that it writes. -/

namespace SysDeck.Cockpit.PackageFiles

open Scan
open Lines (OneLine)
open Packages (isSpace lineEnd splitlines strip split joinReturns)

/-! ### Lines -/

theorem space_of_lineEnd {c : Char} (ends : lineEnd c) : isSpace c := by
  simp only [lineEnd, isSpace, Bool.or_eq_true, Bool.and_eq_true, decide_eq_true_eq] at ends ⊢
  omega

theorem joinReturns_of_none {text : List Char} (none : '\r' ∉ text) : joinReturns text = text := by
  induction text with
  | nil => rfl
  | cons c rest ih =>
    rw [joinReturns, ih (List.not_mem_of_not_mem_cons none)]
    rintro rest' rfl
    simp at none

theorem universal_of_none {text : List Char} (none : '\r' ∉ text) : universal text = text := by
  induction text with
  | nil => rfl
  | cons c rest ih =>
    have other : c ≠ '\r' := by
      rintro rfl
      simp at none
    rw [universal, ih (List.not_mem_of_not_mem_cons none)]
    · rintro rest' rfl
      exact absurd rfl other
    · exact other

theorem return_not_mem_universal (text : List Char) : '\r' ∉ universal text := by
  fun_induction universal text with
  | case1 rest ih => simp [ih]
  | case2 rest _ ih => simp [ih]
  | case3 c rest _ other ih => simp [ih, Ne.symm other]
  | case4 => simp

theorem return_not_mem_of_oneLine {line : List Char} (one : OneLine lineEnd line) : '\r' ∉ line :=
  fun member => absurd (one _ member) (by decide)

/-- Lines, each with a newline after it. -/
def unlines (lines : List (List Char)) : List Char := (lines.map fun line => line ++ ['\n']).flatten

theorem return_not_mem_unlines {lines : List (List Char)} (one : ∀ line ∈ lines, OneLine lineEnd line) :
    '\r' ∉ unlines lines := by
  intro member
  obtain ⟨part, inside, member⟩ := List.mem_flatten.mp member
  obtain ⟨line, present, rfl⟩ := List.mem_map.mp inside
  rcases List.mem_append.mp member with member | member
  · exact return_not_mem_of_oneLine (one line present) member
  · simp at member

theorem splitOnP_unlines {lines : List (List Char)} (one : ∀ line ∈ lines, OneLine lineEnd line) :
    (unlines lines).splitOnP lineEnd = lines ++ [[]] := by
  induction lines with
  | nil => rfl
  | cons line rest ih =>
    have later := ih fun other member => one other (List.mem_cons_of_mem _ member)
    rw [unlines] at later ⊢
    rw [List.map_cons, List.flatten_cons, List.append_assoc, List.singleton_append,
      List.splitOnP_append_cons_of_forall_mem (one line List.mem_cons_self) '\n' rfl, later]
    rfl

theorem splitlines_unlines {lines : List (List Char)} (one : ∀ line ∈ lines, OneLine lineEnd line) :
    splitlines (String.ofList (unlines lines)) = lines := by
  rw [splitlines, String.toList_ofList, joinReturns_of_none (return_not_mem_unlines one),
    splitOnP_unlines one]
  simp

theorem oneLine_of_mem_splitlines {raw : String} {line : List Char} (part : line ∈ splitlines raw) :
    OneLine lineEnd line := by
  rw [splitlines] at part
  split at part
  · exact Lines.oneLine_of_mem_splitOnP (List.mem_of_mem_dropLast part)
  · exact Lines.oneLine_of_mem_splitOnP part

theorem OneLine.of_infix {first second : List Char} (one : OneLine lineEnd second)
    (inside : first <:+: second) : OneLine lineEnd first :=
  fun c member => one c (inside.subset member)

/-! ### Names -/

/-- A name that a line can hold as it is. -/
structure Clean (name : Name) : Prop where
  begun : name ≠ []
  oneLine : OneLine lineEnd name
  noHash : '#' ∉ name
  tight : strip name = name

/-- A list without repeats of names that a line can hold. -/
structure Listed (names : List Name) : Prop where
  nodup : names.Nodup
  clean : ∀ name ∈ names, Clean name

theorem Listed.nil : Listed [] := ⟨List.nodup_nil, by simp⟩

theorem Listed.addNew {names : List Name} (listed : Listed names) {name : Name} (clean : Clean name) :
    Listed (addNew names name) := by
  rw [PackageFiles.addNew]
  split
  · exact listed
  · next fresh =>
    refine ⟨?_, ?_⟩
    · rw [List.nodup_append]
      refine ⟨listed.nodup, by simp, ?_⟩
      intro first member second same
      obtain rfl := List.mem_singleton.mp same
      rintro rfl
      exact fresh member
    · intro other member
      rcases List.mem_append.mp member with member | member
      · exact listed.clean other member
      · rw [List.mem_singleton.mp member]
        exact clean

theorem Listed.merge {names packages : List Name} (listed : Listed names)
    (clean : ∀ name ∈ packages, Clean name) : Listed (packages.foldl PackageFiles.addNew names) := by
  induction packages generalizing names with
  | nil => exact listed
  | cons name rest ih =>
    exact ih (listed.addNew (clean name List.mem_cons_self)) fun other member =>
      clean other (List.mem_cons_of_mem _ member)

theorem Listed.final {mode : Mode} {existing packages : List Name} (listed : Listed existing)
    (listed' : Listed packages) : Listed (final mode existing packages) := by
  cases mode with
  | append => exact listed.merge listed'.clean
  | replace => exact listed'

/-- Names that are new and all different are added as they are. -/
theorem foldl_addNew {names packages : List Name} (fresh : (names ++ packages).Nodup) :
    packages.foldl addNew names = names ++ packages := by
  induction packages generalizing names with
  | nil => simp
  | cons name rest ih =>
    have absent : name ∉ names := by
      intro member
      rw [List.nodup_append] at fresh
      exact fresh.2.2 name member name List.mem_cons_self rfl
    have whole : names ++ name :: rest = (names ++ [name]) ++ rest := by simp
    rw [whole] at fresh
    rw [List.foldl_cons, addNew, if_neg absent, ih fresh, whole]

/-- What a list keeps of a line. -/
def lineName (line : List Char) : Name := strip (line.takeWhile (· ≠ '#'))

theorem namesOf_eq (text : List Char) :
    namesOf text = (splitlines (String.ofList text)).foldl (fun out line => addName out (lineName line)) [] :=
  rfl

theorem lineName_clean {line : List Char} (one : OneLine lineEnd line) (begun : lineName line ≠ []) :
    Clean (lineName line) := by
  have inside : lineName line <:+: line.takeWhile (· ≠ '#') := Strip.stripBy_infix _
  refine ⟨begun, ?_, ?_, Strip.stripBy_stripBy _⟩
  · exact OneLine.of_infix one (inside.trans (List.takeWhile_prefix _).isInfix)
  · intro member
    simpa using List.mem_takeWhile_imp (inside.subset member)

theorem namesOf_listed (text : List Char) : Listed (namesOf text) := by
  have all {lines : List (List Char)} (one : ∀ line ∈ lines, OneLine lineEnd line) {out : List Name}
      (listed : Listed out) : Listed (lines.foldl (fun out line => addName out (lineName line)) out) := by
    induction lines generalizing out with
    | nil => exact listed
    | cons line rest ih =>
      refine ih (fun other member => one other (List.mem_cons_of_mem _ member)) ?_
      change Listed (addName out (lineName line))
      rw [addName]
      split
      · exact listed
      · next begun => exact listed.addNew (lineName_clean (one line List.mem_cons_self) begun)
  exact all (fun line member => oneLine_of_mem_splitlines member) Listed.nil

theorem lineName_of_clean {name : Name} (clean : Clean name) : lineName name = name := by
  have whole : name.takeWhile (· ≠ '#') = name := by
    rw [List.takeWhile_eq_self_iff]
    intro c member
    simpa using fun (same : c = '#') => clean.noHash (same ▸ member)
  rw [lineName, whole, clean.tight]

/-- Lines without a name, and then names. -/
theorem foldl_lineName {comments names : List (List Char)} (none : ∀ line ∈ comments, lineName line = [])
    (listed : Listed names) :
    (comments ++ names).foldl (fun out line => addName out (lineName line)) [] = names := by
  have passed (out : List Name) :
      comments.foldl (fun out line => addName out (lineName line)) out = out := by
    induction comments with
    | nil => rfl
    | cons line rest ih =>
      rw [List.foldl_cons, none line List.mem_cons_self, addName, if_pos rfl]
      exact ih fun other member => none other (List.mem_cons_of_mem _ member)
  have added {names : List Name} (clean : ∀ name ∈ names, Clean name) (out : List Name) :
      names.foldl (fun out line => addName out (lineName line)) out = names.foldl addNew out := by
    induction names generalizing out with
    | nil => rfl
    | cons name rest ih =>
      have first := clean name List.mem_cons_self
      rw [List.foldl_cons, lineName_of_clean first, addName, if_neg first.begun, List.foldl_cons]
      exact ih (fun other member => clean other (List.mem_cons_of_mem _ member)) _
  rw [List.foldl_append, passed, added listed.clean, foldl_addNew (by simpa using listed.nodup)]
  rfl

/-- A written list is read back. -/
theorem namesOf_unlines {comments names : List (List Char)} (none : ∀ line ∈ comments, lineName line = [])
    (one : ∀ line ∈ comments, OneLine lineEnd line) (listed : Listed names) :
    namesOf (unlines (comments ++ names)) = names := by
  have lines : ∀ line ∈ comments ++ names, OneLine lineEnd line := by
    intro line member
    rcases List.mem_append.mp member with member | member
    · exact one line member
    · exact (listed.clean line member).oneLine
  rw [namesOf_eq, splitlines_unlines lines, foldl_lineName none listed]

theorem readText_unlines {lines : List (List Char)} (one : ∀ line ∈ lines, OneLine lineEnd line) :
    readText (some (unlines lines)) = unlines lines :=
  universal_of_none (return_not_mem_unlines one)

/-! ### The lists of archiso and live-build -/

theorem lineName_of_comment {line : List Char} (comment : (strip line).head? = some '#') :
    lineName line = [] := by
  obtain ⟨back, whole⟩ := List.rdropWhile_prefix isSpace (line.dropWhile isSpace)
  have split := List.takeWhile_append_dropWhile (p := isSpace) (l := line)
  have head : (line.dropWhile isSpace).head? = some '#' := by
    have begun : strip line ≠ [] := by
      intro empty
      simp [empty] at comment
    rw [← whole]
    exact (List.head?_append_of_ne_nil _ begun).trans comment
  have noHash : ∀ c ∈ line.takeWhile isSpace, decide (c ≠ '#') = true := by
    intro c member
    have blank := List.mem_takeWhile_imp member
    refine decide_eq_true ?_
    rintro rfl
    exact absurd blank (by decide)
  have cut := (takeWhile_of_split (p := fun c => decide (c ≠ '#')) split.symm noHash (by
    intro c first
    rw [head] at first
    simpa using (Option.some.inj first).symm)).1
  rw [lineName, cut]
  exact Strip.stripBy_eq_nil_iff.mpr fun c => List.mem_takeWhile_imp

theorem freshList_eq (packages : List Name) :
    freshList packages =
      unlines (["# Package list (written by sysdeck-builder v0.0.49)".toList] ++ packages) := by
  have cut : "# Package list (written by sysdeck-builder v0.0.49)\n".toList =
      "# Package list (written by sysdeck-builder v0.0.49)".toList ++ ['\n'] := by rfl
  unfold freshList unlines
  rw [cut]
  generalize "# Package list (written by sysdeck-builder v0.0.49)".toList = comment
  simp

theorem fresh_comment : ∀ line ∈ ["# Package list (written by sysdeck-builder v0.0.49)".toList],
    lineName line = [] ∧ OneLine lineEnd line := by
  have comment : (strip "# Package list (written by sysdeck-builder v0.0.49)".toList).head? =
      some '#' := by rfl
  have one : ("# Package list (written by sysdeck-builder v0.0.49)".toList.all fun c => !lineEnd c) =
      true := by rfl
  exact List.forall_mem_singleton.mpr
    ⟨lineName_of_comment comment, fun c member => by simpa using List.all_eq_true.mp one c member⟩

/-- A list that is written afresh is read back. -/
theorem namesOf_freshList {packages : List Name} (listed : Listed packages) :
    namesOf (readText (some (freshList packages))) = packages := by
  have none := fun line member => (fresh_comment line member).1
  have one := fun line member => (fresh_comment line member).2
  rw [freshList_eq, readText_unlines, namesOf_unlines none one listed]
  intro line member
  rcases List.mem_append.mp member with member | member
  · exact one line member
  · exact (listed.clean line member).oneLine

theorem mem_headerLines {existing line : List Char} (member : line ∈ headerLines existing) :
    lineName line = [] ∧ OneLine lineEnd line := by
  have comments {line : List Char} (inside : line ∈ (splitlines (String.ofList existing)).takeWhile
      fun line => (strip line).head? = some '#') : lineName line = [] ∧ OneLine lineEnd line := by
    refine ⟨lineName_of_comment ?_, oneLine_of_mem_splitlines ((List.takeWhile_prefix _).subset inside)⟩
    simpa using List.mem_takeWhile_imp inside
  rw [headerLines] at member
  split at member
  · rcases List.mem_append.mp member with member | member
    · exact comments member
    · rw [List.mem_singleton.mp member]
      exact ⟨rfl, by simp [OneLine]⟩
  · exact comments member

theorem joinLines_eq {lines : List (List Char)} (begun : lines ≠ []) : joinLines lines = unlines lines := by
  induction lines with
  | nil => exact absurd rfl begun
  | cons line rest ih =>
    cases rest with
    | nil => simp [joinLines, unlines]
    | cons next rest =>
      have later := ih (by simp)
      rw [joinLines] at later ⊢
      rw [List.intercalate_cons_cons, List.append_assoc, later]
      simp [unlines]

/-- A list that is appended to is read back with the names that were added. -/
theorem namesOf_writeArchiso (mode : Mode) (existing : List Char) {packages : List Name}
    (listed : Listed packages) :
    namesOf (readText (some (writeArchiso mode existing packages))) = packages := by
  cases mode with
  | replace => exact namesOf_freshList listed
  | append =>
    have none := fun line (member : line ∈ headerLines existing) => (mem_headerLines member).1
    have one := fun line (member : line ∈ headerLines existing) => (mem_headerLines member).2
    rw [writeArchiso]
    by_cases empty : headerLines existing ++ packages = []
    · obtain ⟨-, rfl⟩ := List.append_eq_nil_iff.mp empty
      rw [empty]
      rfl
    · rw [joinLines_eq empty, readText_unlines, namesOf_unlines none one listed]
      intro line member
      rcases List.mem_append.mp member with member | member
      · exact one line member
      · exact (listed.clean line member).oneLine

end SysDeck.Cockpit.PackageFiles
