import SysDeck.Library.Execution
import SysDeck.Cockpit.PackageText
import SysDeck.Cockpit.Themes

/-! Edits of `cockpit.conf` against the settings of its text, edit after edit. -/

namespace SysDeck.Cockpit.Themes

open Lines (OneLine)
open Strip (stripBy)
open Packages (isSpace lineEnd splitlines strip)
open PackageFiles (unlines splitlines_unlines oneLine_of_mem_splitlines)

/-! ### What a text sets -/

/-- The assignments of the lines below a header, oldest first. -/
def assignments : Text → List Line → List ((Text × Text) × Text)
  | _, [] => []
  | _, .header name :: rest => assignments name rest
  | name, .pair key value :: rest =>
    if name = [] then assignments name rest else ((name, key), value) :: assignments name rest
  | name, .skipped :: rest => assignments name rest

def readLines (text : String) : List Line := (splitlines text).map readLine

/-- The last value that a text gives to a key of a section. -/
def setting (text : String) (name key : Text) : Option Text :=
  (assignments [] (readLines text)).reverse.lookup (name, key)

/-- The sections that a text has a header of. -/
def Opened (text : String) (name : Text) : Prop := .header name ∈ readLines text

def Sections.value (sections : Sections) (name key : Text) : Option Text :=
  (sections.find? name).bind (·.find? key)

/-! ### The edits -/

inductive Edit where
  | set (name key value : Text)
  | unset (name key : Text)

def Edit.apply (text : String) : Edit → Reply × String
  | .set name key value => cmdSet text [name, key, value]
  | .unset name key => cmdUnset text [name, key]

def Edit.step (text : String) (edit : Edit) : String := (edit.apply text).2

def Edit.Accepted (text : String) : Edit → Prop
  | .set name key value => (cmdSet text [name, key, value]).1 = .done name key value
  | .unset name key => (cmdUnset text [name, key]).1 = .unset name key

/-- The section and the key of an edit. -/
def Edit.target : Edit → Text × Text
  | .set name key _ => (name, key)
  | .unset name key => (name, key)

/-- The value that an edit leaves at its target. -/
def Edit.result : Edit → Option Text
  | .set _ _ value => some value
  | .unset _ _ => none

/-- An accepted edit leaves its result at its target and every other setting of the text, and
opens no section but its own; what was set is read back. -/
structure Exact (before : String) (edit : Edit) (after : String) : Prop where
  settings : edit.Accepted before → ∀ name key, (parseConf after).value name key =
    if (name, key) = edit.target then edit.result else setting before name key
  reads : edit.Accepted before → ∀ value ∈ edit.result,
    cmdGet after [edit.target.1, edit.target.2] = .value edit.target.1 edit.target.2 value
  opens : edit.Accepted before → ∀ name, (parseConf after).contains name →
    Opened before name ∨ edit.result ≠ none ∧ name = edit.target.1
  keeps : edit.Accepted before → ∀ name, Opened before name → name ≠ edit.target.1 →
    (parseConf after).contains name

/-! ### What a line holds -/

/-- A section name that a header line can hold. -/
structure Name (name : Text) : Prop where
  begun : name ≠ []
  closed : ']' ∉ name
  oneLine : OneLine lineEnd name

structure Key (key : Text) : Prop where
  begun : key ≠ []
  solid : ∀ c ∈ key, c ≠ '=' ∧ isSpace c = false
  plain : ∀ c ∈ key.head?, c ≠ '#' ∧ c ≠ ';'

structure Value (value : Text) : Prop where
  tight : strip value = value
  oneLine : OneLine lineEnd value

/-- No pair is written as a line that is read as a header. -/
def Storable (sections : Sections) : Prop :=
  ∀ name key value, sections.value name key = some value → sectionName (pairLine key value) = none

/-- The target and the value can be written, and so can every other pair of the file; no other
setting was lost to a later header of the same section. -/
structure Edit.Allowed (text : String) (edit : Edit) : Prop where
  written : edit.Accepted text → ∀ value ∈ edit.result,
    Name edit.target.1 ∧ Key edit.target.2 ∧ Value value
  storable : edit.Accepted text → ∀ name key value, (name, key) ≠ edit.target →
    (parseConf text).value name key = some value → sectionName (pairLine key value) = none
  target : edit.Accepted text → ∀ value ∈ edit.result,
    sectionName (pairLine edit.target.2 value) = none
  whole : edit.Accepted text → ∀ name key, (name, key) ≠ edit.target →
    setting text name key = (parseConf text).value name key

theorem Name.read {name : Text} (valid : Name name) : readLine (headerLine name) = .header name := by
  obtain ⟨begun, closed, -⟩ := valid
  have visible : isSpace '[' = false := by decide
  have front : (headerLine name).dropWhile isSpace = headerLine name := by
    simp [headerLine, visible]
  have stripped : (strip (headerLine name)).isEmpty = false := by
    rw [strip, front, headerLine]
    simp only [List.isEmpty_eq_false_iff, ne_eq, List.rdropWhile_eq_nil_iff]
    intro all
    exact absurd (all '[' (by simp)) (by decide)
  have comment : isComment (headerLine name) = false := by
    rw [isComment, front]
    rfl
  have section_ : sectionName (headerLine name) = some name := by
    cases name with
    | nil => exact absurd rfl begun
    | cons c rest =>
      have cut : (c :: rest ++ [']']).span (· ≠ ']') = (c :: rest, [']']) := by
        rw [List.span_eq_takeWhile_dropWhile, List.takeWhile_append_of_pos, List.dropWhile_append_of_pos]
        · simp
        all_goals
          intro d member
          simp only [ne_eq, decide_eq_true_eq]
          rintro rfl
          exact closed member
      simp only [headerLine, sectionName, List.cons_append] at cut ⊢
      rw [cut]
      rfl
  simp [readLine, stripped, comment, section_]

/-- A visible character at the front of a line. -/
theorem dropWhile_key {key rest : Text} (valid : Key key) :
    (key ++ rest).dropWhile isSpace = key ++ rest := by
  cases key with
  | nil => exact absurd rfl valid.begun
  | cons c key => exact List.dropWhile_cons_of_neg (by simp [(valid.solid c List.mem_cons_self).2])

theorem keyValue_pairLine {key value : Text} (valid : Key key) (tight : strip value = value) :
    keyValue (pairLine key value) = some (key, value) := by
  have inside : ∀ c ∈ key, (c ≠ '=' && !isSpace c) = true := fun c member => by
    simp [valid.solid c member]
  have cut : (key ++ (" = ".toList ++ value)).span (fun c => c ≠ '=' && !isSpace c) =
      (key, ' ' :: '=' :: ' ' :: value) := by
    have stops : isSpace ' ' = true := by decide
    rw [List.span_eq_takeWhile_dropWhile, List.takeWhile_append_of_pos inside,
      List.dropWhile_append_of_pos inside]
    simp [stops]
  have blank : strip (' ' :: value) = value := by
    have one : (' ' :: value).dropWhile isSpace = value.dropWhile isSpace :=
      List.dropWhile_cons_of_pos (by decide)
    rw [strip, one, ← strip, tight]
  have gap : (' ' :: '=' :: ' ' :: value).dropWhile isSpace = '=' :: ' ' :: value := by
    rw [List.dropWhile_cons_of_pos (by decide), List.dropWhile_cons_of_neg (by decide)]
  cases key with
  | nil => exact absurd rfl valid.begun
  | cons c key =>
    rw [keyValue, pairLine, List.append_assoc, dropWhile_key valid, cut]
    simp only [gap, blank]

/-- A pair is read as itself, unless its line is a header. -/
theorem read_pairLine {key value : Text} (valid : Key key) (tight : strip value = value) :
    readLine (pairLine key value) =
      match sectionName (pairLine key value) with
      | some name => .header name
      | none => .pair key value := by
  have front : (pairLine key value).dropWhile isSpace = pairLine key value := by
    rw [pairLine, List.append_assoc, dropWhile_key valid]
  have stripped : (strip (pairLine key value)).isEmpty = false := by
    rw [strip, front]
    simp only [List.isEmpty_eq_false_iff, ne_eq, List.rdropWhile_eq_nil_iff]
    intro all
    exact absurd (all '=' (by simp [pairLine])) (by decide)
  have comment : isComment (pairLine key value) = false := by
    rw [isComment, front]
    cases key with
    | nil => exact absurd rfl valid.begun
    | cons c key =>
      obtain ⟨noHash, noSemicolon⟩ := valid.plain c rfl
      simp [pairLine, noHash, noSemicolon]
  rw [readLine, stripped, comment, keyValue_pairLine valid tight]
  rfl

theorem name_of_sectionName {line name : Text} (one : OneLine lineEnd line)
    (found : sectionName line = some name) : Name name := by
  unfold sectionName at found
  split at found
  · rename_i rest
    split at found
    · rename_i c inner d after cut
      split at found
      · obtain rfl := Option.some.inj found
        rw [List.span_eq_takeWhile_dropWhile] at cut
        obtain ⟨front, back⟩ := Prod.mk.inj cut
        refine ⟨by simp, ?_, ?_⟩
        · intro member
          rw [← front] at member
          simpa using List.mem_takeWhile_imp member
        · rw [← front]
          exact PackageFiles.OneLine.of_infix one
            ((List.takeWhile_prefix _).isInfix.trans (List.suffix_cons _ _).isInfix)
      · cases found
    · cases found
  · cases found

theorem pair_of_keyValue {line key value : Text} (one : OneLine lineEnd line)
    (notComment : isComment line = false) (found : keyValue line = some (key, value)) :
    Key key ∧ Value value := by
  unfold keyValue at found
  split at found
  · rename_i c inner rest cut
    split at found
    · rename_i text gap
      obtain ⟨rfl, rfl⟩ := Prod.mk.inj (Option.some.inj found)
      rw [List.span_eq_takeWhile_dropWhile] at cut
      obtain ⟨front, back⟩ := Prod.mk.inj cut
      have begins : (line.dropWhile isSpace).head? = some c := by
        have prefix_ := List.takeWhile_prefix (l := line.dropWhile isSpace)
          (fun c => c ≠ '=' && !isSpace c)
        rw [front] at prefix_
        obtain ⟨after, whole⟩ := prefix_
        rw [← whole]
        rfl
      refine ⟨⟨by simp, ?_, ?_⟩, Strip.stripBy_stripBy _, ?_⟩
      · intro d member
        rw [← front] at member
        simpa using List.mem_takeWhile_imp member
      · intro d head
        obtain rfl : c = d := by simpa using head
        rw [isComment] at notComment
        cases visible : line.dropWhile isSpace with
        | nil =>
          rw [visible] at begins
          cases begins
        | cons e after =>
          rw [visible] at begins notComment
          obtain rfl := Option.some.inj begins
          simpa using notComment
      · have inside : '=' :: text <:+ line := by
          rw [← gap, ← back]
          exact ((List.dropWhile_suffix _).trans (List.dropWhile_suffix _)).trans
            (List.dropWhile_suffix _)
        exact PackageFiles.OneLine.of_infix one ((Strip.stripBy_infix text).trans
          ((List.suffix_cons _ _).trans inside).isInfix)
    · cases found
  · cases found

/-- What a line is read as can be written again. -/
theorem readLine_valid {line : Text} (one : OneLine lineEnd line) :
    (∀ name, readLine line = .header name → Name name) ∧
      ∀ key value, readLine line = .pair key value → Key key ∧ Value value := by
  unfold readLine
  split
  · exact ⟨fun _ same => (by cases same), fun _ _ same => (by cases same)⟩
  · rename_i notSkipped
    have notComment : isComment line = false := by
      simp only [Bool.or_eq_true, not_or, Bool.not_eq_true] at notSkipped
      exact notSkipped.2
    split
    · rename_i name found
      refine ⟨fun other same => ?_, fun _ _ same => (by cases same)⟩
      obtain rfl := Line.header.inj same
      exact name_of_sectionName one found
    · split
      · rename_i key value found
        refine ⟨fun _ same => (by cases same), fun key' value' same => ?_⟩
        obtain ⟨rfl, rfl⟩ := Line.pair.inj same
        exact pair_of_keyValue one notComment found
      · exact ⟨fun _ same => (by cases same), fun _ _ same => (by cases same)⟩

/-! ### The parser's maps -/

theorem value_set (sections : Sections) (name : Text) (keys : Keys) (name' key' : Text) :
    Sections.value (sections.set name keys) name' key' =
      if name' = name then keys.find? key' else sections.value name' key' := by
  unfold Sections.value
  rw [OrderedMap.find?_set]
  split <;> rfl

/-- A value of the parser is the last assignment of the lines read so far. -/
def Sound (parsing : Parsing) (done : List ((Text × Text) × Text)) : Prop :=
  ∀ name key value, parsing.close.value name key = some value →
    done.reverse.lookup (name, key) = some value

theorem lookup_reverse_concat (done : List ((Text × Text) × Text)) (entry : (Text × Text) × Text)
    (target : Text × Text) : (done ++ [entry]).reverse.lookup target =
      if target = entry.1 then some entry.2 else done.reverse.lookup target := by
  obtain ⟨key, value⟩ := entry
  rw [List.reverse_append, List.reverse_singleton, List.singleton_append, List.lookup_cons]
  by_cases same : target = key
  · simp [same]
  · rw [beq_eq_false_iff_ne.mpr same, if_neg same]

theorem Sound.foldl {lines : List Line} {parsing : Parsing} {done : List ((Text × Text) × Text)}
    (sound : Sound parsing done) :
    Sound (lines.foldl Parsing.take parsing) (done ++ assignments parsing.currentName lines) := by
  induction lines generalizing parsing done with
  | nil => simpa [assignments] using sound
  | cons line rest ih =>
    rw [List.foldl_cons]
    cases line with
    | skipped => exact ih sound
    | header name =>
      have begun : Sound ⟨parsing.close, name, .empty⟩ done := ?_
      · exact ih begun
      intro other key value found
      refine sound other key value ?_
      by_cases none : name = []
      · simpa [Parsing.close, none] using found
      · simp only [Parsing.close, none, if_false] at found ⊢
        rw [value_set] at found
        split at found
        · cases found
        · exact found
    | pair key value =>
      by_cases none : parsing.currentName = []
      · simpa [Parsing.take, assignments, none] using ih sound
      · have kept : Sound (parsing.take (.pair key value))
            (done ++ [((parsing.currentName, key), value)]) := by
          intro name' key' value' found
          have before := sound name' key' value'
          rw [lookup_reverse_concat]
          simp only [Parsing.take, Parsing.close, none, if_false, value_set] at found before
          by_cases here : name' = parsing.currentName
          · rw [if_pos here, OrderedMap.find?_set] at found
            by_cases same : key' = key
            · simpa [here, same] using found
            · rw [if_neg same] at found
              simp only [here, if_true] at before ⊢
              simpa [same] using before found
          · rw [if_neg here] at found
            simp only [here, if_false] at before
            simpa [here] using before found
        have after := ih kept
        simp only [Parsing.take, none, if_false] at after ⊢
        simpa [assignments, none] using after

/-- Nothing is parsed that the text does not set last. -/
theorem setting_of_value {text : String} {name key value : Text}
    (found : (parseConf text).value name key = some value) : setting text name key = some value := by
  have start : Sound .start [] := by
    intro name key value found
    cases found
  have final := start.foldl name key value found
  rwa [List.nil_append] at final

theorem mem_assignments {lines : List Line} {name : Text} {target : Text × Text} {value : Text}
    (member : (target, value) ∈ assignments name lines) :
    .pair target.2 value ∈ lines ∧ (target.1 = name ∧ name ≠ [] ∨ .header target.1 ∈ lines) := by
  induction lines generalizing name with
  | nil => cases member
  | cons line rest ih =>
    cases line with
    | skipped =>
      obtain ⟨pair, opened⟩ := ih member
      exact ⟨List.mem_cons_of_mem _ pair, opened.imp_right (List.mem_cons_of_mem _)⟩
    | header other =>
      obtain ⟨pair, opened⟩ := ih member
      refine ⟨List.mem_cons_of_mem _ pair, .inr ?_⟩
      rcases opened with ⟨rfl, -⟩ | opened
      · exact List.mem_cons_self
      · exact List.mem_cons_of_mem _ opened
    | pair key value' =>
      rw [assignments] at member
      split at member
      · obtain ⟨pair, opened⟩ := ih member
        exact ⟨List.mem_cons_of_mem _ pair, opened.imp_right (List.mem_cons_of_mem _)⟩
      · rename_i named
        rcases List.mem_cons.mp member with same | member
        · obtain ⟨rfl, rfl⟩ := Prod.mk.inj same
          exact ⟨List.mem_cons_self, .inl ⟨rfl, named⟩⟩
        · obtain ⟨pair, opened⟩ := ih member
          exact ⟨List.mem_cons_of_mem _ pair, opened.imp_right (List.mem_cons_of_mem _)⟩

/-- A parsed value has its line, and its section a header. -/
theorem lines_of_value {text : String} {name key value : Text}
    (found : (parseConf text).value name key = some value) :
    .pair key value ∈ readLines text ∧ Opened text name := by
  obtain ⟨newer, older, whole, -⟩ := List.lookup_eq_some_iff.mp (setting_of_value found)
  have member : ((name, key), value) ∈ assignments [] (readLines text) := by
    rw [← List.mem_reverse, whole]
    simp
  obtain ⟨pair, ⟨-, absent⟩ | opened⟩ := mem_assignments member
  · exact absurd rfl absent
  · exact ⟨pair, opened⟩

theorem valid_of_value {text : String} {name key value : Text}
    (found : (parseConf text).value name key = some value) : Key key ∧ Value value := by
  obtain ⟨line, present, read⟩ := List.mem_map.mp (lines_of_value found).1
  exact (readLine_valid (oneLine_of_mem_splitlines present)).2 key value read

theorem name_of_opened {text : String} {name : Text} (opened : Opened text name) : Name name := by
  obtain ⟨line, present, read⟩ := List.mem_map.mp opened
  exact (readLine_valid (oneLine_of_mem_splitlines present)).1 name read

theorem contains_set {sections : Sections} {name other : Text} {keys : Keys} :
    (sections.set name keys).contains other ↔ other = name ∨ sections.contains other := by
  rw [OrderedMap.contains, OrderedMap.find?_set]
  split
  · next same => simp [same]
  · next apart => simp [apart, OrderedMap.contains]

theorem contains_foldl {lines : List Line} {parsing : Parsing} {name : Text}
    (named : ∀ other, .header other ∈ lines → other ≠ []) :
    (lines.foldl Parsing.take parsing).close.contains name ↔
      parsing.close.contains name ∨ .header name ∈ lines := by
  induction lines generalizing parsing with
  | nil => simp
  | cons line rest ih =>
    rw [List.foldl_cons, ih fun other member => named other (List.mem_cons_of_mem _ member),
      List.mem_cons]
    cases line with
    | skipped => simp [Parsing.take]
    | header other =>
      have next : (parsing.take (.header other)).close.contains name ↔
          name = other ∨ parsing.close.contains name := by
        rw [Parsing.take, Parsing.close, if_neg (named other List.mem_cons_self), contains_set]
      rw [next, Line.header.injEq]
      tauto
    | pair key value =>
      have next : (parsing.take (.pair key value)).close.contains name ↔
          parsing.close.contains name := by
        by_cases none : parsing.currentName = []
        · simp [Parsing.take, none]
        · simp only [Parsing.take, Parsing.close, none, if_false, contains_set]
      simp [next]

/-- The parsed sections are those that the text opens. -/
theorem contains_parseConf_iff {text : String} {name : Text} :
    (parseConf text).contains name ↔ Opened text name := by
  have named : ∀ other, .header other ∈ readLines text → other ≠ [] := fun other opened =>
    (name_of_opened opened).begun
  rw [parseConf, ← readLines, contains_foldl named]
  simp [Parsing.start, Parsing.close, OrderedMap.contains, OrderedMap.find?, OrderedMap.empty, Opened]

/-! ### What is written is read back -/

theorem foldl_pairs {pairs : List (Text × Text)} {parsing : Parsing} (named : parsing.currentName ≠ []) :
    (pairs.map fun pair => Line.pair pair.1 pair.2).foldl Parsing.take parsing =
      { parsing with
        current := pairs.foldl (fun keys pair => keys.set pair.1 pair.2) parsing.current } := by
  induction pairs generalizing parsing with
  | nil => rfl
  | cons pair rest ih =>
    rw [List.map_cons, List.foldl_cons, List.foldl_cons, ih]
    · simp [Parsing.take, named]
    · simp [Parsing.take, named]

/-- The sections that can be written: their names, and the pairs in them. -/
structure Writable (sections : Sections) : Prop where
  names : ∀ name, sections.contains name → Name name
  pairs : ∀ name key value, sections.value name key = some value → Key key ∧ Value value
  plain : Storable sections

theorem foldl_section {name : Text} {keys : Keys} (valid : Name name)
    (pairs : ∀ pair ∈ keys.entries, readLine (pairLine pair.1 pair.2) = .pair pair.1 pair.2)
    (parsing : Parsing) :
    ((sectionLines name keys).map readLine).foldl Parsing.take parsing = ⟨parsing.close, name, keys⟩ := by
  have blank : readLine [] = .skipped := by decide
  have body : (keys.entries.map fun pair => pairLine pair.1 pair.2).map readLine =
      keys.entries.map fun pair => .pair pair.1 pair.2 := by
    rw [List.map_map]
    exact List.map_congr_left pairs
  rw [sectionLines, List.map_cons, List.map_cons, blank, valid.read, body, List.foldl_cons,
    List.foldl_cons, foldl_pairs valid.begun]
  exact congrArg (Parsing.mk _ _) (OrderedMap.ofList_entries keys)

theorem value_of_entries {sections : Sections} {name : Text} {keys : Keys} {pair : Text × Text}
    (entry : (name, keys) ∈ sections.entries) (member : pair ∈ keys.entries) :
    sections.value name pair.1 = some pair.2 := by
  rw [Sections.value, OrderedMap.find?_eq_some_iff.mpr entry, Option.bind_some]
  exact OrderedMap.find?_eq_some_iff.mpr member

theorem Writable.readPair {sections : Sections} (writable : Writable sections) {name : Text}
    {keys : Keys} {pair : Text × Text} (entry : (name, keys) ∈ sections.entries)
    (member : pair ∈ keys.entries) :
    readLine (pairLine pair.1 pair.2) = .pair pair.1 pair.2 := by
  have stored := value_of_entries entry member
  obtain ⟨key, value⟩ := writable.pairs name pair.1 pair.2 stored
  rw [read_pairLine key value.tight, writable.plain name pair.1 pair.2 stored]

def fileLines (sections : Sections) : List Text :=
  headComment :: sections.entries.flatMap fun entry => sectionLines entry.1 entry.2

theorem foldl_sections {entries : List (Text × Keys)} (parsing : Parsing)
    (names : ∀ entry ∈ entries, Name entry.1)
    (pairs : ∀ entry ∈ entries, ∀ pair ∈ entry.2.entries,
      readLine (pairLine pair.1 pair.2) = .pair pair.1 pair.2) :
    (((entries.flatMap fun entry => sectionLines entry.1 entry.2).map readLine).foldl Parsing.take
      parsing).close = entries.foldl (fun sections entry => sections.set entry.1 entry.2) parsing.close := by
  induction entries generalizing parsing with
  | nil => rfl
  | cons entry rest ih =>
    rw [List.flatMap_cons, List.map_append, List.foldl_append,
      foldl_section (names entry List.mem_cons_self) (pairs entry List.mem_cons_self),
      ih _ (fun other member => names other (List.mem_cons_of_mem _ member))
        (fun other member => pairs other (List.mem_cons_of_mem _ member)), List.foldl_cons]
    rw [Parsing.close, if_neg (names entry List.mem_cons_self).begun]

theorem intercalate_concat (lines : List Text) :
    ['\n'].intercalate (lines ++ [[]]) = unlines lines := by
  induction lines with
  | nil => rfl
  | cons line rest ih =>
    have more : rest ++ [[]] ≠ ([] : List Text) := by simp
    obtain ⟨next, later, whole⟩ := List.exists_cons_of_ne_nil more
    rw [List.cons_append, whole, List.intercalate_cons_cons, ← whole, ih]
    simp [unlines]

theorem serializeConf_eq (sections : Sections) :
    serializeConf sections = String.ofList (unlines (fileLines sections)) := by
  rw [serializeConf, intercalate_concat, fileLines]

theorem oneLine_fileLines {sections : Sections} (names : ∀ name, sections.contains name → Name name)
    (pairs : ∀ name key value, sections.value name key = some value → Key key ∧ Value value) :
    ∀ line ∈ fileLines sections, OneLine lineEnd line := by
  have comment : OneLine lineEnd headComment := OneLine.literal (by rfl)
  have opening : OneLine lineEnd ['['] := List.forall_mem_singleton.mpr rfl
  have closing : OneLine lineEnd [']'] := List.forall_mem_singleton.mpr rfl
  have equals : OneLine lineEnd " = ".toList := OneLine.literal (by decide)
  intro line member
  rcases List.mem_cons.mp member with rfl | member
  · exact comment
  · obtain ⟨entry, listed, member⟩ := List.mem_flatMap.mp member
    rcases List.mem_cons.mp member with rfl | member
    · exact List.forall_mem_nil _
    rcases List.mem_cons.mp member with rfl | member
    · have name := names entry.1 (by
        rw [OrderedMap.contains, OrderedMap.find?_eq_some_iff.mpr (show (entry.1, entry.2) ∈ _ from listed)]
        rfl)
      exact opening.append (name.oneLine.append closing)
    · obtain ⟨pair, inside, rfl⟩ := List.mem_map.mp member
      obtain ⟨key, value⟩ := pairs entry.1 pair.1 pair.2 (value_of_entries listed inside)
      have keyLine : OneLine lineEnd pair.1 := by
        intro c present
        by_contra ends
        have blank := PackageFiles.space_of_lineEnd (Bool.not_eq_false _ ▸ ends)
        rw [(key.solid c present).2] at blank
        cases blank
      exact (keyLine.append equals).append value.oneLine

theorem read_headComment : readLine headComment = .skipped := by
  rfl

/-- The written file holds the sections. -/
theorem parseConf_serializeConf {sections : Sections} (writable : Writable sections) :
    parseConf (serializeConf sections) = sections := by
  have all : ∀ entry ∈ sections.entries, (entry.1, entry.2) ∈ sections.entries := fun _ member => member
  rw [serializeConf_eq, parseConf,
    splitlines_unlines (oneLine_fileLines writable.names writable.pairs), fileLines, List.map_cons,
    read_headComment, List.foldl_cons]
  have names : ∀ entry ∈ sections.entries, Name entry.1 := fun entry member =>
    writable.names entry.1 (by
      rw [OrderedMap.contains, OrderedMap.find?_eq_some_iff.mpr (all entry member)]
      rfl)
  rw [Parsing.take, foldl_sections _ names fun entry member pair => writable.readPair (all entry member)]
  exact OrderedMap.ofList_entries sections

/-- A pair that is found in the written file was not written as a header. -/
theorem plain_of_found {sections : Sections} (names : ∀ name, sections.contains name → Name name)
    (pairs : ∀ name key value, sections.value name key = some value → Key key ∧ Value value)
    {name key value : Text} (found : (parseConf (serializeConf sections)).value name key = some value) :
    sectionName (pairLine key value) = none := by
  obtain ⟨line, present, read⟩ := List.mem_map.mp (lines_of_value found).1
  rw [serializeConf_eq, splitlines_unlines (oneLine_fileLines names pairs)] at present
  rcases List.mem_cons.mp present with rfl | present
  · rw [read_headComment] at read
    cases read
  · obtain ⟨entry, listed, present⟩ := List.mem_flatMap.mp present
    rcases List.mem_cons.mp present with rfl | present
    · cases read
    rcases List.mem_cons.mp present with rfl | present
    · have named := names entry.1 (by
        rw [OrderedMap.contains, OrderedMap.find?_eq_some_iff.mpr (show (entry.1, entry.2) ∈ _ from listed)]
        rfl)
      rw [named.read] at read
      cases read
    · obtain ⟨pair, inside, rfl⟩ := List.mem_map.mp present
      obtain ⟨validKey, validValue⟩ := pairs entry.1 pair.1 pair.2 (value_of_entries listed inside)
      rw [read_pairLine validKey validValue.tight] at read
      split at read
      · cases read
      · next none =>
        obtain ⟨rfl, rfl⟩ := Line.pair.inj read
        exact none
/-! ### One edit -/

theorem cmdGet_of_value {text : String} {name key value : Text}
    (found : (parseConf text).value name key = some value) :
    cmdGet text [name, key] = .value name key value := by
  obtain ⟨keys, opened, stored⟩ := Option.bind_eq_some_iff.mp found
  simp [cmdGet, opened, stored]

theorem value_setKey (sections : Sections) (name key value name' key' : Text) :
    (setKey sections name key value).value name' key' =
      if (name', key') = (name, key) then some value else sections.value name' key' := by
  rw [setKey, value_set]
  by_cases here : name' = name
  · subst here
    rw [if_pos rfl, OrderedMap.find?_set]
    by_cases same : key' = key
    · simp [same]
    · cases found : sections.find? name' with
      | none =>
        simp only [OrderedMap.getD, Sections.value, found, same, if_false, Prod.mk.injEq, and_false,
          Option.getD_none, Option.bind_none]
        rfl
      | some keys => simp [same, OrderedMap.getD, Sections.value, found]
  · simp [here]

theorem value_unsetKey {sections : Sections} {name key : Text} {keys : Keys}
    (found : sections.find? name = some keys) (name' key' : Text) :
    (unsetKey sections name key keys).value name' key' =
      if (name', key') = (name, key) then none else sections.value name' key' := by
  have rest : (keys.erase key).find? key' = if key' = key then none else keys.find? key' :=
    OrderedMap.find?_erase keys key key'
  by_cases here : name' = name
  · subst here
    have old : sections.value name' key' = keys.find? key' := by simp [Sections.value, found]
    rw [unsetKey, old]
    split
    · next empty =>
      have gone : (keys.erase key).find? key' = none := by
        simp [OrderedMap.find?, List.isEmpty_iff.mp empty]
      rw [rest] at gone
      simpa [Sections.value, OrderedMap.find?_erase] using gone.symm
    · rw [value_set, if_pos rfl, rest]
      simp
  · have apart : (name', key') ≠ (name, key) := fun same => here (congrArg Prod.fst same)
    rw [unsetKey, if_neg apart]
    split
    · simp [Sections.value, OrderedMap.find?_erase, here]
    · rw [value_set, if_neg here]

/-- What an edit leaves in the sections that it has parsed. -/
structure Edited (edit : Edit) (before after : Sections) : Prop where
  value : ∀ name key, after.value name key =
    if (name, key) = edit.target then edit.result else before.value name key
  opens : ∀ name, after.contains name →
    before.contains name ∨ edit.result ≠ none ∧ name = edit.target.1
  keeps : ∀ name, before.contains name → name ≠ edit.target.1 → after.contains name

theorem edited_of_accepted {text : String} {edit : Edit} (accepted : edit.Accepted text) :
    ∃ sections, edit.step text = serializeConf sections ∧ Edited edit (parseConf text) sections := by
  cases edit with
  | set name key value =>
    refine ⟨setKey (parseConf text) name key value, ?_, value_setKey _ _ _ _, ?_, ?_⟩
    · simp only [Edit.Accepted, Edit.step, Edit.apply, cmdSet] at accepted ⊢
      split at accepted
      · cases accepted
      split at accepted
      · cases accepted
      · next fine noEquals => rw [if_neg fine, if_neg noEquals]
    · intro other member
      rw [setKey, contains_set] at member
      exact member.elim (fun same => .inr ⟨by simp [Edit.result], same⟩) .inl
    · intro other member _
      rw [setKey, contains_set]
      exact .inr member
  | unset name key =>
    simp only [Edit.Accepted, cmdUnset] at accepted
    split at accepted
    · cases accepted
    · next keys found =>
      split at accepted
      · next present =>
        refine ⟨unsetKey (parseConf text) name key keys, ?_, value_unsetKey found, ?_, ?_⟩
        · simp [Edit.step, Edit.apply, cmdUnset, found, present]
        · intro other member
          rw [unsetKey] at member
          split at member
          · rw [OrderedMap.contains, OrderedMap.find?_erase] at member
            split at member
            · cases member
            · exact .inl member
          · rcases contains_set.mp member with rfl | member
            · exact .inl (by rw [OrderedMap.contains, found]; rfl)
            · exact .inl member
        · intro other member apart
          rw [unsetKey]
          split
          · have other' : other ≠ name := apart
            rw [OrderedMap.contains, OrderedMap.find?_erase, if_neg other']
            exact member
          · exact contains_set.mpr (.inr member)
      · cases accepted

theorem name_of_contains {text : String} {name : Text} (member : (parseConf text).contains name) :
    Name name := name_of_opened (contains_parseConf_iff.mp member)

/-- An edit is exact just when it is allowed. -/
theorem exact_iff_allowed (text : String) (edit : Edit) :
    Exact text edit (edit.step text) ↔ edit.Allowed text := by
  by_cases accepted : edit.Accepted text
  · obtain ⟨sections, stored, edited⟩ := edited_of_accepted accepted
    have names (written : ∀ value ∈ edit.result,
        Name edit.target.1 ∧ Key edit.target.2 ∧ Value value) :
        ∀ name, sections.contains name → Name name := by
      intro name member
      rcases edited.opens name member with old | ⟨given, rfl⟩
      · exact name_of_contains old
      · obtain ⟨value, result⟩ := Option.ne_none_iff_exists'.mp given
        exact (written value result).1
    have pairs (written : ∀ value ∈ edit.result,
        Name edit.target.1 ∧ Key edit.target.2 ∧ Value value) :
        ∀ name key value, sections.value name key = some value → Key key ∧ Value value := by
      intro name key value found
      rw [edited.value] at found
      split at found
      · next same =>
        obtain rfl : key = edit.target.2 := congrArg Prod.snd same
        exact (written value found).2
      · exact valid_of_value found
    rw [stored]
    constructor
    · intro exact_
      have settings := exact_.settings accepted
      have atTarget : ∀ value ∈ edit.result,
          (parseConf (serializeConf sections)).value edit.target.1 edit.target.2 = some value :=
        fun value given => by rw [settings, if_pos rfl, given]
      have written : ∀ value ∈ edit.result,
          Name edit.target.1 ∧ Key edit.target.2 ∧ Value value := fun value given =>
        ⟨name_of_opened (lines_of_value (atTarget value given)).2, valid_of_value (atTarget value given)⟩
      have storable : ∀ name key value, (name, key) ≠ edit.target →
          (parseConf text).value name key = some value → sectionName (pairLine key value) = none := by
        intro name key value apart found
        have reread : (parseConf (serializeConf sections)).value name key = some value := by
          rw [settings, if_neg apart, setting_of_value found]
        exact plain_of_found (names written) (pairs written) reread
      have target : ∀ value ∈ edit.result, sectionName (pairLine edit.target.2 value) = none :=
        fun value given => plain_of_found (names written) (pairs written) (atTarget value given)
      have plain : Storable sections := by
        intro name key value found
        rw [edited.value] at found
        split at found
        · next same =>
          obtain rfl : key = edit.target.2 := congrArg Prod.snd same
          exact target value found
        · next apart => exact storable name key value apart found
      refine ⟨fun _ => written, fun _ => storable, fun _ => target, fun _ name key apart => ?_⟩
      have final := settings name key
      rw [if_neg apart, parseConf_serializeConf ⟨names written, pairs written, plain⟩, edited.value,
        if_neg apart] at final
      exact final.symm
    · intro allowed
      have written := allowed.written accepted
      have plain : Storable sections := by
        intro name key value found
        rw [edited.value] at found
        split at found
        · next same =>
          obtain rfl : key = edit.target.2 := congrArg Prod.snd same
          exact allowed.target accepted value found
        · next apart => exact allowed.storable accepted name key value apart found
      have parsed := parseConf_serializeConf ⟨names written, pairs written, plain⟩
      have settings : ∀ name key, (parseConf (serializeConf sections)).value name key =
          if (name, key) = edit.target then edit.result else setting text name key := by
        intro name key
        rw [parsed, edited.value]
        split
        · rfl
        · next apart => exact (allowed.whole accepted name key apart).symm
      refine ⟨fun _ => settings, fun _ value given => ?_, fun _ name member => ?_,
        fun _ name opened apart => ?_⟩
      · exact cmdGet_of_value (by rw [settings, if_pos rfl, given])
      · rw [parsed] at member
        exact (edited.opens name member).imp_left contains_parseConf_iff.mp
      · rw [parsed]
        exact edited.keeps name (contains_parseConf_iff.mpr opened) apart
  · exact iff_of_true
      ⟨fun yes => absurd yes accepted, fun yes => absurd yes accepted, fun yes => absurd yes accepted,
        fun yes => absurd yes accepted⟩
      ⟨fun yes => absurd yes accepted, fun yes => absurd yes accepted, fun yes => absurd yes accepted,
        fun yes => absurd yes accepted⟩

/-! ### Edit after edit -/

/-- All edits of a text are exact just when each is allowed on the text that it finds. -/
theorem edits_exact_iff (text : String) (edits : List Edit) :
    (∀ before edit after, edits = before ++ edit :: after →
      Exact (Execution.run Edit.step text before) edit
        (Execution.run Edit.step text (before ++ [edit]))) ↔
      Execution.Along Edit.step (fun text edit => edit.Allowed text) text edits :=
  @Execution.each_iff_along _ _ Edit.step (fun _ => True) Exact _
    (fun text edit _ => exact_iff_allowed text edit) (fun _ _ _ _ => trivial) text trivial edits

/-- A key of a section that has two headers is lost by an edit of another section, and a value is
read back without its blanks. -/
theorem edit_inexact :
    (Edit.set "B".toList "k".toList "v".toList).Accepted "[A]\nx = 1\n[A]\ny = 2\n" ∧
      setting "[A]\nx = 1\n[A]\ny = 2\n" "A".toList "x".toList = some "1".toList ∧
      (parseConf ((Edit.set "B".toList "k".toList "v".toList).step
        "[A]\nx = 1\n[A]\ny = 2\n")).value "A".toList "x".toList = none ∧
      (Edit.set "A".toList "x".toList " 3".toList).Accepted "" ∧
      (parseConf ((Edit.set "A".toList "x".toList " 3".toList).step "")).value
        "A".toList "x".toList = some "3".toList := by
  refine ⟨rfl, ?_, ?_, rfl, ?_⟩ <;> rfl

end SysDeck.Cockpit.Themes
