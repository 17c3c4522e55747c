import SysDeck.Cockpit.PackageAppend

/-! What a run of writes leaves around the include list of a vmdb2 configuration. -/

namespace SysDeck.Cockpit.PackageFiles

open Scan
open Packages (isSpace lineEnd splitlines strip split)
open Profiles (Backend)

attribute [local instance] lawful_names

/-! ### The place of the list -/

/-- A line of the list that is one line. -/
structure Entry.Flat (entry : Entry) : Prop extends entry.Valid where
  indentFlat : '\n' ∉ entry.indent
  gapFlat : '\n' ∉ entry.gap

/-- A configuration around an include list: the lines before it, the line of `include:`, its items,
and the lines after them. -/
structure Spec where
  before : List Char
  indent : List Char
  gap : List Char
  entries : List Entry
  after : List Char

def Spec.heading (spec : Spec) : List Char := spec.indent ++ ("include:".toList ++ (spec.gap ++ ['\n']))

def Spec.text (spec : Spec) : List Char :=
  spec.before ++ (spec.heading ++ (block spec.entries ++ spec.after))

/-- The names of the items. -/
def Spec.names (spec : Spec) : List Name := (spec.entries.map Entry.name).foldl addName []

/-- The same configuration with other items. -/
def Spec.listing (spec : Spec) (names : List Name) : Spec :=
  { spec with entries := names.map (writtenEntry spec.indent) }

/-- The list is the first one of its text, below a line that is not blank; it has an item, each item
is one word on a line, and the text after them begins neither with a blank line nor with an item. -/
structure Spec.Clean (spec : Spec) : Prop where
  starts : AtLine true spec.before
  first : searchInclude spec.before = none
  shown : ∀ front line, spec.before = front ++ (line ++ ['\n']) → AtLine true front → ∃ c ∈ line, isSpace c = false
  indented : spec.indent ≠ []
  indent : ∀ c ∈ spec.indent, isSpace c ∧ c ≠ '\n'
  gap : ∀ c ∈ spec.gap, isSpace c ∧ c ≠ '\n'
  begun : spec.entries ≠ []
  flat : ∀ entry ∈ spec.entries, entry.Flat
  stop : item spec.after = none
  lead : FlatLead spec.after

theorem Entry.Flat.endsFlat {entry : Entry} (flat : entry.Flat) : entry.EndsFlat := by
  rintro c last rfl
  exact flat.indentFlat (List.mem_of_mem_getLast? last)

/-- The first newline after blanks stands in one place. -/
theorem newline_unique {run gap back rest : List Char} (blanks : ∀ c ∈ run, isSpace c) (flat : '\n' ∉ gap)
    (lead : '\n' ∉ rest.takeWhile isSpace) (same : run ++ '\n' :: back = gap ++ '\n' :: rest) :
    run = gap ∧ back = rest := by
  rcases List.append_eq_append_iff.mp same with ⟨more, whole, tail⟩ | ⟨more, whole, tail⟩
  · cases more with
    | nil => exact ⟨by rw [whole, List.append_nil], (List.cons.inj tail).2⟩
    | cons c more =>
      obtain ⟨rfl, -⟩ := List.cons.inj tail
      exact absurd (by rw [whole]; exact List.mem_append_right _ List.mem_cons_self) flat
  · cases more with
    | nil => exact ⟨by rw [whole, List.append_nil], (List.cons.inj tail).2.symm⟩
    | cons c more =>
      obtain ⟨rfl, rfl⟩ := List.cons.inj tail
      refine absurd ?_ lead
      have spaces : ∀ c ∈ more, isSpace c := fun c member =>
        blanks c (by rw [whole]; exact List.mem_append_right _ (List.mem_cons_of_mem _ member))
      change '\n' ∈ (more ++ '\n' :: back).takeWhile isSpace
      rw [List.takeWhile_append_of_pos spaces]
      exact List.mem_append_right _ List.mem_cons_self

/-- The run of blanks could end at any newline, of which there is one. -/
theorem many_flat_newline {β : Type*} {next : List Char → List Char → Option β} {gap text : List Char} {result : β}
    (blanks : ∀ c ∈ gap, isSpace c) (gapFlat : '\n' ∉ gap) (lead : FlatLead text)
    (here : next gap text = some result) :
    many isSpace (fun run rest => literal ['\n'] (next run) rest) (gap ++ '\n' :: text) = some result := by
  have matched : many isSpace (fun run rest => literal ['\n'] (next run) rest) (gap ++ '\n' :: text) ≠ none := by
    intro failed
    have stopped := greedyFrom_eq_none failed blanks
    simp [literal, here] at stopped
  obtain ⟨found, matched⟩ := Option.ne_none_iff_exists'.mp matched
  obtain ⟨run, rest, split, blank, ends, -⟩ := greedyFrom_eq_some matched
  obtain ⟨back, rfl, result⟩ := literal_eq_some ends
  obtain ⟨rfl, rfl⟩ := newline_unique blank gapFlat lead split.symm
  rw [matched, ← result]
  exact here

/-- At its own place the list is found with all its items. -/
theorem includeAt_spec {spec : Spec} (clean : spec.Clean) :
    includeAt (spec.heading ++ (block spec.entries ++ spec.after)) =
      some ⟨spec.heading, spec.indent, block spec.entries, spec.after⟩ := by
  obtain ⟨first, others, entries⟩ := List.exists_cons_of_ne_nil clean.begun
  have flat := clean.flat
  rw [entries] at flat ⊢
  obtain ⟨flatFirst, flatOthers⟩ := List.forall_mem_cons.mp flat
  have taken := items_block clean.stop clean.lead first others
    (fun entry member => (flat entry member).toValid) fun entry member => (flatOthers entry member).endsFlat
  have cut : block (first :: others) ++ spec.after = first.text ++ (block others ++ spec.after) :=
    List.append_assoc ..
  have whole : spec.heading ++ (block (first :: others) ++ spec.after) = spec.indent ++ ("include:".toList ++
      (spec.gap ++ '\n' :: (first.text ++ (block others ++ spec.after)))) := by
    rw [cut, Spec.heading]
    simp only [List.append_assoc, List.singleton_append]
  rw [whole]
  refine many1_of_longest clean.indented (fun c member => (clean.indent c member).1) ?_ ?_
  · intro c head
    obtain rfl : 'i' = c := by simpa using head
    decide
  rw [literal_append]
  have lead : FlatLead (first.text ++ (block others ++ spec.after)) := by
    rw [FlatLead, lead_entry flatFirst.toValid]
    exact flatFirst.indentFlat
  have gapFlat : '\n' ∉ spec.gap := fun member => (clean.gap _ member).2 rfl
  apply many_flat_newline (fun c member => (clean.gap c member).1) gapFlat lead
  rw [taken, Option.map_some]
  simp only [Spec.heading, List.append_assoc, block, List.map_cons, List.flatten_cons]

theorem searchFrom_first {starts : Bool} {before rest : List Char} {found : Include} (atLine : AtLine starts before)
    (begun : rest ≠ []) (here : includeAt rest = some found)
    (early : ∀ front back, before = front ++ back → back ≠ [] → AtLine starts front →
      includeAt (back ++ rest) = none) : searchFrom starts (before ++ rest) = some (before, found) := by
  induction before generalizing starts with
  | nil =>
    obtain ⟨c, rest, rfl⟩ := List.exists_cons_of_ne_nil begun
    rw [List.nil_append, searchFrom, if_pos (atLine.1 rfl), here]
  | cons c before ih =>
    have nothing : (if starts then includeAt (c :: (before ++ rest)) else none) = none := by
      split
      · exact early [] (c :: before) rfl (List.cons_ne_nil _ _) ⟨fun _ => ‹_›, fun d last => by cases last⟩
      · rfl
    have later := ih (atLine_cons.mp atLine) fun front back split begun line =>
      early (c :: front) back (by rw [split]; rfl) begun (atLine_cons.mpr line)
    rw [List.cons_append, searchFrom, nothing, later]
    rfl

/-- The lines after a place where a line starts, of which the last one is not blank. -/
theorem shown_of_suffix {before front back : List Char} (starts : AtLine true before)
    (shown : ∀ front line, before = front ++ (line ++ ['\n']) → AtLine true front → ∃ c ∈ line, isSpace c = false)
    (split : before = front ++ back) (begun : back ≠ []) (line : AtLine true front) :
    back.getLast? = some '\n' ∧ ¬∀ c ∈ back, isSpace c := by
  obtain ⟨body, c, rfl⟩ := List.eq_nil_or_concat back |>.resolve_left begun
  rw [List.concat_eq_append] at split ⊢
  obtain rfl : c = '\n' := starts.2 c (by rw [split, ← List.append_assoc]; exact List.getLast?_concat)
  refine ⟨List.getLast?_concat, fun all => ?_⟩
  obtain ⟨d, member, visible⟩ := shown front body split line
  rw [all d (List.mem_append_left _ member)] at visible
  cases visible

/-- In a clean configuration it is this list that is found. -/
theorem searchInclude_spec {spec : Spec} (clean : spec.Clean) : searchInclude spec.text =
    some (spec.before, ⟨spec.heading, spec.indent, block spec.entries, spec.after⟩) := by
  apply searchFrom_first clean.starts ?_ (includeAt_spec clean)
  · intro front back split begun line
    obtain ⟨ended, notBlank⟩ := shown_of_suffix clean.starts clean.shown split begun line
    by_contra matched
    have word : ∀ c ∈ ((spec.heading ++ (block spec.entries ++ spec.after)).dropWhile isSpace).head?, c ≠ '-' := by
      intro c head
      rw [Spec.heading, List.append_assoc,
        List.dropWhile_append_of_pos fun c member => (clean.indent c member).1] at head
      obtain rfl : 'i' = c := by simpa [isSpace] using head
      decide
    rcases begins_before (begins_of_includeAt matched) ended word with begins | blank
    · exact includeAt_ne_none begins (searchFrom_eq_none clean.first front back split begun line)
    · exact notBlank blank
  · rw [Spec.heading]
    exact List.append_ne_nil_of_left_ne_nil (List.append_ne_nil_of_left_ne_nil clean.indented _) _

/-! ### One write -/

theorem flat_written {indent : List Char} (blanks : ∀ c ∈ indent, isSpace c ∧ c ≠ '\n') {name : Name}
    (solid : Solid name) : (writtenEntry indent name).Flat := by
  refine ⟨valid_written (fun c member => (blanks c member).1) solid, ?_, List.not_mem_nil⟩
  intro member
  rcases List.mem_append.mp member with member | member
  · exact (blanks _ member).2 rfl
  · exact absurd member (by decide)

theorem Spec.Clean.listing {spec : Spec} (clean : spec.Clean) {names : List Name} (nonempty : names ≠ [])
    (solid : ∀ name ∈ names, Solid name) : (spec.listing names).Clean where
  starts := clean.starts
  first := clean.first
  shown := clean.shown
  indented := clean.indented
  indent := clean.indent
  gap := clean.gap
  begun := mt List.map_eq_nil_iff.mp nonempty
  flat := by
    intro entry member
    obtain ⟨name, present, rfl⟩ := List.mem_map.mp member
    exact flat_written clean.indent (solid name present)
  stop := clean.stop
  lead := clean.lead

theorem writeVmdb2_spec {spec : Spec} (clean : spec.Clean) (names : List Name) :
    writeVmdb2 spec.text names = (spec.listing names).text := by
  unfold writeVmdb2
  rw [searchInclude_spec clean]
  simp only [includeLines_eq, Spec.text, Spec.listing, Spec.heading, List.append_assoc]

theorem vmdb2Packages_spec {spec : Spec} (clean : spec.Clean) (noReturn : '\r' ∉ spec.text) :
    vmdb2Packages spec.text = spec.names :=
  vmdb2Packages_eq noReturn (searchInclude_spec clean) rfl fun entry member => (clean.flat entry member).toValid

theorem names_listing (spec : Spec) {names : List Name} (solid : ∀ name ∈ names, Solid name)
    (nodup : names.Nodup) : (spec.listing names).names = names := by
  have same : (names.map (writtenEntry spec.indent)).map Entry.name = names := by
    rw [List.map_map]
    exact List.map_id names
  unfold Spec.names
  exact (congrArg (List.foldl addName []) same).trans (foldl_addName solid nodup)

/-- The names that a write is for are words, each of them once. -/
theorem solid_written {profile : Profile} {call : Call} (fine : call.Fine .vmdb2) (mode : Mode) :
    let names := intended .vmdb2 mode (packagesOf .vmdb2 profile) (parsePackagesText call.text)
    (∀ name ∈ names, Solid name) ∧ names.Nodup := by
  obtain ⟨nodup, solid⟩ := vmdb2Packages_names (return_not_mem_universal (profile.file.getD []))
  exact ⟨solid_intended solid (solid_of_fine fine (.inr rfl)), nodup_intended nodup (namesOf_listed _).nodup⟩

/-- A write gives the list its items and leaves the text around it. -/
theorem write_spec {profile : Profile} {spec : Spec} (clean : spec.Clean) (text : readText profile.file = spec.text)
    {call : Call} {mode : Mode} (known : modeOf call.mode = some mode) :
    (write .vmdb2 profile call).2.file =
      some (spec.listing (intended .vmdb2 mode (packagesOf .vmdb2 profile) (parsePackagesText call.text))).text := by
  have names := @final_eq mode .vmdb2 (by simp) (vmdb2Packages (readText profile.file)) _ (namesOf_listed call.text.toList).nodup
  unfold write writePackages
  rw [known]
  change some (writeVmdb2 (readText profile.file)
    (final mode (vmdb2Packages (readText profile.file)) (namesOf call.text.toList))) = _
  have old : packagesOf .vmdb2 profile = vmdb2Packages spec.text := congrArg vmdb2Packages text
  rw [names, text, writeVmdb2_spec clean, old]
  rfl

theorem write_unknown {backend : Backend} {profile : Profile} {call : Call} (unknown : modeOf call.mode = none) :
    (write backend profile call).2 = profile := by
  unfold write writePackages
  rw [unknown]

/-- What is written is read as it is. -/
theorem readText_listing {spec : Spec} (clean : spec.Clean) (noReturn : '\r' ∉ spec.text) {names : List Name}
    (solid : ∀ name ∈ names, Solid name) : readText (some (spec.listing names).text) = (spec.listing names).text := by
  rw [← writeVmdb2_spec clean]
  exact universal_of_none (return_not_mem_writeVmdb2 noReturn solid)

/-! ### Runs of writes -/

/-- After every run whose writes leave a list of words the configuration is the one that it was, with
other items. -/
theorem run_spec {calls : List Call} {profile : Profile} {spec : Spec} (clean : spec.Clean)
    (text : readText profile.file = spec.text) (fine : ∀ call ∈ calls, call.Fine .vmdb2)
    (filled : ∀ front call back mode, calls = front ++ call :: back → modeOf call.mode = some mode →
      intended .vmdb2 mode (packagesOf .vmdb2 (run .vmdb2 profile front)) (parsePackagesText call.text) ≠ []) :
    ∃ entries, Spec.Clean { spec with entries := entries } ∧
      readText (run .vmdb2 profile calls).file = Spec.text { spec with entries := entries } := by
  induction calls generalizing profile spec with
  | nil => exact ⟨spec.entries, clean, text⟩
  | cons call calls ih =>
    obtain ⟨fineCall, fineCalls⟩ := List.forall_mem_cons.mp fine
    have later := fun front other back mode split =>
      filled (call :: front) other back mode (congrArg (call :: ·) split)
    cases mode : modeOf call.mode with
    | none =>
      have same := @write_unknown .vmdb2 profile call mode
      have step : run .vmdb2 profile (call :: calls) = run .vmdb2 profile calls := by
        change run .vmdb2 (write .vmdb2 profile call).2 calls = _
        rw [same]
      rw [step]
      refine ih clean text fineCalls fun front other back mode' split known => ?_
      have here := later front other back mode' split known
      change intended .vmdb2 mode' (packagesOf .vmdb2 (run .vmdb2 (write .vmdb2 profile call).2 front)) _ ≠ [] at here
      rwa [same] at here
    | some mode' =>
      have nonempty := filled [] call calls mode' rfl mode
      obtain ⟨solid, nodup⟩ := @solid_written profile call fineCall mode'
      have noReturn := return_not_mem_universal (profile.file.getD [])
      rw [← readText, text] at noReturn
      have written := congrArg readText (write_spec clean text mode)
      rw [readText_listing clean noReturn solid] at written
      obtain ⟨entries, clean', text'⟩ := @ih _ (spec.listing _) (clean.listing nonempty solid) written fineCalls later
      exact ⟨entries, clean', text'⟩

/-- In such a run every write replaces the items of the list, by those that it is for, and leaves the
text before and after them; a later write finds the same list again. -/
theorem run_edits_the_list {calls : List Call} {profile : Profile} {spec : Spec} (clean : spec.Clean)
    (text : readText profile.file = spec.text) (fine : ∀ call ∈ calls, call.Fine .vmdb2)
    (filled : ∀ front call back mode, calls = front ++ call :: back → modeOf call.mode = some mode →
      intended .vmdb2 mode (packagesOf .vmdb2 (run .vmdb2 profile front)) (parsePackagesText call.text) ≠ [])
    {front back : List Call} {call : Call} (place : calls = front ++ call :: back) {mode : Mode}
    (known : modeOf call.mode = some mode) :
    let names := intended .vmdb2 mode (packagesOf .vmdb2 (run .vmdb2 profile front)) (parsePackagesText call.text)
    (run .vmdb2 profile (front ++ [call])).file =
        some (spec.before ++ (spec.heading ++ (includeLines spec.indent names ++ spec.after))) ∧
      packagesOf .vmdb2 (run .vmdb2 profile (front ++ [call])) = names := by
  intro names
  have step : run .vmdb2 profile (front ++ [call]) = (write .vmdb2 (run .vmdb2 profile front) call).2 := by
    rw [run, List.foldl_append]
    rfl
  obtain ⟨entries, clean', text'⟩ := @run_spec front profile spec clean text
    (fun other member => fine other (by rw [place]; exact List.mem_append_left _ member))
    fun front' other back' mode' split =>
      filled front' other (back' ++ call :: back) mode' (by rw [place, split]; simp only [List.append_assoc, List.cons_append])
  have fineCall := fine call (by rw [place]; exact List.mem_append_right _ List.mem_cons_self)
  obtain ⟨solid, nodup⟩ := @solid_written (run .vmdb2 profile front) call fineCall mode
  have nonempty := filled front call back mode place known
  have written := write_spec clean' text' known
  have noReturn := return_not_mem_universal ((run .vmdb2 profile front).file.getD [])
  rw [← readText, text'] at noReturn
  rw [step]
  constructor
  · rw [written, includeLines_eq]
    rfl
  · have read := readText_listing clean' noReturn solid
    have again := clean'.listing nonempty solid
    have noReturn' := return_not_mem_writeVmdb2 noReturn solid
    rw [writeVmdb2_spec clean'] at noReturn'
    change vmdb2Packages (readText (write .vmdb2 (run .vmdb2 profile front) call).2.file) = _
    rw [written, read, vmdb2Packages_spec again noReturn', names_listing _ solid nodup]

/-- A write with a name in it leaves a list that is not empty. -/
theorem intended_ne_nil (backend : Backend) (mode : Mode) (existing : List Name) {packages : List Name}
    (some_ : packages ≠ []) : intended backend mode existing packages ≠ [] := by
  have merged : existing ++ packages.filter (· ∉ existing) ≠ [] := by
    intro empty
    obtain ⟨rfl, none⟩ := List.append_eq_nil_iff.mp empty
    rw [List.filter_eq_self.mpr fun name member => decide_eq_true List.not_mem_nil] at none
    exact some_ none
  cases backend <;> cases mode <;> first | exact some_ | exact merged

/-- A list of one package. -/
def debian : Spec where
  before := "bootstrap:\n".toList
  indent := "    ".toList
  gap := []
  entries := [⟨"      ".toList, "systemd".toList, []⟩]
  after := "commands:\n  - passwd\n".toList

theorem debian_clean : debian.Clean where
  starts := by
    refine ⟨fun _ => rfl, fun c last => ?_⟩
    have same : some '\n' = some c := last
    exact (Option.some.inj same).symm
  first := by decide
  shown := by
    intro front line split starts
    have key : "bootstrap:".toList ++ ['\n'] = (front ++ line) ++ ['\n'] := by
      rw [List.append_assoc]
      exact split
    obtain ⟨whole, -⟩ := List.append_inj' key rfl
    have visible : ∀ c ∈ "bootstrap:".toList, isSpace c = false := forall_of_all (by decide)
    cases line with
    | nil =>
      rw [List.append_nil] at whole
      have last := starts.2 ':' (by rw [← whole]; rfl)
      exact absurd last (by decide)
    | cons c line =>
      exact ⟨c, List.mem_cons_self, visible c (by rw [whole]; exact List.mem_append_right _ List.mem_cons_self)⟩
  indented := by decide
  indent := by
    have all : (debian.indent.all fun c => isSpace c && c ≠ '\n') = true := by decide
    intro c member
    simpa using List.all_eq_true.mp all c member
  gap := fun c member => by cases member
  begun := List.cons_ne_nil _ _
  flat := by
    intro entry member
    obtain rfl := List.mem_singleton.mp member
    exact ⟨⟨by decide, List.all_eq_true.mp (by decide), ⟨by decide, forall_of_all (by decide)⟩,
      fun c member => by cases member⟩, by decide, by decide⟩
  stop := by decide
  lead := by
    change '\n' ∉ debian.after.takeWhile isSpace
    decide

def debianProfile : Profile := ⟨"/etc/vmdb2/p.yaml", false, some debian.text, fun _ => none⟩

/-- Two packages are added, one after the other. -/
theorem debian_appends :
    (run .vmdb2 debianProfile ([addVim] ++ [addGit])).file =
        some (debian.before ++ (debian.heading ++ (includeLines debian.indent
          (intended .vmdb2 .append (packagesOf .vmdb2 (run .vmdb2 debianProfile [addVim]))
            (parsePackagesText addGit.text)) ++ debian.after))) ∧
      packagesOf .vmdb2 (run .vmdb2 debianProfile ([addVim] ++ [addGit])) =
        intended .vmdb2 .append (packagesOf .vmdb2 (run .vmdb2 debianProfile [addVim]))
          (parsePackagesText addGit.text) := by
  have names {call : Call} (member : call ∈ [addVim, addGit]) : parsePackagesText call.text ≠ [] := by
    rcases List.mem_pair.mp member with rfl | rfl
    · decide
    · decide
  refine @run_edits_the_list ([addVim] ++ [addGit]) debianProfile debian debian_clean ?_ ?_ ?_ [addVim] [] addGit rfl
    .append rfl
  · exact universal_of_none (by decide)
  · intro call member _
    have visible {names : List Name} (all : names.all (fun name => name.all fun c => !isSpace c) = true) :
        ∀ name ∈ names, ∀ c ∈ name, isSpace c = false :=
      fun name member => forall_of_all (List.all_eq_true.mp all name member)
    rcases List.mem_pair.mp member with rfl | rfl
    · exact visible (by decide)
    · exact visible (by decide)
  · intro front call back mode split known
    exact intended_ne_nil _ _ _ (names (by
      change call ∈ [addVim] ++ [addGit]
      rw [split]
      exact List.mem_append_right _ List.mem_cons_self))

def spaced : Profile :=
  ⟨"/etc/vmdb2/p.yaml", false, some "bootstrap:\n    include:\n      - a\n\ncommands:\n".toList, fun _ => none⟩

/-- A blank line after the list is lost; after a write of no packages the next one begins another list. -/
theorem a_blank_line_and_the_list_are_lost :
    (run .vmdb2 spaced [⟨"b", "append"⟩]).file =
        some "bootstrap:\n    include:\n      - a\n      - b\ncommands:\n".toList ∧
      (run .vmdb2 spaced [⟨"", "replace"⟩, ⟨"b", "append"⟩]).file =
        some "bootstrap:\n    include:\ncommands:\n\n    include:\n      - b\n".toList := by
  decide

end SysDeck.Cockpit.PackageFiles
