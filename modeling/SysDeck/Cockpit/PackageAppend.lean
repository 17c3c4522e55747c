import SysDeck.Cockpit.Vmdb2Packages

/-! The package lists of the builder's profiles through a run of writes. -/

namespace SysDeck.Cockpit.PackageFiles

open Lines (OneLine)
open Profiles (Backend)
open Packages (isSpace lineEnd splitlines strip split)

attribute [local instance] lawful_names

/-! ### What the readers take -/

theorem nodup_addName {found : List Name} (nodup : found.Nodup) (name : Name) :
    (addName found name).Nodup := by
  rw [addName, addNew]
  split
  · exact nodup
  · split
    · exact nodup
    · next fresh =>
      rw [List.nodup_append]
      refine ⟨nodup, by simp, ?_⟩
      intro first member second same
      rw [List.mem_singleton.mp same]
      rintro rfl
      exact fresh member

theorem nodup_foldl_addName {found : List Name} (nodup : found.Nodup) (names : List Name) :
    (names.foldl addName found).Nodup := by
  induction names generalizing found with
  | nil => exact nodup
  | cons name rest ih => exact ih (nodup_addName nodup name)

theorem mem_of_mem_foldl_addName {found names : List Name} {name : Name}
    (member : name ∈ names.foldl addName found) : name ∈ found ∨ name ∈ names := by
  induction names generalizing found with
  | nil => exact Or.inl member
  | cons first rest ih =>
    rcases ih member with member | member
    · rw [addName, addNew] at member
      split at member
      · exact Or.inl member
      · split at member
        · exact Or.inl member
        · rcases List.mem_append.mp member with member | member
          · exact Or.inl member
          · exact Or.inr (by simp [List.mem_singleton.mp member])
    · exact Or.inr (List.mem_cons_of_mem _ member)

theorem nodup_read {reader : Reader} (nodup : reader.found.Nodup) (line : List Char) :
    (reader.read line).found.Nodup := by
  unfold Reader.read
  split
  · exact nodup
  · split
    · exact nodup_foldl_addName nodup _
    · split
      · split
        · exact nodup
        · exact nodup_addName nodup _
      · exact nodup

theorem nodup_mkosiPackages (existing : List Char) : (mkosiPackages existing).Nodup := by
  have all (lines : List (List Char)) {reader : Reader} (nodup : reader.found.Nodup) :
      (lines.foldl Reader.read reader).found.Nodup := by
    induction lines generalizing reader with
    | nil => exact nodup
    | cons line rest ih => exact ih (nodup_read nodup line)
  unfold mkosiPackages
  split
  · exact all _ List.nodup_nil
  · exact List.nodup_nil

/-- The list of a configuration is the names of the items that are found. -/
theorem vmdb2Packages_eq {existing before : List Char} {found : Include}
    (none : '\r' ∉ existing) (matched : searchInclude existing = some (before, found))
    {entries : List Entry} (listed : found.listed = block entries)
    (valid : ∀ entry ∈ entries, entry.Valid) :
    vmdb2Packages existing = (entries.map Entry.name).foldl addName [] := by
  have none' : '\r' ∉ block entries := by
    intro member
    rw [← listed] at member
    rw [searchInclude_parts matched] at none
    simp [member] at none
  unfold vmdb2Packages
  rw [matched]
  simp only [listed]
  exact listedNames_block valid none'

theorem vmdb2Packages_names {existing : List Char} (none : '\r' ∉ existing) :
    (vmdb2Packages existing).Nodup ∧ ∀ name ∈ vmdb2Packages existing, Solid name := by
  cases matched : searchInclude existing with
  | none =>
    have empty : vmdb2Packages existing = [] := by
      unfold vmdb2Packages
      rw [matched]
    rw [empty]
    exact ⟨List.nodup_nil, by simp⟩
  | some pair =>
    obtain ⟨before, found⟩ := pair
    obtain ⟨rest, -, taken, -⟩ := searchFrom_eq_some matched
    obtain ⟨run, entries, -, -, -, -, -, listed, -, valid, -⟩ := includeAt_eq_some taken
    rw [vmdb2Packages_eq none matched listed valid]
    refine ⟨nodup_foldl_addName List.nodup_nil _, fun name member => ?_⟩
    rcases mem_of_mem_foldl_addName member with member | member
    · cases member
    · obtain ⟨entry, present, rfl⟩ := List.mem_map.mp member
      exact (valid entry present).solid

theorem return_not_mem_includeLines {indent : List Char} {names : List Name} (none : '\r' ∉ indent)
    (solid : ∀ name ∈ names, Solid name) : '\r' ∉ includeLines indent names := by
  intro member
  obtain ⟨line, inside, member⟩ := List.mem_flatten.mp member
  obtain ⟨name, present, rfl⟩ := List.mem_map.mp inside
  have dash : '\r' ∉ "  - ".toList := by decide
  have clean := return_not_mem_of_oneLine (oneLine_solid (solid name present))
  simp only [List.mem_append, none, dash, clean, false_or, or_false] at member
  simp at member

theorem return_not_mem_writeVmdb2 {existing : List Char} (none : '\r' ∉ existing) {names : List Name}
    (solid : ∀ name ∈ names, Solid name) : '\r' ∉ writeVmdb2 existing names := by
  unfold writeVmdb2
  cases matched : searchInclude existing with
  | some pair =>
    obtain ⟨before, found⟩ := pair
    obtain ⟨rest, -, taken, -⟩ := searchFrom_eq_some matched
    obtain ⟨run, entries, -, heading, -⟩ := includeAt_eq_some taken
    have whole := searchInclude_parts matched
    rw [whole] at none
    simp only [List.mem_append, not_or] at none
    have indent : '\r' ∉ found.indent := by
      intro member
      refine none.2.1 ?_
      rw [heading]
      exact List.mem_append_left _ member
    simp only [List.mem_append, not_or]
    exact ⟨⟨none.1, none.2.1, return_not_mem_includeLines indent solid⟩, none.2.2.2⟩
  | none =>
    have front : '\r' ∉ existing.rdropWhile (· = '\n') := fun member =>
      none ((List.rdropWhile_prefix _ _).subset member)
    have words : '\r' ∉ "    ".toList ∧ '\r' ∉ "include:\n".toList := ⟨by decide, by decide⟩
    simp only [List.mem_append, not_or]
    exact ⟨⟨front, by simp⟩, ⟨⟨by simp, words.1⟩, words.2⟩, return_not_mem_includeLines words.1 solid⟩

theorem ended_append (first : List Char) {second : List Char} (ended : second.getLast? = some '\n') :
    (first ++ second).getLast? = some '\n' := by
  have begun : second ≠ [] := by
    rintro rfl
    cases ended
  rw [List.getLast?_append_of_ne_nil _ begun, ended]

/-- The lines of the list end a text that ended a line before them. -/
theorem ended_includeLines {text : List Char} (ended : text.getLast? = some '\n') (indent : List Char)
    (names : List Name) : (text ++ includeLines indent names).getLast? = some '\n' := by
  induction names generalizing text with
  | nil => simpa [includeLines] using ended
  | cons name rest ih =>
    have cut : text ++ includeLines indent (name :: rest) =
        (text ++ (indent ++ "  - ".toList ++ name ++ ['\n'])) ++ includeLines indent rest := by
      simp [includeLines]
    rw [cut]
    exact ih (ended_append _ (ended_append _ rfl))

/-- A write leaves a text that ends a line. -/
theorem terminated_writeVmdb2 {existing : List Char} (terminated : Terminated existing)
    (names : List Name) : Terminated (writeVmdb2 existing names) := by
  right
  unfold writeVmdb2
  cases matched : searchInclude existing with
  | some pair =>
    obtain ⟨before, found⟩ := pair
    obtain ⟨rest, -, taken, -⟩ := searchFrom_eq_some matched
    obtain ⟨run, entries, -, heading, -⟩ := includeAt_eq_some taken
    have whole := searchInclude_parts matched
    have ends : found.heading.getLast? = some '\n' := by
      rw [heading]
      exact ended_append _ (ended_append _ (ended_append _ rfl))
    have written := ended_append before (ended_includeLines ends found.indent names)
    change (before ++ (found.heading ++ includeLines found.indent names) ++ found.after).getLast? = _
    by_cases nothing : found.after = []
    · rwa [nothing, List.append_nil]
    · refine ended_append _ ?_
      rcases terminated with rfl | ended
      · simp [nothing] at whole
      · rwa [whole, ← List.append_assoc, ← List.append_assoc,
          List.getLast?_append_of_ne_nil _ nothing] at ended
  | none =>
    have word : "include:\n".toList = "include:".toList ++ ['\n'] := rfl
    refine ended_append _ (ended_includeLines ?_ _ names)
    rw [word]
    exact ended_append _ (ended_append _ rfl)

/-- A list that is written is read back, where it has a name. -/
theorem vmdb2Packages_write {existing : List Char} {names : List Name} (none : '\r' ∉ existing)
    (terminated : Terminated existing) (nonempty : names ≠ []) (solid : ∀ name ∈ names, Solid name)
    (nodup : names.Nodup) : vmdb2Packages (writeVmdb2 existing names) = names := by
  obtain ⟨place, found, matched, entries, listed, valid, same⟩ :=
    searchInclude_write terminated nonempty solid
  rw [vmdb2Packages_eq (return_not_mem_writeVmdb2 none solid) matched listed valid, same,
    foldl_addName solid nodup]

/-! ### Runs of writes -/

/-- The list that a write is for: an append adds the names that are not there, but live-build's
list is written as a whole. -/
def intended (backend : Backend) (mode : Mode) (existing packages : List Name) : List Name :=
  match backend, mode with
  | .liveBuild, _ => packages
  | _, .replace => packages
  | _, .append => existing ++ packages.filter (· ∉ existing)

theorem foldl_addNew_eq {existing packages : List Name} (nodup : packages.Nodup) :
    packages.foldl addNew existing = existing ++ packages.filter (· ∉ existing) := by
  induction packages generalizing existing with
  | nil => simp
  | cons name rest ih =>
    obtain ⟨fresh, later⟩ := List.nodup_cons.mp nodup
    rw [List.foldl_cons, ih later, addNew]
    split
    · next known => simp [known]
    · next unknown =>
      have same : rest.filter (· ∉ existing ++ [name]) = rest.filter (· ∉ existing) := by
        refine List.filter_congr fun other member => ?_
        have apart : other ≠ name := by
          rintro rfl
          exact fresh member
        simp [apart]
      rw [same]
      simp [unknown]

theorem final_eq {mode : Mode} {backend : Backend} (merged : backend ≠ .liveBuild)
    (existing : List Name) {packages : List Name} (nodup : packages.Nodup) :
    final mode existing packages = intended backend mode existing packages := by
  cases mode with
  | replace => cases backend <;> rfl
  | append =>
    rw [final, foldl_addNew_eq nodup]
    cases backend with
    | liveBuild => exact absurd rfl merged
    | mkosi => rfl
    | vmdb2 => rfl
    | archiso => rfl

/-- A request to write a list: the text of the operator and the mode. -/
structure Call where
  text : String
  mode : String

/-- A profile in whose file the reader and the writer of its backend find the list alike. -/
def Fits (backend : Backend) (profile : Profile) : Prop :=
  match backend with
  | .mkosi => MkosiForm (readText profile.file)
  | .vmdb2 => Terminated (readText profile.file)
  | .archiso => True
  | .liveBuild => True

/-- The names of a request that the format of the backend can hold: on a line of several names, or
as an item, a name has no blank. -/
def Call.Fine (backend : Backend) (call : Call) : Prop :=
  backend = .mkosi ∨ backend = .vmdb2 →
    ∀ name ∈ parsePackagesText call.text, ∀ c ∈ name, isSpace c = false

def write (backend : Backend) (profile : Profile) (call : Call) : Except String Written × Profile :=
  writePackages backend profile call.text call.mode

def run (backend : Backend) (profile : Profile) (calls : List Call) : Profile :=
  calls.foldl (fun profile call => (write backend profile call).2) profile

theorem solid_of_fine {backend : Backend} {call : Call} (fine : call.Fine backend)
    (packed : backend = .mkosi ∨ backend = .vmdb2) :
    ∀ name ∈ parsePackagesText call.text, Solid name := fun name member =>
  ⟨((namesOf_listed _).clean name member).begun, fine packed name member⟩

theorem mem_intended {backend : Backend} {mode : Mode} {existing packages : List Name} {name : Name}
    (member : name ∈ intended backend mode existing packages) : name ∈ existing ∨ name ∈ packages := by
  cases backend <;> cases mode <;> simp [intended] at member <;> tauto

theorem nodup_intended {backend : Backend} {mode : Mode} {existing packages : List Name}
    (nodup : existing.Nodup) (nodup' : packages.Nodup) :
    (intended backend mode existing packages).Nodup := by
  have merged : (existing ++ packages.filter (· ∉ existing)).Nodup := by
    rw [List.nodup_append]
    refine ⟨nodup, nodup'.filter _, ?_⟩
    intro first member second member'
    rintro rfl
    have fresh := (List.mem_filter.mp member').2
    simp [member] at fresh
  cases backend <;> cases mode <;> first | exact nodup' | exact merged

theorem solid_intended {backend : Backend} {mode : Mode} {existing packages : List Name}
    (solid : ∀ name ∈ existing, Solid name) (solid' : ∀ name ∈ packages, Solid name) :
    ∀ name ∈ intended backend mode existing packages, Solid name := fun name member =>
  (mem_intended member).elim (solid name) (solid' name)

/-- What the writer of one backend leaves, where it succeeds. -/
theorem writeNames_ok {backend : Backend} {mode : Mode} {profile : Profile} {packages : List Name}
    {written : Written} (listed : Listed packages)
    (solid : backend = .mkosi ∨ backend = .vmdb2 → ∀ name ∈ packages, Solid name)
    (fits : Fits backend profile) (ok : (writeNames backend mode profile packages).1 = .ok written) :
    written.mode = mode ∧ Fits backend (writeNames backend mode profile packages).2 ∧
      ((backend = .vmdb2 → intended backend mode (packagesOf backend profile) packages ≠ []) →
        packagesOf backend (writeNames backend mode profile packages).2 =
          intended backend mode (packagesOf backend profile) packages) := by
  have noReturn := return_not_mem_universal (profile.file.getD [])
  cases backend with
  | mkosi =>
    have form : MkosiForm (readText profile.file) := fits
    obtain rfl := Except.ok.inj ok
    have names := @final_eq mode .mkosi (by simp) (mkosiPackages (readText profile.file)) _ listed.nodup
    have left := mkosiWritten_of_form noReturn form
      (@solid_intended .mkosi mode _ _ form.solid (solid (Or.inl rfl)))
      (nodup_intended (nodup_mkosiPackages _) listed.nodup)
    have read := universal_of_none left.noReturn
    refine ⟨rfl, ?_, fun _ => ?_⟩
    · change MkosiForm (universal (writeMkosi (readText profile.file)
        (final mode (mkosiPackages (readText profile.file)) packages)))
      rw [names]
      exact read.symm ▸ left.form
    · change mkosiPackages (universal (writeMkosi (readText profile.file)
        (final mode (mkosiPackages (readText profile.file)) packages))) = _
      rw [names]
      exact (congrArg mkosiPackages read).trans left.packages
  | vmdb2 =>
    have terminated : Terminated (readText profile.file) := fits
    obtain rfl := Except.ok.inj ok
    obtain ⟨nodup, solidOld⟩ := vmdb2Packages_names noReturn
    have names := @final_eq mode .vmdb2 (by simp) (vmdb2Packages (readText profile.file)) _ listed.nodup
    have solidNew := @solid_intended .vmdb2 mode _ _ solidOld (solid (Or.inr rfl))
    have read := universal_of_none (return_not_mem_writeVmdb2 noReturn solidNew)
    refine ⟨rfl, ?_, fun nonempty => ?_⟩
    · change Terminated (universal (writeVmdb2 (readText profile.file)
        (final mode (vmdb2Packages (readText profile.file)) packages)))
      rw [names]
      exact read.symm ▸ terminated_writeVmdb2 terminated _
    · change vmdb2Packages (universal (writeVmdb2 (readText profile.file)
        (final mode (vmdb2Packages (readText profile.file)) packages))) = _
      rw [names]
      exact (congrArg vmdb2Packages read).trans (vmdb2Packages_write noReturn terminated
        (nonempty rfl) solidNew (nodup_intended nodup listed.nodup))
  | archiso =>
    have names := @final_eq mode .archiso (by simp) (namesOf (readText profile.file)) _ listed.nodup
    unfold writeNames at ok ⊢
    cases dir : profile.isDir with
    | false => simp [dir] at ok
    | true =>
      simp only [dir, if_true] at ok ⊢
      obtain rfl := Except.ok.inj ok
      refine ⟨rfl, trivial, fun _ => ?_⟩
      exact (namesOf_writeArchiso mode _ ((namesOf_listed _).final listed)).trans names
  | liveBuild =>
    unfold writeNames at ok ⊢
    cases dir : profile.isDir with
    | false => simp [dir] at ok
    | true =>
      simp only [dir, if_true] at ok ⊢
      obtain rfl := Except.ok.inj ok
      exact ⟨rfl, trivial, fun _ => namesOf_freshList listed⟩

/-- What one write leaves, where it succeeds. -/
theorem write_ok {backend : Backend} {profile : Profile} {call : Call} {written : Written}
    (fits : Fits backend profile) (fine : call.Fine backend)
    (ok : (write backend profile call).1 = .ok written) :
    Fits backend (write backend profile call).2 ∧
      ((backend = .vmdb2 → intended backend written.mode (packagesOf backend profile)
          (parsePackagesText call.text) ≠ []) →
        packagesOf backend (write backend profile call).2 =
          intended backend written.mode (packagesOf backend profile) (parsePackagesText call.text)) := by
  unfold write writePackages at ok ⊢
  cases mode : modeOf call.mode with
  | none =>
    rw [mode] at ok
    cases ok
  | some mode' =>
    rw [mode] at ok
    obtain ⟨same, fits', law⟩ := writeNames_ok (namesOf_listed _) (solid_of_fine fine) fits ok
    rw [same]
    exact ⟨fits', law⟩

/-- A write that fails leaves the profile as it is. -/
theorem write_error {backend : Backend} {profile : Profile} {call : Call} {message : String}
    (failed : (write backend profile call).1 = .error message) :
    (write backend profile call).2 = profile := by
  unfold write writePackages at failed ⊢
  cases mode : modeOf call.mode with
  | none => rfl
  | some mode' =>
    rw [mode] at failed
    cases backend with
    | mkosi => cases failed
    | vmdb2 => cases failed
    | archiso =>
      cases dir : profile.isDir with
      | true => simp [writeNames, dir] at failed
      | false => simp [writeNames, dir]
    | liveBuild =>
      cases dir : profile.isDir with
      | true => simp [writeNames, dir] at failed
      | false => simp [writeNames, dir]

theorem write_fits {backend : Backend} {profile : Profile} {call : Call} (fits : Fits backend profile)
    (fine : call.Fine backend) : Fits backend (write backend profile call).2 := by
  cases result : (write backend profile call).1 with
  | ok written => exact (write_ok fits fine result).1
  | error message => rwa [write_error result]

theorem run_fits {backend : Backend} {profile : Profile} {calls : List Call}
    (fits : Fits backend profile) (fine : ∀ call ∈ calls, call.Fine backend) :
    Fits backend (run backend profile calls) := by
  induction calls generalizing profile with
  | nil => exact fits
  | cons call rest ih =>
    exact ih (write_fits fits (fine call List.mem_cons_self)) fun other member =>
      fine other (List.mem_cons_of_mem _ member)

/-- In a run from a profile in which the reader and the writer find the list alike, every write that
succeeds leaves the list that it is for, and every append but live-build's keeps what is there. -/
theorem run_intended {backend : Backend} {profile : Profile} {calls : List Call}
    (fits : Fits backend profile) (fine : ∀ call ∈ calls, call.Fine backend)
    {before after : List Call} {call : Call} (place : calls = before ++ call :: after)
    {written : Written} (ok : (write backend (run backend profile before) call).1 = .ok written)
    (some : backend = .vmdb2 → intended backend written.mode
      (packagesOf backend (run backend profile before)) (parsePackagesText call.text) ≠ []) :
    packagesOf backend (run backend profile (before ++ [call])) = intended backend written.mode
        (packagesOf backend (run backend profile before)) (parsePackagesText call.text) ∧
      (written.mode = .append → backend ≠ .liveBuild →
        packagesOf backend (run backend profile before) <+:
          packagesOf backend (run backend profile (before ++ [call]))) := by
  have fits' := run_fits fits fun other member =>
    fine other (by rw [place]; exact List.mem_append_left _ member)
  have fine' := fine call (by rw [place]; simp)
  have step : run backend profile (before ++ [call]) = (write backend (run backend profile before) call).2 := by
    rw [run, List.foldl_append]
    rfl
  have law := (write_ok fits' fine' ok).2 some
  rw [step, law]
  refine ⟨rfl, fun append merged => ?_⟩
  rw [append]
  cases backend with
  | liveBuild => exact absurd rfl merged
  | mkosi => exact List.prefix_append _ _
  | vmdb2 => exact List.prefix_append _ _
  | archiso => exact List.prefix_append _ _

/-- A profile without a file fits every backend. -/
theorem fits_none (backend : Backend) (path : String) (isDir : Bool)
    (lists : String → Option (List Char)) : Fits backend ⟨path, isDir, none, lists⟩ := by
  cases backend with
  | mkosi =>
    have nothing : mkosiPackages [] = [] := by
      unfold mkosiPackages
      split <;> rfl
    refine ⟨?_, ?_, ?_⟩
    · intro line member
      cases member
    · intro inside
      exact absurd (List.eq_nil_of_infix_nil inside) (by decide)
    · change ∀ name ∈ mkosiPackages [], Solid name
      rw [nothing]
      simp
  | vmdb2 => exact Or.inl rfl
  | archiso => trivial
  | liveBuild => trivial

def newProfile (path : String) : Profile := ⟨path, true, none, fun _ => none⟩

def addVim : Call := ⟨"vim", "append"⟩

def addGit : Call := ⟨"git\nvim", "append"⟩

theorem run_intended_mkosi :
    packagesOf .mkosi (run .mkosi (newProfile "web.conf") ([addVim] ++ [addGit])) =
      intended .mkosi .append (packagesOf .mkosi (run .mkosi (newProfile "web.conf") [addVim]))
        (parsePackagesText "git\nvim") := by
  have fine : ∀ call ∈ [addVim, addGit], call.Fine .mkosi := by
    intro call member _
    have visible {names : List Name} (all : names.all (fun name => name.all fun c => !isSpace c) = true) :
        ∀ name ∈ names, ∀ c ∈ name, isSpace c = false :=
      fun name member => Scan.forall_of_all (List.all_eq_true.mp all name member)
    have names : ∀ name ∈ parsePackagesText call.text, ∀ c ∈ name, isSpace c = false := by
      rcases List.mem_pair.mp member with rfl | rfl
      · exact visible (by decide)
      · exact visible (by decide)
    exact names
  have place : [addVim] ++ [addGit] = [addVim] ++ addGit :: [] := rfl
  have ok : (write .mkosi (run .mkosi (newProfile "web.conf") [addVim]) addGit).1 =
      .ok ⟨"web.conf", _, .append⟩ := rfl
  exact (run_intended (fits_none .mkosi "web.conf" true _) fine place ok (by simp)).1

/-- An append to a live-build profile drops what an earlier write put there. -/
theorem append_overwrites :
    packagesOf .liveBuild (run .liveBuild (newProfile "live") [addVim]) = ["vim".toList] ∧
      packagesOf .liveBuild (run .liveBuild (newProfile "live") [addVim, ⟨"git", "append"⟩]) =
        ["git".toList] := by
  constructor
  · exact (namesOf_freshList (namesOf_listed "vim".toList)).trans (by decide)
  · exact (namesOf_freshList (namesOf_listed "git".toList)).trans (by decide)

end SysDeck.Cockpit.PackageFiles
