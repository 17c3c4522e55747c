import SysDeck.Library.Execution
import SysDeck.Library.OrderedMap
import SysDeck.Library.Strip
import SysDeck.Web.Firewall

/-! The profiles of the builder bridge: what becomes of their package lists when they are created,
copied, and extended by the packages of the host. -/

namespace SysDeck.Web.BuilderProfiles

open Firewall (trim)

inductive Backend where
  | mkosi
  | vmdb2
  | archiso
  | liveBuild
  deriving DecidableEq

def Backend.text : Backend → String
  | .mkosi => "mkosi"
  | .vmdb2 => "vmdb2"
  | .archiso => "archiso"
  | .liveBuild => "live-build"

/-- `BACKENDS` -/
def BACKENDS : List Backend := [.mkosi, .vmdb2, .archiso, .liveBuild]

/-- A row of the table of profiles, by its name. -/
structure Profile where
  backend : Backend
  base : Option String
  packages : List Char
  deriving DecidableEq

abbrev Profiles := OrderedMap String Profile

/-- `/^[a-zA-Z0-9][a-zA-Z0-9._-]*$/.test(name) && !name.includes('..')` -/
def validName (name : String) : Bool :=
  match name.toList with
  | [] => false
  | c :: rest =>
    c.isAlphanum && rest.all (fun d => d.isAlphanum || d = '.' || d = '_' || d = '-') &&
      !decide (['.', '.'] <:+: c :: rest)

/-- What a caller gives as packages. -/
inductive PackagesArg where
  | text (packages : List Char)
  | array (items : List (List Char))
  | other

def packageList : PackagesArg → List Char
  | .text packages => packages
  | .array items => ['\n'].intercalate items
  | .other => []

/-- The lines that a build uses, and that an import starts from. -/
def pkgLines (packages : List Char) : List (List Char) :=
  ((packages.splitOn '\n').map Text.trim).filter (· ≠ [])

/-- A line of a package list as it is read. -/
structure Clean (name : List Char) : Prop where
  begun : name ≠ []
  tight : Text.Tight name
  line : '\n' ∉ name

/-- A name in the package database of the host. -/
abbrev HostName := { name : List Char // Clean name }

inductive Mode where
  | append
  | replace

/-- `['append', 'replace'].includes(mode)` -/
def Mode.ofText? (mode : String) : Option Mode :=
  if mode = "append" then some .append else if mode = "replace" then some .replace else none

inductive Refusal where
  | nameRequired
  | invalidName (name : String)
  | unknownBackend
  | exists (name : String)
  | srcRequired
  | sourceNotFound (src : String)
  | profileRequired
  | badMode
  | profileNotFound (profile : String)
  | noDatabase
  deriving DecidableEq

/-- The row in an answer. -/
structure Row where
  name : String
  profile : Profile
  deriving DecidableEq

/-- What an import answers, with the number of names that its note gives as stored. -/
structure Imported where
  count : ℕ
  profile : String
  dryRun : Bool
  sample : List (List Char)
  stored : Option ℕ
  deriving DecidableEq

def create (profiles : Profiles) (name backend : String) (packages : PackagesArg) :
    Profiles × Except Refusal Row :=
  let name := trim name
  let backend := trim backend
  if name = "" then (profiles, .error .nameRequired)
  else if !validName name then (profiles, .error (.invalidName name))
  else match BACKENDS.find? (·.text = backend) with
  | none => (profiles, .error .unknownBackend)
  | some backend =>
    match profiles.find? name with
    | some _ => (profiles, .error (.exists name))
    | none =>
      let row : Profile := ⟨backend, none, packageList packages⟩
      (profiles.set name row, .ok ⟨name, row⟩)

def copy (profiles : Profiles) (src name : String) : Profiles × Except Refusal Row :=
  let src := trim src
  let name := trim name
  if src = "" then (profiles, .error .srcRequired)
  else if name = "" then (profiles, .error .nameRequired)
  else if !validName name then (profiles, .error (.invalidName name))
  else match profiles.find? src with
  | none => (profiles, .error (.sourceNotFound src))
  | some source =>
    match profiles.find? name with
    | some _ => (profiles, .error (.exists name))
    | none =>
      let row : Profile := ⟨source.backend, some src, source.packages⟩
      (profiles.set name row, .ok ⟨name, row⟩)

/-- The list before the cap. -/
def merge (mode : Mode) (current names : List (List Char)) : List (List Char) :=
  match mode with
  | .append => current ++ names.filter (· ∉ current)
  | .replace => names

def importHostPackages (profiles : Profiles) (host : Option (List HostName)) (profile mode : String)
    (dryRun : Bool) : Profiles × Except Refusal Imported :=
  let profile := trim profile
  if profile = "" then (profiles, .error .profileRequired)
  else match Mode.ofText? mode with
  | none => (profiles, .error .badMode)
  | some mode =>
    match profiles.find? profile with
    | none => (profiles, .error (.profileNotFound profile))
    | some row =>
      match host with
      | none => (profiles, .error .noDatabase)
      | some names =>
        let names := names.map Subtype.val
        let count := names.length
        if dryRun then (profiles, .ok ⟨count, profile, dryRun, names.take 20, none⟩)
        else
          let capped := (merge mode (pkgLines row.packages) names).take 300
          (profiles.modify profile fun row => { row with packages := ['\n'].intercalate capped },
            .ok ⟨count, profile, dryRun, names.take 20, some (min 300 count)⟩)

/-! ### Histories -/

/-- The calls, an import with what the package database of the host lists at the time. -/
inductive Call where
  | create (name backend : String) (packages : PackagesArg)
  | copy (src name : String)
  | importAppend (host : Option (List HostName)) (profile : String) (dryRun : Bool)

/-- The table, and the names that were acknowledged as stored, each with its profile. -/
structure History where
  profiles : Profiles
  acknowledged : List (String × List Char)

/-- The names of a row that is answered. -/
def Row.names (row : Row) : List (String × List Char) :=
  (pkgLines row.profile.packages).map (row.name, ·)

/-- The names of the host that an import gives as stored: as many as its note says, from the first. -/
def Imported.names (imported : Imported) (host : Option (List HostName)) : List (String × List Char) :=
  match imported.stored with
  | none => []
  | some stored =>
    (((host.getD []).map Subtype.val).take stored).map (imported.profile, ·)

/-- What an answer adds. -/
def acknowledge {Answer : Type} (names : Answer → List (String × List Char)) :
    Except Refusal Answer → List (String × List Char)
  | .ok answer => names answer
  | .error _ => []

def History.step (history : History) : Call → History
  | .create name backend packages =>
    let (profiles, reply) := create history.profiles name backend packages
    ⟨profiles, acknowledge Row.names reply ++ history.acknowledged⟩
  | .copy src name =>
    let (profiles, reply) := copy history.profiles src name
    ⟨profiles, acknowledge Row.names reply ++ history.acknowledged⟩
  | .importAppend host profile dryRun =>
    let (profiles, reply) := importHostPackages history.profiles host profile "append" dryRun
    ⟨profiles, acknowledge (·.names host) reply ++ history.acknowledged⟩

/-- Every acknowledged name is on the list that a build uses. -/
def Holds (history : History) : Prop :=
  ∀ entry ∈ history.acknowledged, ∃ row, history.profiles.find? entry.1 = some row ∧
    entry.2 ∈ pkgLines row.packages

/-- What one call is to do: every profile keeps its packages, in their order, and what is
acknowledged is there. -/
structure Kept (before : History) (after : History) : Prop where
  listed : ∀ name row, before.profiles.find? name = some row →
    ∃ row', after.profiles.find? name = some row' ∧
      (pkgLines row.packages).Sublist (pkgLines row'.packages)
  holds : Holds after

/-- An import fits when the profile has at most 300 packages, and the names of the host that it gives as
stored are among them or among those that the cap leaves room for. -/
structure Room (current names : List (List Char)) : Prop where
  short : current.length ≤ 300
  stored : ∀ name ∈ names.take 300, name ∈ current ∨
    name ∈ (names.filter (· ∉ current)).take (300 - current.length)

def Fits (history : History) : Call → Prop
  | .importAppend (some names) profile false =>
    trim profile ≠ "" → ∀ row, history.profiles.find? (trim profile) = some row →
      Room (pkgLines row.packages) (names.map Subtype.val)
  | _ => True

/-! ### The lines of a list -/

theorem clean_of_mem_pkgLines {packages name : List Char} (member : name ∈ pkgLines packages) :
    Clean name := by
  obtain ⟨trimmed, begun⟩ := List.mem_filter.mp member
  obtain ⟨line, inside, rfl⟩ := List.mem_map.mp trimmed
  refine ⟨of_decide_eq_true begun, Text.tight_trim line, fun ends => ?_⟩
  exact Text.not_mem_of_mem_splitOn inside ((Strip.stripBy_infix line).subset ends)

theorem pkgLines_intercalate {names : List (List Char)} (clean : ∀ name ∈ names, Clean name) :
    pkgLines (['\n'].intercalate names) = names := by
  by_cases nothing : names = []
  · subst nothing
    rfl
  · have same : names.map Text.trim = names := by
      rw [List.map_congr_left fun name member => Text.trim_of_tight (clean name member).tight, List.map_id']
    rw [pkgLines, List.splitOn_intercalate '\n' (fun name member => (clean name member).line) nothing, same,
      List.filter_eq_self]
    exact fun name member => decide_eq_true (clean name member).begun

/-! ### An import -/

theorem sublist_merge_iff {current fresh : List (List Char)} {n : ℕ} :
    current.Sublist ((current ++ fresh).take n) ↔ current.length ≤ n := by
  constructor
  · intro kept
    exact kept.length_le.trans (List.length_take_le ..)
  · intro short
    rw [List.take_append, List.take_of_length_le short]
    exact List.sublist_append_left _ _

theorem mem_capped_iff {current names : List (List Char)} (short : current.length ≤ 300)
    {name : List Char} :
    name ∈ (merge .append current names).take 300 ↔
      name ∈ current ∨ name ∈ (names.filter (· ∉ current)).take (300 - current.length) := by
  rw [merge, List.take_append, List.take_of_length_le short, List.mem_append]

theorem clean_of_mem_capped {current : List Char} {names : List HostName} {name : List Char}
    (member : name ∈ (merge .append (pkgLines current) (names.map Subtype.val)).take 300) : Clean name := by
  rcases List.mem_append.mp (List.mem_of_mem_take member) with own | fresh
  · exact clean_of_mem_pkgLines own
  · obtain ⟨host, -, rfl⟩ := List.mem_map.mp (List.mem_of_mem_filter fresh)
    exact host.2

/-- What an import stores is read back as it was capped. -/
theorem pkgLines_capped (current : List Char) (names : List HostName) :
    pkgLines (['\n'].intercalate
      ((merge .append (pkgLines current) (names.map Subtype.val)).take 300)) =
      (merge .append (pkgLines current) (names.map Subtype.val)).take 300 :=
  pkgLines_intercalate fun _ member => clean_of_mem_capped member

/-! ### One call -/

/-- A call that leaves the table as it is and answers nothing as stored, or adds the row that it
answers under a free name. -/
def Adds (profiles : Profiles) (result : Profiles × Except Refusal Row) : Prop :=
  (∃ refusal, result = (profiles, .error refusal)) ∨
    ∃ row : Row, profiles.find? row.name = none ∧
      result = (profiles.set row.name row.profile, .ok row)

theorem create_adds (profiles : Profiles) (name backend : String) (packages : PackagesArg) :
    Adds profiles (create profiles name backend packages) := by
  unfold create
  dsimp only
  split
  · exact .inl ⟨_, rfl⟩
  split
  · exact .inl ⟨_, rfl⟩
  split
  · exact .inl ⟨_, rfl⟩
  split
  · exact .inl ⟨_, rfl⟩
  · next absent => exact .inr ⟨⟨_, _⟩, absent, rfl⟩

theorem copy_adds (profiles : Profiles) (src name : String) :
    Adds profiles (copy profiles src name) := by
  unfold copy
  dsimp only
  split
  · exact .inl ⟨_, rfl⟩
  split
  · exact .inl ⟨_, rfl⟩
  split
  · exact .inl ⟨_, rfl⟩
  split
  · exact .inl ⟨_, rfl⟩
  split
  · exact .inl ⟨_, rfl⟩
  · next absent => exact .inr ⟨⟨_, _⟩, absent, rfl⟩

/-- A profile that is there stays as it is when another one is added. -/
theorem kept_of_adds {history : History} (holds : Holds history)
    {result : Profiles × Except Refusal Row} (adds : Adds history.profiles result) :
    Kept history ⟨result.1, acknowledge Row.names result.2 ++ history.acknowledged⟩ := by
  rcases adds with ⟨refusal, rfl⟩ | ⟨row, absent, rfl⟩
  · exact ⟨fun name row found => ⟨row, found, List.Sublist.refl _⟩, holds⟩
  · have old {name : String} {row' : Profile} (found : history.profiles.find? name = some row') :
        (history.profiles.set row.name row.profile).find? name = some row' := by
      have other : name ≠ row.name := by
        rintro rfl
        cases absent.symm.trans found
      rw [OrderedMap.find?_set_ne _ _ other, found]
    refine ⟨fun name row' found => ⟨row', old found, List.Sublist.refl _⟩, ?_⟩
    intro entry member
    rcases List.mem_append.mp member with new | before
    · obtain ⟨name, listed, rfl⟩ := List.mem_map.mp new
      exact ⟨row.profile, OrderedMap.find?_set_self _ _ _, listed⟩
    · obtain ⟨row', found, listed⟩ := holds entry before
      exact ⟨row', old found, listed⟩

/-- An import stores nothing, or the capped list of a profile. -/
theorem import_cases (profiles : Profiles) (host : Option (List HostName)) (profile : String)
    (dryRun : Bool) :
    (∃ reply, importHostPackages profiles host profile "append" dryRun = (profiles, reply) ∧
      acknowledge (·.names host) reply = [] ∧
      (host.isSome → dryRun = false → trim profile ≠ "" → profiles.find? (trim profile) = none)) ∨
    ∃ names row, host = some names ∧ dryRun = false ∧ trim profile ≠ "" ∧
      profiles.find? (trim profile) = some row ∧
      importHostPackages profiles host profile "append" dryRun =
        (profiles.modify (trim profile) fun other => { other with
            packages := ['\n'].intercalate
              ((merge .append (pkgLines row.packages) (names.map Subtype.val)).take 300) },
          .ok ⟨names.length, trim profile, false, (names.map Subtype.val).take 20,
            some (min 300 names.length)⟩) := by
  have mode : Mode.ofText? "append" = some .append := rfl
  by_cases unnamed : trim profile = ""
  · refine .inl ⟨.error .profileRequired, ?_, rfl, fun _ _ named => absurd unnamed named⟩
    rw [importHostPackages, if_pos unnamed]
  cases found : profiles.find? (trim profile) with
  | none =>
    refine .inl ⟨.error (.profileNotFound (trim profile)), ?_, rfl, fun _ _ _ => rfl⟩
    simp only [importHostPackages, if_neg unnamed, mode, found]
  | some row =>
    cases host with
    | none =>
      refine .inl ⟨.error .noDatabase, ?_, rfl, fun some => by cases some⟩
      simp only [importHostPackages, if_neg unnamed, mode, found]
    | some names =>
      cases dryRun with
      | true =>
        refine .inl ⟨.ok ⟨names.length, trim profile, true, (names.map Subtype.val).take 20, none⟩, ?_, rfl,
          fun _ wet => by cases wet⟩
        simp only [importHostPackages, if_neg unnamed, mode, found, List.length_map, if_true]
      | false =>
        refine .inr ⟨names, row, rfl, rfl, unnamed, rfl, ?_⟩
        simp only [importHostPackages, if_neg unnamed, mode, found, List.length_map, Bool.false_eq_true,
          if_false]

/-- An import that is stored keeps what it should just when there is room. -/
theorem kept_import_iff {history : History} (holds : Holds history) {names : List HostName}
    {profile : String} {row : Profile} (named : trim profile ≠ "")
    (found : history.profiles.find? (trim profile) = some row) :
    Kept history (history.step (.importAppend (some names) profile false)) ↔
      Room (pkgLines row.packages) (names.map Subtype.val) := by
  obtain ⟨reply, -, -, missing⟩ | ⟨names', row', same, -, -, found', step⟩ :=
    import_cases history.profiles (some names) profile false
  · cases found.symm.trans (missing rfl rfl named)
  obtain rfl := Option.some.inj same
  obtain rfl := Option.some.inj (found.symm.trans found')
  generalize capped : (merge .append (pkgLines row.packages) (names.map Subtype.val)).take 300 = stored at step
  have read : pkgLines (['\n'].intercalate stored) = stored := capped ▸ pkgLines_capped _ _
  have after : history.step (.importAppend (some names) profile false) =
      ⟨history.profiles.modify (trim profile) fun other =>
          { other with packages := ['\n'].intercalate stored },
        ((names.map Subtype.val).take (min 300 names.length)).map (trim profile, ·) ++
          history.acknowledged⟩ := by
    simp only [History.step, step, acknowledge, Imported.names, Option.getD_some]
  have all : (names.map Subtype.val).take (min 300 names.length) = (names.map Subtype.val).take 300 := by
    rw [← List.length_map Subtype.val, ← List.take_eq_take_min]
  have own : (history.step (.importAppend (some names) profile false)).profiles.find? (trim profile) =
      some { row with packages := ['\n'].intercalate stored } := by
    rw [after, OrderedMap.find?_modify_self, found, Option.map_some]
  have others {name : String} (other : name ≠ trim profile) :
      (history.step (.importAppend (some names) profile false)).profiles.find? name =
        history.profiles.find? name := by
    rw [after, OrderedMap.find?_modify_ne _ _ other]
  constructor
  · intro kept
    obtain ⟨row', there, listed⟩ := kept.listed (trim profile) row found
    obtain rfl := Option.some.inj (own.symm.trans there)
    rw [read, ← capped, merge] at listed
    have short := sublist_merge_iff.mp listed
    refine ⟨short, fun name member => ?_⟩
    have acknowledged : (trim profile, name) ∈
        (history.step (.importAppend (some names) profile false)).acknowledged := by
      rw [after, all]
      exact List.mem_append_left _ (List.mem_map_of_mem member)
    obtain ⟨row', there, listed⟩ := kept.holds _ acknowledged
    obtain rfl := Option.some.inj (own.symm.trans there)
    rw [read, ← capped] at listed
    exact (mem_capped_iff short).mp listed
  · rintro ⟨short, room⟩
    have listed : (pkgLines row.packages).Sublist stored := capped ▸ sublist_merge_iff.mpr short
    -- What the other profiles list, and what this one listed, is listed as before.
    have kept {name : String} {row' : Profile} (before : history.profiles.find? name = some row') :
        ∃ row'', (history.step (.importAppend (some names) profile false)).profiles.find? name = some row'' ∧
          (pkgLines row'.packages).Sublist (pkgLines row''.packages) := by
      by_cases same : name = trim profile
      · subst same
        obtain rfl := Option.some.inj (found.symm.trans before)
        exact ⟨_, own, read.symm ▸ listed⟩
      · exact ⟨row', (others same).trans before, List.Sublist.refl _⟩
    refine ⟨fun name row' before => kept before, fun entry member => ?_⟩
    rw [after, all] at member
    rcases List.mem_append.mp member with new | old
    · obtain ⟨name, first, rfl⟩ := List.mem_map.mp new
      refine ⟨_, own, ?_⟩
      rw [read, ← capped]
      exact (mem_capped_iff short).mpr (room name first)
    · obtain ⟨row', before, here⟩ := holds entry old
      obtain ⟨row'', there, sublist⟩ := kept before
      exact ⟨row'', there, sublist.subset here⟩

theorem kept_iff {history : History} (holds : Holds history) (call : Call) :
    Kept history (history.step call) ↔ Fits history call := by
  cases call with
  | create name backend packages =>
    have adds := create_adds history.profiles name backend packages
    rw [History.step]
    generalize create history.profiles name backend packages = result at adds ⊢
    exact iff_of_true (kept_of_adds holds adds) trivial
  | copy src name =>
    have adds := copy_adds history.profiles src name
    rw [History.step]
    generalize copy history.profiles src name = result at adds ⊢
    exact iff_of_true (kept_of_adds holds adds) trivial
  | importAppend host profile dryRun =>
    by_cases stores : (∃ names, host = some names) ∧ dryRun = false ∧ trim profile ≠ "" ∧
        ∃ row, history.profiles.find? (trim profile) = some row
    · obtain ⟨⟨names, rfl⟩, rfl, named, row, found⟩ := stores
      rw [kept_import_iff holds named found]
      constructor
      · intro room _ row' found'
        obtain rfl := Option.some.inj (found.symm.trans found')
        exact room
      · exact fun fits => fits named row found
    · obtain ⟨reply, step, nothing, -⟩ | ⟨names, row, rfl, rfl, named, found, -⟩ :=
        import_cases history.profiles host profile dryRun
      · have same : history.step (.importAppend host profile dryRun) = history := by
          simp only [History.step, step, nothing, List.nil_append]
        rw [same]
        refine iff_of_true ⟨fun name row found => ⟨row, found, List.Sublist.refl _⟩, holds⟩ ?_
        cases host with
        | none => trivial
        | some names =>
          cases dryRun with
          | true => trivial
          | false =>
            intro named row found
            exact absurd ⟨⟨names, rfl⟩, rfl, named, row, found⟩ stores
      · exact absurd ⟨⟨names, rfl⟩, rfl, named, row, found⟩ stores

/-- Every call of a sequence keeps what it should just when every import fits. -/
theorem profiles_kept_iff (profiles : Profiles) (calls : List Call) :
    (∀ before call after, calls = before ++ call :: after →
      Kept (Execution.run History.step ⟨profiles, []⟩ before)
        (Execution.run History.step ⟨profiles, []⟩ (before ++ [call]))) ↔
      Execution.Along History.step Fits ⟨profiles, []⟩ calls :=
  @Execution.each_iff_along _ _ History.step Holds (fun before _ after => Kept before after) Fits
    (fun _ call holds => kept_iff holds call) (fun _ _ _ kept => kept.holds) ⟨profiles, []⟩
    (fun _ member => by cases member) calls

/-- The text of so many package names. -/
def packagesText (n : ℕ) : List Char :=
  ['\n'].intercalate ((List.range n).map fun i => 'p' :: Nat.toDigits 10 i)

def vim : HostName := ⟨"vim".toList, by decide +kernel, ⟨by rintro _ ⟨⟩; rfl, by rintro _ ⟨⟩; rfl⟩, by decide +kernel⟩

/-- A profile with 300 packages, which is then to get the one package of the host. -/
def fullProfile : List Call :=
  [.create "web" "mkosi" (.text (packagesText 300)), .importAppend (some [vim]) "web" false]

/-- The answer gives one name as stored, and a build does not use it. -/
theorem profiles_fullProfile :
    ("web", "vim".toList) ∈ (Execution.run History.step ⟨OrderedMap.empty, []⟩ fullProfile).acknowledged ∧
      ¬ Holds (Execution.run History.step ⟨OrderedMap.empty, []⟩ fullProfile) := by
  have acknowledged : ("web", "vim".toList) ∈
      (Execution.run History.step ⟨OrderedMap.empty, []⟩ fullProfile).acknowledged := by
    decide +kernel
  refine ⟨acknowledged, fun holds => ?_⟩
  obtain ⟨row, found, listed⟩ := holds _ acknowledged
  have missing : ((Execution.run History.step ⟨OrderedMap.empty, []⟩ fullProfile).profiles.find? "web").any
      (fun row => "vim".toList ∈ pkgLines row.packages) = false := by
    decide +kernel
  rw [found, Option.any_some, decide_eq_false_iff_not] at missing
  exact missing listed

end SysDeck.Web.BuilderProfiles
