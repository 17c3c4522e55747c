import Mathlib.Logic.Function.Basic
import SysDeck.Library.Execution
import SysDeck.Web.Firewall

/-! The module installer of the web console: the registry in the database, and what the commands of
an install and an uninstall leave on the host. -/

namespace SysDeck.Web.Modules

open Firewall (trim)

inductive Kind where
  | pacman
  | git
  | debTar
  | tarball
  deriving DecidableEq

/-- An entry of the catalog: what the two commands read of it. -/
structure CatalogEntry where
  id : String
  kind : Kind
  /-- `installSpec.pkg` of kind pacman, and `installSpec.dest` of the others. -/
  target : String
  strip : Nat := 0
  deriving DecidableEq

def CATALOG : List CatalogEntry :=
  [⟨"cockpit-machines", .pacman, "cockpit-machines", 0⟩,
    ⟨"cockpit-podman", .pacman, "cockpit-podman", 0⟩,
    ⟨"cockpit-storaged", .pacman, "cockpit-storaged", 0⟩,
    ⟨"cockpit-identities", .git, "identities", 0⟩,
    ⟨"cockpit-navigator", .debTar, "navigator", 0⟩,
    ⟨"cockpit-file-sharing", .debTar, "file-sharing", 0⟩,
    ⟨"cockpit-zfs-manager", .git, "zfs-manager", 0⟩,
    ⟨"cockpit-pacman", .git, "pacman", 0⟩,
    ⟨"cockpit-sensors", .tarball, "sensors", 1⟩,
    ⟨"cockpit-benchmark", .git, "benchmark", 0⟩]

def findEntry (id : String) : Option CatalogEntry := CATALOG.find? fun e => e.id = id

/-! ### Files -/

inductive Entry where
  | directory
  | file (text : String)
  deriving DecidableEq

/-- What stands in a directory, by the path from it; the first entry of a path counts. -/
abbrev Tree := List (List String × Entry)

/-- The same files and directories. -/
def Tree.Same (tree other : Tree) : Prop := ∀ path, tree.lookup path = other.lookup path

/-- What an archive's members leave, less so many leading names; a later member replaces an earlier. -/
def extract (strip : Nat) (members : Tree) : Tree :=
  ((members.filter fun member => strip < member.1.length).map fun member =>
    (member.1.drop strip, member.2)).reverse

/-- What stands below a directory of the tree. -/
def below (directory : List String) (tree : Tree) : Tree :=
  (tree.filter fun entry => directory.isPrefixOf entry.1 && entry.1 ≠ directory).map fun entry =>
    (entry.1.drop directory.length, entry.2)

/-- The directory is in the tree. -/
def holds (directory : List String) (tree : Tree) : Bool :=
  tree.any fun entry => directory.isPrefixOf entry.1

/-- `cp -r source target`: into the target where it is a directory already, under the name of the
source. -/
def copyInto (name : String) (source : Tree) : Option Tree → Tree
  | none => source
  | some target => source.map (fun entry => (name :: entry.1, entry.2)) ++ ([name], .directory) :: target

/-! ### The host -/

/-- What a module is fetched from: the files of its repository, or the members of its archive, and
the archive as it is downloaded. -/
structure Network where
  members : String → Tree
  archive : String → String

structure World where
  registry : List String
  packages : String → Bool
  /-- The directories under `COCKPIT_LOCAL`. -/
  targets : String → Option Tree

/-- A command that succeeds, or fails and leaves something behind. -/
inductive Run (Left : Type) where
  | done
  | failed (left : Left)
  deriving DecidableEq

/-- How the steps of a call go. -/
structure Attempt where
  /-- The package manager that is found. -/
  manager : Option String
  curl : Bool
  git : Bool
  /-- Root, or `sudo -n`. -/
  privileged : Bool
  download : Bool
  extraction : Bool
  /-- The name of the staging directory. -/
  staging : String
  /-- The package manager; what is left is whether the package is there. -/
  package : Run Bool
  /-- The command that writes the target; what is left is the target. -/
  target : Run (Option Tree)

inductive Failure where
  | idRequired
  | unknownModule
  | licenseNotAccepted
  | noPackageManager
  | noCurl
  | noGit
  | notAuthorized
  | download
  | extraction
  | command
  deriving DecidableEq

inductive Answer where
  | failed (error : Failure)
  | alreadyInstalled
  | installed
  | notInstalled
  | removed
  deriving DecidableEq

def World.setTarget (world : World) (target : String) (tree : Option Tree) : World :=
  { world with targets := Function.update world.targets target tree }

def World.setPackage (world : World) (package : String) (there : Bool) : World :=
  { world with packages := Function.update world.packages package there }

/-- `/usr/share/cockpit`, in what `dpkg-deb -x` has left. -/
def cockpitShare : List String := ["usr", "share", "cockpit"]

/-- The directory that is copied to the target: its name, and what is in it. -/
def source (network : Network) (entry : CatalogEntry) (staging : String) : String × Tree :=
  match entry.kind with
  | .debTar =>
    let x := extract 0 (network.members entry.id)
    if holds cockpitShare x then ("cockpit", below cockpitShare x) else ("x", x)
  | _ =>
    (staging, extract entry.strip (network.members entry.id) ++
      [(["dl"], .file (network.archive entry.id))])

/-- What the commands of an install leave, and why they stopped. -/
def perform (network : Network) (world : World) (entry : CatalogEntry) (a : Attempt) :
    World × Option Failure :=
  match entry.kind with
  | .pacman =>
    if a.manager = none then (world, some .noPackageManager)
    else if !a.privileged then (world, some .notAuthorized)
    else match a.package with
      | .done => (world.setPackage entry.target true, none)
      | .failed there => (world.setPackage entry.target there, some .command)
  | .git =>
    if !a.git then (world, some .noGit)
    else if !a.privileged then (world, some .notAuthorized)
    -- git refuses to clone into a directory with something in it
    else if ((world.targets entry.target).getD []) ≠ [] then (world, some .command)
    else match a.target with
      | .done =>
        (world.setTarget entry.target (some (extract 0 (network.members entry.id))), none)
      | .failed left => (world.setTarget entry.target left, some .command)
  | .debTar | .tarball =>
    if !a.curl then (world, some .noCurl)
    else if !a.download then (world, some .download)
    else if !a.extraction then (world, some .extraction)
    else if !a.privileged then (world, some .notAuthorized)
    else match a.target with
      | .done =>
        let (name, tree) := source network entry a.staging
        (world.setTarget entry.target (some (copyInto name tree (world.targets entry.target))), none)
      | .failed left => (world.setTarget entry.target left, some .command)

def install (network : Network) (world : World) (arg : String) (acceptLicense : Bool) (a : Attempt) :
    World × Answer :=
  let id := trim arg
  if id = "" then (world, .failed .idRequired)
  else match findEntry id with
  | none => (world, .failed .unknownModule)
  | some entry =>
    if id ∈ world.registry then (world, .alreadyInstalled)
    else if !acceptLicense then (world, .failed .licenseNotAccepted)
    else match perform network world entry a with
      | (world, some error) => (world, .failed error)
      | (world, none) => ({ world with registry := entry.id :: world.registry }, .installed)

def uninstall (world : World) (arg : String) (a : Attempt) : World × Answer :=
  let id := trim arg
  if id = "" then (world, .failed .idRequired)
  else match findEntry id with
  | none => (world, .failed .unknownModule)
  | some entry =>
    let unregistered (world : World) : World :=
      { world with registry := world.registry.filter (· ≠ entry.id) }
    if id ∉ world.registry then (world, .notInstalled)
    else if entry.kind = .pacman then (unregistered world, .removed)
    else if !a.privileged then (world, .failed .notAuthorized)
    else match a.target with
      | .done => (unregistered (world.setTarget entry.target none), .removed)
      | .failed left => (world.setTarget entry.target left, .failed .command)

inductive Call where
  | install (arg : String) (acceptLicense : Bool) (a : Attempt)
  | uninstall (arg : String) (a : Attempt)

/-- The world, with the last call and its answer. -/
structure History where
  world : World
  last : Option (Call × Answer) := none

def step (network : Network) (history : History) (call : Call) : History :=
  let (world, answer) := match call with
    | .install arg acceptLicense a => install network history.world arg acceptLicense a
    | .uninstall arg a => uninstall history.world arg a
  { world, last := some (call, answer) }

/-- A host without any module. -/
def clean : History := { world := ⟨[], fun _ => false, fun _ => none⟩ }

def run (network : Network) (calls : List Call) : History :=
  Execution.run (step network) clean calls

/-! ### What the registry promises -/

/-- The files of a module: of a deb those below its own directory in `/usr/share/cockpit`. -/
def moduleFiles (network : Network) (entry : CatalogEntry) : Tree :=
  match entry.kind with
  | .debTar =>
    let x := extract 0 (network.members entry.id)
    if holds (cockpitShare ++ [entry.target]) x then below (cockpitShare ++ [entry.target]) x
    else (source network entry "").2
  | .git => extract 0 (network.members entry.id)
  | _ => extract entry.strip (network.members entry.id)

/-- The host holds what a clean install of the module leaves. -/
def Holds (network : Network) (world : World) (entry : CatalogEntry) : Prop :=
  match entry.kind with
  | .pacman => world.packages entry.target = true
  | _ => ∃ tree, world.targets entry.target = some tree ∧ tree.Same (moduleFiles network entry)

/-- The host holds nothing of the module. -/
def Gone (world : World) (entry : CatalogEntry) : Prop :=
  match entry.kind with
  | .pacman => world.packages entry.target = false
  | _ => world.targets entry.target = none

/-- The registry matches the host, and what the last call has removed is gone. -/
structure Matches (network : Network) (history : History) : Prop where
  registered : ∀ entry ∈ CATALOG, entry.id ∈ history.world.registry →
    Holds network history.world entry
  removed : ∀ entry ∈ CATALOG, ∀ arg a,
    history.last = some (.uninstall arg a, .removed) → trim arg = entry.id →
      Gone history.world entry

/-- The call leaves out what breaks the match: a copy into a target that is there, or of a directory
with other files in it than the module's; the uninstall of a package; a removal that fails on its
way. -/
def Harmless (network : Network) (history : History) : Call → Prop
  | .install arg acceptLicense a => ∀ entry ∈ CATALOG, trim arg = entry.id →
      entry.kind = .debTar ∨ entry.kind = .tarball → entry.id ∉ history.world.registry →
      acceptLicense → a.curl → a.download → a.extraction → a.privileged → a.target = .done →
        history.world.targets entry.target = none ∧
          (source network entry a.staging).2.Same (moduleFiles network entry)
  | .uninstall arg a => ∀ entry ∈ CATALOG, trim arg = entry.id →
      entry.id ∈ history.world.registry →
        entry.kind ≠ .pacman ∧
          (a.privileged → ∀ left, a.target = .failed left →
            left = history.world.targets entry.target)

/-! ### The catalog -/

theorem findEntry_some {id : String} {entry : CatalogEntry} (found : findEntry id = some entry) :
    entry ∈ CATALOG ∧ entry.id = id :=
  ⟨List.mem_of_find?_eq_some found, by simpa using List.find?_some found⟩

theorem findEntry_of_mem {entry : CatalogEntry} (member : entry ∈ CATALOG) :
    findEntry entry.id = some entry := by
  revert entry
  decide

/-- Every module has a package or a directory of its own. -/
theorem target_inj {entry other : CatalogEntry} (member : entry ∈ CATALOG)
    (member' : other ∈ CATALOG) (same : entry.target = other.target) : entry = other := by
  have apart : ∀ entry ∈ CATALOG, ∀ other ∈ CATALOG, entry.target = other.target → entry = other := by
    decide
  exact apart entry member other member' same

/-! ### One call -/

/-- The world as far as it concerns the module. -/
structure Agrees (world world' : World) (entry : CatalogEntry) : Prop where
  packages : world'.packages entry.target = world.packages entry.target
  targets : world'.targets entry.target = world.targets entry.target

theorem Agrees.refl (world : World) (entry : CatalogEntry) : Agrees world world entry := ⟨rfl, rfl⟩

theorem Agrees.holds {network : Network} {world world' : World} {entry : CatalogEntry}
    (agrees : Agrees world world' entry) (holds : Holds network world entry) :
    Holds network world' entry := by
  unfold Holds at holds ⊢
  cases kind : entry.kind with
  | pacman => simpa only [kind, agrees.packages] using holds
  | git | debTar | tarball => simpa only [kind, agrees.targets] using holds

theorem agrees_setTarget (world : World) {entry other : CatalogEntry} (tree : Option Tree)
    (apart : other.target ≠ entry.target) : Agrees world (world.setTarget entry.target tree) other :=
  ⟨rfl, Function.update_of_ne apart _ _⟩

theorem agrees_setPackage (world : World) {entry other : CatalogEntry} (there : Bool)
    (apart : other.target ≠ entry.target) : Agrees world (world.setPackage entry.target there) other :=
  ⟨Function.update_of_ne apart _ _, rfl⟩

/-- An install leaves the registry and the other modules as they are. -/
theorem perform_frame (network : Network) (world : World) (entry : CatalogEntry) (a : Attempt) :
    (perform network world entry a).1.registry = world.registry ∧
      ∀ other : CatalogEntry, other.target ≠ entry.target →
        Agrees world (perform network world entry a).1 other := by
  unfold perform
  cases entry.kind with
  | pacman =>
    dsimp only
    split
    · exact ⟨rfl, fun other _ => .refl world other⟩
    split
    · exact ⟨rfl, fun other _ => .refl world other⟩
    cases a.package with
    | done => exact ⟨rfl, fun _ apart => agrees_setPackage world true apart⟩
    | failed there => exact ⟨rfl, fun _ apart => agrees_setPackage world there apart⟩
  | git =>
    dsimp only
    split
    · exact ⟨rfl, fun other _ => .refl world other⟩
    split
    · exact ⟨rfl, fun other _ => .refl world other⟩
    split
    · exact ⟨rfl, fun other _ => .refl world other⟩
    cases a.target with
    | done => exact ⟨rfl, fun _ apart => agrees_setTarget world _ apart⟩
    | failed left => exact ⟨rfl, fun _ apart => agrees_setTarget world left apart⟩
  | debTar | tarball =>
    dsimp only
    split
    · exact ⟨rfl, fun other _ => .refl world other⟩
    split
    · exact ⟨rfl, fun other _ => .refl world other⟩
    split
    · exact ⟨rfl, fun other _ => .refl world other⟩
    split
    · exact ⟨rfl, fun other _ => .refl world other⟩
    cases a.target with
    | done => exact ⟨rfl, fun _ apart => agrees_setTarget world _ apart⟩
    | failed left => exact ⟨rfl, fun _ apart => agrees_setTarget world left apart⟩

/-- A harmless install that has not stopped leaves what the module's install should leave. -/
theorem perform_holds {network : Network} {world : World} {entry : CatalogEntry} {a : Attempt}
    (finished : (perform network world entry a).2 = none)
    (copies : entry.kind = .debTar ∨ entry.kind = .tarball → a.curl → a.download → a.extraction →
      a.privileged → a.target = .done → world.targets entry.target = none ∧
        (source network entry a.staging).2.Same (moduleFiles network entry)) :
    Holds network (perform network world entry a).1 entry := by
  unfold perform at finished ⊢
  unfold Holds
  cases kind : entry.kind with
  | pacman =>
    simp only [kind] at finished ⊢
    split at finished
    · cases finished
    split at finished
    · cases finished
    next found allowed =>
    rw [if_neg found, if_neg allowed]
    cases ran : a.package with
    | done => simp [World.setPackage]
    | failed there => simp [ran] at finished
  | git =>
    simp only [kind] at finished ⊢
    split at finished
    · cases finished
    split at finished
    · cases finished
    split at finished
    · cases finished
    next found allowed empty =>
    rw [if_neg found, if_neg allowed, if_neg empty]
    cases ran : a.target with
    | done =>
      refine ⟨extract 0 (network.members entry.id), by simp [World.setTarget], ?_⟩
      rw [moduleFiles, kind]
      exact fun path => rfl
    | failed left => simp [ran] at finished
  | debTar | tarball =>
    simp only [kind] at finished ⊢
    split at finished
    · cases finished
    split at finished
    · cases finished
    split at finished
    · cases finished
    split at finished
    · cases finished
    next curl download extraction privileged =>
    rw [if_neg curl, if_neg download, if_neg extraction, if_neg privileged]
    cases ran : a.target with
    | done =>
      obtain ⟨missing, same⟩ := copies (by simp [kind]) (by simpa using curl) (by simpa using download)
        (by simpa using extraction) (by simpa using privileged) ran
      refine ⟨(source network entry a.staging).2, ?_, same⟩
      simp [World.setTarget, missing, copyInto]
    | failed left => simp [ran] at finished

/-- The registry after an install, and what it says of every module. -/
theorem install_matches {network : Network} {world : World} {arg : String} {acceptLicense : Bool}
    {a : Attempt}
    (held : ∀ entry ∈ CATALOG, entry.id ∈ world.registry → Holds network world entry)
    (harmless : ∀ entry ∈ CATALOG, trim arg = entry.id →
      entry.kind = .debTar ∨ entry.kind = .tarball → entry.id ∉ world.registry →
      acceptLicense → a.curl → a.download → a.extraction → a.privileged → a.target = .done →
        world.targets entry.target = none ∧
          (source network entry a.staging).2.Same (moduleFiles network entry)) :
    ∀ entry ∈ CATALOG, entry.id ∈ (install network world arg acceptLicense a).1.registry →
      Holds network (install network world arg acceptLicense a).1 entry := by
  unfold install
  dsimp only
  split
  · exact held
  cases found : findEntry (trim arg) with
  | none => exact held
  | some own =>
    obtain ⟨known, named⟩ := findEntry_some found
    dsimp only
    split
    · exact held
    next fresh =>
    split
    · exact held
    next accepted =>
    rw [← named] at fresh
    obtain ⟨registry, frame⟩ := perform_frame network world own a
    -- the modules that were registered are others, and left as they were
    have others : ∀ entry ∈ CATALOG, entry.id ∈ world.registry →
        Holds network (perform network world own a).1 entry := by
      intro entry member listed
      refine (frame entry fun same => fresh ?_).holds (held entry member listed)
      rw [← target_inj member known same]
      exact listed
    have finished := @perform_holds network world own a
    generalize performed : perform network world own a = after at registry others finished ⊢
    obtain ⟨left, stopped⟩ := after
    cases stopped with
    | some error =>
      intro entry member listed
      exact others entry member (registry ▸ listed)
    | none =>
      intro entry member listed
      rcases List.mem_cons.mp listed with same | earlier
      · obtain rfl : entry = own := by
          have again := findEntry_of_mem member
          rw [same, named, found] at again
          exact (Option.some.inj again).symm
        exact finished rfl fun kind =>
          harmless entry member named.symm kind fresh (by simpa using accepted)
      · exact others entry member (registry ▸ earlier)

/-- The registry after an uninstall, and what it says of every module. -/
theorem uninstall_matches {network : Network} {world : World} {arg : String} {a : Attempt}
    (held : ∀ entry ∈ CATALOG, entry.id ∈ world.registry → Holds network world entry)
    (harmless : ∀ entry ∈ CATALOG, trim arg = entry.id → entry.id ∈ world.registry →
      entry.kind ≠ .pacman ∧
        (a.privileged → ∀ left, a.target = .failed left → left = world.targets entry.target)) :
    (∀ entry ∈ CATALOG, entry.id ∈ (uninstall world arg a).1.registry →
      Holds network (uninstall world arg a).1 entry) ∧
    ∀ entry ∈ CATALOG, (uninstall world arg a).2 = .removed → trim arg = entry.id →
      Gone (uninstall world arg a).1 entry := by
  unfold uninstall
  dsimp only
  split
  · exact ⟨held, fun _ _ answer => nomatch answer⟩
  cases found : findEntry (trim arg) with
  | none => exact ⟨held, fun _ _ answer => nomatch answer⟩
  | some own =>
    obtain ⟨known, named⟩ := findEntry_some found
    dsimp only
    split
    · exact ⟨held, fun _ _ answer => nomatch answer⟩
    next listed =>
    rw [not_not, ← named] at listed
    obtain ⟨kind, kept⟩ := harmless own known named.symm listed
    rw [if_neg kind]
    split
    · exact ⟨held, fun _ _ answer => nomatch answer⟩
    next privileged =>
    cases ran : a.target with
    | failed left =>
      refine ⟨fun entry member listed => ?_, fun _ _ answer => nomatch answer⟩
      have same := kept (by simpa using privileged) left ran
      have still : world.setTarget own.target left = world := by
        rw [World.setTarget, same, Function.update_eq_self]
      dsimp only at listed ⊢
      rw [still] at listed ⊢
      exact held entry member listed
    | done =>
      dsimp only
      constructor
      · intro entry member still
        obtain ⟨listed, other⟩ := List.mem_filter.mp still
        have apart : entry.target ≠ own.target := by
          intro same
          rw [target_inj member known same] at other
          simp at other
        have agrees := agrees_setTarget world none apart
        exact (⟨agrees.packages, agrees.targets⟩ : Agrees world _ entry).holds
          (held entry member listed)
      · intro entry member _ same
        obtain rfl : entry = own := by
          have again := findEntry_of_mem member
          rw [← same, found] at again
          exact (Option.some.inj again).symm
        unfold Gone
        cases shape : entry.kind with
        | pacman => exact absurd shape kind
        | git | debTar | tarball => simp [World.setTarget]

theorem Matches.step {network : Network} {history : History} {call : Call}
    (harmless : Harmless network history call) (same : Matches network history) :
    Matches network (step network history call) := by
  cases call with
  | install arg acceptLicense a =>
    unfold Harmless at harmless
    have registered := @install_matches network history.world arg acceptLicense a same.registered
      harmless
    rw [Modules.step]
    generalize install network history.world arg acceptLicense a = after at registered ⊢
    refine ⟨registered, ?_⟩
    intro entry member other attempt last
    cases last
  | uninstall arg a =>
    unfold Harmless at harmless
    obtain ⟨registered, removed⟩ := @uninstall_matches network history.world arg a same.registered
      harmless
    rw [Modules.step]
    generalize uninstall history.world arg a = after at registered removed ⊢
    refine ⟨registered, ?_⟩
    intro entry member other attempt last named
    obtain ⟨called, answer⟩ := Prod.mk.inj (Option.some.inj last)
    obtain ⟨rfl, _⟩ := Call.uninstall.inj called
    exact removed entry member answer named

/-- In every run of harmless calls from a clean host the registry matches the host in every state. -/
theorem registry_matches (network : Network) (calls : List Call)
    (harmless : Execution.Along (step network) (Harmless network) clean calls) :
    ∀ before after, calls = before ++ after → Matches network (run network before) := by
  intro before after split
  rw [split] at harmless
  refine Execution.invariant_along (fun _ _ allowed same => Matches.step allowed same) ?_
    (Execution.along_append.mp harmless).1
  exact ⟨fun _ _ none => absurd none List.not_mem_nil, fun _ _ _ _ last => nomatch last⟩

/-- Repositories and archives of two files each, in a directory of their own in an archive. -/
def upstream : Network where
  members id :=
    if id = "cockpit-sensors" then
      [(["cockpit-sensors"], .directory), (["cockpit-sensors", "manifest.json"], .file "\x7b\x7d"),
        (["cockpit-sensors", "index.html"], .file "<html>")]
    else [(["manifest.json"], .file "\x7b\x7d"), (["index.html"], .file "<html>")]
  archive _ := "xz"

/-- Every command succeeds. -/
def smooth : Attempt where
  manager := some "pacman"
  curl := true
  git := true
  privileged := true
  download := true
  extraction := true
  staging := "sysdeck-module-a1b2c3"
  package := .done
  target := .done

theorem smooth_harmless {id : String} (named : trim id = id)
    (git : ∀ entry ∈ CATALOG, id = entry.id → entry.kind = .git) (network : Network)
    (history : History) (accept : Bool) :
    Harmless network history (.install id accept smooth) ∧
      Harmless network history (.uninstall id smooth) := by
  constructor
  · intro entry member same kind
    rw [git entry member (named.symm.trans same)] at kind
    exact absurd kind (by decide)
  · intro entry member same _
    rw [git entry member (named.symm.trans same)]
    exact ⟨by decide, fun _ left failed => nomatch failed⟩

theorem registry_matches_benchmark :
    Matches upstream (run upstream
      [.install "cockpit-benchmark" true smooth, .uninstall "cockpit-benchmark" smooth]) := by
  have harmless := @smooth_harmless "cockpit-benchmark" (by decide +kernel) (by decide) upstream
  exact registry_matches upstream
    [.install "cockpit-benchmark" true smooth, .uninstall "cockpit-benchmark" smooth]
    ⟨(harmless _ true).1, (harmless _ true).2, trivial⟩ _ [] (List.append_nil _).symm

/-- The uninstalled package is still installed, and the archive is among the files of a module that
comes in one. -/
theorem registry_mismatch :
    ¬ Matches upstream (run upstream
        [.install "cockpit-podman" true smooth, .uninstall "cockpit-podman" smooth]) ∧
      ¬ Matches upstream (run upstream [.install "cockpit-sensors" true smooth]) := by
  constructor
  · intro same
    have gone := same.removed ⟨"cockpit-podman", .pacman, "cockpit-podman", 0⟩ (by decide)
      "cockpit-podman" smooth (by rfl) (by decide +kernel)
    exact absurd gone (by unfold Gone; decide +kernel)
  · intro same
    obtain ⟨tree, stands, files⟩ := same.registered ⟨"cockpit-sensors", .tarball, "sensors", 1⟩
      (by decide) (by decide +kernel)
    have copied : (run upstream [.install "cockpit-sensors" true smooth]).world.targets "sensors" =
        some (source upstream ⟨"cockpit-sensors", .tarball, "sensors", 1⟩ smooth.staging).2 := by
      decide +kernel
    rw [copied] at stands
    obtain rfl := Option.some.inj stands
    exact absurd (files ["dl"]) (by decide +kernel)

end SysDeck.Web.Modules
