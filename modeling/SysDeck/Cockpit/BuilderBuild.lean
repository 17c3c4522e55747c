import SysDeck.Cockpit.BuilderIds
import SysDeck.Cockpit.Cgroups
import SysDeck.Cockpit.MkosiMigration
import SysDeck.Library.PythonJson

/-! The start of a build: what the arguments ask for, the rewriting of the profile, the work directory
of mkosi, and the check and the making of the output directory. -/

namespace SysDeck.Cockpit.Builder

open FileTree
open Cgroups (parse)
open PackageFiles (migrateLegacyMkosiPackages)
open Profiles (Backend BUILDER_ARTIFACTS_DIR Disk Profile archisoProfiles liveBuildProfiles mkosiProfiles
  vmdb2Profiles)
open PythonJson (Numeral Value)

def BUILDER_STATE_DIR : Profiles.Path := ["var", "lib", "sysdeck", "builder", "state"]

def BUILDER_LOGS_DIR : Profiles.Path := ["var", "lib", "sysdeck", "builder", "logs"]

/-- The nodes of the file system, and the text of each file. -/
structure World where
  tree : Tree
  text : Location → List Char

/-- What a call meets: the backends whose binaries are found, the disk as the discovery of profiles reads
it, the working directory and that of temporary files, the names that `mkdtemp` tries, the limits of the
kernel and of the interpreter on links, where a node may be made, which files are readable, what a file
holds after a text was written to it, whether links and copies can be made in a work directory and what
of it can be removed, how numbers are read and which are zero, and the path that a text names, nothing
where it cannot be one. -/
structure Machine where
  which : Backend → Bool
  disk : Disk
  home : Profiles.Path
  cwd : Location
  tmp : Location
  names : List String
  links : ℕ
  depth : ℕ
  permits : Location → Bool
  readable : Location → Bool
  stored : Location → List Char → List Char
  symlinks : Bool
  copies : Bool
  removes : Location → Bool
  numeral : List Char → Numeral
  isZero : Numeral → Bool
  encode : List CodeUnit → Option String

variable (machine : Machine)

/-! ### The request -/

def CANDIDATES : List Backend := [.mkosi, .vmdb2, .archiso, .liveBuild]

/-- `BACKENDS`, as `_detect_backends` fills it. -/
def Machine.BACKENDS : List Backend := CANDIDATES.filter machine.which

/-- `DISCOVERY` -/
def Machine.discover : Backend → List Profile
  | .mkosi => mkosiProfiles machine.disk machine.home
  | .vmdb2 => vmdb2Profiles machine.disk machine.home
  | .archiso => archisoProfiles machine.disk
  | .liveBuild => liveBuildProfiles machine.disk machine.home

def Machine.profiles : List Profile := machine.BACKENDS.flatMap machine.discover

inductive Refusal where
  | nameRequired
  | notFound (profile : String)
  | notInstalled (backend : String)
  | noCommand (backend : String)
  | outside (directory : String)
  | uncreatable (directory : String) (exc : Errno)
  deriving DecidableEq

/-- The text of the error, given that of an exception. -/
def Refusal.error (str : Errno → String) : Refusal → String
  | .nameRequired => "profile name required"
  | .notFound profile => "profile '" ++ profile ++ "' not found"
  | .notInstalled backend => "backend '" ++ backend ++ "' is not installed"
  | .noCommand backend => "no build command for backend '" ++ backend ++ "'"
  | .outside directory =>
    "refusing to build: output directory '" ++ directory ++ "' is not under /var/lib/, /tmp/, or " ++
      "/var/tmp/. Build outputs must go to /var/lib/sysdeck/builder/artifacts/<profile>/ to avoid " ++
      "corrupting system config directories."
  | .uncreatable directory exc => "cannot create artifacts dir '" ++ directory ++ "': " ++ str exc

structure Request where
  profile : Profile
  backend : Backend
  options : Value

/-- The second argument, if there is one and it is no option. -/
def backendOverride : List String → Option String
  | [] => none
  | first :: _ => if "--".toList.isPrefixOf first.toList then none else some first

/-- The last `--options=` that can be decoded -/
def optionsOf (rest : List String) : Value :=
  rest.foldl (fun options arg =>
    if "--options=".toList.isPrefixOf arg.toList then
      (Value.loads machine.numeral (arg.toList.drop "--options=".length)).getD options
    else options) (.object [])

/-- `build` up to the choice of the backend -/
def Machine.request : List String → Except Refusal Request
  | [] => .error .nameRequired
  | pname :: rest =>
    match machine.profiles.find? (·.name = pname) with
    | none => .error (.notFound pname)
    | some profile =>
      let backendId := ((backendOverride rest).filter (· ≠ "")).getD profile.backend.id
      match machine.BACKENDS.find? (·.id = backendId) with
      | none => .error (.notInstalled backendId)
      | some backend => .ok ⟨profile, backend, optionsOf machine rest⟩

theorem request_of_found {pname : String} {rest : List String} {profile : Profile} {backend : Backend}
    (found : machine.profiles.find? (·.name = pname) = some profile)
    (installed : machine.BACKENDS.find?
      (·.id = ((backendOverride rest).filter (· ≠ "")).getD profile.backend.id) = some backend) :
    machine.request (pname :: rest) = .ok ⟨profile, backend, optionsOf machine rest⟩ := by
  unfold Machine.request
  simp only [found, installed]

/-! ### The work directory -/

/-- The place of the file that a path names, if it names one. -/
def Machine.fileOf (tree : Tree) (path : Profiles.Path) : Option Location :=
  match lookup tree false machine.links [] path with
  | .ok place => if tree place = some .file then some place else none
  | .error _ => none

/-- The migration of the profile before a build -/
def Machine.migrate (world : World) (path : Profiles.Path) : World :=
  match machine.fileOf world.tree path with
  | none => world
  | some place =>
    if machine.readable place then
      match migrateLegacyMkosiPackages (some (world.text place)) with
      | (.migrated _ _, some content) =>
        { world with text := Function.update world.text place (machine.stored place content) }
      | _ => world
    else world

/-- `tempfile.mkdtemp(prefix="sysdesk-mkosi-")`: the first name that is free; nothing where it raises. -/
def Machine.mkdtemp (tree : Tree) : Option Location :=
  if tree machine.tmp = some .directory then
    ((machine.names.map fun name => ("sysdesk-mkosi-" ++ name) :: machine.tmp).find?
      fun work => tree work = none).filter machine.permits
  else none

/-- `mkosi.conf` of a work directory: a link to the file itself, or else a copy of it. -/
def Machine.entry (tree : Tree) (path : Profiles.Path) : Option Node :=
  (resolve tree machine.depth [] path).bind fun target =>
    if machine.symlinks then some (.link ⟨true, target.reverse⟩)
    else if machine.copies then some .file
    else none

/-- A work directory, and the tree with it; nothing where an exception is raised. -/
def Machine.workDir (tree : Tree) (path : Profiles.Path) : Option (Location × Tree) := do
  let work ← machine.mkdtemp tree
  let made := Function.update tree work (some .directory)
  let entry ← machine.entry made path
  some (work, Function.update made ("mkosi.conf" :: work) (some entry))

/-- `_prepare_mkosi_work_dir` -/
def Machine.prepareMkosiWorkDir (world : World) (path : Profiles.Path) : Option (Option Location × World) :=
  match machine.fileOf world.tree path with
  | none => some (none, world)
  | some place => do
    let (work, tree) ← machine.workDir world.tree path
    some (some work, ⟨tree, Function.update world.text ("mkosi.conf" :: work) (world.text place)⟩)

/-- The world in which a backend is run, and its temporary directory. -/
def Machine.prepare (world : World) (request : Request) : Option (Option Location × World) :=
  if request.backend = .mkosi then
    machine.prepareMkosiWorkDir (machine.migrate world request.profile.path) request.profile.path
  else some (none, world)

/-! ### The command -/

def Machine.truthy : Value → Bool
  | .null => false
  | .bool value => value
  | .number numeral => !machine.isZero numeral
  | .string units => !units.isEmpty
  | .array items => !items.isEmpty
  | .object fields => !fields.isEmpty

def isObject : Value → Bool
  | .object _ => true
  | _ => false

def word (text : String) : Value := .string (Utf16.encode text.toList)

/-- `options.get(name)`, where it is true -/
def Machine.given (options : Value) (name : String) : Option Value :=
  (options.get? (Utf16.encode name.toList)).filter machine.truthy

/-- `str(BUILDER_ARTIFACTS_DIR / pname)` -/
def defaultDir (pname : String) : String :=
  (Profiles.under BUILDER_ARTIFACTS_DIR pname).foldl (fun text name => text ++ "/" ++ name) ""

/-- `_backend_build_command`; nothing where the options are no object that it asks. -/
def Machine.backendBuildCommand (request : Request) : Option (List Value) :=
  let pname := request.profile.name
  let ppath := word (request.profile.path.foldl (fun text name => text ++ "/" ++ name) "")
  let out := (machine.given request.options "output_dir").getD (word (defaultDir pname))
  match request.backend with
  | .mkosi =>
    if !isObject request.options then none
    else
      let outputName := (machine.given request.options "output_name").getD (word (pname ++ ".raw"))
      let force := ((request.options.get? (Utf16.encode "force".toList)).map machine.truthy).getD true
      some ([word "mkosi", word "build", word "--output", outputName, word "--output-dir", out] ++
        (if force then [word "--force"] else []) ++
        ((machine.given request.options "image_format").map fun format => [word "--format", format]).getD [])
  | .archiso => some [word "mkarchiso", ppath, word "build"]
  | .vmdb2 =>
    if !isObject request.options then none else some [word "vmdb2", ppath, word "--output", out]
  | .liveBuild => some [word "lb", word "build"]

/-! ### The output directory -/

/-- The text that `Path` is given; nothing where that raises. -/
def Machine.outputDir (request : Request) : Option String :=
  match machine.given request.options "output_dir" with
  | none => some (defaultDir request.profile.name)
  | some (.string units) => machine.encode units
  | some _ => none

/-- `Path(text).resolve()`; nothing where links have no end. -/
def Machine.resolve (tree : Tree) (text : String) : Option Location :=
  FileTree.resolve tree machine.depth ((parse text).start machine.cwd) (parse text).parts

/-- The names of a path as it is written, from `/`; two slashes are another root. -/
def rooted (text : String) : Option (List String) :=
  if "//".toList.isPrefixOf text.toList && !"///".toList.isPrefixOf text.toList then none
  else if (parse text).absolute then some (parse text).parts
  else none

def ALLOWED_ROOTS : List (List String) := [["var", "lib"], ["tmp"], ["var", "tmp"]]

/-- The output directory is that of the profile, or under one of the roots; nothing where an exception is
raised. -/
def Machine.allowed (tree : Tree) (text pname : String) : Option Bool :=
  (machine.resolve tree (defaultDir pname)).map fun expected =>
    let resolved := ((machine.resolve tree text).map List.reverse).or (rooted text)
    resolved = some expected.reverse || ALLOWED_ROOTS.any fun root => resolved.any root.isPrefixOf

/-- How a call ends: with an exception, with an error, or with the run of a command. -/
inductive Result where
  | raised
  | error (refusal : Refusal) (left : World)
  | started (command : List Value) (work : Option Location) (left : World)

/-- The check and the making of the output directory -/
def Machine.makeOutput (world : World) (request : Request) (command : List Value) (work : Option Location) :
    Result :=
  match machine.outputDir request with
  | none => .raised
  | some text =>
    match machine.allowed world.tree text request.profile.name with
    | none => .raised
    | some false => .error (.outside text) world
    | some true =>
      match mkdir machine.permits machine.links ((parse text).start machine.cwd) true world.tree
          (parse text).parts.reverse with
      | (made, none) => .started command work { world with tree := made }
      | (made, some exc) => .error (.uncreatable text exc) { world with tree := made }

/-- `shutil.rmtree(work, ignore_errors=True)` -/
def Machine.rmtree (world : World) (work : Location) : World :=
  { world with tree := fun place =>
      if work.isSuffixOf place && machine.removes place then none else world.tree place }

/-- `build` up to the run of its command, from where no error is returned. -/
def Machine.build (world : World) (args : List String) : Result :=
  match machine.request args with
  | .error refusal => .error refusal world
  | .ok request =>
    match machine.prepare world request with
    | none => .raised
    | some (work, prepared) =>
      match machine.backendBuildCommand request with
      | none => .raised
      | some [] => .error (.noCommand request.backend.id) (work.elim prepared (machine.rmtree prepared))
      | some command =>
        if request.backend = .mkosi ∨ request.backend = .vmdb2 then
          machine.makeOutput prepared request command work
        else .started command work prepared

/-! ### What a refused build leaves -/

/-- At or below the directory of temporary files, or that of states, of logs or of artifacts. -/
def Machine.Observed (tree : Tree) (place : Location) : Prop :=
  machine.tmp <:+ place ∨
    ∃ directory ∈ [BUILDER_STATE_DIR, BUILDER_LOGS_DIR, BUILDER_ARTIFACTS_DIR], ∃ root,
      FileTree.resolve tree machine.depth [] directory = some root ∧ root <:+ place

/-- The file of a profile of the name. -/
def Machine.ProfileFile (tree : Tree) (args : List String) (place : Location) : Prop :=
  ∃ profile ∈ machine.profiles, args.head? = some profile.name ∧
    machine.fileOf tree profile.path = some place

/-- The profile file and the directories are as they were. -/
def Machine.Unchanged (args : List String) (world left : World) : Prop :=
  ∀ place, machine.Observed world.tree place ∨ machine.ProfileFile world.tree args place →
    left.tree place = world.tree place ∧ left.text place = world.text place

/-- A build that is refused leaves all of them as they were. -/
def Machine.RefusesClean (world : World) (args : List String) : Prop :=
  ∀ refusal left, machine.build world args = .error refusal left → machine.Unchanged args world left

/-- mkosi is to build the file of a profile. -/
def Machine.BuildsFile (tree : Tree) (request : Request) : Prop :=
  request.backend = .mkosi ∧ (machine.fileOf tree request.profile.path).isSome

/-- The walk of the output directory's path, with the names that are missing. -/
def Machine.walkOf (tree : Tree) (text : String) : Filled :=
  fill machine.permits machine.links ((parse text).start machine.cwd) tree (parse text).parts.reverse

/-- The output directory is refused, or can be made, or nothing is made of it in the directories; with a
work directory, it is not refused and can be made. -/
structure Machine.Harmless (tree : Tree) (request : Request) (text : String) : Prop where
  bare : ¬machine.BuildsFile tree request →
    machine.allowed tree text request.profile.name = some true →
    (machine.walkOf tree text).goesOn ∨ ∀ place ∈ (machine.walkOf tree text).gaps, ¬machine.Observed tree place
  linked : machine.BuildsFile tree request →
    ∀ work made, machine.workDir tree request.profile.path = some (work, made) →
      machine.allowed made text request.profile.name ≠ some false ∧
        (machine.allowed made text request.profile.name = some true → (machine.walkOf made text).goesOn)

/-- Whatever the arguments ask of mkosi or vmdb2 is harmless. -/
def Machine.HarmlessFor (tree : Tree) (args : List String) : Prop :=
  ∀ request text, machine.request args = .ok request →
    request.backend = .mkosi ∨ request.backend = .vmdb2 → isObject request.options →
    machine.outputDir request = some text → machine.Harmless tree request text

variable {machine}

theorem backendBuildCommand_ne_nil (request : Request) : machine.backendBuildCommand request ≠ some [] := by
  unfold Machine.backendBuildCommand
  cases request.backend with
  | mkosi =>
    by_cases object : isObject request.options
    · simp only [object, Bool.not_true, Bool.false_eq_true, if_false]
      exact fun empty => List.cons_ne_nil _ _ (Option.some.inj empty)
    · simp only [object, Bool.not_false, if_true]
      exact (Option.some_ne_none _).symm
  | vmdb2 =>
    by_cases object : isObject request.options
    · simp only [object, Bool.not_true, Bool.false_eq_true, if_false]
      exact fun empty => List.cons_ne_nil _ _ (Option.some.inj empty)
    · simp only [object, Bool.not_false, if_true]
      exact (Option.some_ne_none _).symm
  | archiso => exact fun empty => List.cons_ne_nil _ _ (Option.some.inj empty)
  | liveBuild => exact fun empty => List.cons_ne_nil _ _ (Option.some.inj empty)

/-- The options are an object wherever the command needs them. -/
theorem backendBuildCommand_isSome {request : Request}
    (kind : request.backend = .mkosi ∨ request.backend = .vmdb2) :
    (machine.backendBuildCommand request).isSome ↔ isObject request.options := by
  unfold Machine.backendBuildCommand
  by_cases object : isObject request.options
  · refine iff_of_true ?_ object
    rcases kind with same | same
    · rw [same]
      simp only [object, Bool.not_true, Bool.false_eq_true, if_false]
      rfl
    · rw [same]
      simp only [object, Bool.not_true, Bool.false_eq_true, if_false]
      rfl
  · refine iff_of_false ?_ object
    rcases kind with same | same
    · rw [same]
      simp only [object, Bool.not_false, if_true]
      exact Bool.false_ne_true
    · rw [same]
      simp only [object, Bool.not_false, if_true]
      exact Bool.false_ne_true

theorem mkdtemp_spec {tree : Tree} {work : Location} (made : machine.mkdtemp tree = some work) :
    tree work = none ∧ machine.tmp <:+ work := by
  unfold Machine.mkdtemp at made
  split at made
  · obtain ⟨found, -⟩ := Option.filter_eq_some_iff.mp made
    have free := List.find?_some found
    obtain ⟨name, -, rfl⟩ := List.mem_map.mp (List.mem_of_find?_eq_some found)
    exact ⟨of_decide_eq_true free, List.suffix_cons _ _⟩
  · cases made

/-- A work directory stands where nothing stood. -/
theorem workDir_spec {tree made : Tree} {path : Profiles.Path} {work : Location}
    (prepared : machine.workDir tree path = some (work, made)) :
    tree work = none ∧ machine.tmp <:+ work ∧ made work = some .directory := by
  unfold Machine.workDir at prepared
  obtain ⟨place, found, prepared⟩ := Option.bind_eq_some_iff.mp prepared
  obtain ⟨entry, -, prepared⟩ := Option.bind_eq_some_iff.mp prepared
  obtain ⟨rfl, rfl⟩ := Prod.mk.inj (Option.some.inj prepared)
  obtain ⟨free, below⟩ := mkdtemp_spec found
  refine ⟨free, below, ?_⟩
  rw [Function.update_of_ne (List.cons_ne_self _ _).symm, Function.update_self]

theorem migrate_tree (world : World) (path : Profiles.Path) : (machine.migrate world path).tree = world.tree := by
  unfold Machine.migrate
  split
  · rfl
  · split
    · split
      · rfl
      · rfl
    · rfl

/-- Without a file for mkosi nothing is prepared. -/
theorem prepare_bare {world : World} {request : Request} (bare : ¬machine.BuildsFile world.tree request) :
    machine.prepare world request = some (none, world) := by
  unfold Machine.prepare
  split
  · next mkosi =>
    have absent : machine.fileOf world.tree request.profile.path = none :=
      Option.not_isSome_iff_eq_none.mp fun there => bare ⟨mkosi, there⟩
    have same : machine.migrate world request.profile.path = world := by
      unfold Machine.migrate
      rw [absent]
    unfold Machine.prepareMkosiWorkDir
    rw [same, absent]
  · rfl

/-- The file of an mkosi build is linked from a work directory. -/
theorem prepare_linked {world : World} {request : Request} (linked : machine.BuildsFile world.tree request) :
    (machine.workDir world.tree request.profile.path = none ∧ machine.prepare world request = none) ∨
      ∃ work made text, machine.workDir world.tree request.profile.path = some (work, made) ∧
        machine.prepare world request = some (some work, ⟨made, text⟩) := by
  obtain ⟨mkosi, there⟩ := linked
  obtain ⟨place, found⟩ := Option.isSome_iff_exists.mp there
  unfold Machine.prepare Machine.prepareMkosiWorkDir
  rw [if_pos mkosi, migrate_tree, found]
  cases made : machine.workDir world.tree request.profile.path with
  | none => exact .inl ⟨rfl, rfl⟩
  | some prepared => exact .inr ⟨prepared.1, prepared.2, _, rfl, rfl⟩

/-- How the output directory is taken. -/
theorem makeOutput_cases {world : World} {request : Request} {command : List Value} {work : Option Location}
    {refusal : Refusal} {left : World}
    (refused : machine.makeOutput world request command work = .error refusal left) :
    ∃ text, machine.outputDir request = some text ∧
      (machine.allowed world.tree text request.profile.name = some false ∧ left = world ∨
        machine.allowed world.tree text request.profile.name = some true ∧
          (machine.walkOf world.tree text).goesOn = false ∧
          left = { world with tree := (machine.walkOf world.tree text).tree }) := by
  unfold Machine.makeOutput at refused
  split at refused
  · cases refused
  next text given =>
  refine ⟨text, given, ?_⟩
  split at refused
  · cases refused
  · next outside =>
    obtain ⟨rfl, rfl⟩ := Result.error.inj refused
    exact .inl ⟨outside, rfl⟩
  · next inside =>
    have filled := @mkdir_fill machine.permits machine.links ((parse text).start machine.cwd) world.tree
      (parse text).parts.reverse
    split at refused
    · cases refused
    · next made exc stopped =>
      obtain ⟨rfl, rfl⟩ := Result.error.inj refused
      rw [stopped] at filled
      refine .inr ⟨inside, ?_, ?_⟩
      · exact Bool.eq_false_iff.mpr fun going => Option.some_ne_none _ (filled.2.mpr going)
      · rw [Machine.walkOf, ← filled.1]

theorem makeOutput_outside {world : World} {request : Request} {command : List Value} {work : Option Location}
    {text : String} (given : machine.outputDir request = some text)
    (outside : machine.allowed world.tree text request.profile.name = some false) :
    machine.makeOutput world request command work = .error (.outside text) world := by
  unfold Machine.makeOutput
  simp only [given, outside]

theorem makeOutput_stopped {world : World} {request : Request} {command : List Value} {work : Option Location}
    {text : String} (given : machine.outputDir request = some text)
    (inside : machine.allowed world.tree text request.profile.name = some true)
    (stopped : ¬(machine.walkOf world.tree text).goesOn) :
    ∃ refusal, machine.makeOutput world request command work =
      .error refusal { world with tree := (machine.walkOf world.tree text).tree } := by
  have filled := @mkdir_fill machine.permits machine.links ((parse text).start machine.cwd) world.tree
    (parse text).parts.reverse
  unfold Machine.makeOutput
  simp only [given, inside]
  split
  · next made ended =>
    rw [ended] at filled
    exact absurd (filled.2.mp rfl) stopped
  · next made exc ended =>
    rw [ended] at filled
    exact ⟨.uncreatable text exc, by rw [Machine.walkOf, ← filled.1]⟩

/-- The start of a build for mkosi or vmdb2, once it is prepared. -/
theorem build_output {world prepared : World} {args : List String} {request : Request} {work : Option Location}
    (asked : machine.request args = .ok request) (kind : request.backend = .mkosi ∨ request.backend = .vmdb2)
    (object : isObject request.options) (ready : machine.prepare world request = some (work, prepared)) :
    ∃ command, machine.build world args = machine.makeOutput prepared request command work := by
  have runs : (machine.backendBuildCommand request).isSome := (backendBuildCommand_isSome kind).mpr object
  obtain ⟨command, built⟩ := Option.isSome_iff_exists.mp runs
  refine ⟨command, ?_⟩
  have some_ : command ≠ [] := by
    rintro rfl
    exact backendBuildCommand_ne_nil request built
  unfold Machine.build
  rw [asked]
  simp only [ready, built, if_pos kind]

/-- Where an error comes from: the request, or the output directory. -/
theorem build_error {world left : World} {args : List String} {refusal : Refusal}
    (refused : machine.build world args = .error refusal left) :
    left = world ∨ ∃ request work prepared command, machine.request args = .ok request ∧
      (request.backend = .mkosi ∨ request.backend = .vmdb2) ∧ isObject request.options ∧
      machine.prepare world request = some (work, prepared) ∧
      machine.makeOutput prepared request command work = .error refusal left := by
  unfold Machine.build at refused
  split at refused
  · exact .inl (Result.error.inj refused).2.symm
  next request asked =>
  right
  split at refused
  · cases refused
  next work prepared ready =>
  split at refused
  · cases refused
  · next empty => exact absurd empty (backendBuildCommand_ne_nil request)
  next command _ built =>
  split at refused
  · next kind =>
    have object := (backendBuildCommand_isSome kind).mp (by rw [built]; rfl)
    exact ⟨request, work, prepared, command, asked, kind, object, ready, refused⟩
  · cases refused

/-! ### What the output directory leaves -/

theorem Unchanged.refl (args : List String) (world : World) : machine.Unchanged args world world :=
  fun _ _ => ⟨rfl, rfl⟩

theorem ne_none_of_profileFile {tree : Tree} {args : List String} {place : Location}
    (file : machine.ProfileFile tree args place) : tree place ≠ none := by
  obtain ⟨profile, -, -, found⟩ := file
  unfold Machine.fileOf at found
  split at found
  · split at found
    · next kind =>
      obtain rfl := Option.some.inj found
      rw [kind]
      exact Option.some_ne_none _
    · cases found
  · cases found

theorem walkOf_tree (tree : Tree) (text : String) (place : Location) : (machine.walkOf tree text).tree place =
    if place ∈ (machine.walkOf tree text).gaps then some .directory else tree place :=
  fill_tree tree _ place

/-- A directory stays one on the way to the output directory. -/
theorem walkOf_directory {tree : Tree} {place : Location} (stands : tree place = some .directory)
    (text : String) : (machine.walkOf tree text).tree place = some .directory := by
  rw [walkOf_tree]
  split
  · rfl
  · exact stands

/-- What is made on the way to the output directory is a change where it is observed. -/
theorem unchanged_filled_iff {args : List String} {world : World} {text : String} :
    machine.Unchanged args world { world with tree := (machine.walkOf world.tree text).tree } ↔
      ∀ place ∈ (machine.walkOf world.tree text).gaps, ¬machine.Observed world.tree place := by
  constructor
  · intro unchanged place gap observed
    have same : (machine.walkOf world.tree text).tree place = world.tree place :=
      (unchanged place (.inl observed)).1
    have free : world.tree place = none := gaps_missing gap
    rw [walkOf_tree, if_pos gap, free] at same
    cases same
  · intro clean place kept
    refine ⟨?_, rfl⟩
    have other : place ∉ (machine.walkOf world.tree text).gaps := by
      intro gap
      rcases kept with observed | file
      · exact clean place gap observed
      · exact ne_none_of_profileFile file (gaps_missing gap)
    exact (walkOf_tree world.tree text place).trans (if_neg other)

/-- Without a work directory. -/
theorem refusesClean_bare_iff {world : World} {args : List String} {request : Request} {text : String}
    (asked : machine.request args = .ok request) (kind : request.backend = .mkosi ∨ request.backend = .vmdb2)
    (object : isObject request.options) (given : machine.outputDir request = some text)
    (bare : ¬machine.BuildsFile world.tree request) :
    machine.RefusesClean world args ↔ (machine.allowed world.tree text request.profile.name = some true →
      (machine.walkOf world.tree text).goesOn ∨
        ∀ place ∈ (machine.walkOf world.tree text).gaps, ¬machine.Observed world.tree place) := by
  obtain ⟨command, built⟩ := build_output asked kind object (prepare_bare bare)
  unfold Machine.RefusesClean
  rw [built]
  constructor
  · intro clean inside
    by_contra dirty
    obtain ⟨stopped, touched⟩ := not_or.mp dirty
    obtain ⟨refusal, refused⟩ := makeOutput_stopped given inside stopped
    exact touched (unchanged_filled_iff.mp (clean _ _ refused))
  · intro harmless refusal left refused
    obtain ⟨text', given', ends⟩ := makeOutput_cases refused
    obtain rfl := Option.some.inj (given.symm.trans given')
    rcases ends with ⟨-, rfl⟩ | ⟨inside, stopped, rfl⟩
    · exact Unchanged.refl args _
    · rcases harmless inside with going | untouched
      · rw [stopped] at going
        cases going
      · exact unchanged_filled_iff.mpr untouched

/-- A work directory stays when the build is refused. -/
theorem not_unchanged_of_work {world left : World} {args : List String} {work : Location}
    (free : world.tree work = none) (below : machine.tmp <:+ work) (stands : left.tree work = some .directory) :
    ¬machine.Unchanged args world left := by
  intro unchanged
  have same := (unchanged work (.inl (.inl below))).1
  rw [free, stands] at same
  cases same

/-- With a work directory. -/
theorem refusesClean_linked_iff {world : World} {args : List String} {request : Request} {text : String}
    (asked : machine.request args = .ok request) (kind : request.backend = .mkosi ∨ request.backend = .vmdb2)
    (object : isObject request.options) (given : machine.outputDir request = some text)
    (linked : machine.BuildsFile world.tree request) :
    machine.RefusesClean world args ↔
      ∀ work made, machine.workDir world.tree request.profile.path = some (work, made) →
        machine.allowed made text request.profile.name ≠ some false ∧
          (machine.allowed made text request.profile.name = some true → (machine.walkOf made text).goesOn) := by
  unfold Machine.RefusesClean
  rcases prepare_linked linked with ⟨absent, raised⟩ | ⟨work, made, texts, prepared, ready⟩
  · rw [absent]
    refine iff_of_true ?_ (fun _ _ same => by cases same)
    intro refusal left refused
    unfold Machine.build at refused
    rw [asked] at refused
    simp only [raised] at refused
    cases refused
  · obtain ⟨free, below, stands⟩ := workDir_spec prepared
    obtain ⟨command, built⟩ := build_output asked kind object ready
    rw [built]
    constructor
    · intro clean work' made' prepared'
      obtain ⟨rfl, rfl⟩ := Prod.mk.inj (Option.some.inj (prepared.symm.trans prepared'))
      constructor
      · intro outside
        exact not_unchanged_of_work free below stands (clean _ _ (makeOutput_outside given outside))
      · intro inside
        by_contra stopped
        obtain ⟨refusal, refused⟩ :=
          @makeOutput_stopped machine ⟨made, texts⟩ request command (some work) text given inside stopped
        exact not_unchanged_of_work free below (walkOf_directory stands text) (clean _ _ refused)
    · intro harmless refusal left refused
      obtain ⟨inside, goes⟩ := harmless work made prepared
      obtain ⟨text', given', ends⟩ := makeOutput_cases refused
      obtain rfl := Option.some.inj (given.symm.trans given')
      rcases ends with ⟨outside, -⟩ | ⟨allowed, stopped, -⟩
      · exact absurd outside inside
      · rw [goes allowed] at stopped
        cases stopped

/-- A host with mkosi and one profile, `/etc/mkosi/mkosi.conf`. -/
def archHost : Machine where
  which backend := backend = .mkosi
  disk := { files := [["etc", "mkosi", "mkosi.conf"]], directories := [["etc"], ["etc", "mkosi"]] }
  home := ["root"]
  cwd := []
  tmp := ["tmp"]
  names := ["a"]
  links := 40
  depth := 40
  permits _ := true
  readable _ := true
  stored _ text := text
  symlinks := true
  copies := true
  removes _ := true
  numeral _ := .zero
  isZero numeral := numeral.text = ['0']
  encode units := (Utf16.decode? units).map String.ofList

def archWorld : World where
  tree place :=
    if place = ["mkosi.conf", "mkosi", "etc"] then some .file
    else if place = [] ∨ place = ["etc"] ∨ place = ["mkosi", "etc"] ∨ place = ["tmp"] then some .directory
    else none
  text _ := "[Packages]\nPackages=\n    vim\n    git\n".toList

def mkosiProfile : Profile := ⟨"mkosi", ["etc", "mkosi", "mkosi.conf"], .mkosi⟩

def etcOptions : Value :=
  .object [(Utf16.encode "output_dir".toList, .string (Utf16.encode "/etc/x".toList))]

/-- The option that asks for an output directory in `/etc`. -/
def toEtc : String := "--options=\x7b\"output_dir\": \"/etc/x\"\x7d"

theorem toEtc_options : optionsOf archHost [toEtc] = etcOptions := by
  have opens : "--options=".toList.isPrefixOf toEtc.toList := by decide
  have written : toEtc.toList.drop "--options=".length = etcOptions.dumps ++ [] := by decide
  have stops : PythonJson.Stops [] := fun c member => by cases member
  unfold optionsOf
  rw [List.foldl_cons, List.foldl_nil, if_pos opens, written, Value.loads_dumps_append etcOptions stops rfl]
  rfl

end SysDeck.Cockpit.Builder
