import Mathlib.Data.List.Infix

/-! The profiles of the image builder: where they are created and copied to, and where they are
discovered. -/

namespace SysDeck.Cockpit.Profiles

/-- The names from the root. -/
abbrev Path := List String

structure Disk where
  files : List Path
  directories : List Path

def Disk.isFile (disk : Disk) (path : Path) : Bool := disk.files.contains path

def Disk.isDir (disk : Disk) (path : Path) : Bool := disk.directories.contains path

def Disk.exists (disk : Disk) (path : Path) : Bool := disk.isFile path || disk.isDir path

/-- `sorted(directory.iterdir())` -/
def Disk.children (disk : Disk) (directory : Path) : List String :=
  let names := (disk.files ++ disk.directories).filterMap fun path =>
    if path.dropLast = directory then path.getLast? else none
  names.mergeSort fun first second => first ≤ second

inductive Backend where
  | mkosi | vmdb2 | archiso | liveBuild
  deriving DecidableEq

def Backend.id : Backend → String
  | .mkosi => "mkosi"
  | .vmdb2 => "vmdb2"
  | .archiso => "archiso"
  | .liveBuild => "live-build"

structure Profile where
  name : String
  path : Path
  backend : Backend
  deriving DecidableEq

/-! ### Discovery -/

def MKOSI_DIRS (home : Path) : List Path :=
  [["etc", "mkosi", "profiles"], ["etc", "mkosi"], ["usr", "share", "mkosi"],
    home ++ [".config", "mkosi"]]

def ARCHISO_DIRS : List Path :=
  [["usr", "share", "archiso", "configs"], ["etc", "archiso", "configs"]]

def VMDB2_DIRS (home : Path) : List Path :=
  [["etc", "vmdb2"], ["usr", "share", "vmdb2", "specs"], home ++ [".config", "vmdb2"]]

def LIVE_BUILD_DIRS (home : Path) : List Path :=
  [["etc", "live-build"], ["usr", "share", "live-build"], home ++ [".config", "live-build"]]

/-- `Path.stem`: the name without its last suffix, which is not the whole of it nor empty. -/
def stem (name : String) : String :=
  match name.toList.reverse.span (· ≠ '.') with
  | (_ :: _, '.' :: c :: before) => String.ofList (c :: before).reverse
  | _ => name

/-- `sorted(directory.glob("*" + suffix))` -/
def Disk.glob (disk : Disk) (directory : Path) (suffix : String) : List String :=
  (disk.children directory).filter fun name => suffix.toList.isSuffixOf name.toList

/-- The files of a directory below a config root, named by their stems. -/
def Disk.stems (disk : Disk) (backend : Backend) (directory : Path) (suffix : String) :
    List Profile :=
  if disk.isDir directory then
    (disk.glob directory suffix).map fun name => ⟨stem name, directory ++ [name], backend⟩
  else []

def mkosiProfiles (disk : Disk) (home : Path) : List Profile :=
  ((MKOSI_DIRS home).flatMap fun d =>
    if !disk.isDir d then []
    else
      (if disk.isFile (d ++ ["mkosi.conf"]) then
        [⟨d.getLast?.getD "", d ++ ["mkosi.conf"], .mkosi⟩] else []) ++
      disk.stems .mkosi (d ++ ["mkosi.profiles"]) ".profile" ++
      disk.stems .mkosi (d ++ ["mkosi.conf.d"]) ".conf").eraseDups

def vmdb2Profiles (disk : Disk) (home : Path) : List Profile :=
  ((VMDB2_DIRS home).flatMap fun d =>
    [".yaml", ".yml"].flatMap fun suffix => disk.stems .vmdb2 d suffix).eraseDups

/-- The children of the config roots that are directories with a marker in them. -/
def markedProfiles (disk : Disk) (backend : Backend) (marked : Path → Bool) (dirs : List Path) :
    List Profile :=
  (dirs.flatMap fun d =>
    if !disk.isDir d then []
    else ((disk.children d).filter fun child => disk.isDir (d ++ [child]) && marked (d ++ [child])).map
      fun child => ⟨child, d ++ [child], backend⟩).eraseDups

def archisoProfiles (disk : Disk) : List Profile :=
  markedProfiles disk .archiso (fun child => disk.isFile (child ++ ["profiledef.sh"])) ARCHISO_DIRS

def liveBuildProfiles (disk : Disk) (home : Path) : List Profile :=
  markedProfiles disk .liveBuild (fun child => disk.isDir (child ++ ["config"]))
    (LIVE_BUILD_DIRS home)

/-- `profiles()`, where every backend is installed. -/
def profiles (disk : Disk) (home : Path) : List Profile :=
  mkosiProfiles disk home ++ vmdb2Profiles disk home ++ archisoProfiles disk ++
    liveBuildProfiles disk home

/-! ### Commands -/

def idChar (c : Char) : Bool := c.isAlphanum || c = '.' || c = '_' || c = '-'

/-- `_SAFE_ID_RE`, whose `$` stands also before a last newline. -/
def safeId (token : List Char) : Bool :=
  let body := if token.getLast? = some '\n' then token.dropLast else token
  match body with
  | [] => false
  | c :: rest => c.isAlphanum && rest.all idChar && rest.length ≤ 127

def hasDots : List Char → Bool
  | '.' :: '.' :: _ => true
  | _ :: rest => hasDots rest
  | [] => false

/-- `_valid_id` -/
def validId (token : String) : Bool := safeId token.toList && !hasDots token.toList

/-- How the file system takes a call: where it stops with an error, `kept` are the nodes that it
has made, or not removed, by then. -/
structure Attempt where
  completes : Bool
  kept : Path → Bool

inductive Answer where
  | created (backend : Backend)
  | copied (backend : Backend)
  | deleted
  | error
  deriving DecidableEq

def Disk.add (disk : Disk) (files directories : List Path) : Disk where
  files := disk.files ++ files
  directories := disk.directories ++ directories

def Disk.remove (disk : Disk) (gone : Path → Bool) : Disk where
  files := disk.files.filter (!gone ·)
  directories := disk.directories.filter (!gone ·)

/-- The nodes that are made: all of them, or those made before an error. -/
def Attempt.done (a : Attempt) (nodes : List Path) : List Path :=
  if a.completes then nodes else nodes.filter a.kept

/-- A file is made in its directory, whose parents are made with it. -/
def scaffold (disk : Disk) (a : Attempt) (backend : Backend) (directory : Path) (file : String) :
    Disk × Answer :=
  if directory.inits.any disk.isFile then (disk, .error)
  else if disk.exists (directory ++ [file]) then (disk, .error)
  else (disk.add (a.done [directory ++ [file]]) (a.done directory.inits),
    if a.completes then .created backend else .error)

/-- `profile-create`, where `rejected` says that the package options are not readable. -/
def profileCreate (disk : Disk) (name backendId : String) (rejected : Bool) (a : Attempt) :
    Disk × Answer :=
  if !validId name then (disk, .error)
  else if rejected then (disk, .error)
  else if backendId = "mkosi" then
    scaffold disk a .mkosi ["etc", "mkosi", "profiles", name] "mkosi.conf"
  else if backendId = "vmdb2" then scaffold disk a .vmdb2 ["etc", "vmdb2"] (name ++ ".yaml")
  else (disk, .error)

def ARCHISO_COPY_DEST : Path := ["etc", "archiso", "configs"]

def LIVE_BUILD_COPY_DEST : Path := ["etc", "live-build"]

def copyDest : Backend → Option Path
  | .archiso => some ARCHISO_COPY_DEST
  | .liveBuild => some LIVE_BUILD_COPY_DEST
  | _ => none

/-- `root / name`, which is `root` for an empty name. -/
def under (root : Path) (name : String) : Path := if name = "" then root else root ++ [name]

/-- `shutil.copytree`: the nodes below the source, below the destination. -/
def copied (source dest : Path) (nodes : List Path) : List Path :=
  nodes.filterMap fun path =>
    if source.isPrefixOf path then some (dest ++ path.drop source.length) else none

def profileCopy (disk : Disk) (home : Path) (srcName newName : String) (hint : Option String)
    (rejected : Bool) (a : Attempt) : Disk × Answer :=
  if newName.toList.contains '/' || newName = "." || newName = ".." then (disk, .error)
  else if rejected then (disk, .error)
  else
    match (profiles disk home).find? fun p =>
        p.name = srcName && hint.all fun id => id = "" || id = p.backend.id with
    | none => (disk, .error)
    | some source =>
      match copyDest source.backend with
      | none => (disk, .error)
      | some root =>
        let dest := under root newName
        if !disk.isDir source.path then (disk, .error)
        else if disk.exists dest then (disk, .error)
        else if dest.dropLast.inits.any disk.isFile then (disk, .error)
        else
          (disk.add (a.done (copied source.path dest disk.files))
              (a.done (dest.dropLast.inits ++ copied source.path dest disk.directories)),
            if a.completes then .copied source.backend else .error)

def profileDelete (disk : Disk) (home : Path) (name : String) (force : Bool) (a : Attempt) :
    Disk × Answer :=
  match (profiles disk home).find? (·.name = name) with
  | none => (disk, .error)
  | some profile =>
    if ["usr", "share"].isPrefixOf profile.path then (disk, .error)
    else if disk.isFile profile.path then
      if a.completes then (disk.remove (· = profile.path), .deleted) else (disk, .error)
    else if disk.isDir profile.path then
      if !force then (disk, .error)
      else if a.completes then (disk.remove profile.path.isPrefixOf, .deleted)
      else (disk.remove fun path => profile.path.isPrefixOf path && !a.kept path, .error)
    else (disk, .error)

inductive Call where
  | create (name backendId : String) (rejected : Bool) (a : Attempt)
  | copy (srcName newName : String) (hint : Option String) (rejected : Bool) (a : Attempt)
  | delete (name : String) (force : Bool) (a : Attempt)

def perform (disk : Disk) (home : Path) : Call → Disk × Answer
  | .create name backendId rejected a => profileCreate disk name backendId rejected a
  | .copy srcName newName hint rejected a => profileCopy disk home srcName newName hint rejected a
  | .delete name force a => profileDelete disk home name force a

/-- The name a call is about. -/
def Call.name : Call → String
  | .create name _ _ _ => name
  | .copy _ newName _ _ _ => newName
  | .delete name _ _ => name

/-- The disk, the profiles that were made and not deleted since, and the name that the last call
deleted. -/
structure History where
  disk : Disk
  made : List (String × Backend)
  deleted : Option String

def step (home : Path) (history : History) (call : Call) : History :=
  let (disk, answer) := perform history.disk home call
  match answer with
  | .created backend | .copied backend =>
    { disk, made := (call.name, backend) :: history.made, deleted := none }
  | .deleted =>
    { disk, made := history.made.filter (·.1 ≠ call.name), deleted := some call.name }
  | .error => { disk, made := history.made, deleted := none }

end SysDeck.Cockpit.Profiles
