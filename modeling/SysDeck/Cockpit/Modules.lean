import Mathlib.Logic.Function.Basic
import SysDeck.Library.Execution

/-! The third-party module installer: what a failed install leaves in the destination directory,
and what the next install makes of it. -/

namespace SysDeck.Cockpit.Modules

inductive Kind where
  | pacman | git | debTar | tarball
  deriving DecidableEq

/-- An entry of the catalog: what `install` and `uninstall` read of it. -/
structure CatalogEntry where
  id : String
  kind : Kind
  /-- The package, of kind pacman; the destination under `COCKPIT_DIR`, of the others. -/
  target : String
  deriving DecidableEq

def COCKPIT_DIR : String := "/usr/share/cockpit"

def CATALOG : List CatalogEntry :=
  [⟨"cockpit-machines", .pacman, "cockpit-machines"⟩,
    ⟨"cockpit-podman", .pacman, "cockpit-podman"⟩,
    ⟨"cockpit-storaged", .pacman, "cockpit-storaged"⟩,
    ⟨"cockpit-identities", .git, "identities"⟩,
    ⟨"cockpit-navigator", .debTar, "navigator"⟩,
    ⟨"cockpit-file-sharing", .debTar, "file-sharing"⟩,
    ⟨"cockpit-zfs-manager", .git, "zfs-manager"⟩,
    ⟨"cockpit-pacman", .git, "pacman"⟩,
    ⟨"cockpit-sensors", .tarball, "sensors"⟩,
    ⟨"cockpit-benchmark", .git, "benchmark"⟩]

/-- `_dest_path` -/
def destPath (entry : CatalogEntry) : String := COCKPIT_DIR ++ "/" ++ entry.target

/-- What stands at a path. -/
inductive Node where
  | absent
  | file
  | directory (entries : List String)
  deriving DecidableEq

structure Host where
  nodes : String → Node
  packages : List String
  /-- The audit log: module and action. -/
  log : List (String × String)

inductive Failure where
  | licenseNotAccepted
  | command
  | destinationExists
  | destinationNotEmpty
  | missingDataTar
  | other
  deriving DecidableEq

/-- The answer of a call; `raised` where the audit log cannot be written. -/
inductive Result where
  | ok (status : String)
  | failed (error : Failure)
  | raised
  deriving DecidableEq

/-- How the steps of one install go. `cloned` is what `git clone` leaves at the destination, and
`files` what `tar` has written into it, when `finished` or not. -/
structure Attempt where
  cockpitDir : Bool
  destDir : Bool
  download : Bool
  unpack : Bool
  dataTar : Bool
  cloned : Node
  files : List String
  finished : Bool
  audited : Bool

def isInstalled (host : Host) (entry : CatalogEntry) : Bool :=
  match entry.kind with
  | .pacman => host.packages.contains entry.target
  | _ =>
    match host.nodes (destPath entry) with
    | .directory entries => !entries.isEmpty
    | _ => false

def lastCommand (a : Attempt) : Option Failure := if a.finished then none else some .command

/-- `_install_git`: the destination after it, and why it stopped. -/
def installGit (a : Attempt) (dest : Node) : Node × Option Failure :=
  if dest ≠ .absent then (dest, some .destinationExists) else (a.cloned, lastCommand a)

/-- `_install_deb_tar` -/
def installDebTar (a : Attempt) (dest : Node) : Node × Option Failure :=
  if dest ≠ .absent then (dest, some .destinationExists)
  else if !a.destDir then (dest, some .other)
  else if !a.download then (.directory [], some .command)
  else if !a.unpack then (.directory [], some .command)
  else if !a.dataTar then (.directory [], some .missingDataTar)
  else (.directory a.files, lastCommand a)

/-- `_install_tarball`: a destination that is an empty directory is used. -/
def installTarball (a : Attempt) (dest : Node) : Node × Option Failure :=
  match dest with
  | .file => (dest, some .other)
  | .directory (_ :: _) => (dest, some .destinationNotEmpty)
  | .absent | .directory [] =>
    if !a.destDir then (dest, some .other)
    else if !a.download then (.directory [], some .command)
    else (.directory a.files, lastCommand a)

/-- The state after the installing function of the kind, and why it stopped. -/
def perform (host : Host) (entry : CatalogEntry) (a : Attempt) : Host × Option Failure :=
  let at_dest (node : Node) : Host :=
    { host with nodes := Function.update host.nodes (destPath entry) node }
  let dest := host.nodes (destPath entry)
  if !a.cockpitDir then (host, some .other)
  else match entry.kind with
    | .pacman =>
      if a.finished then ({ host with packages := entry.target :: host.packages }, none)
      else (host, some .command)
    | .git => (installGit a dest).map at_dest id
    | .debTar => (installDebTar a dest).map at_dest id
    | .tarball => (installTarball a dest).map at_dest id

/-- The call writes its record to the audit log, and answers. -/
def audit (host : Host) (entry : CatalogEntry) (audited : Bool) (action : String)
    (result : Result) : Host × Result :=
  if audited then ({ host with log := host.log ++ [(entry.id, action)] }, result)
  else (host, .raised)

def install (host : Host) (entry : CatalogEntry) (acceptLicense : Bool) (a : Attempt) :
    Host × Result :=
  if isInstalled host entry then (host, .ok "already-installed")
  else if !acceptLicense then (host, .failed .licenseNotAccepted)
  else match perform host entry a with
    | (host, some error) => audit host entry a.audited "install-failed" (.failed error)
    | (host, none) => audit host entry a.audited "install-ok" (.ok "installed")

/-- `uninstall`, where `left` is what a removal that failed has left of the destination. -/
def uninstall (host : Host) (entry : CatalogEntry) (removed : Bool) (left : Node) (audited : Bool) :
    Host × Result :=
  if !isInstalled host entry then (host, .ok "not-installed")
  else
    let host := match entry.kind with
      | .pacman => if removed then { host with packages := host.packages.erase entry.target } else host
      | _ => { host with
          nodes := Function.update host.nodes (destPath entry) (if removed then .absent else left) }
    if removed then audit host entry audited "uninstall-ok" (.ok "removed")
    else audit host entry audited "uninstall-failed" (.failed .other)

inductive Call where
  | install (entry : CatalogEntry) (acceptLicense : Bool) (a : Attempt)
  | uninstall (entry : CatalogEntry) (removed : Bool) (left : Node) (audited : Bool)

def Call.entry : Call → CatalogEntry
  | .install entry _ _ => entry
  | .uninstall entry _ _ _ => entry

def step (host : Host) : Call → Host
  | .install entry acceptLicense a => (install host entry acceptLicense a).1
  | .uninstall entry removed left audited => (uninstall host entry removed left audited).1

end SysDeck.Cockpit.Modules
