import SysDeck.Library.Lines
import SysDeck.Library.Scan
import SysDeck.Web.Firewall

/-! The packages bridge of the web console: what the ten package managers report, and the
commands that change a host. -/

namespace SysDeck.Web.Packages

open Scan
open Firewall (trim)

structure RunResult where
  rc : ℤ
  stdout : String

/-- What the bridge sees of a host: the tools, the files, the directories, its privilege and the
order of `localeCompare`. -/
structure Host where
  run : List String → RunResult
  readText : String → String
  readdir : String → Option (List String)
  root : Bool
  passwordlessSudo : Bool
  /-- `a.localeCompare(b) <= 0` -/
  localeCompare : String → String → Bool
  toLowerCase : String → String
  lowerCase_empty : toLowerCase "" = ""

structure PkgRow where
  name : String
  version : String
  installed : Bool
  deriving DecidableEq

structure UpdateRow where
  name : String
  current : String
  candidate : String
  deriving DecidableEq

structure Backend where
  id : String
  listInstalled : Host → List PkgRow
  /-- `none` where the manager has no preview, or its command failed. -/
  listUpdates : Host → Option (List UpdateRow)
  installArgs : List String → List String
  removeArgs : List String → List String
  updateArgs : List String → Option (List String)
  updateAllArgs : List String

/-! ### Names -/

/-- `[\w.+-]` -/
def nameChar (c : Char) : Bool := c.isAlphanum || c = '_' || c = '.' || c = '+' || c = '-'

/-- `^[\w.+-]{1,256}$`, no option and no URL. -/
def pkgNameOk (pkg : String) : Bool :=
  let text := pkg.toList
  (1 ≤ text.length && text.length ≤ 256 && text.all nameChar) && text.head? ≠ some '-' &&
    !decide ("://".toList <:+: text)

/-- The names of a request: `args.names`, or `args.name`. -/
structure NameArgs where
  names : Option (List String)
  name : Option String

def cleanNames (args : NameArgs) : List String :=
  let names := args.names.getD [args.name.getD ""]
  ((names.map trim).filter (· ≠ "")).filter (pkgNameOk ·)

theorem nameChar_visible {c : Char} (ok : nameChar c) : Text.isBlank c = false := by
  have between {low high : Char} (inside : (decide (low.val ≤ c.val) && decide (c.val ≤ high.val)) = true)
      (least : 0x2B ≤ low.toNat) (most : high.toNat ≤ 0x7A) : 0x2B ≤ c.toNat ∧ c.toNat ≤ 0x7A := by
    simp only [Bool.and_eq_true, decide_eq_true_eq, UInt32.le_iff_toNat_le] at inside
    exact ⟨least.trans inside.1, inside.2.trans most⟩
  have range : 0x2B ≤ c.toNat ∧ c.toNat ≤ 0x7A := by
    simp only [nameChar, Bool.or_eq_true, decide_eq_true_eq] at ok
    rcases ok with (((ok | rfl) | rfl) | rfl) | rfl
    · rcases Bool.or_eq_true_iff.mp ok with alpha | digit
      · rcases Bool.or_eq_true_iff.mp alpha with upper | lower
        · have both := of_decide_eq_true upper
          exact @between 'A' 'Z' (by simpa using both) (by decide) (by decide)
        · exact @between 'a' 'z' lower (by decide) (by decide)
      · exact @between '0' '9' digit (by decide) (by decide)
    all_goals exact ⟨by decide, by decide⟩
  simp [Text.isBlank]
  omega

theorem pkgNameOk_iff {pkg : String} :
    pkgNameOk pkg ↔ 1 ≤ pkg.toList.length ∧ pkg.toList.length ≤ 256 ∧
      (∀ c ∈ pkg.toList, nameChar c) ∧ pkg.toList.head? ≠ some '-' := by
  have noColon (all : ∀ c ∈ pkg.toList, nameChar c) : ¬ "://".toList <:+: pkg.toList := by
    intro inside
    have colon : ':' ∈ pkg.toList := inside.subset (by decide)
    exact absurd (all ':' colon) (by decide)
  constructor
  · intro ok
    simp only [pkgNameOk, Bool.and_eq_true, decide_eq_true_eq, List.all_eq_true] at ok
    exact ⟨ok.1.1.1.1, ok.1.1.1.2, ok.1.1.2, ok.1.2⟩
  · rintro ⟨least, most, all, notOption⟩
    simp only [pkgNameOk, Bool.and_eq_true, decide_eq_true_eq, List.all_eq_true, Bool.not_eq_true',
      decide_eq_false_iff_not]
    exact ⟨⟨⟨⟨least, most⟩, all⟩, notOption⟩, noColon all⟩

theorem ne_empty_of_ok {name : String} (ok : pkgNameOk name) : name ≠ "" := by
  intro empty
  subst empty
  exact absurd ok (by decide)

/-- A valid name passes the filter of a request as it is. -/
theorem trim_of_ok {name : String} (ok : pkgNameOk name) : trim name = name := by
  have visible : ∀ c ∈ name.toList, Text.isBlank c = false :=
    fun c member => nameChar_visible ((pkgNameOk_iff.mp ok).2.2.1 c member)
  rw [trim, Text.trim_of_tight (Text.tight_of_visible visible), String.ofList_toList]

theorem cleanNames_of_ok {names : List String} (ok : ∀ name ∈ names, pkgNameOk name) :
    cleanNames ⟨some names, none⟩ = names := by
  have trimmed : names.map trim = names := by
    rw [List.map_congr_left fun name member => trim_of_ok (ok name member), List.map_id']
  have kept : names.filter (· ≠ "") = names :=
    List.filter_eq_self.mpr fun name member => by simpa using ne_empty_of_ok (ok name member)
  simp only [cleanNames, Option.getD_some, trimmed, kept]
  exact List.filter_eq_self.mpr ok

/-- `^[0-9][0-9a-zA-Z._+-]*[0-9a-zA-Z._+]$` -/
def verTail (tail : List Char) : Bool :=
  2 ≤ tail.length && tail.head?.any (·.isDigit) &&
    tail.all (fun c => c.isAlphanum || c = '.' || c = '_' || c = '+' || c = '-') &&
    tail.getLast?.any (· ≠ '-')

/-- The name and the version of an atom: split at the first hyphen before a version. -/
def splitNameVer : List Char → List Char × List Char
  | [] => ([], [])
  | c :: rest =>
    if c = '-' ∧ verTail rest then ([], rest)
    else let (name, version) := splitNameVer rest; (c :: name, version)

/-! ### Readers shared by the backends -/

def lines (raw : String) : List (List Char) := raw.toList.splitOn '\n'

def blankLine (line : List Char) : Bool := Text.trim line = []

/-- `line.trim().split(/[..]+/)`: a text that begins or ends with a separator has an empty
first or last part. -/
def splitRuns (separator : Char → Bool) (line : List Char) : List (List Char) :=
  match (Text.trim line).splitOnP separator with
  | [] => []
  | first :: rest => first :: (rest.dropLast.filter (· ≠ []) ++ rest.getLast?.toList)

def tokens (line : List Char) : List (List Char) := splitRuns Text.isBlank line

def visible (c : Char) : Bool := !Text.isBlank c

/-- The first two parts of a row, the second one empty where it is missing. -/
def nameVersion (parts : List (List Char)) : PkgRow :=
  { name := String.ofList (parts.headD []), version := String.ofList (parts.getD 1 []),
    installed := true }

def sortRows (host : Host) (rows : List PkgRow) : List PkgRow :=
  rows.mergeSort fun a b => host.localeCompare a.name b.name

/-- `zypperTable`: the columns of the header row, and the rows below it. -/
def columns (line : List Char) : List (List Char) := (line.splitOn '|').map Text.trim

def separatorRow (cols : List (List Char)) : Bool :=
  cols.all fun c => c ≠ [] && c.all fun d => d = '+' || d = '-'

def zypperTable (raw : String) (wanted : List (List Char)) :
    Option (List ℕ) × List (List (List Char)) :=
  let table := ((lines raw).filter (·.contains '|')).map columns
  match table.dropWhile (fun cols => !wanted.all (cols.contains ·)) with
  | [] => (none, [])
  | head :: body =>
    let header := wanted.map (head.idxOf ·)
    (some header, body.filter fun cols =>
      !separatorRow cols &&
        !(wanted.zip header).any fun (column, i) => cols[i]? = some column)

/-! ### The backends -/

/-- One row of `dpkg-query -W`: name, version and status. -/
def dpkgRow (line : List Char) : Option PkgRow :=
  let parts := line.splitOn '\t'
  let name := parts.headD []
  if name = [] then none
  else some { nameVersion parts with
    installed := decide ("installed".toList <:+: parts.getD 2 []) }

/-- `.*\[upgradable from:\s*(\S+)\]`, or nothing. -/
def upgradedFrom (rest : List Char) : List Char :=
  (many (fun c => !Lines.terminator c) (fun _ rest => literal "[upgradable from:".toList
    (many Text.isBlank fun _ rest => many1 visible
      (fun version rest => literal [']'] (fun _ => some version) rest) rest) rest) rest).getD []

/-- `^(\S+)\/(\S+)\s+(\S+)`, and the version it is upgraded from. -/
def aptUpdate (line : List Char) : Option UpdateRow :=
  if line = [] ∨ "Listing".toList <+: line then none
  else many1 visible (fun name rest => literal ['/'] (many1 visible fun _ rest =>
    many1 Text.isBlank (fun _ rest => many1 visible (fun candidate rest =>
      some { name := String.ofList name, current := String.ofList (upgradedFrom rest),
             candidate := String.ofList candidate }) rest) rest) rest) line

def dpkgQuery : List String :=
  ["dpkg-query", "-W", "-f=$\x7bbinary:Package\x7d\t$\x7bVersion\x7d\t$\x7bStatus\x7d\n"]

def aptBackend : Backend where
  id := "apt"
  listInstalled host := (lines (host.run dpkgQuery).stdout).filterMap dpkgRow
  listUpdates host :=
    let r := host.run ["apt", "list", "--upgradable"]
    if r.rc ≠ 0 ∧ r.stdout = "" then none else some ((lines r.stdout).filterMap aptUpdate)
  installArgs names := ["install", "-y"] ++ names
  removeArgs names := ["remove", "-y"] ++ names
  updateArgs names := some (["upgrade", "-y"] ++ names)
  updateAllArgs := ["upgrade", "-y"]

/-- One row of `pacman -Q`. -/
def pacmanRow (line : List Char) : Option PkgRow :=
  let parts := line.splitOn ' '
  if 2 ≤ parts.length ∧ parts.headD [] ≠ [] then some (nameVersion parts) else none

/-- `^(\S+)\s+(\S+)\s*->\s*(\S+)` -/
def pacmanUpdate (line : List Char) : Option UpdateRow :=
  many1 visible (fun name rest => many1 Text.isBlank (fun _ rest => many1 visible
    (fun current rest => many Text.isBlank (fun _ rest => literal "->".toList
      (many Text.isBlank fun _ rest => many1 visible (fun candidate _ =>
        some { name := String.ofList name, current := String.ofList current,
               candidate := String.ofList candidate }) rest) rest) rest) rest) rest) line

def pacmanBackend : Backend where
  id := "pacman"
  listInstalled host := (lines (host.run ["pacman", "-Q"]).stdout).filterMap pacmanRow
  listUpdates host := some ((lines (host.run ["pacman", "-Qu"]).stdout).filterMap pacmanUpdate)
  installArgs names := ["-S", "--noconfirm", "--needed"] ++ names
  removeArgs names := ["-R", "--noconfirm"] ++ names
  updateArgs names := some (["-S", "--noconfirm"] ++ names)
  updateAllArgs := ["-Syu", "--noconfirm"]

/-- One row of `rpm -qa`. -/
def rpmRow (line : List Char) : Option PkgRow :=
  let parts := line.splitOn '\t'
  if parts.headD [] = [] then none else some (nameVersion parts)

def rpmQuery : List String :=
  ["rpm", "-qa", "--qf", "%\x7bNAME\x7d\\t%\x7bVERSION\x7d-%\x7bRELEASE\x7d\\n"]

def rpmListInstalled (host : Host) : List PkgRow :=
  sortRows host ((lines (host.run rpmQuery).stdout).filterMap rpmRow)

/-- `^(\S+?)\.\S+\s+(\S+)\s+(\S+)` -/
def rpmUpdate (line : List Char) : Option UpdateRow :=
  if blankLine line ∨ "Last ".toList <+: line ∨ [' '] <+: line then none
  else lazyMany1 visible (fun name rest => literal ['.'] (many1 visible fun _ rest =>
    many1 Text.isBlank (fun _ rest => many1 visible (fun candidate rest =>
      many1 Text.isBlank (fun _ rest => many1 visible (fun _ _ =>
        some { name := String.ofList name, current := "",
               candidate := String.ofList candidate }) rest) rest) rest) rest) rest) line

/-- `makeRpmBackend` -/
def makeRpmBackend (id bin : String) : Backend where
  id := id
  listInstalled := rpmListInstalled
  listUpdates host :=
    let r := host.run [bin, "-q", "check-update"]
    if r.rc ≠ 0 ∧ r.rc ≠ 100 ∧ r.stdout = "" then none
    else some ((lines r.stdout).filterMap rpmUpdate)
  installArgs names := ["install", "-y"] ++ names
  removeArgs names := ["remove", "-y"] ++ names
  updateArgs names := some (["upgrade", "-y"] ++ names)
  updateAllArgs := ["upgrade", "-y"]

/-- One row below the header of `zypper list-updates`. -/
def zypperUpdate (header : List ℕ) (cols : List (List Char)) : Option UpdateRow :=
  match header with
  | [iName, iCurrent, iAvailable] =>
    match cols[iName]?, cols[iCurrent]?, cols[iAvailable]? with
    | some name, some current, some available =>
      if name = [] then none
      else some { name := String.ofList name, current := String.ofList current,
                  candidate := String.ofList available }
    | _, _, _ => none
  | _ => none

def zypperUpdates (raw : String) : List UpdateRow :=
  match zypperTable raw ["Name".toList, "Current".toList, "Available".toList] with
  | (none, _) => []
  | (some header, rows) => rows.filterMap (zypperUpdate header)

structure SearchRow where
  name : String
  version : String
  description : String
  installed : Bool
  deriving DecidableEq

/-- One row below the header of `zypper se`. -/
def zypperFound (header : List ℕ) (cols : List (List Char)) : Option SearchRow :=
  match header with
  | [iName, iSum] =>
    match cols[iName]?, cols[iSum]? with
    | some name, some description =>
      if name = [] then none
      else some { name := String.ofList name, version := "",
                  description := String.ofList description, installed := cols.head? = some ['i'] }
    | _, _ => none
  | _ => none

/-- The rows of `zypper -q se`, which are below a header. -/
def zypperSearch (raw : String) : List SearchRow :=
  match zypperTable raw ["Name".toList, "Summary".toList] with
  | (none, _) => []
  | (some header, rows) => rows.filterMap (zypperFound header)

def zypperBackend : Backend where
  id := "zypper"
  listInstalled := rpmListInstalled
  listUpdates host :=
    let r := host.run ["zypper", "-q", "list-updates"]
    if r.rc ≠ 0 ∧ r.stdout = "" then none else some (zypperUpdates r.stdout)
  installArgs names := ["--non-interactive", "install"] ++ names
  removeArgs names := ["--non-interactive", "remove"] ++ names
  updateArgs names := some (["--non-interactive", "update"] ++ names)
  updateAllArgs := ["--non-interactive", "update"]

def versionedRow (atom : List Char) : Option PkgRow :=
  let (name, version) := splitNameVer atom
  if name = [] then none
  else some { name := String.ofList name, version := String.ofList version, installed := true }

/-- One row of `apk info -v`. -/
def apkRow (line : List Char) : Option PkgRow :=
  if blankLine line then none else versionedRow (Text.trim line)

/-- One row of `apk list --upgradable`, or of `apk version -l '<'`. -/
def apkUpdate (line : List Char) : Option UpdateRow :=
  if blankLine line ∨ "Installed".toList <+: line ∨ "Available".toList <+: line then none
  else
    let toks := tokens line
    let (name, version) := splitNameVer (toks.headD [])
    if name = [] then none
    else
      let candidate := toks.tail.find? fun t => t ≠ ['<'] ∧ ¬ ['('] <+: t
      some { name := String.ofList name, current := String.ofList version,
             candidate := String.ofList (candidate.getD []) }

/-- `apk list --upgradable`, and `apk version` where that fails or says nothing. -/
def apkPreview (host : Host) : RunResult :=
  let r := host.run ["apk", "list", "--upgradable"]
  if r.rc ≠ 0 ∨ blankLine r.stdout.toList then host.run ["apk", "version", "-l", "<"] else r

def apkBackend : Backend where
  id := "apk"
  listInstalled host :=
    sortRows host ((lines (host.run ["apk", "info", "-v"]).stdout).filterMap apkRow)
  listUpdates host := some ((lines (apkPreview host).stdout).filterMap apkUpdate)
  installArgs names := ["add"] ++ names
  removeArgs names := ["del"] ++ names
  updateArgs names := some (["upgrade"] ++ names)
  updateAllArgs := ["upgrade"]

def XBPS_BIN : String := "xbps-install"

/-- `^ii\s+(\S+)\s+(.*)$` -/
def xbpsRow (line : List Char) : Option PkgRow :=
  literal "ii".toList (many1 Text.isBlank fun _ rest => many1 visible (fun atom rest =>
    many1 Text.isBlank (fun _ rest => many (fun c => !Lines.terminator c)
      (fun _ rest => if rest = [] then versionedRow atom else none) rest) rest) rest) line

/-- One row of `xbps-install -Sun`. -/
def xbpsUpdate (line : List Char) : Option UpdateRow :=
  if blankLine line then none
  else
    let toks := tokens line
    let (name, version) := splitNameVer (toks.headD [])
    if name = [] then none
    else
      let candidate := toks.getD 1 []
      let candidate := if candidate = "xbps:".toList ∨ candidate = "delta:".toList then toks.getD 2 []
        else candidate
      some { name := String.ofList name, current := String.ofList version,
             candidate := String.ofList candidate }

def xbpsBackend : Backend where
  id := "xbps"
  listInstalled host :=
    sortRows host ((lines (host.run ["xbps-query", "-l"]).stdout).filterMap xbpsRow)
  listUpdates host := some ((lines (host.run [XBPS_BIN, "-Sun"]).stdout).filterMap xbpsUpdate)
  installArgs names := ["-y"] ++ names
  removeArgs names := ["xbps-remove", "-y"] ++ names
  updateArgs names := some (["-y"] ++ names)
  updateAllArgs := ["-Su", "-y"]

def EMERGE_PKG_DB : String := "/var/db/pkg"

/-- The row of `/var/db/pkg/<cat>/<pf>`. -/
def vdbRow (cat pf : String) : PkgRow :=
  let (name, version) := splitNameVer pf.toList
  { name := cat ++ "/" ++ (if version = [] then pf else String.ofList name)
    version := String.ofList version, installed := true }

/-- The row of an atom `cat/name-version`, split at its last slash. -/
def atomUpdate (atom current : List Char) : Option UpdateRow :=
  if atom.contains '/' then
    let leaf := atom.rtakeWhile (· ≠ '/')
    let cat := (atom.rdropWhile (· ≠ '/')).dropLast
    let (name, version) := splitNameVer leaf
    some { name := String.ofList (cat ++ '/' :: name), current := String.ofList current,
           candidate := String.ofList version }
  else none

/-- `(?:\s+\[([^\]]+)\])?` -/
def bracketed (rest : List Char) : List Char :=
  (many1 Text.isBlank (fun _ rest => literal ['['] (many1 (· ≠ ']') fun version rest =>
    literal [']'] (fun _ => some version) rest) rest) rest).getD []

/-- The match of `\[ebuild\s+U[^\]]*\]\s*(\S+)(?:\s+\[([^\]]+)\])?` in a line. -/
def ebuildAtom (line : List Char) : Option (List Char × List Char) :=
  search (literal "[ebuild".toList (many1 Text.isBlank fun _ rest => literal ['U']
    (many (· ≠ ']') fun _ rest => literal [']'] (many Text.isBlank fun _ rest =>
      many1 visible (fun atom rest => some (atom, bracketed rest)) rest) rest) rest)) line

def emergeUpdate (line : List Char) : Option UpdateRow :=
  (ebuildAtom line).bind fun (atom, current) => atomUpdate atom current

def emergeBackend : Backend where
  id := "emerge"
  listInstalled host :=
    sortRows host <| ((host.readdir EMERGE_PKG_DB).getD []).flatMap fun cat =>
      ((host.readdir (EMERGE_PKG_DB ++ "/" ++ cat)).getD []).map (vdbRow cat)
  listUpdates host :=
    let r := host.run ["emerge", "-p", "-u", "-D", "@world"]
    if r.rc ≠ 0 ∧ r.stdout = "" then none else some ((lines r.stdout).filterMap emergeUpdate)
  installArgs names := [if names.length = 1 then names.headD "" else "--ask", "n"] ++ names
  removeArgs names := ["--unmerge"] ++ names
  updateArgs names := some (["-u"] ++ names)
  updateAllArgs := ["-u", "-D", "@world"]

/-- One row of `lvu installed`, of the state files of lunar and sorcery, or of `gaze installed`:
its first two parts. -/
def stateRow (separator : Char → Bool) (line : List Char) : Option PkgRow :=
  let parts := splitRuns separator line
  if parts.headD [] = [] then none else some (nameVersion parts)

/-- The tool succeeded and said something; the state file is read where it did not. -/
def answered (r : RunResult) : Bool := r.rc = 0 && !blankLine r.stdout.toList

def lunarBackend : Backend where
  id := "lunar"
  listInstalled host :=
    let r := host.run ["lvu", "installed"]
    if answered r then (lines r.stdout).filterMap (stateRow Text.isBlank)
    else sortRows host
      ((lines (host.readText "/var/state/lunar/packages")).filterMap (stateRow Text.isBlank))
  listUpdates _ := none
  installArgs names := ["lin"] ++ names
  removeArgs names := ["lrm"] ++ names
  updateArgs _ := none
  updateAllArgs := ["update"]

/-- One row of `sorcery queue`. -/
def queueUpdate (line : List Char) : Option UpdateRow :=
  if blankLine line then none
  else some { name := String.ofList ((tokens line).headD []), current := "",
              candidate := String.ofList ((tokens line).getD 1 []) }

def sorceryBackend : Backend where
  id := "sorcery"
  listInstalled host :=
    let r := host.run ["gaze", "installed"]
    if answered r then (lines r.stdout).filterMap (stateRow fun c => Text.isBlank c || c = ':')
    else sortRows host
      ((lines (host.readText "/var/state/sorcery/packages")).filterMap (stateRow Text.isBlank))
  listUpdates host :=
    let r := host.run ["sorcery", "queue"]
    if r.rc ≠ 0 ∧ r.stdout = "" then none else some ((lines r.stdout).filterMap queueUpdate)
  installArgs names := ["cast"] ++ names
  removeArgs names := ["dispel"] ++ names
  updateArgs names := some (["cast"] ++ names)
  updateAllArgs := ["sorcery", "update"]

inductive Manager where
  | pacman | emerge | lunar | sorcery | xbps | apk | zypper | dnf | yum | apt
  deriving DecidableEq

def BACKENDS : Manager → Backend
  | .pacman => pacmanBackend
  | .emerge => emergeBackend
  | .lunar => lunarBackend
  | .sorcery => sorceryBackend
  | .xbps => xbpsBackend
  | .apk => apkBackend
  | .zypper => zypperBackend
  | .dnf => makeRpmBackend "dnf" "dnf"
  | .yum => makeRpmBackend "yum" "yum"
  | .apt => aptBackend

/-! ### Mutations -/

inductive Action where
  | install | remove | update | updateAll
  deriving DecidableEq

/-- What became of a request. `ran` has the words that raise the privilege of the process, and
the command. -/
inductive Outcome where
  | noName
  | unsupported
  | notAuthorized (command : List String)
  | ran (via command : List String)
  deriving DecidableEq

/-- The binary and its arguments: lunar and sorcery wrap their subcommands as the first word. -/
def selectBinary (b : Backend) (action : Action) (a : List String) : List String :=
  let bin := if b.id = "xbps" ∧ action = .remove then "xbps-remove"
    else if b.id = "xbps" then XBPS_BIN else b.id
  if b.id = "lunar" ∨ b.id = "sorcery" then
    match a with
    | [] => [b.id]
    | first :: rest =>
      if first ∈ ["lin", "lrm", "cast", "dispel", "update"] then
        (if first = "update" then b.id else first) :: rest
      else b.id :: a
  else bin :: a

/-- The command of `runMutation`; `none` where the backend does not support the action. -/
def mutationCommand (b : Backend) (action : Action) (names : List String) : Option (List String) :=
  match action with
  | .updateAll => some ((if b.id = "xbps" then XBPS_BIN else b.id) :: b.updateAllArgs)
  | .install => some (selectBinary b action (b.installArgs names))
  | .remove => some (selectBinary b action (b.removeArgs names))
  | .update => (b.updateArgs names).map (selectBinary b action)

def privilegedRun (host : Host) (command : List String) : Outcome :=
  if host.root then .ran [] command
  else if host.passwordlessSudo then .ran ["sudo", "-n"] command
  else .notAuthorized command

def runMutation (host : Host) (b : Backend) (action : Action) (args : NameArgs) : Outcome :=
  let names := if action = .updateAll then [] else cleanNames args
  if action ≠ .updateAll ∧ names = [] then .noName
  else
    match mutationCommand b action names with
    | none => .unsupported
    | some command => privilegedRun host command

/-! ### Reads -/

structure ListArgs where
  query : Option String
  /-- `Number(args.limit)`, where it is a whole number. -/
  limit : Option ℤ
  offset : Option ℤ

/-- `commands.list`: a page of the rows whose name contains the query. -/
def list (host : Host) (b : Backend) (args : ListArgs) : List PkgRow :=
  let query := host.toLowerCase (args.query.getD "")
  let limit := max 1 (min 500 (if args.limit.getD 0 = 0 then 50 else args.limit.getD 0))
  let offset := max 0 (args.offset.getD 0)
  let filtered := if query = "" then b.listInstalled host
    else (b.listInstalled host).filter fun r =>
      decide (query.toList <:+: (host.toLowerCase r.name).toList)
  (filtered.drop offset.toNat).take limit.toNat

/-- `commands.updates` -/
def updates (host : Host) (b : Backend) : List UpdateRow := (b.listUpdates host).getD []

/-- The check of `commands.info` before it asks the backend. -/
def infoAccepts (name : String) : Bool := trim name ≠ "" && pkgNameOk (trim name)

end SysDeck.Web.Packages
