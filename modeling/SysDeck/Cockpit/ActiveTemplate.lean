import SysDeck.Cockpit.Packages
import SysDeck.Cockpit.Validators
import SysDeck.Library.Execution
import SysDeck.Library.RealPath

/-! The active template of the firewall bridge: which file it names, what starts and stops it, and the
switch of the backend. -/

namespace SysDeck.Cockpit.ActiveTemplate

open FileTree
open Packages (isSpace strip)
open Validators (validateBackendName validateFilename validateTemplateName)

def TEMPLATES_DIR : List String := ["usr", "share", "sysdeck", "firewall", "templates"]

/-- The files of the host, the limit of the interpreter on links that are followed, the text of each file
as text mode reads it, nothing of one that does not open, the templates in the order of their names, and
how the interpreter writes a text in quotes. -/
structure Host where
  tree : Tree
  depth : ℕ
  contents : Location → Option (List Char)
  installed : List Location
  repr : List Char → List Char

/-! ### Calls -/

/-- The actions that these commands run, of the six that are allowed. -/
inductive Action where
  | start | stop | detect
  deriving DecidableEq

inductive Call where
  | template (path : Location) (action : Action) (extraArgs : List (List Char))
  /-- `nft delete table inet firewall` -/
  | deleteTable
  /-- `systemctl stop nftables.service` -/
  | stopService
  deriving DecidableEq

inductive Answer where
  | returned (returncode : ℤ) (stdout stderr : List Char)
  | raised (exc : List Char)

structure Result where
  rc : ℤ
  out : List Char
  err : List Char

def printable (c : Char) : Bool :=
  (32 ≤ c.toNat && c.toNat < 127) || c = '\t' || c = '\n' || c = '\r'

/-- `_sanitize_output` -/
def sanitizeOutput (text : List Char) : List Char :=
  let text := if 4096 < text.length then text.take 4096 ++ " ... (truncated)".toList else text
  text.map fun c => if printable c then c else ' '

/-- What is made of the answer to a template or to `nft`. -/
def Answer.result : Answer → Result
  | .returned returncode stdout stderr => ⟨returncode, sanitizeOutput stdout, sanitizeOutput stderr⟩
  | .raised exc => ⟨127, [], exc⟩

/-- The call was made and succeeded. -/
def Answer.succeeded : Answer → Bool
  | .returned returncode _ _ => returncode = 0
  | .raised _ => false

theorem Answer.result_rc (answer : Answer) : answer.result.rc = 0 ↔ answer.succeeded = true := by
  cases answer with
  | returned returncode stdout stderr => simp [Answer.result, Answer.succeeded]
  | raised exc => simp [Answer.result, Answer.succeeded]

/-- The files of the bridge's state, nothing of one that is missing, and the calls made so far with their
answers, the last one first. -/
structure State where
  active : Option (List Char)
  backend : Option (List Char)
  calls : List (Call × Answer)

def State.made (state : State) (call : Call) (answer : Answer) : State :=
  { state with calls := (call, answer) :: state.calls }

/-! ### Templates -/

variable (host : Host)

/-- `_resolve_path_under_base` -/
def resolvePathUnderBase (parts base : List String) : Option Location :=
  if parts.isEmpty || parts.contains ".." then none
  else (realPath host.tree host.depth parts).filter (base.reverse.isSuffixOf ·)

/-- `name.removesuffix(".sh")` -/
def stemOf (name : List Char) : List Char :=
  if ".sh".toList.isSuffixOf name then name.take (name.length - 3) else name

/-- The file that a name stands for: its stem is valid, and names a file among the templates. -/
def fileOf (name : List Char) : Option Location :=
  let stem := stemOf name
  if validateTemplateName stem then
    (resolvePathUnderBase host (TEMPLATES_DIR ++ [String.ofList (stem ++ ".sh".toList)])
      TEMPLATES_DIR).filter (host.tree · = some .file)
  else none

/-- `path.stem` -/
def pathStem (name : List Char) : List Char :=
  let front := name.rdropWhile (· ≠ '.')
  if name.rtakeWhile (· ≠ '.') ≠ [] ∧ 2 ≤ front.length then front.dropLast else name

/-- The value of a line `# Name: value`, in letters of either case. -/
def nameField (line : List Char) : Option (List Char) :=
  match line.dropWhile isSpace with
  | '#' :: rest =>
    let key := rest.dropWhile isSpace
    if (key.take 4).map Char.toLower = "name".toList then
      match (key.drop 4).dropWhile isSpace with
      | ':' :: val => if val.isEmpty then none else some (strip val)
      | _ => none
    else none
  | _ => none

/-- `_parse_template_metadata(path)["name"]`: the last name among the first lines, and else the stem. -/
def metadataName (path : Location) : List Char :=
  (((((host.contents path).getD []).splitOn '\n').take 60).filterMap nameField).getLast?.getD
    (pathStem (path.headD "").toList)

/-- `template_info(name)`, of which the commands use the name. -/
def templateInfo (name : List Char) : Option (List Char) :=
  if name.isEmpty then none else (fileOf host name).map (metadataName host)

/-- The template that a text names once the blanks around it are gone, if it has any other character. -/
def named (text : List Char) : Option (List Char) :=
  if (strip text).isEmpty then none else some (strip text)

/-- `_read_active_template` -/
def State.readActiveTemplate (state : State) : Option (List Char) :=
  state.active.bind named

/-- `_write_active_template`, where the directory of the state can be written. -/
def State.writeActiveTemplate (state : State) (name : Option (List Char)) : State :=
  { state with active := name }

/-- `_resolve_template_path` -/
def resolveTemplatePath (state : State) (name : Option (List Char)) : Option Location :=
  match name.filter (!·.isEmpty) with
  | some name => fileOf host name
  | none =>
    match state.readActiveTemplate.bind (fileOf host) with
    | some path => some path
    | none => host.installed.head?

/-- What a step meets: the answer to each call, and which programs are found. -/
structure Outcomes where
  answer : Call → Answer
  nft : Bool
  cilium : Bool
  ciliumAgent : Bool

/-- `_run_template` -/
def runTemplate (outcomes : Outcomes) (state : State) (name : Option (List Char)) (action : Action)
    (extraArgs : List (List Char)) : State × Result :=
  match resolveTemplatePath host state name with
  | none => (state, ⟨127, [], "no firewall template available".toList⟩)
  | some path =>
    match extraArgs.find? (!validateFilename ·) with
    | some arg => (state, ⟨127, [], "invalid argument: ".toList ++ host.repr arg⟩)
    | none =>
      let call := .template path action extraArgs
      (state.made call (outcomes.answer call), (outcomes.answer call).result)

/-! ### Commands -/

structure DetectReport where
  activeTemplate : Option (List Char)
  result : Result

/-- `cmd_detect` -/
def cmdDetect (outcomes : Outcomes) (state : State) : State × DetectReport :=
  let active := state.readActiveTemplate
  let (state, result) := runTemplate host outcomes state (some (active.getD [])) .detect []
  (state, ⟨active, { result with out := strip result.out, err := strip result.err }⟩)

inductive ApplyReport where
  | error (text : List Char)
  | applied (template : List Char) (rc : ℤ) (output stderr : List Char)

def ApplyReport.success : ApplyReport → Bool
  | .error _ => false
  | .applied _ rc _ _ => rc = 0

/-- `cmd_apply` -/
def cmdApply (outcomes : Outcomes) (state : State) : List (List Char) → State × ApplyReport
  | [] => (state, .error "template name required".toList)
  | name :: extra =>
    if !validateTemplateName (stemOf name) then
      (state, .error ("invalid template name: ".toList ++ host.repr name))
    else
      match templateInfo host name with
      | none => (state, .error ("template '".toList ++ name ++ "' not found".toList))
      | some info =>
        let (state, result) := runTemplate host outcomes state (some name) .start extra
        let state := if result.rc = 0 then state.writeActiveTemplate (some info) else state
        (state, .applied info result.rc (strip result.out) (strip result.err))

inductive StopMethod where
  | template (name : List Char)
  | nftDirect
  | systemd
  | failed

structure StopReport where
  stopped : Bool
  method : StopMethod
  output : List Char
  stderr : List Char

/-- `cmd_stop` once the template did not stop. -/
def stopTable (outcomes : Outcomes) (state : State) : State × StopReport :=
  let answer := outcomes.answer .deleteTable
  let state := state.made .deleteTable answer
  if answer.result.rc = 0 then
    (state.writeActiveTemplate none,
      ⟨true, .nftDirect, strip answer.result.out, strip answer.result.err⟩)
  else
    let last := outcomes.answer .stopService
    let state := state.made .stopService last
    match last with
    | .returned returncode stdout stderr =>
      let err := sanitizeOutput stderr
      (if returncode = 0 then state.writeActiveTemplate none else state,
        ⟨returncode = 0, .systemd, sanitizeOutput stdout,
          if err.isEmpty then strip answer.result.err else err⟩)
    | .raised exc => (state, ⟨false, .failed, [], "all stop methods failed: ".toList ++ exc⟩)

/-- `cmd_stop` -/
def cmdStop (outcomes : Outcomes) (state : State) : State × StopReport :=
  match state.readActiveTemplate with
  | none => stopTable outcomes state
  | some active =>
    let (state, result) := runTemplate host outcomes state (some active) .stop []
    if result.rc = 0 then
      (state.writeActiveTemplate none, ⟨true, .template active, strip result.out, strip result.err⟩)
    else stopTable outcomes state

inductive RestartReport where
  | noTemplate (stop : StopReport)
  | restarted (template : List Char) (stop : StopReport) (apply : ApplyReport)

def RestartReport.success : RestartReport → Bool
  | .noTemplate _ => false
  | .restarted _ _ apply => apply.success

/-- `cmd_restart` -/
def cmdRestart (outcomes : Outcomes) (state : State) : State × RestartReport :=
  let active := state.readActiveTemplate
  let (state, stopResult) := cmdStop host outcomes state
  match active with
  | none => (state, .noTemplate stopResult)
  | some active =>
    let (state, applyResult) := cmdApply host outcomes state [active]
    (state, .restarted active stopResult applyResult)

/-! ### Backends -/

structure Backend where
  id : List Char
  template : Option (List Char)

def FIREWALL_BACKENDS : List Backend :=
  [⟨"custom".toList, none⟩, ⟨"cilium".toList, some "cilium".toList⟩,
    ⟨"sysdeck-fw".toList, some "sysdeck-fw".toList⟩]

structure Availability where
  installed : Bool
  reason : List Char
  installHint : Option (List Char)

def ciliumHint : List Char :=
  ("Install on Arch:   sudo pacman -S cilium-cli\n" ++
    "Install on Debian: sudo apt install cilium-cli\n" ++
    "Install via Helm:  helm repo add cilium https://helm.cilium.io/\n" ++
    "                   helm install cilium cilium/cilium -n kube-system").toList

/-- `_backend_available` -/
def backendAvailable (outcomes : Outcomes) (backendId : List Char) : Availability :=
  if backendId = "custom".toList then ⟨true, "nftables templates always available".toList, none⟩
  else if backendId = "sysdeck-fw".toList then
    if outcomes.nft then ⟨true, "OK".toList, none⟩
    else ⟨false, "nftables not installed".toList, some "pacman -S nftables  /  apt install nftables".toList⟩
  else if backendId = "cilium".toList then
    if outcomes.cilium && outcomes.ciliumAgent then ⟨true, "OK".toList, none⟩
    else
      let missing := (if outcomes.cilium then [] else ["cilium-cli"]) ++
        (if outcomes.ciliumAgent then [] else ["cilium-agent"])
      ⟨false, ("missing: " ++ ", ".intercalate missing).toList, some ciliumHint⟩
  else ⟨false, "unknown backend: ".toList ++ backendId, none⟩

/-- `_read_active_backend` -/
def State.readActiveBackend (state : State) : List Char :=
  (state.backend.bind named).getD "custom".toList

/-- `_write_active_backend` -/
def State.writeActiveBackend (state : State) (name : List Char) : State :=
  { state with backend := some name }

structure SwitchStep where
  step : List Char
  result : Result

def SwitchStep.of (step : List Char) (result : Result) : SwitchStep :=
  ⟨step, ⟨result.rc, strip result.out, strip result.err⟩⟩

inductive SwitchReport where
  | error (text : List Char)
  | switched (previous current : List Char) (available : Availability) (steps : List SwitchStep)

/-- The stop of the previous backend. -/
def stopPrevious (outcomes : Outcomes) (state : State) (prev : List Char) : State × Result :=
  if prev = "cilium".toList then runTemplate host outcomes state (some "cilium".toList) .stop []
  else (state.made .deleteTable (outcomes.answer .deleteTable), (outcomes.answer .deleteTable).result)

/-- The template that the switch to a backend starts. -/
def autoApplied (outcomes : Outcomes) (target : Backend) : Option (List Char) :=
  target.template.filter fun _ =>
    target.id ≠ "cilium".toList && (backendAvailable outcomes target.id).installed

/-- The start of a backend's template. -/
def applyBackend (outcomes : Outcomes) (state : State) (target : Backend) : State × List SwitchStep :=
  match autoApplied outcomes target with
  | some template =>
    let (state, result) := runTemplate host outcomes state (some template) .start []
    (if result.rc = 0 then state.writeActiveTemplate (some template) else state,
      [.of ("apply-".toList ++ target.id) result])
  | none =>
    (state,
      if target.id = "cilium".toList && !(backendAvailable outcomes target.id).installed then
        [⟨"cilium-install-hint".toList,
          ⟨0, "Cilium not installed. Use the Install button in the panel.".toList, []⟩⟩]
      else [])

/-- `cmd_switch_backend`; the ids in the error are those of the registry. -/
def cmdSwitchBackend (outcomes : Outcomes) (state : State) : List (List Char) → State × SwitchReport
  | [] => (state, .error "backend name required".toList)
  | name :: _ =>
    if !validateBackendName name then
      (state, .error ("invalid backend name: ".toList ++ host.repr name))
    else
      match FIREWALL_BACKENDS.find? (·.id = name) with
      | none =>
        (state, .error ("backend '".toList ++ name ++
          "' not found. Available: ['custom', 'cilium', 'sysdeck-fw']".toList))
      | some target =>
        let prev := state.readActiveBackend
        let (state, stopped) :=
          if prev = name then (state, [])
          else
            let (state, result) := stopPrevious host outcomes state prev
            (state, [SwitchStep.of ("stop-".toList ++ prev) result])
        let state := state.writeActiveBackend name
        let (state, applied) := applyBackend host outcomes state target
        (state, .switched prev name (backendAvailable outcomes name)
          (stopped ++ ⟨"write-backend-file".toList, ⟨0, name, []⟩⟩ :: applied))

end SysDeck.Cockpit.ActiveTemplate
