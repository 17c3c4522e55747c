import SysDeck.Library.Execution
import SysDeck.Library.OrderedMap
import SysDeck.Library.PythonJson
import SysDeck.Cockpit.PackageText

/-! The log pipeline of the Prometheus bridge: entries are appended to one file a module, a line
each, and summed up over the files. -/

namespace SysDeck.Cockpit.LogPipeline

open PythonJson
open PackageFiles (universal universal_of_none)

abbrev Text := List CodeUnit

def units (text : String) : Text := Utf16.encode text.toList

/-! ### Entries -/

/-- What `time.gmtime` reads off the clock, the year in two halves. -/
structure Stamp where
  century : Fin 100
  year : Fin 100
  month : Fin 100
  day : Fin 100
  hour : Fin 100
  minute : Fin 100
  second : Fin 100

/-- `%02d` -/
def two (n : Fin 100) : Text := [Utf16.unit (48 + n.val / 10), Utf16.unit (48 + n.val % 10)]

/-- `time.strftime("%Y-%m-%dT%H:%M:%SZ", …)` -/
def Stamp.text (stamp : Stamp) : Text :=
  two stamp.century ++ (two stamp.year ++ (45 :: (two stamp.month ++ (45 :: (two stamp.day ++
    (84 :: (two stamp.hour ++ (58 :: (two stamp.minute ++ (58 :: (two stamp.second ++ [90])))))))))))

def Stamp.fields (stamp : Stamp) : List (Fin 100) :=
  [stamp.century, stamp.year, stamp.month, stamp.day, stamp.hour, stamp.minute, stamp.second]

structure Entry where
  moduleName : Text
  level : Text
  message : Text
  stamp : Stamp
  metadata : Value
  pushed : Bool

/-- `log_entry` -/
def Entry.toJson (entry : Entry) : Value :=
  .object [
    (units "module", .string entry.moduleName),
    (units "level", .string entry.level),
    (units "message", .string entry.message),
    (units "timestamp", .string entry.stamp.text),
    (units "metadata", entry.metadata),
    (units "pushedToPrometheus", .bool entry.pushed)]

/-- `json.dumps(log_entry) + "\n"` -/
def Entry.line (entry : Entry) : List Char := entry.toJson.dumps ++ ['\n']

/-! ### push-log -/

/-- The characters of `FILENAME_RE`. -/
def filenameUnit (u : CodeUnit) : Bool :=
  (65 ≤ u.val && u.val ≤ 90) || (97 ≤ u.val && u.val ≤ 122) || (48 ≤ u.val && u.val ≤ 57) ||
    u = 46 || u = 95 || u = 45

/-- `_validate_filename`; the `$` of `^[A-Za-z0-9._-]{1,64}$` also stands before a last newline. -/
def validateFilename (name : Text) : Bool :=
  let body := if name.getLast? = some 10 then name.dropLast else name
  name.length ≤ 64 && !body.isEmpty && body.all filenameUnit

structure Given where
  moduleName : Text
  level : Text
  message : Text
  metadata : Option (List Char)

inductive Arguments where
  | few
  | given (given : Given)

/-- What becomes of `mkdir`, `open` and `write`: a write that fails may have reached the file with
the first characters of the line. -/
inductive Outcome where
  | unmade
  | unopened
  | failed (reached : ℕ)
  | written

structure Call where
  arguments : Arguments
  stamp : Stamp
  pushed : Bool
  outcome : Outcome

inductive Reply where
  | usage
  | badMetadata
  | badModule
  | logged (entry : Entry) (persisted : Bool)

/-- The files of the log directory, by name. -/
abbrev Files := OrderedMap Text (List Char)

/-- `f"{module}.jsonl"` -/
def logFile (moduleName : Text) : Text := moduleName ++ units ".jsonl"

def appendTo (directory : Option Files) (name : Text) (text : List Char) : Option Files :=
  let files := directory.getD .empty
  some (files.set name (files.getD name [] ++ text))

def persist (entry : Entry) (directory : Option Files) : Outcome → Option Files × Bool
  | .unmade => (directory, false)
  | .unopened => (some (directory.getD .empty), false)
  | .failed reached => (appendTo directory (logFile entry.moduleName) (entry.line.take reached), false)
  | .written => (appendTo directory (logFile entry.moduleName) entry.line, true)

section Pipeline

variable (numeral : List Char → Numeral)

/-- The entry that is pushed and persisted, or the refusal. -/
def entryOf (call : Call) : Except Reply Entry :=
  match call.arguments with
  | .few => .error .usage
  | .given given =>
    match given.metadata.elim (some (.object [])) (Value.loads numeral) with
    | none => .error .badMetadata
    | some metadata =>
      if validateFilename given.moduleName then
        .ok ⟨given.moduleName, given.level, given.message, call.stamp, metadata, call.pushed⟩
      else .error .badModule

def pushLog (call : Call) (directory : Option Files) : Option Files × Reply :=
  match entryOf numeral call with
  | .error reply => (directory, reply)
  | .ok entry =>
    let (directory, persisted) := persist entry directory call.outcome
    (directory, .logged entry persisted)

/-! ### log-summary -/

structure Summary where
  totalLogs : ℕ
  pushedToPrometheus : ℕ
  failedPushes : ℕ
  lastPushAt : Text
  byModule : OrderedMap Text ℕ
  byLevel : OrderedMap Text ℕ

def Summary.start : Summary := ⟨0, 0, 0, [], .empty, .empty⟩

/-- `by[name] = by.get(name, 0) + 1` -/
def increment (by_ : OrderedMap Text ℕ) (name : Text) : OrderedMap Text ℕ :=
  by_.set name (by_.getD name 0 + 1)

/-- `for line in f` -/
def logLines : List Char → List (List Char)
  | [] => []
  | c :: rest =>
    if c = '\n' then [c] :: logLines rest
    else
      match logLines rest with
      | [] => [[c]]
      | line :: later => (c :: line) :: later

def truthy : Option Value → Bool
  | none => false
  | some .null => false
  | some (.bool value) => value
  | some (.number numeral) => !(["0".toList, "0.0".toList, "-0.0".toList].contains numeral.text)
  | some (.string text) => !text.isEmpty
  | some (.array items) => !items.isEmpty
  | some (.object fields) => !fields.isEmpty

/-- A string of an entry, or the default. -/
def textOf (field : Option Value) (default : Text) : Option Text :=
  match field with
  | none => some default
  | some (.string text) => some text
  | some _ => none

/-- One round of the inner loop; none is an exception. -/
def Summary.add (summary : Summary) (entry : Value) : Option Summary :=
  match entry with
  | .object _ => do
    let name ← textOf (entry.get? (units "module")) (units "unknown")
    let level ← textOf (entry.get? (units "level")) (units "unknown")
    let counted := { summary with
      totalLogs := summary.totalLogs + 1
      byModule := increment summary.byModule name
      byLevel := increment summary.byLevel level }
    if truthy (entry.get? (units "pushedToPrometheus")) then
      let stamp ← textOf (entry.get? (units "timestamp")) []
      return { counted with
        pushedToPrometheus := summary.pushedToPrometheus + 1
        lastPushAt := if summary.lastPushAt < stamp then stamp else summary.lastPushAt }
    else return { counted with failedPushes := summary.failedPushes + 1 }
  | _ => none

def readLine (summary : Summary) (line : List Char) : Option Summary :=
  match Value.loads numeral line with
  | some entry => summary.add entry
  | none => some summary

/-- `LOG_DIR.glob("*.jsonl")` of what the directory lists. -/
def glob (listing : List (Text × List Char)) : List (Text × List Char) :=
  listing.filter fun file => (units ".jsonl").isSuffixOf file.1

def logSummary (existing : Bool) (listing : List (Text × List Char)) : Option Summary :=
  if existing then
    ((glob listing).flatMap fun file => logLines (universal file.2)).foldlM (readLine numeral) .start
  else some .start

/-! ### Runs -/

/-- The log directory, and every answer so far. -/
structure Pipeline where
  directory : Option Files
  replies : List Reply

/-- An empty log directory, which may have to be made. -/
def Pipeline.start (made : Bool) : Pipeline := ⟨if made then some .empty else none, []⟩

def step (pipeline : Pipeline) (call : Call) : Pipeline :=
  let (directory, reply) := pushLog numeral call pipeline.directory
  ⟨directory, pipeline.replies ++ [reply]⟩

/-- The pipeline after some calls. -/
def Pipeline.after (made : Bool) (calls : List Call) : Pipeline :=
  Execution.run (step numeral) (.start made) calls

end Pipeline

def Reply.persisted? : Reply → Option Entry
  | .logged entry true => some entry
  | _ => none

/-- The entries of the calls that answered `persisted: true`. -/
def Pipeline.persisted (pipeline : Pipeline) : List Entry := pipeline.replies.filterMap Reply.persisted?

def Pipeline.listing (pipeline : Pipeline) : List (Text × List Char) :=
  pipeline.directory.elim [] (·.entries)

/-- The exact count of a name, which has no count when it is not there. -/
def Counts (names : List Text) (counts : OrderedMap Text ℕ) : Prop :=
  ∀ name, counts.find? name = if names.count name = 0 then none else some (names.count name)

/-- What a summary of entries is to say. -/
structure Exact (entries : List Entry) (summary : Summary) : Prop where
  total : summary.totalLogs = entries.length
  pushed : summary.pushedToPrometheus = entries.countP (·.pushed)
  failed : summary.failedPushes = entries.countP (!·.pushed)
  byModule : Counts (entries.map (·.moduleName)) summary.byModule
  byLevel : Counts (entries.map (·.level)) summary.byLevel
  never : (∀ entry ∈ entries, entry.pushed = false) → summary.lastPushAt = []
  latest : ∀ other ∈ entries, other.pushed → ∃ entry ∈ entries, entry.pushed ∧
    summary.lastPushAt = entry.stamp.text ∧ other.stamp.fields ≤ entry.stamp.fields

/-- The text is empty or ends with a line. -/
def Whole (text : List Char) : Prop := ∀ c ∈ text.getLast?, c = '\n'

/-- The next line that reaches the file of an entry begins a line there. -/
def Fresh (directory : Option Files) (entry : Entry) : Prop :=
  Whole ((directory.getD .empty).getD (logFile entry.moduleName) [])

/-- An append begins a line of the file, and a failed one leaves nothing, or no JSON text. -/
def Allowed (numeral : List Char → Numeral) (pipeline : Pipeline) (call : Call) : Prop :=
  ∀ entry, entryOf numeral call = .ok entry →
    match call.outcome with
    | .failed reached => entry.line.take reached = [] ∨
        Fresh pipeline.directory entry ∧ Value.loads numeral (entry.line.take reached) = none
    | .written => Fresh pipeline.directory entry
    | _ => True

end SysDeck.Cockpit.LogPipeline
