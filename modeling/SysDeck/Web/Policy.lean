import SysDeck.Library.Execution
import SysDeck.Library.Lines
import SysDeck.Web.Firewall

/-! The policy bridge: the registry of rules, and the rules file of polkit that it writes. -/

namespace SysDeck.Web.Policy

open Firewall (trim)
open Lines (OneLine)

structure PolicyRule where
  id : String
  scope : String
  subject : String
  effect : String
  priority : ℤ
  enabled : Bool
  note : Option String
  deriving DecidableEq

/-- `[a-zA-Z0-9._-]` -/
def subjectChar (c : Char) : Bool := c.isAlphanum || c = '.' || c = '_' || c = '-'

/-- `^(unix-user|group|netgroup|user):[a-zA-Z0-9._-]+$` -/
def validSubject (subject : String) : Bool :=
  match subject.toList.splitOn ':' with
  | [kind, name] =>
    String.ofList kind ∈ ["unix-user", "group", "netgroup", "user"] && name ≠ [] &&
      name.all subjectChar
  | _ => false

/-! ### The rules file -/

/-- The two parts of `r.subject.split(':')` that are read. -/
def subjectParts (r : PolicyRule) : String × String :=
  let parts := (r.subject.toList.splitOn ':').map String.ofList
  (parts.headD "", parts.getD 1 "undefined")

def subjectTest (r : PolicyRule) : String :=
  let (kind, name) := subjectParts r
  if kind = "group" then "subject.isInGroup(\"" ++ name ++ "\")"
  else "subject.user === \"" ++ name ++ "\""

/-- The four lines that `syncForReal` pushes for a rule. -/
def ruleLines (r : PolicyRule) : List String :=
  ["    // " ++ r.note.getD r.scope ++ " — priority " ++ r.priority.repr,
    "    if (action.id === \"" ++ r.scope ++ "\" && " ++ subjectTest r ++ ") \x7b",
    "        return polkit.Result." ++ (if r.effect = "allow" then "YES" else "NO") ++ ";",
    "    \x7d"]

def fileHead : List String :=
  ["// /etc/polkit-1/rules.d/40-sysdeck.rules — generated by the sysdeck policy panel",
    "// (org.sysdeck.policy.modify). Regenerate it from the panel after edits.",
    "",
    "polkit.addRule(function(action, subject) \x7b",
    "    if (!action.id.startsWith(\"org.sysdeck.\")) \x7b",
    "        return polkit.Result.NOT_HANDLED;",
    "    \x7d"]

def fileTail : List String := ["    return polkit.Result.NOT_HANDLED;", "\x7d);", ""]

/-- The content that `syncForReal` writes for the selected rules. -/
def content (rules : List PolicyRule) : List Char :=
  ['\n'].intercalate ((fileHead ++ rules.flatMap ruleLines ++ fileTail).map String.toList)

/-- The enabled rules, by falling priority. The database may give equal priorities in any order. -/
structure Selected (registry rules : List PolicyRule) : Prop where
  enabled : rules.Perm (registry.filter (·.enabled))
  ordered : rules.Pairwise fun a b => b.priority ≤ a.priority

/-! ### The registry -/

/-- The arguments of `create`: the text of an argument, or nothing where it is missing; of
`priority` only an integer counts, of `note` only a text that is not empty. -/
structure CreateArgs where
  scope : Option String
  subject : Option String
  effect : Option String
  priority : Option ℤ
  note : Option String

/-- The arguments of `update`: `none` where one is undefined. -/
structure UpdateArgs where
  effect : Option String
  /-- `Number(args.priority)`, where it is an integer. -/
  priority : Option (Option ℤ)
  subject : Option String
  /-- The text of the note, or `null`. -/
  note : Option (Option String)

/-- A call, with what it finds on the host: the scopes of the policy files, and the next id. -/
inductive Call where
  | create (args : CreateArgs) (catalog : List String) (id : String)
  | update (id : String) (args : UpdateArgs)
  | toggle (id : String)
  | delete (id : String)

variable (toLowerCase : String → String)

/-- `String(effect).trim().toLowerCase()`, where it is one of the two. -/
def readEffect (effect : String) : Option String :=
  let effect := toLowerCase (trim effect)
  if effect = "allow" ∨ effect = "deny" then some effect else none

def readPriority (priority : ℤ) : Option ℤ :=
  if 0 ≤ priority ∧ priority ≤ 100 then some priority else none

def readSubject (subject : String) : Option String :=
  if validSubject (trim subject) then some (trim subject) else none

/-- The row of `commands.create`; `none` where it answers with an error. -/
def createRow (args : CreateArgs) (catalog : List String) (id : String) : Option PolicyRule :=
  let scope := trim (args.scope.getD "")
  if scope ≠ "" ∧ scope ∈ catalog then do
    let subject ← readSubject (args.subject.getD "")
    let effect ← readEffect toLowerCase (args.effect.getD "allow")
    let priority ← readPriority (args.priority.getD 50)
    return { id, scope, subject, effect, priority, enabled := true, note := args.note.map trim }
  else none

/-- A field of an update: the old value, or the argument where there is one. -/
def field {Value Arg : Type} (old : Value) (read : Arg → Option Value) : Option Arg → Option Value
  | none => some old
  | some arg => read arg

/-- The row after `commands.update`; `none` where it answers with an error. -/
def updateRow (args : UpdateArgs) (r : PolicyRule) : Option PolicyRule := do
  let effect ← field r.effect (readEffect toLowerCase) args.effect
  let priority ← field r.priority (·.bind readPriority) args.priority
  let subject ← field r.subject readSubject args.subject
  let note ← field r.note (some <| ·.map trim) args.note
  return { r with effect, priority, subject, note }

/-- `db.policyRule.update` of the row with the id, where the new data is not refused. -/
def modify (registry : List PolicyRule) (id : String) (change : PolicyRule → Option PolicyRule) :
    List PolicyRule :=
  registry.map fun r => if id ≠ "" ∧ r.id = id then (change r).getD r else r

def step (registry : List PolicyRule) : Call → List PolicyRule
  | .create args catalog id =>
    match createRow toLowerCase args catalog id with
    | none => registry
    | some row => if registry.any (·.id = id) then registry else registry ++ [row]
  | .update id args => modify registry (trim id) (updateRow toLowerCase args)
  | .toggle id => modify registry (trim id) fun r => some { r with enabled := !r.enabled }
  | .delete id => registry.filter fun r => !decide (trim id ≠ "" ∧ r.id = trim id)

end SysDeck.Web.Policy
