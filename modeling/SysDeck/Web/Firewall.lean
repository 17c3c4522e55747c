import Mathlib.Data.List.Infix
import SysDeck.Library.Text
import SysDeck.Web.Bridge

/-! The firewall bridge: the two renderers of a stored ruleset, and its application. -/

namespace SysDeck.Web.Firewall

structure RuleRow where
  ruleset : String
  chain : String
  action : String
  proto : String
  port : Option String
  source : Option String
  comment : Option String
  position : Int
  deriving DecidableEq

structure Ruleset where
  name : String
  backend : String
  template : Option String
  active : Bool
  appliedAt : Option Int
  deriving DecidableEq

/-- A field that JavaScript takes for true. -/
def truthy (field : Option String) : Option String := field.filter (· ≠ "")

def trim (text : String) : String := String.ofList (Text.trim text.toList)

/-- Control characters and quotes never reach a script. -/
def safeComment (comment : String) : String :=
  let plain := comment.toList.map fun c =>
    if c.toNat ≤ 0x1F ∨ c.toNat = 0x7F then ' ' else if c = '"' then '\'' else c
  String.ofList (Text.slice 160 plain)

def mentionsEstablished (comment : Option String) : Bool :=
  comment.any fun text => "established".toList <:+: text.toList

def nftLine (r : RuleRow) : String :=
  let cmt := match truthy r.comment with
    | some comment => " comment \"" ++ safeComment comment ++ "\""
    | none => ""
  if r.port = none ∧ r.source = none ∧ mentionsEstablished r.comment then
    "ct state established,related " ++ r.action ++ cmt
  else if r.source = some "127.0.0.1/8" then "iifname \"lo\" " ++ r.action ++ cmt
  else
    let src := match truthy r.source with
      | some source => "ip saddr " ++ source ++ " "
      | none => ""
    let dst := match r.port with
      | some port => r.proto ++ " dport " ++ port ++ " "
      | none => ""
    let verdict := if r.action = "log" then "log" ++ cmt else r.action ++ cmt
    trim (src ++ dst ++ verdict)

/-- The name of a chain that is neither INPUT nor FORWARD. -/
def otherChain (chain : String) : String :=
  String.ofList (Text.replaceFirst "policy".toList "cilium_policy".toList
    (chain.toList.map Char.toLower))

def nftScript (ruleset : Ruleset) (rules : List RuleRow) : String :=
  let input := (rules.filter (·.chain = "INPUT")).map nftLine
  let forward := (rules.filter (·.chain = "FORWARD")).map nftLine
  let other := rules.filter fun r => r.chain ≠ "INPUT" ∧ r.chain ≠ "FORWARD"
  let template := match truthy ruleset.template with
    | some template => ", template " ++ template
    | none => ""
  "\n".intercalate <|
    ["#!/usr/sbin/nft -f",
      "# sysdeck-firewall: ruleset '" ++ ruleset.name ++ "' (backend " ++ ruleset.backend ++
        template ++ ")",
      "flush ruleset",
      "",
      "table inet firewall \x7b",
      "  set ssh_abuse \x7b",
      "    type ipv4_addr",
      "    flags timeout",
      "    timeout 1h",
      "  \x7d",
      "  chain input \x7b",
      "    type filter hook input priority filter; policy drop;"] ++
    input.map ("    " ++ ·) ++
    ["  \x7d",
      "  chain forward \x7b",
      "    type filter hook forward priority filter; policy drop;"] ++
    forward.map ("    " ++ ·) ++
    ["  \x7d",
      "  chain output \x7b",
      "    type filter hook output priority filter; policy accept;",
      "  \x7d"] ++
    other.map (fun r =>
      "  chain " ++ otherChain r.chain ++ " \x7b\n    " ++ nftLine r ++ "\n  \x7d") ++
    ["\x7d"]

def iptablesLine (r : RuleRow) : String :=
  let cmt := match truthy r.comment with
    | some comment => " -m comment --comment \"" ++ safeComment comment ++ "\""
    | none => ""
  let spec :=
    if mentionsEstablished r.comment then "-m conntrack --ctstate ESTABLISHED,RELATED"
    else if r.source = some "127.0.0.1/8" then "-i lo"
    else
      let src := match truthy r.source with
        | some source => " -s " ++ source
        | none => ""
      let dport := match r.port with
        | some port => " -p " ++ r.proto ++ " --dport " ++ port
        | none => " -p " ++ r.proto
      dport ++ src
  "-A " ++ r.chain ++ (if spec = "" then "" else " " ++ spec) ++ " -j " ++
    String.ofList (r.action.toList.map Char.toUpper) ++ cmt

def iptablesScript (ruleset : Ruleset) (rules : List RuleRow) : String :=
  "\n".intercalate <|
    ["# sysdeck-firewall: ruleset '" ++ ruleset.name ++
        "' (backend iptables) — iptables-restore format",
      "*filter",
      ":INPUT DROP [0:0]",
      ":FORWARD DROP [0:0]",
      ":OUTPUT ACCEPT [0:0]"] ++ rules.map iptablesLine ++ ["COMMIT"]

/-- The text for a ruleset without a shipped script. -/
def synthesized (ruleset : Ruleset) (rules : List RuleRow) : String :=
  if ruleset.backend = "iptables" then iptablesScript ruleset rules else nftScript ruleset rules

/-- A shipped template script. The console may lack the permission to read it. -/
structure ScriptFile where
  text : String
  readable : Bool

/-- A program that apply runs, itself or through `sudo -n`: a shipped script, or a loader
that reads the text. -/
inductive Launch where
  | script (path : String) (elevated : Bool) (text : String)
  | feed (bin : String) (args : List String) (elevated : Bool) (text : String)
  deriving DecidableEq

/-- The script that is executed or fed. -/
def Launch.text : Launch → String
  | script _ _ text => text
  | feed _ _ _ text => text

structure RunResult where
  rc : Int
  stdout : String
  stderr : String

structure Host where
  isRoot : Bool
  havePasswordlessSudo : Bool
  cwd : String
  scripts : String → Option ScriptFile
  run : Launch → RunResult

/-- The tables of the bridge. -/
structure Tables where
  rulesets : List Ruleset
  rules : List RuleRow

def Tables.findRuleset (tables : Tables) (name : String) : Option Ruleset :=
  tables.rulesets.find? (·.name = name)

/-- The rules of a ruleset by position. -/
def Tables.findRules (tables : Tables) (ruleset : String) : List RuleRow :=
  (tables.rules.filter (·.ruleset = ruleset)).mergeSort fun first second =>
    first.position ≤ second.position

def Host.templateScriptRoots (host : Host) : List String :=
  ["/usr/share/sysdeck/firewall/templates",
    "/usr/local/share/sysdeck/firewall/templates",
    "/usr/lib/sysdeck/firewall/templates",
    host.cwd ++ "/../firewall/templates"]

/-- The first shipped script of a template, with its path. -/
def Host.templateScript (host : Host) (template : String) : Option (String × ScriptFile) :=
  host.templateScriptRoots.findSome? fun root =>
    let path := root ++ "/" ++ template ++ ".sh"
    (host.scripts path).map fun file => (path, file)

/-- `readText` of a script: empty when it cannot be read. -/
def ScriptFile.readText (file : ScriptFile) : String := if file.readable then file.text else ""

def firstLine (text : String) : String :=
  String.ofList (((trim text).toList.splitOn '\n').headD [])

/-- The last five lines. -/
def tailLines (text : String) : String :=
  let lines := text.toList.splitOn '\n'
  String.ofList (['\n'].intercalate (lines.drop (lines.length - 5)))

structure ApplyResult where
  ok : Bool
  command : String
  via : String
  output : String
  error : Option String

def applyForReal (host : Host) (script backend : String) : ApplyResult × Option Launch :=
  let bin := if backend = "iptables" then "iptables-restore" else "nft"
  let args := if backend = "iptables" then [] else ["-f", "-"]
  let command := bin ++ " " ++ " ".intercalate args ++ " < ruleset"
  let ran (launch : Launch) (command via : String) : ApplyResult × Option Launch :=
    let res := host.run launch
    ({ ok := res.rc = 0, command, via,
       output := if res.stdout = "" then res.stderr else res.stdout,
       error := if res.rc = 0 then none else some (firstLine res.stderr) }, some launch)
  if host.isRoot then ran (.feed bin args false script) command "root"
  else if host.havePasswordlessSudo then
    ran (.feed bin args true script) ("sudo -n " ++ command) "sudo -n"
  else
    ({ ok := false, command, via := "none", output := "",
       error := some "org.sysdeck.firewall.modify — not authorized: this console process is unprivileged and has no passwordless sudo" },
      none)

inductive ApplyData where
  | preview (name backend script : String) (shipped : Option String) (rules : ℕ)
  | applied (ruleset : Ruleset) (rules : ℕ) (command via : String) (output : Option String)
  deriving DecidableEq

def ApplyData.script? : ApplyData → Option String
  | preview _ _ script _ _ => some script
  | applied _ _ _ _ _ => none

structure ApplyOutcome where
  response : BridgeResponse ApplyData
  /-- The program that was run, if one was. -/
  launched : Option Launch
  tables : Tables
  /-- The audit rows written, as action and detail. -/
  audits : List (String × String)

/-- The ruleset is the active one from now on. -/
def Tables.activate (tables : Tables) (ruleset : Ruleset) (now : Int) : Ruleset × Tables :=
  let row := { ruleset with active := true, appliedAt := some now }
  (row, { tables with rulesets := tables.rulesets.map fun other =>
    if other.name = ruleset.name then row else { other with active := false } })

def quote (text : String) : String := "'" ++ text ++ "'"

/-- The shipped script itself is run. -/
def applyShipped (host : Host) (tables : Tables) (ruleset : Ruleset) (rules : ℕ)
    (path : String) (file : ScriptFile) (now : Int) : ApplyOutcome :=
  let ran (launch : Launch) : ApplyOutcome :=
    let res := host.run launch
    let audits := [("apply", "ruleset " ++ ruleset.name ++ " ACTIVATED via shipped template script " ++
      path ++ " (rc=" ++ toString res.rc ++ ")")]
    if res.rc ≠ 0 then
      { response := .fail (path ++ " failed — " ++ firstLine res.stderr) .live,
        launched := some launch, tables, audits }
    else
      let (row, tables) := tables.activate ruleset now
      { response := .ok (.applied row rules path "template script" none) .live
          (some ("executed the shipped executable template " ++ path)),
        launched := some launch, tables, audits }
  if host.isRoot then ran (.script path false file.text)
  else if host.havePasswordlessSudo then ran (.script path true file.text)
  else
    { response := .fail ("org.sysdeck.firewall.modify — not authorized: run as root or grant sudo -n to execute:\n  " ++
        path) .hybrid,
      launched := none, tables, audits := [] }

/-- What apply would load, without loading it. -/
def dryRun (ruleset : Ruleset) (rules : List RuleRow) (shipped : Option (String × ScriptFile)) :
    BridgeResponse ApplyData :=
  match shipped with
  | some (path, file) =>
    let script := String.ofList (Text.slice 200000 file.readText.toList)
    .ok (.preview ruleset.name ruleset.backend script (some path) rules.length) .live
      (some ("dry run — apply executes the shipped template script " ++ path ++
        " (shown verbatim); nothing was loaded"))
  | none =>
    .ok (.preview ruleset.name ruleset.backend (synthesized ruleset rules) none rules.length) .live
      (some "dry run — the exact ruleset text that would be applied (nft/iptables syntax), nothing was loaded")

/-- The synthesized text is loaded. -/
def applySynthesized (host : Host) (tables : Tables) (ruleset : Ruleset) (rules : List RuleRow)
    (now : Int) : ApplyOutcome :=
  let (res, launched) := applyForReal host (synthesized ruleset rules) ruleset.backend
  let audits := [("apply", "ruleset " ++ ruleset.name ++ " → " ++ res.command ++ " via " ++ res.via ++
    " — " ++ if res.ok then "APPLIED" else "FAILED")]
  if !res.ok then
    { response := .fail (res.error.getD "apply failed" ++ " — the operator command:\n  " ++
        res.command) .hybrid,
      launched, tables, audits }
  else
    let (row, tables) := tables.activate ruleset now
    { response := .ok (.applied row rules.length res.command res.via (some (tailLines res.output)))
        .live (some ("real apply via " ++ res.via)),
      launched, tables, audits }

/-- `commands.apply`, with the name as it was sent and the time of the update. -/
def apply (host : Host) (tables : Tables) (name : String) (dry : Bool) (now : Int) : ApplyOutcome :=
  let name := trim name
  let refused (error : String) : ApplyOutcome :=
    { response := .fail error .live, launched := none, tables, audits := [] }
  if name = "" then refused "name is required"
  else
    match tables.findRuleset name with
    | none => refused ("ruleset " ++ quote name ++ " not found")
    | some ruleset =>
      let rules := tables.findRules name
      let shipped := (truthy ruleset.template).bind host.templateScript
      match shipped with
      | some (path, file) =>
        if ruleset.backend ≠ "iptables" ∧ !dry then
          applyShipped host tables ruleset rules.length path file now
        else if dry then
          { response := dryRun ruleset rules shipped, launched := none, tables, audits := [] }
        else applySynthesized host tables ruleset rules now
      | none =>
        if dry then
          { response := dryRun ruleset rules shipped, launched := none, tables, audits := [] }
        else applySynthesized host tables ruleset rules now

end SysDeck.Web.Firewall
