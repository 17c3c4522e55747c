import SysDeck.Web.Firewall

/-! The commands of the firewall bridge that write its tables: rulesets are created, from a
template or empty, and rules are added and removed. -/

namespace SysDeck.Web.Firewall

/-- The case mappings of the language, from the tables of Unicode. -/
structure CaseMapping where
  toUpperCase : String → String
  toLowerCase : String → String
  /-- No visible character becomes a blank one. -/
  tight : ∀ text, Text.Tight text.toList → Text.Tight (toLowerCase text).toList

theorem isBlank_toLower {c : Char} (visible : Text.isBlank c = false) :
    Text.isBlank c.toLower = false := by
  unfold Char.toLower
  split
  · rename_i upper
    have least : 65 ≤ c.val.toNat := UInt32.le_iff_toNat_le.mp upper.1
    have most : c.val.toNat ≤ 90 := UInt32.le_iff_toNat_le.mp upper.2
    have value : (c.val + ('a'.val - 'A'.val)).toNat = c.val.toNat + 32 := by
      have shift : ('a'.val - 'A'.val).toNat = 32 := by decide
      rw [UInt32.toNat_add, shift]
      exact Nat.mod_eq_of_lt (by omega)
    simp only [Text.isBlank, Char.toNat, value]
    grind
  · exact visible

/-- The mappings on ASCII text. -/
def CaseMapping.ascii : CaseMapping where
  toUpperCase text := String.ofList (text.toList.map Char.toUpper)
  toLowerCase text := String.ofList (text.toList.map Char.toLower)
  tight text tight := by
    rw [String.toList_ofList]
    refine ⟨?_, ?_⟩
    · rw [List.head?_map]
      intro c member
      obtain ⟨d, head, rfl⟩ := Option.map_eq_some_iff.mp member
      exact isBlank_toLower (tight.1 d head)
    · rw [List.getLast?_map]
      intro c member
      obtain ⟨d, last, rfl⟩ := Option.map_eq_some_iff.mp member
      exact isBlank_toLower (tight.2 d last)

def isDigit (c : Char) : Bool := decide ('0' ≤ c) && decide (c ≤ '9')

/-- `\d` at least once and at most so often. -/
def digits (most : ℕ) (text : List Char) : Bool :=
  !text.isEmpty && decide (text.length ≤ most) && text.all isDigit

/-- `^\d+([:-]\d+)?$` -/
def validPort (port : String) : Bool :=
  let second := port.toList.dropWhile isDigit
  !(port.toList.takeWhile isDigit).isEmpty && match second with
  | [] => true
  | separator :: rest =>
    (separator = ':' || separator = '-') && !rest.isEmpty && rest.all isDigit

/-- `^(\d{1,3}\.){3}\d{1,3}(\/\d{1,2})?$` -/
def validSource (source : String) : Bool :=
  let address (text : List Char) : Bool :=
    (text.splitOn '.').length = 4 && (text.splitOn '.').all (digits 3)
  match source.toList.splitOn '/' with
  | [whole] => address whole
  | [first, length] => address first && digits 2 length
  | _ => false

/-- `^[\x20-\x7e]{1,120}$` -/
def validComment (comment : String) : Bool :=
  !comment.toList.isEmpty && decide (comment.toList.length ≤ 120) &&
    comment.toList.all fun c => decide (0x20 ≤ c.toNat) && decide (c.toNat ≤ 0x7E)

/-- `^[a-zA-Z0-9][a-zA-Z0-9_-]*$` -/
def validRulesetName (name : String) : Bool :=
  match name.toList with
  | [] => false
  | first :: rest => first.isAlphanum && rest.all fun c => c.isAlphanum || c = '_' || c = '-'

structure FwRuleSeed where
  chain : String
  action : String
  proto : String
  port : Option String
  source : Option String
  comment : Option String

/-- A rule for TCP into the host. -/
def inputSeed (action : String) (port source : Option String) (comment : String) : FwRuleSeed :=
  { chain := "INPUT", action, proto := "tcp", port, source, comment := some comment }

structure Template where
  id : String
  rules : List FwRuleSeed

def templates : List Template :=
  let established := inputSeed "accept" none none "ct state established,related"
  let loopback := inputSeed "accept" none (some "127.0.0.1/8") "loopback"
  [{ id := "public-webserver"
     rules := [established, loopback,
       inputSeed "accept" (some "22") none "ssh (rate-limited)",
       inputSeed "accept" (some "11434") none "ollama api (public)",
       inputSeed "accept" (some "3000") none "openwebui (public)",
       inputSeed "accept" (some "8000") none "hermes (public)",
       inputSeed "accept" (some "8001") none "odysseus (public)",
       inputSeed "drop" none none "default drop"] },
   { id := "vps-webserver"
     rules := [established, loopback,
       inputSeed "accept" (some "22") none "ssh (rate-limited + auto-ban)",
       inputSeed "accept" (some "80") none "varnish cache front / caddy http",
       inputSeed "accept" (some "443") none "caddy https",
       inputSeed "drop" none none "default drop"] },
   { id := "ai-llm"
     rules := [established, loopback,
       inputSeed "accept" (some "22") none "ssh (rate-limited + auto-ban)",
       inputSeed "accept" (some "11434") none "ollama api (public)",
       inputSeed "accept" (some "3000") none "openwebui (public)",
       inputSeed "accept" (some "8000") none "hermes (public)",
       inputSeed "accept" (some "8001") none "odysseus (public)",
       inputSeed "drop" none none "default drop"] },
   { id := "remote-admin"
     rules := [established, loopback,
       inputSeed "accept" (some "22") none "ssh (rate-limited + auto-ban)",
       inputSeed "accept" (some "9090") none "cockpit (rate-limited)",
       inputSeed "drop" none none "default drop (invalid flags, fragments, bogons)"] },
   { id := "no-services"
     rules := [established, loopback,
       inputSeed "accept" (some "22") none "ssh (synproxy)",
       inputSeed "drop" none none "default drop — no public services"] },
   { id := "cilium"
     rules := [established,
       inputSeed "accept" (some "22") none "ssh (XDP)",
       { chain := "POLICY", action := "accept", proto := "any", port := none, source := none
         comment := some "cilium L7: allow http GET /api/* from ingress-identity" },
       { chain := "POLICY", action := "drop", proto := "any", port := none, source := none
         comment := some "cilium default deny at L7" }] },
   { id := "sysdeck-fw"
     rules := [established, loopback,
       inputSeed "accept" (some "22") none "ssh from RED (rate-limited)",
       { chain := "FORWARD", action := "accept", proto := "tcp", port := none
         source := some "10.0.0.0/8"
         comment := some "GREEN → RED/ORANGE allowed (source-verified outbound)" },
       { chain := "FORWARD", action := "drop", proto := "tcp", port := none
         source := some "10.0.2.0/24"
         comment := some "BLUE → GREEN denied (AirWall — even DNS blocked)" }] }]

def backends : List String := ["nftables", "iptables", "firewalld", "sysdeck-fw", "cilium"]

inductive CommandData where
  | created (ruleset : Ruleset) (rules : ℕ)
  | addedRule (rule : RuleRow)
  | deletedRule (rule : RuleRow)
  deriving DecidableEq

structure CommandOutcome where
  response : BridgeResponse CommandData
  tables : Tables
  audits : List (String × String)

structure CreateArgs where
  name : Option String
  backend : Option String
  template : Option String

/-- The rules that a template starts with. -/
def FwRuleSeed.row (seed : FwRuleSeed) (ruleset : String) (position : Int) : RuleRow :=
  { ruleset, chain := seed.chain, action := seed.action, proto := seed.proto, port := seed.port
    source := seed.source, comment := seed.comment, position }

def seedRows (ruleset : String) (seeds : List FwRuleSeed) : List RuleRow :=
  seeds.zipIdx.map fun (seed, i) => seed.row ruleset (i + 1)

/-- The seeds of the named template; no template has none. -/
def templateSeeds (template : Option String) : Option (List FwRuleSeed) :=
  match truthy template with
  | none => some []
  | some id => (templates.find? (·.id = id)).map Template.rules

/-- `commands.create` -/
def create (tables : Tables) (args : CreateArgs) : CommandOutcome :=
  let name := trim (args.name.getD "")
  let backend := trim (args.backend.getD "nftables")
  let template := (truthy args.template).map trim
  let refused (error : String) : CommandOutcome :=
    { response := .fail error .live, tables, audits := [] }
  if name = "" then refused "name is required"
  else if validRulesetName name = false then
    refused ("invalid ruleset name " ++ quote name ++
      " — letters/digits/dashes/underscores only")
  else if backend ∉ backends then
    refused "backend must be one of: nftables, iptables, firewalld, sysdeck-fw, cilium"
  else if (tables.findRuleset name).isSome then refused ("ruleset " ++ quote name ++ " already exists")
  else
    match templateSeeds template with
    | none =>
      refused ("unknown template " ++ quote (template.getD "") ++ " — available: " ++
        ", ".intercalate (templates.map Template.id))
    | some seeds =>
      let row : Ruleset := { name, backend, template, active := false, appliedAt := none }
      let origin := match truthy template with
        | some template => ", from template " ++ template
        | none => ""
      { response := .ok (.created row seeds.length) .live none
        tables :=
          { rulesets := tables.rulesets ++ [row], rules := tables.rules ++ seedRows name seeds }
        audits := [("create", "ruleset " ++ name ++ " (backend " ++ backend ++ origin ++ ") with " ++
          toString seeds.length ++ " rules")] }

structure RuleArgs where
  ruleset : Option String
  chain : Option String
  action : Option String
  proto : Option String
  port : Option String
  source : Option String
  comment : Option String

/-- The position after the last rule of a ruleset. -/
def Tables.nextPosition (tables : Tables) (ruleset : String) : Int :=
  match (tables.findRules ruleset).getLast? with
  | some last => last.position + 1
  | none => 1

/-- The row that the arguments ask for, before any check. -/
def RuleArgs.row (args : RuleArgs) (case : CaseMapping) (position : Int) : RuleRow :=
  { ruleset := trim (args.ruleset.getD "")
    chain := case.toUpperCase (trim (args.chain.getD "INPUT"))
    action := case.toLowerCase (trim (args.action.getD ""))
    proto := case.toLowerCase (trim (args.proto.getD "tcp"))
    port := args.port.map trim
    source := (truthy args.source).map trim
    comment := (truthy args.comment).map trim
    position }

/-- The first check of `commands.addRule` that the row fails. -/
def RuleRow.error? (row : RuleRow) : Option String :=
  if row.ruleset = "" then some "ruleset is required"
  else if row.chain ∉ ["INPUT", "FORWARD", "OUTPUT", "POLICY"] then
    some "chain must be INPUT, FORWARD, OUTPUT or POLICY"
  else if row.action ∉ ["accept", "drop", "reject", "log"] then
    some "action must be accept, drop, reject or log"
  else if row.port.any fun port => !validPort port then
    some ("invalid port " ++ quote (row.port.getD "") ++ " — a number or a range like 3000:3100")
  else if (truthy row.source).any fun source => !validSource source then
    some ("invalid source " ++ quote (row.source.getD "") ++
      " — expected a CIDR like 192.168.1.0/24")
  else if (truthy row.comment).any fun comment => !validComment comment then
    some "invalid comment — printable ASCII only, no newlines or control characters, max 120 chars"
  else none

/-- `commands.addRule` -/
def addRule (case : CaseMapping) (tables : Tables) (args : RuleArgs) : CommandOutcome :=
  let ruleset := trim (args.ruleset.getD "")
  let row := args.row case (tables.nextPosition ruleset)
  let refused (error : String) : CommandOutcome :=
    { response := .fail error .live, tables, audits := [] }
  match row.error? with
  | some error => refused error
  | none =>
    match tables.findRuleset ruleset with
    | none => refused ("ruleset " ++ quote ruleset ++ " not found")
    | some _ =>
      let dport := match truthy row.port with
        | some port => " dport " ++ port
        | none => ""
      let origin := match truthy row.source with
        | some source => " from " ++ source
        | none => ""
      { response := .ok (.addedRule row) .live none
        tables := { tables with rules := tables.rules ++ [row] }
        audits := [("addRule", "ruleset " ++ ruleset ++ ": +" ++ row.chain ++ " " ++ row.action ++
          " " ++ row.proto ++ dport ++ origin ++ " (position " ++ toString row.position ++ ")")] }

theorem mem_findRules {tables : Tables} {ruleset : String} {row : RuleRow} :
    row ∈ tables.findRules ruleset ↔ row ∈ tables.rules ∧ row.ruleset = ruleset := by
  rw [Tables.findRules, List.mem_mergeSort, List.mem_filter, decide_eq_true_eq]

theorem findRuleset_name {tables : Tables} {name : String} {ruleset : Ruleset}
    (found : tables.findRuleset name = some ruleset) : ruleset.name = name := by
  simpa using List.find?_some found

theorem find?_of_nodup {Row Name : Type} [DecidableEq Name] {name : Row → Name} {rows : List Row}
    (unique : (rows.map name).Nodup) {row : Row} (member : row ∈ rows) :
    rows.find? (fun other => name other = name row) = some row := by
  induction rows with
  | nil => cases member
  | cons first rows ih =>
    rw [List.map_cons, List.nodup_cons] at unique
    rcases List.mem_cons.mp member with rfl | later
    · simp
    · have apart : name first ≠ name row :=
        fun same => unique.1 (same ▸ List.mem_map_of_mem later)
      rw [List.find?_cons_of_neg (by simpa using apart), ih unique.2 later]

/-- What `commands.create` can do to the tables. -/
theorem create_cases (tables : Tables) (args : CreateArgs) :
    (create tables args).tables = tables ∨
    ∃ ruleset seeds, validRulesetName ruleset.name = true ∧ ruleset.backend ∈ backends ∧
      tables.findRuleset ruleset.name = none ∧ templateSeeds ruleset.template = some seeds ∧
      (create tables args).tables =
        { rulesets := tables.rulesets ++ [ruleset]
          rules := tables.rules ++ seedRows ruleset.name seeds } := by
  unfold create
  dsimp only
  split
  · exact .inl rfl
  · split
    · exact .inl rfl
    · rename_i name
      split
      · exact .inl rfl
      · rename_i backend
        split
        · exact .inl rfl
        · rename_i fresh
          split
          · exact .inl rfl
          · rename_i seeds found
            exact .inr ⟨_, seeds, by simpa using name, by simpa using backend, by simpa using fresh,
              found, rfl⟩

/-- What `commands.addRule` can do to the tables. -/
theorem addRule_cases (case : CaseMapping) (tables : Tables) (args : RuleArgs) :
    (addRule case tables args).tables = tables ∨
    ∃ ruleset row, row = args.row case (tables.nextPosition row.ruleset) ∧ row.error? = none ∧
      tables.findRuleset row.ruleset = some ruleset ∧
      (addRule case tables args).tables = { tables with rules := tables.rules ++ [row] } := by
  unfold addRule
  dsimp only
  cases failed : (args.row case (tables.nextPosition (trim (args.ruleset.getD "")))).error? with
  | some error => exact .inl rfl
  | none =>
    cases found : tables.findRuleset (trim (args.ruleset.getD "")) with
    | none => exact .inl rfl
    | some ruleset => exact .inr ⟨ruleset, _, rfl, failed, found, rfl⟩

theorem addRule_accepted {case : CaseMapping} {tables : Tables} {args : RuleArgs} {row : RuleRow}
    (asked : row = args.row case (tables.nextPosition (trim (args.ruleset.getD ""))))
    (passed : row.error? = none) {ruleset : Ruleset}
    (found : tables.findRuleset row.ruleset = some ruleset) :
    (addRule case tables args).tables = { tables with rules := tables.rules ++ [row] } := by
  subst asked
  have found' : tables.findRuleset (trim (args.ruleset.getD "")) = some ruleset := found
  unfold addRule
  dsimp only
  rw [passed]
  dsimp only
  rw [found']

/-- `commands.deleteRule`. The place of a row in its table stands for its id. -/
def deleteRule (tables : Tables) (place : ℕ) : CommandOutcome :=
  match tables.rules[place]? with
  | none => { response := .fail "rule not found" .live, tables, audits := [] }
  | some rule =>
    let port := match truthy rule.port with
      | some port => " " ++ port
      | none => ""
    { response := .ok (.deletedRule rule) .live none
      tables := { tables with rules := tables.rules.eraseIdx place }
      audits := [("deleteRule", "ruleset " ++ rule.ruleset ++ ": removed position " ++
        toString rule.position ++ " (" ++ rule.chain ++ " " ++ rule.action ++ port ++ ")")] }

end SysDeck.Web.Firewall
