import SysDeck.Library.Execution
import SysDeck.Web.FirewallDryRun
import SysDeck.Web.FirewallScript

/-! What the application of a ruleset loads, after any history of its rules. -/

namespace SysDeck.Web.Firewall

/-- A command that changes the rules of a ruleset. -/
inductive Edit where
  | create (args : CreateArgs)
  | addRule (args : RuleArgs)
  | deleteRule (place : ℕ)

def edit (case : CaseMapping) (tables : Tables) : Edit → Tables
  | .create args => (create tables args).tables
  | .addRule args => (addRule case tables args).tables
  | .deleteRule place => (deleteRule tables place).tables

/-- The rules of each ruleset stand in the order of their positions, and each belongs to one. -/
structure Ordered (tables : Tables) : Prop where
  owned : ∀ row ∈ tables.rules, (tables.findRuleset row.ruleset).isSome
  ascending : ∀ name, (tables.rules.filter (·.ruleset = name)).Pairwise (·.position < ·.position)

theorem Ordered.findRules {tables : Tables} (ordered : Ordered tables) (name : String) :
    tables.findRules name = tables.rules.filter (·.ruleset = name) := by
  refine List.mergeSort_of_pairwise ((ordered.ascending name).imp fun before => ?_)
  exact decide_eq_true (Int.le_of_lt before)

/-- The next position is after every other. -/
theorem Ordered.nextPosition {tables : Tables} (ordered : Ordered tables) {row : RuleRow}
    (member : row ∈ tables.rules) : row.position < tables.nextPosition row.ruleset := by
  have ascending := ordered.ascending row.ruleset
  have inside : row ∈ tables.rules.filter (·.ruleset = row.ruleset) :=
    List.mem_filter.mpr ⟨member, decide_eq_true rfl⟩
  rw [Tables.nextPosition, ordered.findRules]
  cases last : (tables.rules.filter (·.ruleset = row.ruleset)).getLast? with
  | none =>
    rw [List.getLast?_eq_none_iff] at last
    rw [last] at inside
    cases inside
  | some final =>
    obtain ⟨front, split⟩ := List.getLast?_eq_some_iff.mp last
    rw [split] at inside ascending
    rcases List.mem_append.mp inside with earlier | same
    · have before := (List.pairwise_append.mp ascending).2.2 row earlier final List.mem_cons_self
      exact Int.lt_add_one_of_le (Int.le_of_lt before)
    · rw [List.mem_singleton.mp same]
      exact Int.lt_succ _

theorem findRuleset_isSome {tables : Tables} {name : String} :
    (tables.findRuleset name).isSome ↔ ∃ ruleset ∈ tables.rulesets, ruleset.name = name := by
  simp [Tables.findRuleset, List.find?_isSome]

/-- The seeds of a template stand in the order of their positions. -/
theorem seedRows_ascending (name : String) (seeds : List FwRuleSeed) :
    (seedRows name seeds).Pairwise (·.position < ·.position) := by
  unfold seedRows
  generalize 0 = start
  induction seeds generalizing start with
  | nil => exact .nil
  | cons seed seeds ih =>
    rw [List.zipIdx_cons, List.map_cons, List.pairwise_cons]
    refine ⟨fun row member => ?_, ih (start + 1)⟩
    obtain ⟨⟨other, i⟩, inside, rfl⟩ := List.mem_map.mp member
    have later : start + 1 ≤ i := (List.mem_zipIdx inside).1
    change (start : Int) + 1 < (i : Int) + 1
    omega

theorem filter_seedRows (name other : String) (seeds : List FwRuleSeed) :
    (seedRows name seeds).filter (·.ruleset = other) =
      if name = other then seedRows name seeds else [] := by
  have owner : ∀ row ∈ seedRows name seeds, row.ruleset = name := by
    intro row member
    obtain ⟨⟨seed, i⟩, -, rfl⟩ := List.mem_map.mp member
    rfl
  split
  · rename_i same
    exact List.filter_eq_self.mpr fun row member => decide_eq_true ((owner row member).trans same)
  · rename_i differ
    refine List.filter_eq_nil_iff.mpr fun row member => ?_
    rw [owner row member]
    simpa using differ

theorem Ordered.create {tables : Tables} (ordered : Ordered tables) (args : CreateArgs) :
    Ordered (create tables args).tables := by
  obtain same | ⟨ruleset, seeds, -, -, fresh, -, same⟩ := create_cases tables args
  · rw [same]
    exact ordered
  · rw [same]
    constructor
    · intro row member
      refine findRuleset_isSome.mpr ?_
      rcases List.mem_append.mp member with old | new
      · obtain ⟨other, listed, owner⟩ := findRuleset_isSome.mp (ordered.owned row old)
        exact ⟨other, List.mem_append_left _ listed, owner⟩
      · obtain ⟨⟨seed, i⟩, -, rfl⟩ := List.mem_map.mp new
        exact ⟨ruleset, List.mem_append_right _ List.mem_cons_self, rfl⟩
    · intro name
      rw [List.filter_append, filter_seedRows]
      split
      · rename_i named
        have unnamed : tables.rules.filter (·.ruleset = name) = [] := by
          refine List.filter_eq_nil_iff.mpr fun row member => ?_
          rw [decide_eq_true_eq]
          intro owner
          have found := ordered.owned row member
          rw [owner, ← named, fresh] at found
          cases found
        rw [unnamed, List.nil_append]
        exact seedRows_ascending ruleset.name seeds
      · rw [List.append_nil]
        exact ordered.ascending name

theorem Ordered.addRule {tables : Tables} (ordered : Ordered tables) (case : CaseMapping)
    (args : RuleArgs) : Ordered (addRule case tables args).tables := by
  obtain same | ⟨ruleset, row, asked, -, found, same⟩ := addRule_cases case tables args
  · rw [same]
    exact ordered
  · have position : row.position = tables.nextPosition row.ruleset := by
      conv_lhs => rw [asked]
      rfl
    rw [same]
    constructor
    · intro other member
      rcases List.mem_append.mp member with old | new
      · exact ordered.owned other old
      · rw [List.mem_singleton.mp new]
        exact Option.isSome_iff_exists.mpr ⟨ruleset, found⟩
    · intro name
      rw [List.filter_append, List.pairwise_append]
      refine ⟨ordered.ascending name, (List.pairwise_singleton _ row).filter _, ?_⟩
      intro other earlier added member
      obtain ⟨inside, owner⟩ := List.mem_filter.mp earlier
      obtain ⟨only, owner'⟩ := List.mem_filter.mp member
      rw [decide_eq_true_eq] at owner owner'
      rw [List.mem_singleton.mp only] at owner' ⊢
      rw [position, owner', ← owner]
      exact ordered.nextPosition inside

theorem Ordered.deleteRule {tables : Tables} (ordered : Ordered tables) (place : ℕ) :
    Ordered (deleteRule tables place).tables := by
  unfold Firewall.deleteRule
  split
  · exact ordered
  · constructor
    · exact fun row member => ordered.owned row (List.mem_of_mem_eraseIdx member)
    · intro name
      exact (ordered.ascending name).sublist ((List.eraseIdx_sublist _ _).filter _)

theorem ordered_run (case : CaseMapping) (edits : List Edit) :
    Ordered (Execution.run (edit case) ⟨[], []⟩ edits) := by
  refine Execution.invariant ?_ ?_ edits
  · constructor
    · exact fun _ member => by cases member
    · exact fun _ => List.Pairwise.nil
  · intro tables change ordered
    cases change with
    | create args => exact ordered.create args
    | addRule args => exact ordered.addRule case args
    | deleteRule place => exact ordered.deleteRule place

/-! What is loaded. -/

/-- The text is the skeleton of the chains with one line for each of the rules, in order
within each chain. -/
structure RenderedFrom (ruleset : Ruleset) (rules : List RuleRow) (text : String) : Prop where
  lines : text.toList = ['\n'].intercalate
    ((frame ruleset rules).map fun slot => (slot.text ruleset.backend).toList)
  onePerRule : ((frame ruleset rules).filterMap Slot.row?).Perm rules
  inOrder : ∀ chain, ((frame ruleset rules).filterMap Slot.row?).filter (·.chain = chain) =
    rules.filter (·.chain = chain)

theorem renderedFrom (ruleset : Ruleset) (rules : List RuleRow) :
    RenderedFrom ruleset rules (synthesized ruleset rules) where
  lines := toList_synthesized ruleset rules
  onePerRule := frame_rows ruleset rules
  inOrder := frame_rows_chain ruleset rules

/-- A text that is rendered for nft says so in its first line. -/
theorem RenderedFrom.shebang {ruleset : Ruleset} {rules : List RuleRow} {text : String}
    (rendered : RenderedFrom ruleset rules text) (nft : ruleset.backend ≠ "iptables") :
    ("#!/usr/sbin/nft -f" : String).toList <+: text.toList := by
  rw [rendered.lines, frame, if_neg nft, nftBlocks]
  simp only [List.map_cons, List.cons_append, List.flatten_cons, List.nil_append, List.map_nil,
    List.intercalate_cons_cons, List.append_assoc]
  exact List.prefix_append _ _

/-- The script that a template ships is what the application of its rulesets runs, unless
they are for iptables. -/
def Host.replaces (host : Host) (ruleset : Ruleset) (path : String) (file : ScriptFile) : Prop :=
  (truthy ruleset.template).bind host.templateScript = some (path, file) ∧
    ruleset.backend ≠ "iptables"

theorem applyForReal_ok {host : Host} {script backend : String}
    (ok : (applyForReal host script backend).1.ok = true) :
    ∃ launch, (applyForReal host script backend).2 = some launch := by
  unfold applyForReal at ok ⊢
  dsimp only at ok ⊢
  split
  · exact ⟨_, rfl⟩
  · split
    · exact ⟨_, rfl⟩
    · rename_i root plain
      rw [if_neg root, if_neg plain] at ok
      cases ok

/-- What an application that succeeds has launched. -/
structure Loaded (host : Host) (ruleset : Ruleset) (rules : List RuleRow) (launched : Option Launch)
    (count : ℕ) (command : String) : Prop where
  counted : count = rules.length
  launch : ∃ launch, launched = some launch ∧
    ((∃ path file, host.replaces ruleset path file ∧ launch.text = file.text ∧ command = path) ∨
      ((∀ path file, ¬ host.replaces ruleset path file) ∧ RenderedFrom ruleset rules launch.text))

variable {host : Host} {tables : Tables} {ruleset row : Ruleset} {count : ℕ} {now : Int}
  {command via : String} {output note : Option String} {source : BridgeSource}

theorem applyShipped_loaded {rules : ℕ} {path : String} {file : ScriptFile}
    (reported : (applyShipped host tables ruleset rules path file now).response =
      .ok (.applied row count command via output) source note) :
    count = rules ∧ command = path ∧
      ∃ launch, (applyShipped host tables ruleset rules path file now).launched = some launch ∧
        launch.text = file.text := by
  unfold applyShipped at reported ⊢
  dsimp only at reported ⊢
  split
  · rename_i root
    rw [if_pos root] at reported
    split at reported
    · cases reported
    · rename_i succeeded
      rw [if_neg succeeded]
      simp only [BridgeResponse.ok.injEq, ApplyData.applied.injEq] at reported
      exact ⟨reported.1.2.1.symm, reported.1.2.2.1.symm, _, rfl, rfl⟩
  · rename_i root
    rw [if_neg root] at reported
    split at reported
    · rename_i elevated
      rw [if_pos elevated]
      split at reported
      · cases reported
      · rename_i succeeded
        rw [if_neg succeeded]
        simp only [BridgeResponse.ok.injEq, ApplyData.applied.injEq] at reported
        exact ⟨reported.1.2.1.symm, reported.1.2.2.1.symm, _, rfl, rfl⟩
    · cases reported

theorem applySynthesized_loaded {rules : List RuleRow}
    (reported : (applySynthesized host tables ruleset rules now).response =
      .ok (.applied row count command via output) source note) :
    count = rules.length ∧
      ∃ launch, (applySynthesized host tables ruleset rules now).launched = some launch ∧
        launch.text = synthesized ruleset rules := by
  rw [applySynthesized_launched]
  unfold applySynthesized at reported
  dsimp only at reported
  split at reported
  · cases reported
  · rename_i ok
    obtain ⟨launch, found⟩ := applyForReal_ok (by simpa using ok)
    refine ⟨?_, launch, found, (applyForReal_launched host _ _).1 launch found⟩
    simp only [BridgeResponse.ok.injEq, ApplyData.applied.injEq] at reported
    exact reported.1.2.1.symm

theorem apply_refused {name : String}
    (absent : trim name = "" ∨ tables.findRuleset (trim name) = none) :
    ∃ error, (apply host tables name false now).response = .fail error .live := by
  unfold apply
  dsimp only
  split
  · exact ⟨_, rfl⟩
  · rename_i nonempty
    rw [absent.resolve_left nonempty]
    exact ⟨_, rfl⟩

/-- An application that succeeds loaded the shipped script of the template, or the text of
all the rules. -/
theorem apply_loaded {name : String}
    (reported : (apply host tables name false now).response =
      .ok (.applied row count command via output) source note) :
    ∃ ruleset, tables.findRuleset (trim name) = some ruleset ∧
      Loaded host ruleset (tables.findRules (trim name)) (apply host tables name false now).launched
        count command := by
  have refuse {error : String} : (apply host tables name false now).response ≠ .fail error .live := by
    rw [reported]
    exact fun same => by cases same
  have refused (absent : trim name = "" ∨ tables.findRuleset (trim name) = none) :
      ∃ error, (apply host tables name false now).response = .fail error .live := apply_refused absent
  have nonempty : trim name ≠ "" := by
    intro empty
    obtain ⟨error, failed⟩ := refused (.inl empty)
    exact refuse failed
  cases found : tables.findRuleset (trim name) with
  | none =>
    obtain ⟨error, failed⟩ := refused (.inr found)
    exact absurd failed refuse
  | some ruleset =>
    refine ⟨ruleset, rfl, ?_⟩
    have synthesizedLoads
        (text : apply host tables name false now =
          applySynthesized host tables ruleset (tables.findRules (trim name)) now)
        (unshipped : ∀ path file, ¬ host.replaces ruleset path file) :
        Loaded host ruleset (tables.findRules (trim name))
          (apply host tables name false now).launched count command := by
      rw [text] at reported ⊢
      obtain ⟨counted, launch, launched, rendered⟩ := applySynthesized_loaded reported
      exact ⟨counted, launch, launched, .inr ⟨unshipped, rendered ▸ renderedFrom ruleset _⟩⟩
    cases shipped : (truthy ruleset.template).bind host.templateScript with
    | none =>
      refine synthesizedLoads (apply_unshipped host tables nonempty found shipped now) ?_
      rintro path file ⟨replaced, -⟩
      rw [shipped] at replaced
      cases replaced
    | some script =>
      obtain ⟨path, file⟩ := script
      have applied := apply_shipped host tables nonempty found shipped now
      by_cases restored : ruleset.backend = "iptables"
      · rw [if_pos restored] at applied
        exact synthesizedLoads applied fun path file replaced => replaced.2 restored
      · rw [if_neg restored] at applied
        rw [applied] at reported ⊢
        obtain ⟨counted, ran, launch, launched, same⟩ := applyShipped_loaded reported
        exact ⟨counted, launch, launched, .inl ⟨path, file, ⟨shipped, restored⟩, same, ran⟩⟩

/-- After any history of its rules, an application of a ruleset that succeeds counts its stored
rows, which stand in the order of their positions. It loaded one line for each of them,
unless the ruleset's template ships a script and its backend is not iptables: then the
script itself ran, and is the command that is reported. -/
theorem applied_after_edits (case : CaseMapping) (edits : List Edit) (host : Host) (name : String)
    (now : Int) (row : Ruleset) (count : ℕ) (command via : String) (output note : Option String)
    (source : BridgeSource)
    (reported : (apply host (Execution.run (edit case) ⟨[], []⟩ edits) name false now).response =
      .ok (.applied row count command via output) source note) :
    ∃ ruleset rules,
      (Execution.run (edit case) ⟨[], []⟩ edits).findRuleset (trim name) = some ruleset ∧
      rules = (Execution.run (edit case) ⟨[], []⟩ edits).rules.filter (·.ruleset = trim name) ∧
      rules.Pairwise (·.position < ·.position) ∧
      Loaded host ruleset rules
        (apply host (Execution.run (edit case) ⟨[], []⟩ edits) name false now).launched count
        command := by
  have ordered := ordered_run case edits
  obtain ⟨ruleset, found, loaded⟩ := apply_loaded reported
  rw [ordered.findRules] at loaded
  exact ⟨ruleset, _, found, rfl, ordered.ascending _, loaded⟩

def openHttps : RuleArgs where
  ruleset := some "edge"
  chain := none
  action := some "accept"
  proto := none
  port := some "443"
  source := none
  comment := none

/-- A root console without shipped scripts. -/
def bareHost : Host where
  isRoot := true
  havePasswordlessSudo := false
  cwd := "/srv/sysdeck/web"
  scripts _ := none
  run _ := { rc := 0, stdout := "", stderr := "" }

theorem applied_after_edits_edge :
    ∃ ruleset rules,
      (Execution.run (edit .ascii) ⟨[], []⟩
        [.create ⟨some "edge", none, none⟩, .addRule openHttps]).findRuleset (trim "edge") =
          some ruleset ∧
      rules = (Execution.run (edit .ascii) ⟨[], []⟩
        [.create ⟨some "edge", none, none⟩, .addRule openHttps]).rules.filter
          (·.ruleset = trim "edge") ∧
      rules.Pairwise (·.position < ·.position) ∧
      Loaded bareHost ruleset rules
        (apply bareHost (Execution.run (edit .ascii) ⟨[], []⟩
          [.create ⟨some "edge", none, none⟩, .addRule openHttps]) "edge" false 7).launched 1
        "nft -f - < ruleset" :=
  applied_after_edits .ascii [.create ⟨some "edge", none, none⟩, .addRule openHttps] bareHost "edge" 7
    ⟨"edge", "nftables", none, true, some 7⟩ 1 "nft -f - < ruleset" "root" (some "")
    (some "real apply via root") .live (by decide +kernel)

/-- A ruleset from a template, with a rule of its own. -/
def templateEdits : List Edit :=
  [.create ⟨some "edge", none, some "no-services"⟩, .addRule openHttps]

/-- A rule that is added to the ruleset of a template is counted, and not loaded. -/
theorem added_rule_not_loaded :
    ∃ row launch via output source note,
      (apply edgeHost (Execution.run (edit .ascii) ⟨[], []⟩ templateEdits) "edge" false 7).response =
        .ok (.applied row 5 "/usr/share/sysdeck/firewall/templates/no-services.sh" via output)
          source note ∧
      (apply edgeHost (Execution.run (edit .ascii) ⟨[], []⟩ templateEdits) "edge" false 7).launched =
        some launch ∧
      ¬ RenderedFrom ⟨"edge", "nftables", some "no-services", false, none⟩
        (Execution.run (edit .ascii) ⟨[], []⟩ templateEdits).rules launch.text := by
  have found : (Execution.run (edit .ascii) ⟨[], []⟩ templateEdits).findRuleset (trim "edge") =
      some ⟨"edge", "nftables", some "no-services", false, none⟩ := by rfl
  have script : (truthy (some "no-services")).bind edgeHost.templateScript =
      some ("/usr/share/sysdeck/firewall/templates/no-services.sh",
        ⟨"#!/bin/sh\nnft flush ruleset\n", true⟩) := by rfl
  have shipped := apply_shipped edgeHost _ (by exact of_decide_eq_true rfl) found script 7
  have counted : ((Execution.run (edit .ascii) ⟨[], []⟩ templateEdits).findRules
      (trim "edge")).length = 5 := by
    rw [Tables.findRules, List.length_mergeSort]
    rfl
  rw [if_neg (by exact of_decide_eq_true rfl), counted] at shipped
  rw [shipped]
  refine ⟨_, _, _, _, _, _, rfl, rfl, fun rendered => ?_⟩
  have first := rendered.shebang (by exact of_decide_eq_true rfl)
  revert first
  exact of_decide_eq_true rfl

end SysDeck.Web.Firewall
