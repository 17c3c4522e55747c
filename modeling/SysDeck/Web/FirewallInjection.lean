import SysDeck.Library.Execution
import SysDeck.Web.FirewallScript

/-! Runs of the commands that store rules: when every stored ruleset renders to a script of
one line a rule. -/

namespace SysDeck.Web.Firewall

open Quoting

inductive Command where
  | create (args : CreateArgs)
  | addRule (args : RuleArgs)

/-- The tables after a command. -/
def store (case : CaseMapping) (tables : Tables) : Command → Tables
  | .create args => (create tables args).tables
  | .addRule args => (addRule case tables args).tables

def noTables : Tables where
  rulesets := []
  rules := []

/-- A rule that is added to a ruleset is harmless in its script. -/
def HarmlessStep (case : CaseMapping) (tables : Tables) : Command → Prop
  | .create _ => True
  | .addRule args =>
    let row := args.row case (tables.nextPosition (trim (args.ruleset.getD "")))
    row.error? = none → ∀ ruleset, tables.findRuleset row.ruleset = some ruleset →
      row.Harmless ruleset.backend

/-- What every run keeps: names are unique, and the rows are as they were checked. -/
structure Stored (tables : Tables) : Prop where
  unique : (tables.rulesets.map Ruleset.name).Nodup
  rulesets : ∀ ruleset ∈ tables.rulesets, ruleset.Checked
  rules : ∀ row ∈ tables.rules, row.Checked
  owned : ∀ row ∈ tables.rules, row.ruleset ∈ tables.rulesets.map Ruleset.name

/-- Every rule keeps to its line in the script of its ruleset. -/
def AllContained (tables : Tables) : Prop :=
  ∀ ruleset ∈ tables.rulesets, ∀ row ∈ tables.rules, row.ruleset = ruleset.name →
    (dialectOf ruleset.backend).Contained (ruleLine ruleset.backend row).toList

theorem allContained_of_rendersSafely {tables : Tables}
    (safe : ∀ ruleset ∈ tables.rulesets, RendersSafely ruleset (tables.findRules ruleset.name)) :
    AllContained tables :=
  fun ruleset member row inside owner =>
    (safe ruleset member).contained row (mem_findRules.mpr ⟨inside, owner⟩)

theorem Stored.rendersSafely {tables : Tables} (stored : Stored tables)
    (contained : AllContained tables) :
    ∀ ruleset ∈ tables.rulesets, RendersSafely ruleset (tables.findRules ruleset.name) := by
  intro ruleset member
  refine Firewall.rendersSafely (stored.rulesets ruleset member) ?_ ?_
  · exact fun row inside => stored.rules row (mem_findRules.mp inside).1
  · intro row inside
    obtain ⟨here, owner⟩ := mem_findRules.mp inside
    exact contained ruleset member row here owner

theorem Stored.findRuleset {tables : Tables} (stored : Stored tables) {ruleset : Ruleset}
    (member : ruleset ∈ tables.rulesets) : tables.findRuleset ruleset.name = some ruleset :=
  find?_of_nodup stored.unique member

theorem findRuleset_eq_none {tables : Tables} {name : String}
    (absent : tables.findRuleset name = none) : name ∉ tables.rulesets.map Ruleset.name := by
  intro member
  obtain ⟨ruleset, inside, same⟩ := List.mem_map.mp member
  have differ := List.find?_eq_none.mp absent ruleset inside
  exact differ (decide_eq_true same)

/-! The rules of the templates. -/

/-- What the rows of a seed are checked for. -/
def FwRuleSeed.sound (seed : FwRuleSeed) : Bool :=
  decide (seed.chain ∈ ["INPUT", "FORWARD", "OUTPUT", "POLICY"]) &&
  decide (seed.action ∈ ["accept", "drop", "reject", "log"]) &&
  seed.port.all validPort && (truthy seed.source).all validSource &&
  decide (seed.proto ∈ ["tcp", "any"]) &&
  (truthy seed.comment).all fun comment => decide ('\\' ∉ comment.toList)

theorem noted_literal {comment : List Char} (plain : '\\' ∉ comment) :
    (truthy (some (String.ofList comment))).all fun comment => decide ('\\' ∉ comment.toList) := by
  rw [truthy, Option.filter_some]
  split
  · rw [Option.all_some, String.toList_ofList]
    exact decide_eq_true plain
  · rfl

theorem sound_inputSeed {action : String} {port source : Option String} {comment : List Char}
    (known : action ∈ ["accept", "drop", "reject", "log"]) (ports : port.all validPort)
    (sources : (truthy source).all validSource) (plain : '\\' ∉ comment) :
    (inputSeed action port source (String.ofList comment)).sound := by
  have noted := noted_literal plain
  simp only [FwRuleSeed.sound, inputSeed, Bool.and_eq_true]
  exact ⟨⟨⟨⟨⟨decide_eq_true List.mem_cons_self, decide_eq_true known⟩, ports⟩, sources⟩,
    decide_eq_true List.mem_cons_self⟩, noted⟩

theorem sound_accept {port : String} {comment : List Char} (ports : validPort port) (plain : '\\' ∉ comment) :
    (inputSeed "accept" (some port) none (String.ofList comment)).sound :=
  sound_inputSeed List.mem_cons_self ports rfl plain

theorem sound_drop {comment : List Char} (plain : '\\' ∉ comment) :
    (inputSeed "drop" none none (String.ofList comment)).sound :=
  sound_inputSeed (List.mem_cons_of_mem _ List.mem_cons_self) rfl rfl plain

theorem templates_sound : templates.all (fun template => template.rules.all FwRuleSeed.sound) := by
  have established : (inputSeed "accept" none none "ct state established,related").sound :=
    sound_inputSeed List.mem_cons_self rfl rfl (by decide)
  have loopback : (inputSeed "accept" none (some "127.0.0.1/8") "loopback").sound :=
    sound_inputSeed List.mem_cons_self rfl (by rfl) (by decide)
  have ssh {comment : List Char} (plain : '\\' ∉ comment) :
      (inputSeed "accept" (some "22") none (String.ofList comment)).sound :=
    sound_accept (by rfl) plain
  have ollama : (inputSeed "accept" (some "11434") none "ollama api (public)").sound :=
    sound_accept (by rfl) (by decide)
  have openwebui : (inputSeed "accept" (some "3000") none "openwebui (public)").sound :=
    sound_accept (by rfl) (by decide)
  have hermes : (inputSeed "accept" (some "8000") none "hermes (public)").sound :=
    sound_accept (by rfl) (by decide)
  have odysseus : (inputSeed "accept" (some "8001") none "odysseus (public)").sound :=
    sound_accept (by rfl) (by decide)
  simp only [templates, List.all_cons, List.all_nil, Bool.and_true, Bool.and_eq_true, established, loopback,
    ollama, openwebui, hermes, odysseus, true_and]
  exact ⟨⟨ssh (by decide), sound_drop (by decide)⟩,
    ⟨ssh (by decide), sound_accept (by rfl) (by decide), sound_accept (by rfl) (by decide),
      sound_drop (by decide)⟩,
    ⟨ssh (by decide), sound_drop (by decide)⟩,
    ⟨ssh (by decide), sound_accept (by rfl) (by decide), sound_drop (by decide)⟩,
    ⟨ssh (by decide), sound_drop (by decide)⟩,
    ⟨ssh (by decide), by rfl, by rfl⟩,
    ⟨ssh (by decide), by rfl, by rfl⟩⟩

theorem seed_row {seed : FwRuleSeed} (sound : seed.sound) (ruleset : String) (position : Int) :
    (seed.row ruleset position).Checked ∧
      ∀ backend, (dialectOf backend).Contained (ruleLine backend (seed.row ruleset position)).toList := by
  simp only [FwRuleSeed.sound, Bool.and_eq_true, decide_eq_true_eq, Option.all_eq_true] at sound
  obtain ⟨⟨⟨⟨⟨chain, action⟩, port⟩, source⟩, proto⟩, comment⟩ := sound
  have checked : (seed.row ruleset position).Checked := ⟨chain, action, port, source⟩
  refine ⟨checked, fun backend => ?_⟩
  obtain ⟨tight, contained⟩ := knownProto proto
  exact (ruleLine_contained_iff checked tight backend).mpr
    ⟨fun _ => contained backend, closes_of_unescaped comment⟩

theorem templateSeeds_sound {template : Option String} {seeds : List FwRuleSeed}
    (found : templateSeeds template = some seeds) :
    (∀ seed ∈ seeds, seed.sound) ∧ ∀ id ∈ truthy template, id ∈ templates.map Template.id := by
  unfold templateSeeds at found
  cases named : truthy template with
  | none =>
    rw [named] at found
    cases found
    constructor
    · intro seed member
      cases member
    · intro id given
      cases given
  | some id =>
    rw [named] at found
    obtain ⟨entry, listed, rfl⟩ := Option.map_eq_some_iff.mp found
    have member := List.mem_of_find?_eq_some listed
    have same : entry.id = id := by simpa using List.find?_some listed
    refine ⟨List.all_eq_true.mp (List.all_eq_true.mp templates_sound entry member), ?_⟩
    rintro _ ⟨⟩
    exact same ▸ List.mem_map_of_mem member

theorem mem_seedRows {ruleset : String} {seeds : List FwRuleSeed} {row : RuleRow}
    (member : row ∈ seedRows ruleset seeds) :
    ∃ seed ∈ seeds, ∃ position, row = seed.row ruleset position := by
  obtain ⟨⟨seed, i⟩, inside, rfl⟩ := List.mem_map.mp member
  exact ⟨seed, List.fst_mem_of_mem_zipIdx inside, _, rfl⟩

/-! One command. -/

theorem Stored.create {tables : Tables} (stored : Stored tables) (args : CreateArgs) :
    Stored (create tables args).tables := by
  obtain same | ⟨ruleset, seeds, name, backend, fresh, found, same⟩ := create_cases tables args
  · rw [same]
    exact stored
  · obtain ⟨sound, template⟩ := templateSeeds_sound found
    rw [same]
    constructor
    · rw [List.map_append, List.nodup_append]
      refine ⟨stored.unique, by simp, ?_⟩
      intro first member second only differ
      rw [List.map_cons, List.map_nil, List.mem_singleton] at only
      exact findRuleset_eq_none fresh (only ▸ differ ▸ member)
    · intro other member
      rcases List.mem_append.mp member with old | new
      · exact stored.rulesets other old
      · rw [List.mem_singleton.mp new]
        exact ⟨name, backend, template⟩
    · intro row member
      rcases List.mem_append.mp member with old | new
      · exact stored.rules row old
      · obtain ⟨seed, inside, position, rfl⟩ := mem_seedRows new
        exact (seed_row (sound seed inside) _ _).1
    · intro row member
      rw [List.map_append, List.mem_append]
      rcases List.mem_append.mp member with old | new
      · exact .inl (stored.owned row old)
      · obtain ⟨seed, inside, position, rfl⟩ := mem_seedRows new
        exact .inr (List.mem_singleton.mpr rfl)

theorem Stored.addRule {tables : Tables} (stored : Stored tables) (case : CaseMapping)
    (args : RuleArgs) : Stored (addRule case tables args).tables := by
  obtain same | ⟨ruleset, row, -, passed, found, same⟩ := addRule_cases case tables args
  · rw [same]
    exact stored
  · rw [same]
    refine ⟨stored.unique, stored.rulesets, ?_, ?_⟩
    · intro other member
      rcases List.mem_append.mp member with old | new
      · exact stored.rules other old
      · rw [List.mem_singleton.mp new]
        exact row.checked_of_error? passed
    · intro other member
      rcases List.mem_append.mp member with old | new
      · exact stored.owned other old
      · rw [List.mem_singleton.mp new, ← findRuleset_name found]
        exact List.mem_map_of_mem (List.mem_of_find?_eq_some found)

theorem Stored.step {tables : Tables} (stored : Stored tables) (case : CaseMapping) :
    ∀ command, Stored (store case tables command)
  | .create args => stored.create args
  | .addRule args => stored.addRule case args

/-- A created ruleset finds no rules of its name but those of its template. -/
theorem AllContained.create {tables : Tables} (stored : Stored tables) (all : AllContained tables)
    (args : CreateArgs) : AllContained (create tables args).tables := by
  obtain same | ⟨ruleset, seeds, name, backend, fresh, found, same⟩ := create_cases tables args
  · rw [same]
    exact all
  · have unnamed := findRuleset_eq_none fresh
    rw [same]
    intro other member row inside owner
    rcases List.mem_append.mp inside with oldRow | newRow
    · rcases List.mem_append.mp member with old | new
      · exact all other old row oldRow owner
      · rw [List.mem_singleton.mp new] at owner
        exact absurd (owner ▸ stored.owned row oldRow) unnamed
    · obtain ⟨seed, listed, position, rfl⟩ := mem_seedRows newRow
      exact (seed_row ((templateSeeds_sound found).1 seed listed) _ _).2 other.backend

theorem args_tight (case : CaseMapping) (args : RuleArgs) (position : Int) :
    Text.Tight (args.row case position).proto.toList := by
  refine case.tight _ ?_
  rw [trim, String.toList_ofList]
  exact Text.tight_trim _

/-- An added rule is contained exactly when it is harmless in the script of its ruleset. -/
theorem allContained_addRule_iff {tables : Tables} (stored : Stored tables) (case : CaseMapping)
    (args : RuleArgs) :
    AllContained (addRule case tables args).tables ↔
      AllContained tables ∧ HarmlessStep case tables (.addRule args) := by
  have contained_iff {row : RuleRow}
      (asked : row = args.row case (tables.nextPosition (trim (args.ruleset.getD ""))))
      (passed : row.error? = none) (backend : String) :
      (dialectOf backend).Contained (ruleLine backend row).toList ↔ row.Harmless backend :=
    ruleLine_contained_iff (row.checked_of_error? passed) (asked ▸ args_tight case args _) backend
  constructor
  · intro all
    constructor
    · intro ruleset member row inside owner
      obtain same | ⟨_, added, -, -, -, same⟩ := addRule_cases case tables args
      · rw [same] at all
        exact all ruleset member row inside owner
      · rw [same] at all
        exact all ruleset member row (List.mem_append_left _ inside) owner
    · unfold HarmlessStep
      dsimp only
      intro passed ruleset found
      rw [addRule_accepted rfl passed found] at all
      refine (contained_iff rfl passed ruleset.backend).mp ?_
      exact all ruleset (List.mem_of_find?_eq_some found) _
        (List.mem_append_right _ List.mem_cons_self) (findRuleset_name found).symm
  · rintro ⟨all, harmless⟩
    obtain same | ⟨ruleset, row, asked, passed, found, same⟩ := addRule_cases case tables args
    · rw [same]
      exact all
    · rw [same]
      intro other member third inside owner
      rcases List.mem_append.mp inside with old | new
      · exact all other member third old owner
      · rw [List.mem_singleton.mp new] at owner ⊢
        have named : row.ruleset = trim (args.ruleset.getD "") := congrArg RuleRow.ruleset asked
        rw [named] at asked
        have unique := stored.findRuleset member
        rw [← owner, found] at unique
        refine (contained_iff asked passed other.backend).mpr ?_
        rw [← Option.some.inj unique]
        subst asked
        exact harmless passed ruleset found

theorem allContained_store_iff {tables : Tables} (stored : Stored tables) (case : CaseMapping)
    (command : Command) :
    AllContained (store case tables command) ↔
      AllContained tables ∧ HarmlessStep case tables command := by
  cases command with
  | create args =>
    constructor
    · intro all
      refine ⟨fun ruleset member row inside owner => ?_, trivial⟩
      obtain same | ⟨_, _, -, -, -, -, same⟩ := create_cases tables args
      · rw [store, same] at all
        exact all ruleset member row inside owner
      · rw [store, same] at all
        exact all ruleset (List.mem_append_left _ member) row (List.mem_append_left _ inside) owner
    · exact fun both => both.1.create stored args
  | addRule args => exact allContained_addRule_iff stored case args

/-! The run. -/

theorem stored_run (case : CaseMapping) (commands : List Command) :
    Stored (Execution.run (store case) noTables commands) := by
  refine Execution.invariant ?_ (fun tables command stored => stored.step case command) commands
  constructor
  · exact List.nodup_nil
  · exact fun _ member => by cases member
  · exact fun _ member => by cases member
  · exact fun _ member => by cases member

/-- The rules of a run are contained exactly when each was harmless as it was added. -/
theorem allContained_run_iff (case : CaseMapping) (commands : List Command) :
    AllContained (Execution.run (store case) noTables commands) ↔
      Execution.Along (store case) (HarmlessStep case) noTables commands := by
  induction commands using List.reverseRecOn with
  | nil => exact iff_of_true (fun _ member => by cases member) trivial
  | append_singleton commands command ih =>
    rw [Execution.run_append, Execution.along_append, ← ih, Execution.run_cons, Execution.run_nil,
      allContained_store_iff (stored_run case commands)]
    simp [Execution.Along]

/-- Every ruleset that a run stores renders to one contained line a rule, exactly when no
added rule prints a protocol with a line end, a mark or an open quote, and for iptables
no comment whose last quote is hidden. -/
theorem run_rendersSafely_iff (case : CaseMapping) (commands : List Command) :
    (∀ ruleset ∈ (Execution.run (store case) noTables commands).rulesets,
      RendersSafely ruleset
        ((Execution.run (store case) noTables commands).findRules ruleset.name)) ↔
      Execution.Along (store case) (HarmlessStep case) noTables commands := by
  rw [← allContained_run_iff]
  exact ⟨allContained_of_rendersSafely, (stored_run case commands).rendersSafely⟩

/-- A protocol with a whole directive and a line end in it. -/
def protocolOfTwoLines : RuleArgs where
  ruleset := some "edge"
  chain := none
  action := some "accept"
  proto := some "tcp dport 1-65535 accept\n    tcp"
  port := some "22"
  source := none
  comment := none

theorem two_lines_of_one_rule :
    ¬ ∀ ruleset ∈ (Execution.run (store .ascii) noTables
        [.create ⟨some "edge", none, none⟩, .addRule protocolOfTwoLines]).rulesets,
      RendersSafely ruleset ((Execution.run (store .ascii) noTables
        [.create ⟨some "edge", none, none⟩, .addRule protocolOfTwoLines]).findRules ruleset.name) := by
  intro safe
  have contained := allContained_of_rendersSafely safe
  have stored : (Execution.run (store .ascii) noTables
      [.create ⟨some "edge", none, none⟩, .addRule protocolOfTwoLines]).rulesets =
      [⟨"edge", "nftables", none, false, none⟩] := by rfl
  have added : (Execution.run (store .ascii) noTables
      [.create ⟨some "edge", none, none⟩, .addRule protocolOfTwoLines]).rules =
      [⟨"edge", "INPUT", "accept", "tcp dport 1-65535 accept\n    tcp", some "22", none, none, 1⟩] := by
    decide +kernel
  have line := contained _ (stored ▸ List.mem_cons_self) _ (added ▸ List.mem_cons_self) rfl
  revert line
  exact of_decide_eq_true rfl

end SysDeck.Web.Firewall
