import SysDeck.Web.Firewall

/-! When the dry run of a ruleset shows the text that its application loads. -/

namespace SysDeck.Web.Firewall

def Host.authorized (host : Host) : Prop := host.isRoot = true ∨ host.havePasswordlessSudo = true

/-- The script that a response shows. -/
def shown (response : BridgeResponse ApplyData) : Option String :=
  response.data?.bind ApplyData.script?

/-- The preview of a shipped script. -/
def ScriptFile.preview (file : ScriptFile) : String :=
  String.ofList (Text.slice 200000 file.readText.toList)

theorem preview_eq_text_iff {file : ScriptFile} :
    file.preview = file.text ↔
      (file.readable = true ∧ Text.utf16Length file.text.toList ≤ 200000) ∨ file.text = "" := by
  unfold ScriptFile.preview ScriptFile.readText
  cases file.readable with
  | true =>
    rw [if_pos rfl, ← String.toList_inj, String.toList_ofList, Text.slice_eq_self_iff]
    constructor
    · exact fun short => .inl ⟨rfl, short⟩
    · rintro (⟨_, short⟩ | empty)
      · exact short
      · rw [empty]
        exact Nat.zero_le _
  | false =>
    rw [if_neg Bool.false_ne_true]
    constructor
    · exact fun same => .inr same.symm
    · rintro (⟨opened, _⟩ | empty)
      · cases opened
      · rw [empty]
        rfl

/-- The loader is run with the whole text, by a console that may. -/
theorem applyForReal_launched (host : Host) (script backend : String) :
    (∀ launch, (applyForReal host script backend).2 = some launch → launch.text = script) ∧
      ((applyForReal host script backend).2.isSome ↔ host.authorized) := by
  unfold applyForReal Host.authorized
  dsimp only
  split
  · rename_i root
    refine ⟨?_, iff_of_true rfl (.inl root)⟩
    rintro _ ⟨⟩
    rfl
  · rename_i root
    split
    · rename_i elevated
      refine ⟨?_, iff_of_true rfl (.inr elevated)⟩
      rintro _ ⟨⟩
      rfl
    · rename_i plain
      refine ⟨?_, iff_of_false Bool.false_ne_true (not_or.mpr ⟨root, plain⟩)⟩
      rintro _ ⟨⟩

theorem applySynthesized_launched (host : Host) (tables : Tables) (ruleset : Ruleset)
    (rules : List RuleRow) (now : Int) :
    (applySynthesized host tables ruleset rules now).launched =
      (applyForReal host (synthesized ruleset rules) ruleset.backend).2 := by
  unfold applySynthesized
  dsimp only
  split <;> rfl

/-- The shipped script is run as it is, by a console that may. -/
theorem applyShipped_launched (host : Host) (tables : Tables) (ruleset : Ruleset) (rules : ℕ)
    (path : String) (file : ScriptFile) (now : Int) :
    (∀ launch, (applyShipped host tables ruleset rules path file now).launched = some launch →
      launch.text = file.text) ∧
    ((applyShipped host tables ruleset rules path file now).launched.isSome ↔ host.authorized) := by
  have ran {result : RunResult} {launch : Launch} {failed applied : ApplyOutcome}
      (first : failed.launched = some launch) (second : applied.launched = some launch) :
      (if result.rc ≠ 0 then failed else applied).launched = some launch := by
    split
    · exact first
    · exact second
  unfold applyShipped Host.authorized
  dsimp only
  split
  · rename_i root
    rw [ran rfl rfl]
    refine ⟨?_, iff_of_true rfl (.inl root)⟩
    rintro _ ⟨⟩
    rfl
  · rename_i root
    split
    · rename_i elevated
      rw [ran rfl rfl]
      refine ⟨?_, iff_of_true rfl (.inr elevated)⟩
      rintro _ ⟨⟩
      rfl
    · rename_i plain
      refine ⟨?_, iff_of_false Bool.false_ne_true (not_or.mpr ⟨root, plain⟩)⟩
      rintro _ ⟨⟩

/-- The preview of the script that a template ships is the text that is loaded: the
script, read whole, or for the iptables backend by chance the synthesized ruleset. -/
def Previewed (host : Host) (tables : Tables) (ruleset : Ruleset) : Prop :=
  ∀ path file, (truthy ruleset.template).bind host.templateScript = some (path, file) →
    if ruleset.backend = "iptables" then
      file.preview = iptablesScript ruleset (tables.findRules ruleset.name)
    else (file.readable = true ∧ Text.utf16Length file.text.toList ≤ 200000) ∨ file.text = ""

theorem launched_iff {launched : Option Launch} {text : String} {allowed : Prop} {script : Option String}
    (spec : (∀ launch, launched = some launch → launch.text = text) ∧ (launched.isSome ↔ allowed)) :
    (∀ launch, launched = some launch → script = some launch.text) ↔
      (allowed → script = some text) := by
  constructor
  · intro same may
    obtain ⟨launch, found⟩ := Option.isSome_iff_exists.mp (spec.2.mpr may)
    rw [same launch found, spec.1 launch found]
  · intro same launch found
    rw [same (spec.2.mp (by rw [found]; rfl)), spec.1 launch found]

section Found

variable (host : Host) (tables : Tables) {name : String} {ruleset : Ruleset}
  (nonempty : trim name ≠ "") (found : tables.findRuleset (trim name) = some ruleset)

include nonempty found

theorem apply_dry (now : Int) :
    (apply host tables name true now).response = dryRun ruleset (tables.findRules (trim name))
      ((truthy ruleset.template).bind host.templateScript) := by
  unfold apply
  dsimp only
  rw [if_neg nonempty, found]
  dsimp only
  cases (truthy ruleset.template).bind host.templateScript with
  | none => rfl
  | some shipped =>
    dsimp only
    rw [if_neg (fun both => Bool.false_ne_true both.2), if_pos rfl]

theorem apply_unshipped (absent : (truthy ruleset.template).bind host.templateScript = none)
    (now : Int) :
    apply host tables name false now =
      applySynthesized host tables ruleset (tables.findRules (trim name)) now := by
  unfold apply
  dsimp only
  rw [if_neg nonempty, found]
  dsimp only
  rw [absent]
  rfl

theorem apply_shipped {path : String} {file : ScriptFile}
    (shipped : (truthy ruleset.template).bind host.templateScript = some (path, file)) (now : Int) :
    apply host tables name false now =
      if ruleset.backend = "iptables" then
        applySynthesized host tables ruleset (tables.findRules (trim name)) now
      else
        applyShipped host tables ruleset (tables.findRules (trim name)).length path file now := by
  unfold apply
  dsimp only
  rw [if_neg nonempty, found]
  dsimp only
  rw [shipped]
  by_cases restored : ruleset.backend = "iptables"
  · rw [if_pos restored]
    dsimp only
    rw [if_neg (fun both => both.1 restored), if_neg Bool.false_ne_true]
  · rw [if_neg restored]
    dsimp only
    rw [if_pos ⟨restored, rfl⟩]

/-- The dry run of a ruleset, and what its application launches. -/
theorem previewed_iff (now later : Int) :
    (∀ launch, (apply host tables name false now).launched = some launch →
      shown (apply host tables name true later).response = some launch.text) ↔
    (host.authorized → Previewed host tables ruleset) := by
  have named : ruleset.name = trim name := by simpa using List.find?_some found
  rw [apply_dry host tables nonempty found, Previewed, named]
  cases shipped : (truthy ruleset.template).bind host.templateScript with
  | none =>
    rw [apply_unshipped host tables nonempty found shipped, applySynthesized_launched,
      launched_iff (applyForReal_launched host _ _)]
    refine iff_of_true (fun _ => rfl) ?_
    rintro _ path file ⟨⟩
  | some script =>
    obtain ⟨path, file⟩ := script
    have preview : shown (dryRun ruleset (tables.findRules (trim name)) (some (path, file))) =
        some file.preview := rfl
    have only {motive : String → ScriptFile → Prop} :
        (∀ path' file', some (path, file) = some (path', file') → motive path' file') ↔
          motive path file :=
      ⟨fun all => all path file rfl, fun holds _ _ same => by cases same; exact holds⟩
    rw [only (motive := fun _ file => if ruleset.backend = "iptables" then _ else _), preview,
      apply_shipped host tables nonempty found shipped]
    by_cases restored : ruleset.backend = "iptables"
    · rw [if_pos restored, if_pos restored, applySynthesized_launched,
        launched_iff (applyForReal_launched host _ _), synthesized, if_pos restored, Option.some.injEq]
    · rw [if_neg restored, if_neg restored, launched_iff (applyShipped_launched host _ _ _ _ _ _),
        Option.some.injEq, preview_eq_text_iff]

end Found

/-- The dry run shows exactly what apply executes or feeds to its loader, in exactly
the states where it can be read whole. -/
theorem dry_run_exact (host : Host) (tables : Tables) (name : String) (now later : Int) :
    (∀ launch, (apply host tables name false now).launched = some launch →
      shown (apply host tables name true later).response = some launch.text) ↔
    (trim name ≠ "" → ∀ ruleset, tables.findRuleset (trim name) = some ruleset →
      host.authorized → Previewed host tables ruleset) := by
  by_cases empty : trim name = ""
  · refine iff_of_true ?_ (fun nonempty => absurd empty nonempty)
    intro launch launched
    unfold apply at launched
    dsimp only at launched
    rw [if_pos empty] at launched
    cases launched
  · cases found : tables.findRuleset (trim name) with
    | none =>
      refine iff_of_true ?_ (fun _ ruleset same => nomatch same)
      intro launch launched
      unfold apply at launched
      dsimp only at launched
      rw [if_neg empty, found] at launched
      cases launched
    | some ruleset =>
      rw [previewed_iff host tables empty found]
      constructor
      · intro previewed _ other same
        obtain rfl := Option.some.inj same
        exact previewed
      · exact fun previewed => previewed empty ruleset rfl

/-- A root console with the script of one template. -/
def edgeHost : Host where
  isRoot := true
  havePasswordlessSudo := false
  cwd := "/srv/sysdeck/web"
  scripts path :=
    if path = "/usr/share/sysdeck/firewall/templates/no-services.sh" then
      some { text := "#!/bin/sh\nnft flush ruleset\n", readable := true }
    else none
  run _ := { rc := 0, stdout := "", stderr := "" }

def edgeTables : Tables where
  rulesets := [⟨"edge", "iptables", some "no-services", false, none⟩]
  rules := [⟨"edge", "INPUT", "accept", "tcp", some "22", none, some "ssh", 1⟩]

/-- With the iptables backend the shipped script is shown, and the synthesized one fed. -/
theorem dry_run_exact_restored :
    ∃ launch, (apply edgeHost edgeTables "edge" false 0).launched = some launch ∧
      shown (apply edgeHost edgeTables "edge" true 0).response =
        some "#!/bin/sh\nnft flush ruleset\n" ∧
      launch.text ≠ "#!/bin/sh\nnft flush ruleset\n" := by
  refine ⟨.feed "iptables-restore" [] false
    (iptablesScript ⟨"edge", "iptables", some "no-services", false, none⟩ edgeTables.rules), ?_, ?_, ?_⟩
  · decide +kernel
  · rfl
  · exact of_decide_eq_true rfl

end SysDeck.Web.Firewall
