import SysDeck.Library.Polkit
import SysDeck.Web.PolicyInjection

/-! What the rules file answers, against what the registry says. -/

namespace SysDeck.Web.Policy

open Firewall (trim)
open Polkit (Plain Statement)
open Lines (terminator)

/-! ### What the registry says -/

/-- The subject of a rule names the one who asks. -/
def Covers (subject : Polkit.Subject) (text : String) : Prop :=
  text = "unix-user:" ++ subject.user ∨ text = "user:" ++ subject.user ∨
    (∃ name ∈ subject.groups, text = "group:" ++ name) ∨
    ∃ name ∈ subject.netgroups, text = "netgroup:" ++ name

/-- An enabled rule about the action and the one who asks. -/
structure Applies (registry : List PolicyRule) (action : String) (subject : Polkit.Subject)
    (r : PolicyRule) : Prop where
  member : r ∈ registry
  enabled : r.enabled
  scope : r.scope = action
  covers : Covers subject r.subject

/-- A rule that applies, and none that applies has a higher priority. -/
structure Decides (registry : List PolicyRule) (action : String) (subject : Polkit.Subject)
    (r : PolicyRule) : Prop where
  applies : Applies registry action subject r
  highest : ∀ other, Applies registry action subject other → other.priority ≤ r.priority

/-- The answer that the registry has for the action and the one who asks. -/
def Means (registry : List PolicyRule) (action : String) (subject : Polkit.Subject) :
    Polkit.Result → Prop
  | .YES => ∃ r, Decides registry action subject r ∧ r.effect = "allow"
  | .NO => ∃ r, Decides registry action subject r ∧ r.effect = "deny"
  | .NOT_HANDLED => ∀ r, ¬ Applies registry action subject r

/-- The file answers as the registry says, whatever is asked. -/
def Faithful (registry rules : List PolicyRule) : Prop :=
  ∀ action subject, ∃ result, Polkit.evaluate (content rules) action subject = some result ∧
    Means registry action subject result

/-- An enabled rule about a netgroup. -/
def NetgroupRule (r : PolicyRule) : Prop := r.enabled ∧ ∃ name, r.subject = "netgroup:" ++ name

/-! ### What the file says -/

/-- The test of a rule, as `syncForReal` writes it. -/
def testOf (r : PolicyRule) : Polkit.Test :=
  let (kind, name) := subjectParts r
  if kind = "group" then .group r.scope name else .user r.scope name

def resultOf (r : PolicyRule) : Polkit.Result := if r.effect = "allow" then .YES else .NO

def bodyOf (rules : List PolicyRule) : Polkit.Body :=
  ⟨(.outside "org.sysdeck.", .NOT_HANDLED) :: rules.map fun r => (testOf r, resultOf r), .NOT_HANDLED⟩

def statementsOf (r : PolicyRule) : List Statement :=
  [.comment, .guard (testOf r), .answer (resultOf r), .close]

theorem plain_of_kind {kind : Char → Bool} (apart : kind '"' = false ∧ kind '\\' = false)
    {text : List Char} (all : ∀ c ∈ text, kind c) : Plain text := by
  constructor
  · intro member
    simp [all _ member] at apart
  · intro member
    simp [all _ member] at apart

theorem plain_scope {scope : String} (known : ScopeName scope) : Plain scope.toList :=
  plain_of_kind (by decide) known.plain

theorem read_rule {r : PolicyRule} (checked : Checked r) :
    (ruleLines r).map (fun line => Polkit.readStatement line.toList) = (statementsOf r).map some := by
  obtain ⟨kind, name, -, parts, -, plain⟩ := validSubject_parts checked.subject
  have comment : Polkit.readStatement ("    // " ++ r.note.getD r.scope ++ " — priority " ++
      r.priority.repr).toList = some .comment := by
    rw [String.toList_append, String.toList_append, String.toList_append, List.append_assoc,
      List.append_assoc]
    exact Polkit.readStatement_comment _
  have guard : Polkit.readStatement ("    if (action.id === \"" ++ r.scope ++ "\" && " ++
      subjectTest r ++ ") \x7b").toList = some (.guard (testOf r)) := by
    have named : Plain name.toList := plain_of_kind (by decide) plain
    unfold subjectTest testOf
    simp only [parts]
    split
    · exact Polkit.readStatement_group (plain_scope checked.scope) named
    · exact Polkit.readStatement_user (plain_scope checked.scope) named
  have answer : Polkit.readStatement ("        return polkit.Result." ++
      (if r.effect = "allow" then "YES" else "NO") ++ ";").toList = some (.answer (resultOf r)) := by
    unfold resultOf Polkit.readStatement
    split
    · rw [String.toList_append, String.toList_append]
      repeat rw [String.toList_ofList]
      decide +kernel
    · rw [String.toList_append, String.toList_append]
      repeat rw [String.toList_ofList]
      decide +kernel
  have close : Polkit.readStatement "    \x7d".toList = some .close := by
    unfold Polkit.readStatement
    repeat rw [String.toList_ofList]
    decide +kernel
  simp only [ruleLines, statementsOf, List.map_cons, List.map_nil, comment, guard, answer, close]

theorem read_rules {rules : List PolicyRule} (checked : ∀ r ∈ rules, Checked r) :
    (rules.flatMap ruleLines).map (fun line => Polkit.readStatement line.toList) =
      (rules.flatMap statementsOf).map some := by
  induction rules with
  | nil => rfl
  | cons r rules ih =>
    rw [List.flatMap_cons, List.flatMap_cons, List.map_append, List.map_append,
      read_rule (checked r List.mem_cons_self), ih fun other member => checked other (List.mem_cons_of_mem _ member)]

/-- The statements before the rules. -/
def headStatements : List Statement :=
  [.comment, .comment, .comment, .addRule, .guard (.outside "org.sysdeck."), .answer .NOT_HANDLED,
    .close]

def tailStatements : List Statement := [.answer .NOT_HANDLED, .done, .comment]

theorem read_fixed :
    fileHead.map (fun line => Polkit.readStatement line.toList) = headStatements.map some ∧
      fileTail.map (fun line => Polkit.readStatement line.toList) = tailStatements.map some := by
  constructor
  · unfold fileHead headStatements Polkit.readStatement
    simp only [List.map_cons, List.map_nil]
    repeat rw [String.toList_ofList]
    decide +kernel
  · unfold fileTail tailStatements Polkit.readStatement
    simp only [List.map_cons, List.map_nil]
    repeat rw [String.toList_ofList]
    decide +kernel

theorem code_of_rules (rules : List PolicyRule) :
    (rules.flatMap statementsOf).filter (· ≠ .comment) =
      (rules.map fun r => (testOf r, resultOf r)).flatMap
        fun clause => [.guard clause.1, .answer clause.2, .close] := by
  induction rules with
  | nil => rfl
  | cons r rules ih =>
    rw [List.flatMap_cons, List.filter_append, ih, List.map_cons, List.flatMap_cons]
    rfl

/-- The file of checked rules with notes of one line is read as its clauses. -/
theorem readFile_content {rules : List PolicyRule} (checked : ∀ r ∈ rules, Checked r)
    (notes : ∀ r ∈ rules, OneLineNote r) : Polkit.readFile (content rules) = some (bodyOf rules) := by
  have nonempty : parts rules ≠ [] := by
    rw [parts, fileHead, List.append_assoc, List.cons_append, List.map_cons]
    exact List.cons_ne_nil _ _
  have lines : (content rules).splitOnP terminator = parts rules :=
    Lines.splitOnP_intercalate rfl nonempty ((oneLine_parts_iff checked).mpr notes)
  have read : ((content rules).splitOnP terminator).map Polkit.readStatement =
      (headStatements ++ rules.flatMap statementsOf ++ tailStatements).map some := by
    rw [lines, parts, List.map_map, List.map_append, List.map_append, List.map_append,
      List.map_append, ← read_fixed.1, ← read_fixed.2, ← read_rules checked]
    simp only [Function.comp_def]
  refine Polkit.readFile_eq read ?_
  rw [List.filter_append, List.filter_append, code_of_rules]
  rfl

/-! ### The tests of the file, and the subjects of the rules -/

theorem validSubject_kind {r : PolicyRule} (valid : validSubject r.subject) :
    ∃ kind ∈ ["unix-user", "group", "netgroup", "user"], ∃ name, r.subject = kind ++ ":" ++ name ∧
      subjectParts r = (kind, name) ∧ ∀ c ∈ name.toList, subjectChar c := by
  obtain ⟨kind, name, subject, parts, -, plain⟩ := validSubject_parts valid
  refine ⟨kind, ?_, name, subject, parts, plain⟩
  unfold validSubject at valid
  split at valid
  · rename_i kind' name' split
    simp only [Bool.and_eq_true, decide_eq_true_eq] at valid
    have same : String.ofList kind' = kind := by
      simpa [subjectParts, split] using congrArg Prod.fst parts
    exact same ▸ valid.1.1
  · cases valid

/-- The test of a rule that is not about a netgroup asks for the subjects of the rule. -/
theorem testOf_holds_iff {r : PolicyRule} (checked : Checked r)
    (local' : ∀ name, r.subject ≠ "netgroup:" ++ name) (action : String) (subject : Polkit.Subject) :
    (testOf r).holds action subject ↔ r.scope = action ∧ Covers subject r.subject := by
  obtain ⟨kind, known, name, text, parts, -⟩ := validSubject_kind checked.subject
  simp only [List.mem_cons, List.not_mem_nil, or_false] at known
  rw [text] at local' ⊢
  simp only [testOf, parts]
  rcases known with rfl | rfl | rfl | rfl
  · simp [Covers, Polkit.Test.holds, ← String.toList_inj]
    exact and_congr eq_comm eq_comm
  · simp [Covers, Polkit.Test.holds, ← String.toList_inj]
    refine and_congr eq_comm ⟨fun member => ⟨name, member, rfl⟩, ?_⟩
    rintro ⟨other, member, same⟩
    exact String.toList_inj.mp same ▸ member
  · exact absurd rfl (local' name)
  · simp [Covers, Polkit.Test.holds, ← String.toList_inj]
    exact and_congr eq_comm eq_comm

/-! ### The file answers as the registry says -/

/-- The first rule of the list that passes the test, where the list is by falling priority. -/
theorem highest_of_find? {rules : List PolicyRule} {test : PolicyRule → Bool} {r : PolicyRule}
    (ordered : rules.Pairwise fun a b => b.priority ≤ a.priority) (found : rules.find? test = some r) :
    ∀ other ∈ rules, test other → other.priority ≤ r.priority := by
  induction rules with
  | nil => cases found
  | cons first rules ih =>
    rw [List.pairwise_cons] at ordered
    intro other member passes
    by_cases chosen : test first
    · rw [List.find?_cons_of_pos chosen, Option.some.injEq] at found
      subst found
      rcases List.mem_cons.mp member with rfl | later
      · exact le_refl _
      · exact ordered.1 other later
    · rw [List.find?_cons_of_neg chosen] at found
      rcases List.mem_cons.mp member with rfl | later
      · exact absurd passes chosen
      · exact ih ordered.2 found other later passes

theorem answer_bodyOf (rules : List PolicyRule) (action : String) (subject : Polkit.Subject) :
    (bodyOf rules).answer action subject =
      if "org.sysdeck.".toList <+: action.toList then
        ((rules.find? fun r => (testOf r).holds action subject).map resultOf).getD .NOT_HANDLED
      else .NOT_HANDLED := by
  unfold Polkit.Body.answer bodyOf
  by_cases inside : "org.sysdeck.".toList <+: action.toList
  · have passed : (Polkit.Test.outside "org.sysdeck.").holds action subject = false := by
      simpa [Polkit.Test.holds] using inside
    rw [if_pos inside, List.find?_cons_of_neg (by simp [passed]), List.find?_map, Option.map_map]
    rfl
  · have stopped : (Polkit.Test.outside "org.sysdeck.").holds action subject = true := by
      simp only [Polkit.Test.holds, Bool.not_eq_true', Bool.eq_false_iff, ne_eq,
        List.isPrefixOf_iff_prefix]
      exact inside
    rw [if_neg inside]
    simp only [List.find?_cons, stopped, Option.map_some, Option.getD_some]

variable {registry rules : List PolicyRule}

theorem mem_rules_iff (selected : Selected registry rules) {r : PolicyRule} :
    r ∈ rules ↔ r ∈ registry ∧ r.enabled := by
  rw [selected.enabled.mem_iff, List.mem_filter]

/-- Without rules about netgroups the answer of the clauses is the one of the registry. -/
theorem means_answer (checked : ∀ r ∈ registry, Checked r) (selected : Selected registry rules)
    (users : ∀ r ∈ registry, ¬ NetgroupRule r) (action : String) (subject : Polkit.Subject) :
    Means registry action subject ((bodyOf rules).answer action subject) := by
  have tests (r : PolicyRule) (member : r ∈ rules) :
      (testOf r).holds action subject ↔ Applies registry action subject r := by
    obtain ⟨known, enabled⟩ := (mem_rules_iff selected).mp member
    have named : ∀ name, r.subject ≠ "netgroup:" ++ name := by
      intro name same
      exact users r known ⟨enabled, name, same⟩
    rw [testOf_holds_iff (checked r known) named]
    constructor
    · intro ⟨scope, covers⟩
      exact ⟨known, enabled, scope, covers⟩
    · intro applies
      exact ⟨applies.scope, applies.covers⟩
  rw [answer_bodyOf]
  split
  · cases found : rules.find? fun r => (testOf r).holds action subject with
    | none =>
      intro r applies
      have member : r ∈ rules := (mem_rules_iff selected).mpr ⟨applies.member, applies.enabled⟩
      have fails := List.find?_eq_none.mp found r member
      exact fails ((tests r member).mpr applies)
    | some r =>
      have member : r ∈ rules := List.mem_of_find?_eq_some found
      have decides : Decides registry action subject r := by
        refine ⟨(tests r member).mp (List.find?_some (p := fun r => (testOf r).holds action subject) found), ?_⟩
        intro other applies
        have listed : other ∈ rules := (mem_rules_iff selected).mpr ⟨applies.member, applies.enabled⟩
        exact highest_of_find? selected.ordered found other listed ((tests other listed).mpr applies)
      have effect := (checked r decides.applies.member).effect
      simp only [Option.map_some, Option.getD_some, resultOf]
      split
      · rename_i allow
        exact ⟨r, decides, allow⟩
      · rename_i other
        exact ⟨r, decides, effect.resolve_left other⟩
  · rename_i outside
    intro r applies
    exact outside (applies.scope ▸ (checked r applies.member).scope.suite)

/-- Of a user that no rule names, and who is in one netgroup only, the file knows nothing. -/
theorem answer_stranger (checked : ∀ r ∈ rules, Checked r) (action name : String) :
    (bodyOf rules).answer action ⟨"host$", [], [name]⟩ = .NOT_HANDLED := by
  have fails : rules.find? (fun r => (testOf r).holds action ⟨"host$", [], [name]⟩) = none := by
    refine List.find?_eq_none.mpr ?_
    intro r member
    obtain ⟨kind, -, named, -, parts, plain⟩ := validSubject_kind (checked r member).subject
    simp only [testOf, parts]
    split
    · simp [Polkit.Test.holds]
    · simp only [Polkit.Test.holds, Bool.and_eq_true, decide_eq_true_eq, not_and]
      intro _ same
      have sign : subjectChar '$' := plain '$' (same ▸ by decide)
      exact absurd sign (by decide)
  rw [answer_bodyOf, fails]
  split <;> rfl

/-- For rules with notes of one line, the file answers as the registry says exactly when no
enabled rule is about a netgroup. -/
theorem faithful_iff (checked : ∀ r ∈ registry, Checked r) (selected : Selected registry rules)
    (notes : ∀ r ∈ rules, OneLineNote r) :
    Faithful registry rules ↔ ∀ r ∈ registry, ¬ NetgroupRule r := by
  have listed : ∀ r ∈ rules, Checked r := by
    intro r member
    exact checked r ((mem_rules_iff selected).mp member).1
  have evaluated (action : String) (subject : Polkit.Subject) :
      Polkit.evaluate (content rules) action subject = some ((bodyOf rules).answer action subject) := by
    rw [Polkit.evaluate, readFile_content listed notes]
    rfl
  constructor
  · rintro faithful r member ⟨enabled, name, subject⟩
    obtain ⟨result, answered, means⟩ := faithful r.scope ⟨"host$", [], [name]⟩
    rw [evaluated, Option.some.injEq, answer_stranger listed] at answered
    subst answered
    exact means r ⟨member, enabled, rfl, .inr (.inr (.inr ⟨name, List.mem_cons_self, subject⟩))⟩
  · intro users action subject
    exact ⟨_, evaluated action subject, means_answer checked selected users action subject⟩

/-- After every history of the registry, where the notes of the enabled rules are lines. -/
theorem sync_faithful_iff {toLowerCase : String → String} {calls : List Call}
    (named : ∀ call ∈ calls, WellNamed call)
    (selected : Selected (Execution.run (step toLowerCase) [] calls) rules)
    (notes : ∀ r ∈ rules, OneLineNote r) :
    Faithful (Execution.run (step toLowerCase) [] calls) rules ↔
      ∀ r ∈ Execution.run (step toLowerCase) [] calls, ¬ NetgroupRule r :=
  faithful_iff (run_checked named) selected notes

/-- A rule about the user or the netgroup of a name. -/
def ruleFor (subject : String) : Call :=
  .create ⟨some "org.sysdeck.builder.modify", some subject, some "allow", none, none⟩ sampleCatalog "ckr1"

def rowFor (subject : String) : PolicyRule :=
  { id := "ckr1", scope := "org.sysdeck.builder.modify", subject, effect := "allow", priority := 50,
    enabled := true, note := none }

theorem run_ruleFor {subject : String} (tight : trim subject = subject) (valid : validSubject subject) :
    Execution.run (step id) [] [ruleFor subject] = [rowFor subject] := by
  have row : createRow id ⟨some "org.sysdeck.builder.modify", some subject, some "allow", none, none⟩
      sampleCatalog "ckr1" = some (rowFor subject) := by
    have scope : trim "org.sysdeck.builder.modify" = "org.sysdeck.builder.modify" := by decide
    have effect : trim "allow" = "allow" := by decide
    simp [createRow, scope, readSubject, tight, valid, readEffect, effect, readPriority,
      sampleCatalog, rowFor]
  simp [step, ruleFor, row]

theorem ruleFor_named (subject : String) : ∀ call ∈ [ruleFor subject], WellNamed call :=
  List.forall_mem_singleton.mpr sampleCatalog_named

theorem sync_faithful_root :
    Faithful [rowFor "unix-user:root"] [rowFor "unix-user:root"] ↔
      ∀ r ∈ [rowFor "unix-user:root"], ¬ NetgroupRule r := by
  have run := @run_ruleFor "unix-user:root" (by decide) (by decide)
  have faithful := @sync_faithful_iff [rowFor "unix-user:root"] id [ruleFor "unix-user:root"]
    (ruleFor_named _) (run ▸ selected_single rfl)
    (List.forall_mem_singleton.mpr (by simp [OneLineNote, rowFor]))
  rwa [run] at faithful

/-- A rule about a netgroup is written as one about a user of that name. -/
theorem netgroup_missed :
    ∃ rules, Selected (Execution.run (step id) [] [ruleFor "netgroup:ops"]) rules ∧
      ¬ Faithful (Execution.run (step id) [] [ruleFor "netgroup:ops"]) rules := by
  have checked := @run_checked id _ (ruleFor_named "netgroup:ops")
  rw [run_ruleFor (by decide) (by decide)] at checked ⊢
  refine ⟨[rowFor "netgroup:ops"], selected_single rfl, ?_⟩
  rw [faithful_iff checked (selected_single rfl) (List.forall_mem_singleton.mpr (by simp [OneLineNote, rowFor]))]
  intro users
  exact users _ List.mem_cons_self ⟨rfl, "ops", rfl⟩

end SysDeck.Web.Policy
