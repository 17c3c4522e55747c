import SysDeck.Web.Policy

/-! What the stored fields of a rule can do to the rules file. -/

namespace SysDeck.Web.Policy

open Firewall (trim)
open Lines (OneLine terminator)

/-- The name of a polkit action of the suite: lower-case letters, digits, dots and hyphens. -/
structure ScopeName (scope : String) : Prop where
  suite : "org.sysdeck.".toList <+: scope.toList
  plain : ∀ c ∈ scope.toList, c.isLower || c.isDigit || c = '.' || c = '-'

/-- One statement of the file: a known scope, a subject name, and the answer. -/
structure Guard where
  scope : String
  group : Bool
  name : String
  allow : Bool
  known : ScopeName scope
  subject : name ≠ "" ∧ ∀ c ∈ name.toList, subjectChar c

def Guard.lines (guard : Guard) : List String :=
  ["    if (action.id === \"" ++ guard.scope ++ "\" && " ++
      (if guard.group then "subject.isInGroup(\"" ++ guard.name ++ "\")"
        else "subject.user === \"" ++ guard.name ++ "\"") ++ ") \x7b",
    "        return polkit.Result." ++ (if guard.allow then "YES" else "NO") ++ ";",
    "    \x7d"]

/-- The statement is about the fields of the rule. -/
structure Guard.Of (guard : Guard) (r : PolicyRule) : Prop where
  scope : guard.scope = r.scope
  subject : ∃ kind, r.subject = kind ++ ":" ++ guard.name ∧ (guard.group ↔ kind = "group")
  allow : guard.allow ↔ r.effect = "allow"

/-- The fixed lines, with a comment line and a statement for each rule. -/
def skeleton (rows : List (String × Guard)) : List String :=
  fileHead ++ rows.flatMap (fun (comment, guard) => ("    // " ++ comment) :: guard.lines) ++ fileTail

/-- The lines of the file are the fixed ones, and for each rule a comment and its statement. -/
def Safe (rules : List PolicyRule) : Prop :=
  ∃ rows : List (String × Guard), List.Forall₂ (fun row r => row.2.Of r) rows rules ∧
    (content rules).splitOnP terminator = (skeleton rows).map String.toList

/-- What `create` and `update` check of a row. -/
structure Checked (r : PolicyRule) : Prop where
  scope : ScopeName r.scope
  subject : validSubject r.subject
  effect : r.effect = "allow" ∨ r.effect = "deny"
  priority : 0 ≤ r.priority ∧ r.priority ≤ 100

/-- The policy files name actions as polkit has it. -/
def WellNamed : Call → Prop
  | .create _ catalog _ => ∀ scope ∈ catalog, ScopeName scope
  | _ => True

variable {toLowerCase : String → String}

theorem readSubject_valid {subject read : String} (accepted : readSubject subject = some read) :
    validSubject read := by
  unfold readSubject at accepted
  split at accepted
  · rename_i valid
    obtain rfl := Option.some.inj accepted
    exact valid
  · cases accepted

theorem readEffect_known {effect read : String} (accepted : readEffect toLowerCase effect = some read) :
    read = "allow" ∨ read = "deny" := by
  simp only [readEffect] at accepted
  split at accepted
  · rename_i known
    rwa [← Option.some.inj accepted]
  · cases accepted

theorem readPriority_bounds {priority read : ℤ} (accepted : readPriority priority = some read) :
    0 ≤ read ∧ read ≤ 100 := by
  unfold readPriority at accepted
  split at accepted
  · rename_i bounds
    rwa [← Option.some.inj accepted]
  · cases accepted

theorem createRow_checked {args : CreateArgs} {catalog : List String} {id : String} {r : PolicyRule}
    (named : ∀ scope ∈ catalog, ScopeName scope)
    (created : createRow toLowerCase args catalog id = some r) : Checked r := by
  simp only [createRow] at created
  split at created
  · rename_i known
    simp only [bind, Option.bind_eq_some_iff, pure, Option.some.injEq] at created
    obtain ⟨subject, valid, effect, allowed, priority, bounds, rfl⟩ := created
    exact {
      scope := named _ known.2
      subject := readSubject_valid valid
      effect := readEffect_known allowed
      priority := readPriority_bounds bounds }
  · cases created

theorem readPriority_bound {priority : Option ℤ} {read : ℤ}
    (accepted : priority.bind readPriority = some read) : 0 ≤ read ∧ read ≤ 100 := by
  obtain ⟨_, _, accepted⟩ := Option.bind_eq_some_iff.mp accepted
  exact readPriority_bounds accepted

/-- A field of an update is the old one, or was checked. -/
theorem field_checked {Value Arg : Type} {P : Value → Prop} {old new : Value} {arg : Option Arg}
    {read : Arg → Option Value} (before : P old)
    (checks : ∀ {arg value}, read arg = some value → P value)
    (chosen : field old read arg = some new) : P new := by
  cases arg with
  | none => exact Option.some.inj chosen ▸ before
  | some arg => exact checks chosen

theorem updateRow_checked {args : UpdateArgs} {r row : PolicyRule} (checked : Checked r)
    (updated : updateRow toLowerCase args r = some row) : Checked row := by
  simp only [updateRow, bind, Option.bind_eq_some_iff, pure, Option.some.injEq] at updated
  obtain ⟨effect, allowed, priority, bounds, subject, valid, note, -, rfl⟩ := updated
  exact {
    scope := checked.scope
    subject := field_checked (P := fun s => validSubject s) checked.subject readSubject_valid valid
    effect := field_checked (P := fun e => e = "allow" ∨ e = "deny") checked.effect
      readEffect_known allowed
    priority := field_checked (P := fun n => 0 ≤ n ∧ n ≤ 100) checked.priority
      readPriority_bound bounds }

theorem modify_checked {registry : List PolicyRule} {id : String}
    {change : PolicyRule → Option PolicyRule} (checked : ∀ r ∈ registry, Checked r)
    (changes : ∀ r row, Checked r → change r = some row → Checked row) :
    ∀ r ∈ modify registry id change, Checked r := by
  intro row member
  obtain ⟨r, inside, rfl⟩ := List.mem_map.mp member
  have before := checked r inside
  split
  · cases changed : change r with
    | none => exact before
    | some row => exact changes r row before changed
  · exact before

/-- A call leaves only checked rows. -/
theorem step_checked {registry : List PolicyRule} {call : Call} (named : WellNamed call)
    (checked : ∀ r ∈ registry, Checked r) : ∀ r ∈ step toLowerCase registry call, Checked r := by
  cases call with
  | create args catalog id =>
    simp only [step]
    cases created : createRow toLowerCase args catalog id with
    | none => exact checked
    | some row =>
      by_cases taken : registry.any (·.id = id)
      · simpa [taken] using checked
      · simp only [taken]
        exact List.forall_mem_append.mpr
          ⟨checked, List.forall_mem_singleton.mpr (createRow_checked named created)⟩
  | update id args => exact modify_checked checked fun r row => updateRow_checked
  | toggle id =>
    refine modify_checked checked ?_
    rintro r row before ⟨⟩
    exact ⟨before.scope, before.subject, before.effect, before.priority⟩
  | delete id =>
    intro r member
    exact checked r (List.mem_of_mem_filter member)

theorem run_checked {calls : List Call} (named : ∀ call ∈ calls, WellNamed call) :
    ∀ r ∈ Execution.run (step toLowerCase) [] calls, Checked r := by
  induction calls using List.reverseRecOn with
  | nil => intro r member; cases member
  | append_singleton calls call ih =>
    rw [Execution.run_append, Execution.run_cons, Execution.run_nil]
    refine step_checked (named call (by simp)) (ih ?_)
    intro other member
    exact named other (List.mem_append_left _ member)

/-! ### The lines of a rule -/

theorem validSubject_parts {r : PolicyRule} (valid : validSubject r.subject) :
    ∃ kind name, r.subject = kind ++ ":" ++ name ∧ subjectParts r = (kind, name) ∧ name ≠ "" ∧
      ∀ c ∈ name.toList, subjectChar c := by
  unfold validSubject at valid
  split at valid
  · rename_i kind name split
    simp only [Bool.and_eq_true, decide_eq_true_eq, List.all_eq_true] at valid
    refine ⟨String.ofList kind, String.ofList name, ?_, by simp [subjectParts, split], ?_, ?_⟩
    · have joined := @List.intercalate_splitOn _ r.subject.toList _ _ ':'
      rw [split] at joined
      rw [← String.toList_inj, ← joined]
      simp
    · simpa [← String.toList_inj] using valid.1.2
    · simpa using valid.2
  · cases valid

/-- The statement of a checked rule. -/
theorem exists_guard {r : PolicyRule} (checked : Checked r) :
    ∃ guard : Guard, guard.Of r ∧ (ruleLines r).tail = guard.lines := by
  obtain ⟨kind, name, subject, parts, nonempty, plain⟩ := validSubject_parts checked.subject
  refine ⟨{ scope := r.scope, group := kind = "group", name, allow := r.effect = "allow",
            known := checked.scope, subject := ⟨nonempty, plain⟩ },
    ⟨rfl, ⟨kind, subject, by simp⟩, by simp⟩, ?_⟩
  simp [ruleLines, Guard.lines, subjectTest, parts]

theorem oneLine_scope {scope : String} (known : ScopeName scope) : OneLine terminator scope.toList :=
  Lines.oneLine_of_kind (by decide) known.plain

theorem oneLine_priority (n : ℤ) : OneLine terminator n.repr.toList := by
  have digits (m : ℕ) : OneLine terminator m.repr.toList := by
    rw [Nat.toList_repr]
    exact @Lines.oneLine_of_kind Char.isDigit (by decide) _ fun c member =>
      Nat.isDigit_of_mem_toDigits (by decide) (by decide) member
  cases n with
  | ofNat m => exact digits m
  | negSucc m =>
    have sign : OneLine terminator "-".toList := OneLine.literal rfl
    simpa [Int.repr] using sign.append (digits (m + 1))

/-- The lines of a statement are lines. -/
theorem oneLine_guard (guard : Guard) : ∀ line ∈ guard.lines, OneLine terminator line.toList := by
  have name : OneLine terminator guard.name.toList :=
    Lines.oneLine_of_kind (by decide) guard.subject.2
  have test : OneLine terminator (if guard.group then "subject.isInGroup(\"" ++ guard.name ++ "\")"
      else "subject.user === \"" ++ guard.name ++ "\"").toList := by
    split
    · simp only [String.toList_append]
      exact ((OneLine.literal rfl).append name).append (OneLine.literal rfl)
    · simp only [String.toList_append]
      exact ((OneLine.literal rfl).append name).append (OneLine.literal rfl)
  simp only [Guard.lines, List.forall_mem_cons, List.not_mem_nil, false_imp_iff, implies_true,
    and_true, String.toList_append]
  refine ⟨?_, ?_, ?_⟩
  · exact ((((OneLine.literal rfl).append (oneLine_scope guard.known)).append
      (OneLine.literal rfl)).append test).append (OneLine.literal rfl)
  · refine ((OneLine.literal rfl).append ?_).append (OneLine.literal rfl)
    split
    · exact OneLine.literal rfl
    · exact OneLine.literal rfl
  · exact OneLine.literal rfl

/-- The text of a rule's comment. -/
def commentText (r : PolicyRule) : String := r.note.getD r.scope ++ " — priority " ++ r.priority.repr

/-- The note of a rule is one line. -/
def OneLineNote (r : PolicyRule) : Prop := ∀ note ∈ r.note, OneLine terminator note.toList

theorem oneLine_comment_iff {r : PolicyRule} (checked : Checked r) :
    OneLine terminator ("    // " ++ commentText r).toList ↔ OneLineNote r := by
  have dash : OneLine terminator " — priority ".toList := OneLine.literal rfl
  have start : OneLine terminator "    // ".toList := OneLine.literal rfl
  have rest := oneLine_priority r.priority
  simp only [commentText, String.toList_append, Lines.oneLine_append_iff, start, dash, rest,
    true_and, and_true, OneLineNote]
  cases note : r.note with
  | none => simpa using oneLine_scope checked.scope
  | some note => simp

theorem oneLine_fixed : ∀ line ∈ fileHead ++ fileTail, OneLine terminator line.toList := by
  have all : ∀ line ∈ fileHead ++ fileTail, ∃ chars, line = String.ofList chars ∧
      chars.all (fun c => !terminator c) = true := by
    simp only [fileHead, fileTail, List.cons_append, List.nil_append, List.forall_mem_cons,
      List.not_mem_nil, false_imp_iff, implies_true, and_true]
    exact ⟨⟨_, rfl, rfl⟩, ⟨_, rfl, rfl⟩, ⟨_, rfl, rfl⟩, ⟨_, rfl, rfl⟩, ⟨_, rfl, rfl⟩, ⟨_, rfl, rfl⟩,
      ⟨_, rfl, rfl⟩, ⟨_, rfl, rfl⟩, ⟨_, rfl, rfl⟩, ⟨_, rfl, rfl⟩⟩
  intro line member
  obtain ⟨chars, rfl, none⟩ := all line member
  exact OneLine.literal none

/-! ### The file -/

theorem exists_rows {rules : List PolicyRule} (checked : ∀ r ∈ rules, Checked r) :
    ∃ rows : List (String × Guard), List.Forall₂ (fun row r => row.2.Of r) rows rules ∧
      rules.flatMap ruleLines =
        rows.flatMap fun (comment, guard) => ("    // " ++ comment) :: guard.lines := by
  induction rules with
  | nil => exact ⟨[], .nil, rfl⟩
  | cons r rules ih =>
    obtain ⟨rows, match', lines⟩ := ih fun r member => checked r (List.mem_cons_of_mem _ member)
    obtain ⟨guard, of, tail⟩ := exists_guard (checked r List.mem_cons_self)
    refine ⟨(commentText r, guard) :: rows, .cons of match', ?_⟩
    have comment : ruleLines r = ("    // " ++ commentText r) :: guard.lines := by
      rw [← tail]
      simp [ruleLines, commentText, String.append_assoc]
    rw [List.flatMap_cons, List.flatMap_cons, lines, comment]

/-- The parts that the file joins. -/
def parts (rules : List PolicyRule) : List (List Char) :=
  (fileHead ++ rules.flatMap ruleLines ++ fileTail).map String.toList

theorem oneLine_parts_iff {rules : List PolicyRule} (checked : ∀ r ∈ rules, Checked r) :
    (∀ part ∈ parts rules, OneLine terminator part) ↔ ∀ r ∈ rules, OneLineNote r := by
  have lines (r : PolicyRule) (member : r ∈ rules) :
      (∀ line ∈ ruleLines r, OneLine terminator line.toList) ↔ OneLineNote r := by
    obtain ⟨guard, -, tail⟩ := exists_guard (checked r member)
    have comment : ruleLines r = ("    // " ++ commentText r) :: (ruleLines r).tail := by
      simp [ruleLines, commentText, String.append_assoc]
    rw [comment, tail, List.forall_mem_cons, oneLine_comment_iff (checked r member)]
    exact and_iff_left (oneLine_guard guard)
  have fixed := List.forall_mem_append.mp oneLine_fixed
  simp only [parts, List.forall_mem_map, List.forall_mem_append, List.mem_flatMap]
  constructor
  · intro one r member
    exact (lines r member).mp fun line inside => one.1.2 line ⟨r, member, inside⟩
  · intro notes
    refine ⟨⟨fixed.1, ?_⟩, fixed.2⟩
    rintro line ⟨r, member, inside⟩
    exact (lines r member).mpr (notes r member) line inside

theorem length_skeleton (rows : List (String × Guard)) :
    (skeleton rows).length = 10 + 4 * rows.length := by
  induction rows with
  | nil => rfl
  | cons row rows ih =>
    simp only [skeleton, List.flatMap_cons, List.length_append, List.length_cons, Guard.lines,
      fileHead, fileTail, List.length_nil] at ih ⊢
    omega

/-- The file of checked rules is safe exactly when every note is one line. -/
theorem safe_iff {rules : List PolicyRule} (checked : ∀ r ∈ rules, Checked r) :
    Safe rules ↔ ∀ r ∈ rules, OneLineNote r := by
  have newline : terminator '\n' := rfl
  have nonempty : parts rules ≠ [] := by
    rw [parts, fileHead, List.append_assoc, List.cons_append, List.map_cons]
    exact List.cons_ne_nil _ _
  obtain ⟨rows, of, lines⟩ := exists_rows checked
  have whole : parts rules = (skeleton rows).map String.toList := by
    rw [parts, lines, skeleton]
  have written : content rules = ['\n'].intercalate (parts rules) := by
    rw [content, parts]
  rw [← oneLine_parts_iff checked]
  constructor
  · intro ⟨rows', of', split⟩
    refine Lines.oneLine_of_length newline nonempty ?_
    rw [← written, split, whole, List.length_map, List.length_map, length_skeleton, length_skeleton, of.length_eq, of'.length_eq]
  · intro one
    refine ⟨rows, of, ?_⟩
    rw [← whole, written]
    exact Lines.splitOnP_intercalate newline nonempty one

/-- After every history of the registry, the file that is written from it is the fixed skeleton
with one comment line and one statement a rule, exactly when no selected note has an end of line. -/
theorem sync_safe_iff {calls : List Call} (named : ∀ call ∈ calls, WellNamed call)
    {rules : List PolicyRule} (selected : Selected (Execution.run (step toLowerCase) [] calls) rules) :
    Safe rules ↔ ∀ r ∈ rules, OneLineNote r := by
  refine safe_iff fun r member => ?_
  have enabled := selected.enabled.mem_iff.mp member
  exact run_checked named r (List.mem_of_mem_filter enabled)

/-- The catalog of a host with one policy file. -/
def sampleCatalog : List String := ["org.sysdeck.builder.modify"]

theorem sampleCatalog_named : ∀ scope ∈ sampleCatalog, ScopeName scope := by
  refine List.forall_mem_singleton.mpr ⟨?_, ?_⟩
  · repeat rw [String.toList_ofList]
    exact List.isPrefixOf_iff_prefix.mp (by rfl)
  · rw [String.toList_ofList]
    exact List.all_eq_true.mp (by rfl)

/-- A rule with a note is created. -/
def noted (note : String) : Call :=
  .create ⟨some "org.sysdeck.builder.modify", some "group:wheel", some "deny", none, some note⟩
    sampleCatalog "ckr1"

def notedRule (note : String) : PolicyRule :=
  { id := "ckr1", scope := "org.sysdeck.builder.modify", subject := "group:wheel", effect := "deny",
    priority := 50, enabled := true, note := some note }

theorem selected_single {r : PolicyRule} (enabled : r.enabled) : Selected [r] [r] where
  enabled := by simp [enabled]
  ordered := List.pairwise_singleton _ _

theorem trim_literal {chars : List Char} (tight : Text.trim chars = chars) :
    trim (String.ofList chars) = String.ofList chars := by
  rw [trim, String.toList_ofList, tight]

theorem run_noted {note : String} (tight : trim note = note) :
    Execution.run (step id) [] [noted note] = [notedRule note] := by
  have row : createRow id ⟨some "org.sysdeck.builder.modify", some "group:wheel", some "deny", none,
      some note⟩ sampleCatalog "ckr1" = some (notedRule note) := by
    have scope : trim "org.sysdeck.builder.modify" = "org.sysdeck.builder.modify" :=
      trim_literal (by rfl)
    have subject : trim "group:wheel" = "group:wheel" := trim_literal (by rfl)
    have valid : validSubject "group:wheel" := by
      rw [validSubject, String.toList_ofList]
      rfl
    have effect : trim "deny" = "deny" := trim_literal (by rfl)
    simp [createRow, scope, readSubject, subject, valid, readEffect, effect, readPriority, tight,
      sampleCatalog, notedRule]
  simp [step, noted, row]

theorem sync_safe_noted :
    Safe [notedRule "on call"] ↔ ∀ r ∈ [notedRule "on call"], OneLineNote r := by
  have named : ∀ call ∈ [noted "on call"], WellNamed call :=
    List.forall_mem_singleton.mpr sampleCatalog_named
  refine @sync_safe_iff id _ named _ ?_
  rw [run_noted (by decide)]
  exact selected_single rfl

/-- A note of two lines: the second one answers YES to every action of the suite. -/
theorem note_adds_line :
    ∃ rules, Selected (Execution.run (step id) []
      [noted "on call\nreturn polkit.Result.YES; //"]) rules ∧ ¬ Safe rules := by
  refine ⟨[notedRule "on call\nreturn polkit.Result.YES; //"], ?_, ?_⟩
  · rw [run_noted (by decide)]
    exact selected_single rfl
  · have checked : ∀ r ∈ [notedRule "on call\nreturn polkit.Result.YES; //"], Checked r :=
      List.forall_mem_singleton.mpr {
        scope := sampleCatalog_named _ List.mem_cons_self
        subject := by decide
        effect := .inr rfl
        priority := by decide }
    rw [safe_iff checked]
    intro notes
    have one := notes _ List.mem_cons_self _ rfl '\n' (by decide)
    exact absurd one (by decide)

end SysDeck.Web.Policy
