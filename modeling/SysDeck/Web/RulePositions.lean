import Mathlib.Data.List.Nodup
import SysDeck.Library.Interleaving
import SysDeck.Web.FirewallApply

/-! The positions of the rules of a ruleset, when rulesets are created and rules are added and removed at
the same time: every await is a point where another request may go on. -/

namespace SysDeck.Web.RulePositions

open Execution (Along run)
open Firewall (CaseMapping CreateArgs FwRuleSeed RuleArgs RuleRow Ruleset backends seedRows templateSeeds
  trim truthy validRulesetName)
open Interleaving (Event Program Resuming)

/-! ### The tables and the requests -/

/-- A row of the table of rules. -/
structure Rule where
  id : ℕ
  row : RuleRow
  deriving DecidableEq

structure Database where
  rulesets : List Ruleset
  rules : List Rule
  nextId : ℕ
  fresh : ∀ rule ∈ rules, rule.id < nextId

/-- The rows under the ids from a number on. -/
def numbered : ℕ → List RuleRow → List Rule
  | _, [] => []
  | id, row :: rows => ⟨id, row⟩ :: numbered (id + 1) rows

theorem id_of_mem_numbered {id : ℕ} {rows : List RuleRow} {rule : Rule} (member : rule ∈ numbered id rows) :
    id ≤ rule.id ∧ rule.id < id + rows.length ∧ rule.row ∈ rows := by
  induction rows generalizing id with
  | nil => cases member
  | cons row rows ih =>
    rcases List.mem_cons.mp member with rfl | later
    · exact ⟨Nat.le_refl _, by simp, List.mem_cons_self⟩
    · obtain ⟨least, most, stored⟩ := ih later
      rw [List.length_cons]
      exact ⟨by omega, by omega, List.mem_cons_of_mem row stored⟩

/-- The rows are stored, each under an id of its own. -/
def Database.store (db : Database) (rows : List RuleRow) : Database where
  rulesets := db.rulesets
  rules := db.rules ++ numbered db.nextId rows
  nextId := db.nextId + rows.length
  fresh := by
    intro rule member
    rcases List.mem_append.mp member with old | new
    · exact Nat.lt_of_lt_of_le (db.fresh rule old) (Nat.le_add_right _ _)
    · exact (id_of_mem_numbered new).2.1

def Database.remove (db : Database) (id : ℕ) : Database where
  rulesets := db.rulesets
  rules := db.rules.filter (·.id ≠ id)
  nextId := db.nextId
  fresh := fun rule member => db.fresh rule (List.mem_of_mem_filter member)

def Database.rulesOf (db : Database) (ruleset : String) : List Rule :=
  db.rules.filter (·.row.ruleset = ruleset)

def Database.positions (db : Database) (ruleset : String) : List Int :=
  (db.rulesOf ruleset).map (·.row.position)

inductive Request where
  | create (args : CreateArgs)
  | addRule (args : RuleArgs)
  | deleteRule (id : ℕ)

/-- What a request waits for. -/
inductive Phase where
  | createFind (ruleset : Ruleset)
  | createRow (ruleset : Ruleset) (seeds : List FwRuleSeed)
  | createRules (ruleset : String) (seeds : List FwRuleSeed)
  | addFind (args : RuleArgs)
  | addLast (args : RuleArgs)
  | addRow (args : RuleArgs) (last : Int)
  | deleteFind (id : ℕ)
  | deleteRow (id : ℕ)
  | audit
  | finished

section
variable (case : CaseMapping)

/-- The name under which the arguments ask for a rule. -/
def rulesetOf (args : RuleArgs) : String := trim (args.ruleset.getD "")

/-- A request up to its first await. -/
def Request.start : Request → Phase
  | .create args =>
    let name := trim (args.name.getD "")
    let backend := trim (args.backend.getD "nftables")
    let template := (truthy args.template).map trim
    if name = "" ∨ validRulesetName name = false ∨ backend ∉ backends then .finished
    else .createFind { name, backend, template, active := false, appliedAt := none }
  | .addRule args => if (args.row case 0).error?.isSome then .finished else .addFind args
  | .deleteRule id => .deleteFind id

/-- A request from one await to the next. -/
def Phase.resume (db : Database) : Phase → Database × Phase
  | .createFind ruleset =>
    if db.rulesets.any (·.name = ruleset.name) then (db, .finished)
    else
      match templateSeeds ruleset.template with
      | none => (db, .finished)
      | some seeds => (db, .createRow ruleset seeds)
  | .createRow ruleset seeds =>
    -- the name is unique in the table
    if db.rulesets.any (·.name = ruleset.name) then (db, .finished)
    else
      ({ db with rulesets := db.rulesets ++ [ruleset] },
        if seeds = [] then .audit else .createRules ruleset.name seeds)
  | .createRules ruleset seeds => (db.store (seedRows ruleset seeds), .audit)
  | .addFind args =>
    (db, if db.rulesets.any (·.name = rulesetOf args) then .addLast args else .finished)
  | .addLast args => (db, .addRow args ((db.positions (rulesetOf args)).max?.getD 0))
  | .addRow args last => (db.store [args.row case (last + 1)], .audit)
  | .deleteFind id => (db, if db.rules.any (·.id = id) then .deleteRow id else .finished)
  | .deleteRow id =>
    (db.remove id, if db.rules.any (·.id = id) then .audit else .finished)
  | .audit => (db, .finished)
  | .finished => (db, .finished)

abbrev Server := Interleaving.Server Database Phase

def program : Program Database Phase Request Unit where
  start db request := (db, request.start case)
  resume _ db phase := phase.resume case db

end

/-! ### What is to hold -/

/-- No two rules of a ruleset have one position. -/
def Database.Distinct (db : Database) : Prop :=
  ∀ ruleset, (db.positions ruleset).Nodup

/-- There is one order of the rules of a ruleset by position. -/
def Database.Determined (db : Database) : Prop :=
  ∀ ruleset, ∀ first second : List Rule,
    first.Perm (db.rulesOf ruleset) → second.Perm (db.rulesOf ruleset) →
    first.Pairwise (fun rule other => rule.row.position ≤ other.row.position) →
    second.Pairwise (fun rule other => rule.row.position ≤ other.row.position) → first = second

/-- A rule that `addRule` stores comes after all that are stored in its ruleset. -/
def Appends (server : Server) (event : Event Request Unit) (next : Server) : Prop :=
  ∀ place input args last, event = .resume place input →
    server.phases[place]? = some (.addRow args last) →
    ∀ rule ∈ next.shared.rules, rule ∉ server.shared.rules →
      ∀ other ∈ server.shared.rules, other.row.ruleset = rule.row.ruleset →
        other.row.position < rule.row.position

structure Ordered (server : Server) (event : Event Request Unit) (next : Server) : Prop where
  distinct : next.shared.Distinct
  determined : next.shared.Determined
  appends : Appends server event next

/-- A rule is added only where no rule of its ruleset is past the one that was found to be the last, and
the rules of a template only where none of their positions is taken. -/
def Phase.Free (db : Database) : Phase → Prop
  | .addRow args last => ∀ position ∈ db.positions (rulesetOf args), position ≤ last
  | .createRules ruleset seeds =>
    ∀ position ∈ db.positions ruleset, position < 1 ∨ (seeds.length : Int) < position
  | _ => True

instance (db : Database) : ∀ phase : Phase, Decidable (phase.Free db)
  | .addRow args last => inferInstanceAs (Decidable (∀ position ∈ db.positions (rulesetOf args), position ≤ last))
  | .createRules ruleset seeds => inferInstanceAs (Decidable (∀ position ∈ db.positions ruleset,
      position < 1 ∨ (seeds.length : Int) < position))
  | .createFind _ | .createRow _ _ | .addFind _ | .addLast _ | .deleteFind _ | .deleteRow _ | .audit
  | .finished => .isTrue trivial

/-! ### One step -/

theorem Database.Distinct.determined {db : Database} (distinct : db.Distinct) : db.Determined := by
  intro ruleset first second rows rows' ordered ordered'
  refine List.Perm.eq_of_pairwise ?_ ordered ordered' (rows.trans rows'.symm)
  intro rule other here there le ge
  exact List.inj_on_of_nodup_map (distinct ruleset) (rows.mem_iff.mp here) (rows'.mem_iff.mp there)
    (Int.le_antisymm le ge)

theorem positions_remove (db : Database) (id : ℕ) (ruleset : String) :
    ((db.remove id).positions ruleset).Sublist (db.positions ruleset) :=
  (List.Sublist.filter _ List.filter_sublist).map _

theorem rows_numbered (id : ℕ) (rows : List RuleRow) : (numbered id rows).map Rule.row = rows := by
  induction rows generalizing id with
  | nil => rfl
  | cons row rows ih => rw [numbered, List.map_cons, ih]

/-- The rows of one ruleset stand behind the others of it. -/
theorem positions_store {db : Database} {rows : List RuleRow} {ruleset : String}
    (named : ∀ row ∈ rows, row.ruleset = ruleset) (other : String) :
    (db.store rows).positions other =
      db.positions other ++ if ruleset = other then rows.map RuleRow.position else [] := by
  have split : (db.store rows).positions other =
      db.positions other ++ ((rows.filter (·.ruleset = other)).map RuleRow.position) := by
    rw [Database.positions, Database.rulesOf, Database.store, List.filter_append, List.map_append]
    congr 1
    rw [← rows_numbered db.nextId rows, List.filter_map, List.map_map, rows_numbered]
    rfl
  rw [split]
  split
  next same =>
    rw [List.filter_eq_self.mpr fun row member => decide_eq_true ((named row member).trans same)]
  next differ =>
    rw [List.filter_eq_nil_iff.mpr fun row member => by rw [named row member]; simpa using differ]
    rfl

/-- Rows whose positions are distinct are stored exactly where none of them is taken. -/
theorem distinct_store_iff {db : Database} (distinct : db.Distinct) {rows : List RuleRow} {ruleset : String}
    (named : ∀ row ∈ rows, row.ruleset = ruleset) (apart : (rows.map RuleRow.position).Nodup) :
    (db.store rows).Distinct ↔
      ∀ position ∈ db.positions ruleset, position ∉ rows.map RuleRow.position := by
  constructor
  · intro stored position taken new
    have nodup := stored ruleset
    rw [positions_store named, if_pos rfl] at nodup
    exact (List.nodup_append.mp nodup).2.2 position taken position new rfl
  · intro free other
    rw [positions_store named]
    split
    next same =>
      subst same
      refine List.nodup_append.mpr ⟨distinct ruleset, apart, ?_⟩
      rintro position taken _ new rfl
      exact free position taken new
    next =>
      rw [List.append_nil]
      exact distinct other

theorem ruleset_seedRows (ruleset : String) (seeds : List FwRuleSeed) :
    ∀ row ∈ seedRows ruleset seeds, row.ruleset = ruleset := by
  intro row member
  obtain ⟨⟨seed, i⟩, -, rfl⟩ := List.mem_map.mp member
  rfl

theorem nodup_seedRows (ruleset : String) (seeds : List FwRuleSeed) :
    ((seedRows ruleset seeds).map RuleRow.position).Nodup :=
  List.pairwise_map.mpr ((Firewall.seedRows_ascending ruleset seeds).imp Int.ne_of_lt)

/-- The rules of a template are counted from one. -/
theorem mem_positions_seedRows {ruleset : String} {seeds : List FwRuleSeed} {position : Int} :
    position ∈ (seedRows ruleset seeds).map RuleRow.position ↔
      1 ≤ position ∧ position ≤ (seeds.length : Int) := by
  rw [seedRows, List.map_map, List.mem_map]
  constructor
  · rintro ⟨⟨seed, i⟩, member, rfl⟩
    have inside : i < seeds.length := (List.getElem?_eq_some_iff.mp (List.mem_zipIdx_iff_getElem?.mp member)).1
    change 1 ≤ (i : Int) + 1 ∧ (i : Int) + 1 ≤ seeds.length
    omega
  · rintro ⟨least, most⟩
    obtain ⟨i, rfl⟩ : ∃ i : ℕ, position = (i : Int) + 1 := ⟨(position - 1).toNat, by omega⟩
    have inside : i < seeds.length := by omega
    exact ⟨(seeds[i], i), List.mem_zipIdx_iff_getElem?.mpr (List.getElem?_eq_getElem inside), rfl⟩

section Step

variable {case : CaseMapping} {server : Server}

theorem appends_of_other {place : ℕ} {phase : Phase} (found : server.phases[place]? = some phase)
    (other : ∀ args last, phase ≠ .addRow args last) (input : Unit) (next : Server) :
    Appends server (.resume place input) next := by
  rintro place' _ args last ⟨⟩ found'
  rw [found, Option.some.injEq] at found'
  exact absurd found' (other args last)

/-- A step that stores nothing. -/
theorem ordered_of_sublist {place : ℕ} {phase : Phase} (found : server.phases[place]? = some phase)
    (other : ∀ args last, phase ≠ .addRow args last) (input : Unit) (distinct : server.shared.Distinct)
    {next : Server}
    (kept : ∀ ruleset, (next.shared.positions ruleset).Sublist (server.shared.positions ruleset)) :
    Ordered server (.resume place input) next :=
  have left : next.shared.Distinct := fun ruleset => (distinct ruleset).sublist (kept ruleset)
  ⟨left, left.determined, appends_of_other found other input next⟩

theorem ordered_of_rules {place : ℕ} {phase : Phase} (found : server.phases[place]? = some phase)
    (other : ∀ args last, phase ≠ .addRow args last) (input : Unit) (distinct : server.shared.Distinct)
    {next : Server} (same : next.shared.rules = server.shared.rules) :
    Ordered server (.resume place input) next := by
  refine ordered_of_sublist found other input distinct fun ruleset => ?_
  rw [Database.positions, Database.rulesOf, same]
  exact List.Sublist.refl _

theorem mem_positions {db : Database} {ruleset : String} {position : Int} :
    position ∈ db.positions ruleset ↔
      ∃ rule ∈ db.rules, rule.row.ruleset = ruleset ∧ rule.row.position = position := by
  simp only [Database.positions, Database.rulesOf, List.mem_map, List.mem_filter, decide_eq_true_eq, and_assoc]

/-- `addRule` stores its rule. -/
theorem ordered_addRow_iff {place : ℕ} {args : RuleArgs} {last : Int}
    (found : server.phases[place]? = some (.addRow args last)) (input : Unit)
    (distinct : server.shared.Distinct) {next : Server}
    (stores : next.shared = server.shared.store [args.row case (last + 1)]) :
    Ordered server (.resume place input) next ↔ (Phase.addRow args last).Free server.shared := by
  have named : ∀ row ∈ [args.row case (last + 1)], row.ruleset = rulesetOf args := by
    intro row member
    rw [List.mem_singleton.mp member]
    rfl
  constructor
  · intro ordered position taken
    obtain ⟨rule, stored, same, rfl⟩ := mem_positions.mp taken
    have new : (⟨server.shared.nextId, args.row case (last + 1)⟩ : Rule) ∈ next.shared.rules := by
      rw [stores]
      exact List.mem_append_right _ List.mem_cons_self
    have unseen : (⟨server.shared.nextId, args.row case (last + 1)⟩ : Rule) ∉ server.shared.rules :=
      fun old => Nat.lt_irrefl _ (server.shared.fresh _ old)
    exact Int.lt_add_one_iff.mp (ordered.appends place input args last rfl found _ new unseen rule stored same)
  · intro free
    have left : next.shared.Distinct := by
      rw [stores]
      refine (distinct_store_iff distinct named (List.nodup_singleton _)).mpr fun position taken new => ?_
      rw [List.map_singleton, List.mem_singleton] at new
      have low := free position taken
      rw [new] at low
      exact absurd (Int.lt_add_one_iff.mpr low) (Int.lt_irrefl _)
    refine ⟨left, left.determined, ?_⟩
    rintro place' _ args' last' ⟨⟩ found' rule stored new other old same
    rw [found, Option.some.injEq] at found'
    rw [stores] at stored
    obtain rfl : rule = ⟨server.shared.nextId, args.row case (last + 1)⟩ :=
      List.mem_singleton.mp ((List.mem_append.mp stored).resolve_left new)
    exact Int.lt_add_one_iff.mpr (free _ (mem_positions.mpr ⟨other, old, same, rfl⟩))

/-- `create` stores the rules of its template. -/
theorem ordered_createRules_iff {place : ℕ} {ruleset : String} {seeds : List FwRuleSeed}
    (found : server.phases[place]? = some (.createRules ruleset seeds)) (input : Unit)
    (distinct : server.shared.Distinct) {next : Server}
    (stores : next.shared = server.shared.store (seedRows ruleset seeds)) :
    Ordered server (.resume place input) next ↔ (Phase.createRules ruleset seeds).Free server.shared := by
  have stored_iff := distinct_store_iff distinct (ruleset_seedRows ruleset seeds) (nodup_seedRows ruleset seeds)
  have free_iff : (Phase.createRules ruleset seeds).Free server.shared ↔ next.shared.Distinct := by
    rw [stores, stored_iff]
    refine forall₂_congr fun position _ => ?_
    rw [mem_positions_seedRows]
    omega
  rw [free_iff]
  refine ⟨Ordered.distinct, fun left => ⟨left, left.determined, ?_⟩⟩
  exact appends_of_other found (by intro args last; rintro ⟨⟩) input next

theorem rules_createFind (db : Database) (ruleset : Ruleset) :
    ((Phase.createFind ruleset).resume case db).1.rules = db.rules := by
  rw [Phase.resume]
  split
  · rfl
  · split <;> rfl

theorem rules_createRow (db : Database) (ruleset : Ruleset) (seeds : List FwRuleSeed) :
    ((Phase.createRow ruleset seeds).resume case db).1.rules = db.rules := by
  rw [Phase.resume]
  split <;> rfl

/-- One step. -/
theorem ordered_iff (distinct : server.shared.Distinct) (event : Event Request Unit) :
    Ordered server event ((program case).step server event) ↔
      Resuming (fun _ => Phase.Free) server event := by
  cases event with
  | arrive request =>
    refine iff_of_true ⟨distinct, distinct.determined, ?_⟩ trivial
    rintro place input args last ⟨⟩
  | resume place input =>
    cases found : server.phases[place]? with
    | none =>
      rw [Program.step_missing found]
      refine iff_of_true ⟨distinct, distinct.determined, ?_⟩ (Interleaving.resuming_missing found input)
      rintro place' _ args last ⟨⟩ found'
      rw [found] at found'
      cases found'
    | some phase =>
      rw [Interleaving.resuming_iff found, Program.step_resume found]
      cases phase with
      | addRow args last => exact ordered_addRow_iff found input distinct rfl
      | createRules ruleset seeds => exact ordered_createRules_iff found input distinct rfl
      | deleteRow id =>
        refine iff_of_true (ordered_of_sublist found (by rintro _ _ ⟨⟩) input distinct ?_) trivial
        exact positions_remove server.shared id
      | createFind ruleset =>
        refine iff_of_true (ordered_of_rules found (by rintro _ _ ⟨⟩) input distinct ?_) trivial
        exact rules_createFind server.shared ruleset
      | createRow ruleset seeds =>
        refine iff_of_true (ordered_of_rules found (by rintro _ _ ⟨⟩) input distinct ?_) trivial
        exact rules_createRow server.shared ruleset seeds
      | addFind args => exact iff_of_true (ordered_of_rules found (by rintro _ _ ⟨⟩) input distinct rfl) trivial
      | addLast args => exact iff_of_true (ordered_of_rules found (by rintro _ _ ⟨⟩) input distinct rfl) trivial
      | deleteFind id => exact iff_of_true (ordered_of_rules found (by rintro _ _ ⟨⟩) input distinct rfl) trivial
      | audit => exact iff_of_true (ordered_of_rules found (by rintro _ _ ⟨⟩) input distinct rfl) trivial
      | finished => exact iff_of_true (ordered_of_rules found (by rintro _ _ ⟨⟩) input distinct rfl) trivial

end Step

/-! ### Every run -/

/-- Positions are distinct and rules are appended in a run exactly where each rule of it is added behind the
others. -/
theorem rule_positions_iff (case : CaseMapping) (db : Database) (distinct : db.Distinct)
    (events : List (Event Request Unit)) :
    (∀ before event after, events = before ++ event :: after →
      Ordered (run (program case).step ⟨db, []⟩ before) event
        (run (program case).step ⟨db, []⟩ (before ++ [event]))) ↔
      Along (program case).step (Resuming fun _ => Phase.Free) ⟨db, []⟩ events := by
  have exact_iff : ∀ (server : Server) event, server.shared.Distinct →
      (Ordered server event ((program case).step server event) ↔
        Resuming (fun _ => Phase.Free) server event) := fun _ event inv => ordered_iff inv event
  have kept : ∀ (server : Server) event, server.shared.Distinct →
      Ordered server event ((program case).step server event) →
      ((program case).step server event).shared.Distinct := fun _ _ _ ordered => ordered.distinct
  exact Execution.each_iff_along exact_iff kept distinct

/-- A ruleset without rules. -/
def edge : Database where
  rulesets := [{ name := "edge", backend := "nftables", template := none, active := false, appliedAt := none }]
  rules := []
  nextId := 0
  fresh := by simp

theorem edge_distinct : edge.Distinct := fun _ => List.nodup_nil

/-- A request to accept a port. -/
def accept (port : String) : Event Request Unit :=
  .arrive (.addRule { ruleset := some "edge", chain := none, action := some "accept", proto := none
                      port := some port, source := none, comment := none })

/-- The steps of two requests to add a rule, the second of which comes when the first has stored its own. -/
def oneAfterTheOther : List (Event Request Unit) :=
  [accept "22", .resume 0 (), .resume 0 (), .resume 0 (), accept "443", .resume 1 (), .resume 1 (), .resume 1 ()]

theorem rule_positions_oneAfterTheOther :
    Along (program .ascii).step (Resuming fun _ => Phase.Free) ⟨edge, []⟩ oneAfterTheOther ∧
      ∀ before event after, oneAfterTheOther = before ++ event :: after →
        Ordered (run (program .ascii).step ⟨edge, []⟩ before) event
          (run (program .ascii).step ⟨edge, []⟩ (before ++ [event])) := by
  have free : Along (program .ascii).step (Resuming fun _ => Phase.Free) ⟨edge, []⟩ oneAfterTheOther := by
    decide +kernel
  exact ⟨free, (rule_positions_iff .ascii edge edge_distinct oneAfterTheOther).mpr free⟩

/-- Two requests that look for the last rule before either of them has stored one. -/
def bothAtOnce : List (Event Request Unit) :=
  [accept "22", accept "443", .resume 0 (), .resume 1 (), .resume 0 (), .resume 1 (), .resume 0 ()]

theorem rule_positions_bothAtOnce : ¬∀ (case : CaseMapping) (db : Database), db.Distinct →
    ∀ events before event after, events = before ++ event :: after →
      Ordered (run (program case).step ⟨db, []⟩ before) event
        (run (program case).step ⟨db, []⟩ (before ++ [event])) := by
  intro all
  have ordered := all .ascii edge edge_distinct (bothAtOnce ++ [.resume 1 ()]) bothAtOnce (.resume 1 ()) [] rfl
  have both := ordered.distinct "edge"
  revert both
  decide +kernel

end SysDeck.Web.RulePositions
