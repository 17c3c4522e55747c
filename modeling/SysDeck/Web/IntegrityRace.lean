import SysDeck.Library.Interleaving
import SysDeck.Web.Integrity

/-! Checks and resolves of the integrity bridge that run at the same time: every await is a point where
another request may go on. -/

namespace SysDeck.Web.IntegrityRace

open Execution (Along run)
open Integrity (Drift File)
open Interleaving (Event Holds Keeps Program Resuming)

/-! ### The table and the requests -/

/-- A row of `IntegrityDrift`, and when it was detected last. -/
structure Row where
  id : ℕ
  drift : Drift
  detected : Int
  resolved : Bool

/-- What a drift is about. -/
def key (drift : Drift) : String × String := (drift.path, drift.change)

/-- The table, and what was resolved in it so far. -/
structure Table where
  rows : List Row
  nextId : ℕ
  resolves : List (String × String)

/-- The row that was detected last. -/
def latest? : List Row → Option Row
  | [] => none
  | row :: rows =>
    match latest? rows with
    | none => some row
    | some other => some (if other.detected ≤ row.detected then row else other)

def Table.find? (table : Table) (drift : Drift) : Option Row :=
  latest? (table.rows.filter fun row => key row.drift = key drift && !row.resolved)

def Row.refresh (id : ℕ) (drift : Drift) (now : Int) (row : Row) : Row :=
  if row.id = id then { row with drift := { row.drift with newHash := drift.newHash }, detected := now } else row

def Table.update (table : Table) (id : ℕ) (drift : Drift) (now : Int) : Table :=
  { table with rows := table.rows.map (·.refresh id drift now) }

def Table.create (table : Table) (drift : Drift) (now : Int) : Table :=
  { table with
    rows := table.rows ++ [{ id := table.nextId, drift, detected := now, resolved := false }]
    nextId := table.nextId + 1 }

def Row.resolve (id : ℕ) (row : Row) : Row := if row.id = id then { row with resolved := true } else row

def Table.resolve (table : Table) (id : ℕ) : Table :=
  { table with
    rows := table.rows.map (·.resolve id)
    resolves := table.resolves ++
      ((table.rows.filter fun row => row.id = id && !row.resolved).map fun row => key row.drift) }

inductive Request where
  | check
  | resolve (id : ℕ)

/-- What a request waits for. A check has with it how much was resolved when it came. -/
inductive Phase where
  | baselines (started : ℕ)
  | find (started : ℕ) (drift : Drift) (rest : List Drift)
  | update (started : ℕ) (id : ℕ) (drift : Drift) (rest : List Drift)
  | create (started : ℕ) (drift : Drift) (rest : List Drift)
  | lastCheck
  | checkAudit
  | resolve (id : ℕ)
  | resolveAudit
  | finished

/-- What a step finds: the baselines, the files and the time. -/
structure Host where
  baselines : OrderedMap String String
  files : String → File
  now : Int

/-- A request up to its first await. -/
def Request.start (table : Table) : Request → Phase
  | .check => .baselines table.resolves.length
  | .resolve id => .resolve id

/-- The drifts that are still to be persisted. -/
def persist (started : ℕ) : List Drift → Phase
  | [] => .lastCheck
  | drift :: rest => .find started drift rest

/-- A request from one await to the next. -/
def Phase.resume (sha256 : String → String) (host : Host) (table : Table) : Phase → Table × Phase
  | .baselines started =>
    match Integrity.check sha256 { files := host.files, baselines := host.baselines, drifts := [] } with
    | none => (table, .finished)
    | some report => (table, persist started report.drift)
  | .find started drift rest =>
    match table.find? drift with
    | some existing => (table, .update started existing.id drift rest)
    | none => (table, .create started drift rest)
  | .update started id drift rest =>
    if table.rows.any (·.id = id) then (table.update id drift host.now, persist started rest)
    else (table, .finished)
  | .create started drift rest => (table.create drift host.now, persist started rest)
  | .lastCheck => (table, .checkAudit)
  | .checkAudit => (table, .finished)
  | .resolve id =>
    if table.rows.any (·.id = id) then (table.resolve id, .resolveAudit) else (table, .finished)
  | .resolveAudit => (table, .finished)
  | .finished => (table, .finished)

abbrev Server := Interleaving.Server Table Phase

def program (sha256 : String → String) : Program Table Phase Request Host where
  start table request := (table, request.start table)
  resume host table phase := phase.resume sha256 host table

/-! ### What is to hold -/

/-- What the unresolved rows are about. -/
def Table.unresolved (table : Table) : List (String × String) :=
  (table.rows.filter (!·.resolved)).map fun row => key row.drift

/-- The drift that a check writes, and how much was resolved when the check came. -/
def Phase.writes : Phase → Option (ℕ × Drift)
  | .update started _ drift _ => some (started, drift)
  | .create started drift _ => some (started, drift)
  | _ => none

/-- The drift that a check has written has an unresolved row, unless one of it was resolved after the check
came. -/
def Persisted (server : Server) (event : Event Request Host) (next : Server) : Prop :=
  ∀ place host, event = .resume place host → ∀ phase ∈ server.phases[place]?,
    ∀ started drift, phase.writes = some (started, drift) →
      key drift ∉ server.shared.resolves.drop started → key drift ∈ next.shared.unresolved

structure Single (server : Server) (event : Event Request Host) (next : Server) : Prop where
  one : next.shared.unresolved.Nodup
  persisted : Persisted server event next

/-- A row is created only where there is no unresolved one. -/
def Phase.Fresh (table : Table) : Phase → Prop
  | .create _ drift _ => key drift ∉ table.unresolved
  | _ => True

instance (table : Table) : ∀ phase : Phase, Decidable (phase.Fresh table)
  | .create _ drift _ => inferInstanceAs (Decidable (key drift ∉ table.unresolved))
  | .baselines _ | .find _ _ _ | .update _ _ _ _ | .lastCheck | .checkAudit | .resolve _ | .resolveAudit
  | .finished => .isTrue trivial

/-! ### One step -/

theorem mem_latest? {rows : List Row} {row : Row} (found : latest? rows = some row) : row ∈ rows := by
  induction rows generalizing row with
  | nil => cases found
  | cons first rows ih =>
    rw [latest?] at found
    split at found
    · rw [← Option.some.inj found]
      exact List.mem_cons_self
    next other later =>
      rw [← Option.some.inj found]
      split
      · exact List.mem_cons_self
      · exact List.mem_cons_of_mem _ (ih later)

theorem mem_find? {table : Table} {drift : Drift} {row : Row} (found : table.find? drift = some row) :
    row ∈ table.rows ∧ key row.drift = key drift ∧ row.resolved = false := by
  obtain ⟨stored, own⟩ := List.mem_filter.mp (mem_latest? found)
  simpa [stored] using own

theorem mem_unresolved {table : Table} {pair : String × String} :
    pair ∈ table.unresolved ↔ ∃ row ∈ table.rows, row.resolved = false ∧ key row.drift = pair := by
  simp only [Table.unresolved, List.mem_map, List.mem_filter, Bool.not_eq_true', and_assoc]

/-- What a table comes to: rows stay and keep what they are about, and one that is resolved is noted. -/
structure Later (table next : Table) : Prop where
  noted : table.resolves <+: next.resolves
  kept : ∀ row ∈ table.rows, ∃ row' ∈ next.rows, row'.id = row.id ∧ key row'.drift = key row.drift ∧
    (row'.resolved = true → row.resolved = true ∨ key row.drift ∈ next.resolves.drop table.resolves.length)

theorem Later.refl (table : Table) : Later table table :=
  ⟨List.prefix_rfl, fun row stored => ⟨row, stored, rfl, rfl, .inl⟩⟩

theorem key_refresh (id : ℕ) (drift : Drift) (now : Int) (row : Row) :
    (row.refresh id drift now).id = row.id ∧ key (row.refresh id drift now).drift = key row.drift ∧
      (row.refresh id drift now).resolved = row.resolved := by
  unfold Row.refresh
  split <;> exact ⟨rfl, rfl, rfl⟩

theorem later_update (table : Table) (id : ℕ) (drift : Drift) (now : Int) :
    Later table (table.update id drift now) where
  noted := List.prefix_rfl
  kept := by
    intro row stored
    obtain ⟨same, about, left⟩ := key_refresh id drift now row
    exact ⟨_, List.mem_map_of_mem stored, same, about, fun is => .inl (left ▸ is)⟩

theorem later_create (table : Table) (drift : Drift) (now : Int) : Later table (table.create drift now) where
  noted := List.prefix_rfl
  kept := fun row stored => ⟨row, List.mem_append_left _ stored, rfl, rfl, .inl⟩

theorem later_resolve (table : Table) (id : ℕ) : Later table (table.resolve id) where
  noted := List.prefix_append _ _
  kept := by
    intro row stored
    refine ⟨_, List.mem_map_of_mem stored, ?_⟩
    unfold Row.resolve
    split
    next here =>
      refine ⟨rfl, rfl, fun _ => ?_⟩
      cases left : row.resolved with
      | true => exact .inl rfl
      | false =>
        right
        rw [Table.resolve, List.drop_left]
        exact List.mem_map.mpr ⟨row, List.mem_filter.mpr ⟨stored, by simp [here, left]⟩, rfl⟩
    · exact ⟨rfl, rfl, .inl⟩

theorem later_resume (sha256 : String → String) (host : Host) (table : Table) (phase : Phase) :
    Later table (phase.resume sha256 host table).1 := by
  cases phase with
  | baselines started =>
    rw [Phase.resume]
    split <;> exact Later.refl table
  | find started drift rest =>
    rw [Phase.resume]
    split <;> exact Later.refl table
  | update started id drift rest =>
    rw [Phase.resume]
    split
    · exact later_update table id drift host.now
    · exact Later.refl table
  | create started drift rest => exact later_create table drift host.now
  | resolve id =>
    rw [Phase.resume]
    split
    · exact later_resolve table id
    · exact Later.refl table
  | lastCheck => exact Later.refl table
  | checkAudit => exact Later.refl table
  | resolveAudit => exact Later.refl table
  | finished => exact Later.refl table

/-! ### Checks that wait -/

/-- A check came when so much was resolved. -/
def Phase.started? : Phase → Option ℕ
  | .baselines started | .find started _ _ | .update started _ _ _ | .create started _ _ => some started
  | _ => none

/-- A row that a check is to refresh is there, and unresolved or resolved since the check came. -/
structure Waits (table : Table) (phase : Phase) : Prop where
  started : ∀ started ∈ phase.started?, started ≤ table.resolves.length
  found : ∀ started id drift rest, phase = .update started id drift rest →
    ∃ row ∈ table.rows, row.id = id ∧ key row.drift = key drift ∧
      (row.resolved = true → key drift ∈ table.resolves.drop started)

theorem Waits.later {table next : Table} {phase : Phase} (waits : Waits table phase) (later : Later table next) :
    Waits next phase where
  started := fun started came => Nat.le_trans (waits.started started came) later.noted.length_le
  found := by
    intro started id drift rest here
    obtain ⟨row, stored, same, about, left⟩ := waits.found started id drift rest here
    obtain ⟨row', stored', same', about', left'⟩ := later.kept row stored
    refine ⟨row', stored', same'.trans same, about'.trans about, fun is => ?_⟩
    obtain ⟨more, whole⟩ := later.noted
    have low : started ≤ table.resolves.length := waits.started started (by rw [here]; rfl)
    rw [← whole, List.drop_append_of_le_length low]
    rcases left' is with before | since
    · exact List.mem_append_left _ (left before)
    · rw [← whole, List.drop_left, about] at since
      exact List.mem_append_right _ since

/-- A phase that refreshes no row. -/
theorem waits_of_started {table : Table} {phase : Phase}
    (started : ∀ started ∈ phase.started?, started ≤ table.resolves.length)
    (other : ∀ started id drift rest, phase ≠ .update started id drift rest) : Waits table phase :=
  ⟨started, fun started id drift rest here => absurd here (other started id drift rest)⟩

theorem waits_persist {table : Table} {started : ℕ} (low : started ≤ table.resolves.length)
    (drifts : List Drift) : Waits table (persist started drifts) := by
  cases drifts with
  | nil => exact waits_of_started (by rintro _ ⟨⟩) (by rintro _ _ _ _ ⟨⟩)
  | cons drift rest =>
    refine waits_of_started ?_ (by rintro _ _ _ _ ⟨⟩)
    rintro _ ⟨⟩
    exact low

variable {sha256 : String → String}

theorem waits_resume {host : Host} {table : Table} {phase : Phase} (waits : Waits table phase) :
    Waits (phase.resume sha256 host table).1 (phase.resume sha256 host table).2 := by
  have done : Waits table .finished := waits_of_started (by rintro _ ⟨⟩) (by rintro _ _ _ _ ⟨⟩)
  cases phase with
  | baselines started =>
    rw [Phase.resume]
    split
    · exact done
    · exact waits_persist (waits.started started rfl) _
  | find started drift rest =>
    have low := waits.started started rfl
    rw [Phase.resume]
    split
    next existing found =>
      obtain ⟨stored, about, left⟩ := mem_find? found
      refine ⟨by rintro _ ⟨⟩; exact low, ?_⟩
      rintro _ _ _ _ ⟨⟩
      refine ⟨existing, stored, rfl, about, fun is => ?_⟩
      rw [left] at is
      cases is
    · exact waits_of_started (by rintro _ ⟨⟩; exact low) (by rintro _ _ _ _ ⟨⟩)
  | update started id drift rest =>
    rw [Phase.resume]
    split
    · have low : started ≤ (table.update id drift host.now).resolves.length := waits.started started rfl
      exact waits_persist low rest
    · exact done
  | create started drift rest =>
    have low : started ≤ (table.create drift host.now).resolves.length := waits.started started rfl
    exact waits_persist low rest
  | resolve id =>
    rw [Phase.resume]
    split
    · exact waits_of_started (by rintro _ ⟨⟩) (by rintro _ _ _ _ ⟨⟩)
    · exact done
  | lastCheck => exact waits_of_started (by rintro _ ⟨⟩) (by rintro _ _ _ _ ⟨⟩)
  | checkAudit => exact done
  | resolveAudit => exact done
  | finished => exact done

theorem keeps : Keeps (program sha256) (fun _ => True) Waits (fun _ _ _ => True) where
  start := by
    intro table request _
    refine ⟨trivial, ?_⟩
    cases request with
    | check =>
      refine waits_of_started ?_ (by rintro _ _ _ _ ⟨⟩)
      rintro _ ⟨⟩
      exact Nat.le_refl _
    | resolve id => exact waits_of_started (by rintro _ ⟨⟩) (by rintro _ _ _ _ ⟨⟩)
  spared := fun _ waits => waits
  resume := fun _ _ waits => ⟨trivial, waits_resume waits⟩
  stable := fun _ _ _ waits => waits.later (later_resume _ _ _ _)

/-! ### Unresolved rows -/

theorem unresolved_update (table : Table) (id : ℕ) (drift : Drift) (now : Int) :
    (table.update id drift now).unresolved = table.unresolved := by
  have row := key_refresh id drift now
  simp only [Table.unresolved, Table.update, List.filter_map, List.map_map]
  refine congrArg₂ _ ?_ (congrArg (List.filter · table.rows) ?_)
  · funext other
    exact (row other).2.1
  · funext other
    exact congrArg not (row other).2.2

theorem unresolved_create (table : Table) (drift : Drift) (now : Int) :
    (table.create drift now).unresolved = table.unresolved ++ [key drift] := by
  simp [Table.unresolved, Table.create]

theorem unresolved_resolve (table : Table) (id : ℕ) :
    (table.resolve id).unresolved.Sublist table.unresolved := by
  have rows : ∀ rows : List Row,
      (((rows.map (Row.resolve id)).filter (!·.resolved)).map fun row => key row.drift).Sublist
        ((rows.filter (!·.resolved)).map fun row => key row.drift) := by
    intro rows
    induction rows with
    | nil => exact List.Sublist.refl _
    | cons row rows ih =>
      rw [List.map_cons, List.filter_cons, List.filter_cons]
      by_cases here : row.id = id
      · rw [Row.resolve, if_pos here]
        split
        next is => cases is
        · split
          · exact ih.cons _
          · exact ih
      · rw [Row.resolve, if_neg here]
        split
        · exact ih.cons_cons _
        · exact ih
  exact rows table.rows

/-- The row that a check refreshes has what the check found, and is unresolved or was resolved since. -/
theorem any_of_waits {table : Table} {started id : ℕ} {drift : Drift} {rest : List Drift}
    (waits : Waits table (.update started id drift rest)) : table.rows.any (·.id = id) = true := by
  obtain ⟨row, stored, same, -⟩ := waits.found started id drift rest rfl
  exact List.any_eq_true.mpr ⟨row, stored, decide_eq_true same⟩

section Step

variable {server : Server} {place : ℕ} {phase : Phase} {host : Host} {next : Server}

theorem persisted_of_silent (found : server.phases[place]? = some phase) (silent : phase.writes = none) :
    Persisted server (.resume place host) next := by
  rintro place' _ ⟨⟩ phase' found' started drift writes
  rw [found, Option.mem_def, Option.some.injEq] at found'
  rw [← found', silent] at writes
  cases writes

/-- A step that leaves no more unresolved than before, and that is not a check's write. -/
theorem single_of_sublist (found : server.phases[place]? = some phase) (silent : phase.writes = none)
    (one : server.shared.unresolved.Nodup) (kept : next.shared.unresolved.Sublist server.shared.unresolved) :
    Single server (.resume place host) next :=
  ⟨one.sublist kept, persisted_of_silent found silent⟩

theorem single_update {started id : ℕ} {drift : Drift} {rest : List Drift}
    (found : server.phases[place]? = some (.update started id drift rest))
    (waits : Waits server.shared (.update started id drift rest)) (one : server.shared.unresolved.Nodup)
    (updates : next.shared = server.shared.update id drift host.now) :
    Single server (.resume place host) next := by
  have same : next.shared.unresolved = server.shared.unresolved := by rw [updates, unresolved_update]
  refine ⟨same ▸ one, ?_⟩
  rintro place' _ ⟨⟩ phase found' _ _ writes unresolved
  rw [found, Option.mem_def, Option.some.injEq] at found'
  rw [← found'] at writes
  cases writes
  obtain ⟨row, stored, -, about, left⟩ := waits.found started id drift rest rfl
  rw [same]
  exact mem_unresolved.mpr ⟨row, stored, Bool.eq_false_iff.mpr fun is => unresolved (left is), about⟩

theorem single_create_iff {started : ℕ} {drift : Drift} {rest : List Drift}
    (found : server.phases[place]? = some (.create started drift rest)) (one : server.shared.unresolved.Nodup)
    (creates : next.shared = server.shared.create drift host.now) :
    Single server (.resume place host) next ↔ (Phase.create started drift rest).Fresh server.shared := by
  have more : next.shared.unresolved = server.shared.unresolved ++ [key drift] := by
    rw [creates, unresolved_create]
  constructor
  · intro single
    have nodup := single.one
    rw [more] at nodup
    exact fun old => (List.nodup_append.mp nodup).2.2 _ old _ List.mem_cons_self rfl
  · intro fresh
    refine ⟨?_, ?_⟩
    · rw [more]
      refine List.nodup_append.mpr ⟨one, List.nodup_singleton _, ?_⟩
      rintro pair old _ new rfl
      exact fresh (List.mem_singleton.mp new ▸ old)
    · rintro place' _ ⟨⟩ phase found' _ _ writes -
      rw [found, Option.mem_def, Option.some.injEq] at found'
      rw [← found'] at writes
      cases writes
      rw [more]
      exact List.mem_append_right _ List.mem_cons_self

end Step

/-- One step. -/
theorem single_iff {server : Server} (waits : Holds (fun _ => True) Waits server)
    (one : server.shared.unresolved.Nodup) (event : Event Request Host) :
    Single server event ((program sha256).step server event) ↔
      Resuming (fun _ => Phase.Fresh) server event := by
  cases event with
  | arrive request =>
    refine iff_of_true ⟨one, ?_⟩ trivial
    rintro place host ⟨⟩
  | resume place host =>
    cases found : server.phases[place]? with
    | none =>
      rw [Program.step_missing found]
      refine iff_of_true ⟨one, ?_⟩ (Interleaving.resuming_missing found host)
      rintro place' _ ⟨⟩ phase found'
      rw [found] at found'
      cases found'
    | some phase =>
      have own := waits.2 phase (List.mem_of_getElem? found)
      rw [Interleaving.resuming_iff found, Program.step_resume found]
      cases phase with
      | create started drift rest => exact single_create_iff found one rfl
      | update started id drift rest =>
        refine iff_of_true (single_update found own one ?_) trivial
        change ((Phase.update started id drift rest).resume sha256 host server.shared).1 = _
        rw [Phase.resume, if_pos (any_of_waits own)]
      | resolve id =>
        refine iff_of_true (single_of_sublist found rfl one ?_) trivial
        change ((Phase.resolve id).resume sha256 host server.shared).1.unresolved.Sublist _
        rw [Phase.resume]
        split
        · exact unresolved_resolve server.shared id
        · exact List.Sublist.refl _
      | baselines started =>
        refine iff_of_true (single_of_sublist found rfl one ?_) trivial
        change ((Phase.baselines started).resume sha256 host server.shared).1.unresolved.Sublist _
        rw [Phase.resume]
        split <;> exact List.Sublist.refl _
      | find started drift rest =>
        refine iff_of_true (single_of_sublist found rfl one ?_) trivial
        change ((Phase.find started drift rest).resume sha256 host server.shared).1.unresolved.Sublist _
        rw [Phase.resume]
        split <;> exact List.Sublist.refl _
      | lastCheck => exact iff_of_true (single_of_sublist found rfl one (List.Sublist.refl _)) trivial
      | checkAudit => exact iff_of_true (single_of_sublist found rfl one (List.Sublist.refl _)) trivial
      | resolveAudit => exact iff_of_true (single_of_sublist found rfl one (List.Sublist.refl _)) trivial
      | finished => exact iff_of_true (single_of_sublist found rfl one (List.Sublist.refl _)) trivial

/-! ### Every run -/

/-- There is one unresolved row for a path and a change all the way, and every check that writes leaves one,
exactly where a row is created only when there is none. -/
theorem drift_rows_iff (sha256 : String → String) (table : Table) (one : table.unresolved.Nodup)
    (events : List (Event Request Host)) :
    (∀ before event after, events = before ++ event :: after →
      Single (run (program sha256).step ⟨table, []⟩ before) event
        (run (program sha256).step ⟨table, []⟩ (before ++ [event]))) ↔
      Along (program sha256).step (Resuming fun _ => Phase.Fresh) ⟨table, []⟩ events := by
  have exact_iff : ∀ (server : Server) event,
      server.shared.unresolved.Nodup ∧ Holds (fun _ => True) Waits server →
      (Single server event ((program sha256).step server event) ↔
        Resuming (fun _ => Phase.Fresh) server event) := fun _ event inv => single_iff inv.2 inv.1 event
  have kept : ∀ (server : Server) event,
      server.shared.unresolved.Nodup ∧ Holds (fun _ => True) Waits server →
      Single server event ((program sha256).step server event) →
      ((program sha256).step server event).shared.unresolved.Nodup ∧
        Holds (fun _ => True) Waits ((program sha256).step server event) := by
    intro server event inv single
    exact ⟨single.one, keeps.step (Interleaving.resuming_of_forall (fun _ _ _ => trivial) event) inv.2⟩
  refine Execution.each_iff_along exact_iff kept ⟨one, trivial, ?_⟩
  intro phase member
  cases member

/-- A host on which a file with a baseline has been removed. -/
def hostsGone : Host where
  baselines := .ofList [("/etc/hosts", "127.0.0.1 localhost")]
  files := fun _ => .missing
  now := 0

def noRows : Table := ⟨[], 0, []⟩

/-- A check, a resolve of the row that it made, and a check after that. -/
def oneAfterTheOther : List (Event Request Host) :=
  [.arrive .check, .resume 0 hostsGone, .resume 0 hostsGone, .resume 0 hostsGone,
    .arrive (.resolve 0), .resume 1 hostsGone,
    .arrive .check, .resume 2 hostsGone, .resume 2 hostsGone, .resume 2 hostsGone]

theorem drift_rows_oneAfterTheOther :
    Along (program id).step (Resuming fun _ => Phase.Fresh) ⟨noRows, []⟩ oneAfterTheOther ∧
      ∀ before event after, oneAfterTheOther = before ++ event :: after →
        Single (run (program id).step ⟨noRows, []⟩ before) event
          (run (program id).step ⟨noRows, []⟩ (before ++ [event])) := by
  have fresh : Along (program id).step (Resuming fun _ => Phase.Fresh) ⟨noRows, []⟩ oneAfterTheOther := by
    decide +kernel
  exact ⟨fresh, (drift_rows_iff id noRows List.nodup_nil oneAfterTheOther).mpr fresh⟩

/-- Two checks that look for a row before either of them has made one. -/
def bothAtOnce : List (Event Request Host) :=
  [.arrive .check, .arrive .check, .resume 0 hostsGone, .resume 1 hostsGone, .resume 0 hostsGone,
    .resume 1 hostsGone, .resume 0 hostsGone]

theorem drift_rows_bothAtOnce : ¬∀ (sha256 : String → String) (table : Table), table.unresolved.Nodup →
    ∀ events before event after, events = before ++ event :: after →
      Single (run (program sha256).step ⟨table, []⟩ before) event
        (run (program sha256).step ⟨table, []⟩ (before ++ [event])) := by
  intro all
  have single := all id noRows List.nodup_nil (bothAtOnce ++ [.resume 1 hostsGone]) bothAtOnce
    (.resume 1 hostsGone) [] rfl
  have one := single.one
  revert one
  decide +kernel

end SysDeck.Web.IntegrityRace
