import SysDeck.Library.OrderedMap

/-! The builds table and the single promise chain that serializes its writes. -/

namespace SysDeck.Fester

inductive BuildState where
  | queued | running | succeeded | failed | cancelled
  deriving DecidableEq, Repr

def BuildState.text : BuildState → String
  | queued => "queued"
  | running => "running"
  | succeeded => "succeeded"
  | failed => "failed"
  | cancelled => "cancelled"

/-- A row of `builds`; `none` is SQL NULL. -/
structure BuildRow where
  buildId : String
  project : String
  targets : List String
  state : BuildState := .queued
  startedAt : Nat
  finishedAt : Option Nat := none
  actionsTotal : Nat := 0
  actionsDone : Nat := 0
  actionsFailed : Nat := 0
  cacheHits : Nat := 0
  criticalPathMs : Option Int := none
  rc : Option Nat := none
  deriving DecidableEq, Repr

/-- The columns one `updateBuild` call sets; `none` leaves a column alone. -/
structure BuildFields where
  state : Option BuildState := none
  finishedAt : Option Nat := none
  actionsTotal : Option Nat := none
  actionsDone : Option Nat := none
  actionsFailed : Option Nat := none
  cacheHits : Option Nat := none
  criticalPathMs : Option Int := none
  rc : Option Nat := none
  deriving DecidableEq, Repr

def BuildFields.apply (fields : BuildFields) (row : BuildRow) : BuildRow :=
  { row with
    state := fields.state.getD row.state
    finishedAt := fields.finishedAt.or row.finishedAt
    actionsTotal := fields.actionsTotal.getD row.actionsTotal
    actionsDone := fields.actionsDone.getD row.actionsDone
    actionsFailed := fields.actionsFailed.getD row.actionsFailed
    cacheHits := fields.cacheHits.getD row.cacheHits
    criticalPathMs := fields.criticalPathMs.or row.criticalPathMs
    rc := fields.rc.or row.rc }

/-- A statement waiting in the write chain. -/
inductive BuildWrite where
  | insertOrReplace (row : BuildRow)
  | update (buildId : String) (fields : BuildFields)
  deriving DecidableEq, Repr

abbrev BuildsTable := OrderedMap String BuildRow

def BuildWrite.apply (table : BuildsTable) : BuildWrite → BuildsTable
  | insertOrReplace row => table.set row.buildId row
  | update buildId fields => table.modify buildId fields.apply

structure Store where
  builds : BuildsTable
  queue : List BuildWrite

def Store.empty : Store := ⟨OrderedMap.empty, []⟩

/-- Store.write: append a statement to the chain. -/
def Store.write (store : Store) (statement : BuildWrite) : Store :=
  { store with queue := store.queue ++ [statement] }

def Store.createBuild (store : Store) (buildId project : String) (targets : List String)
    (startedAt : Nat) : Store :=
  store.write (.insertOrReplace { buildId, project, targets, startedAt })

def Store.updateBuild (store : Store) (buildId : String) (fields : BuildFields) : Store :=
  store.write (.update buildId fields)

/-- The chain runs its oldest statement. -/
def Store.flush (store : Store) : Store :=
  match store.queue with
  | [] => store
  | statement :: rest => ⟨statement.apply store.builds, rest⟩

/-- The table once every queued statement has run. -/
def Store.settled (store : Store) : BuildsTable := store.queue.foldl BuildWrite.apply store.builds

@[simp] theorem Store.settled_write (store : Store) (statement : BuildWrite) :
    (store.write statement).settled = statement.apply store.settled := by
  simp [settled, write, List.foldl_append]

/-- An update shows in its row, and in no other. -/
theorem Store.find?_updateBuild {store : Store} {buildId : String} {row : BuildRow}
    (found : store.settled.find? buildId = some row) (fields : BuildFields) :
    (store.updateBuild buildId fields).settled.find? buildId = some (fields.apply row) := by
  rw [updateBuild, settled_write, BuildWrite.apply, OrderedMap.find?_modify_self, found]
  rfl

theorem Store.find?_updateBuild_ne (store : Store) {buildId other : String} (fields : BuildFields)
    (differ : other ≠ buildId) :
    (store.updateBuild buildId fields).settled.find? other = store.settled.find? other := by
  rw [updateBuild, settled_write]
  exact OrderedMap.find?_modify_ne _ _ differ

theorem Store.find?_createBuild (store : Store) (buildId project : String) (targets : List String)
    (startedAt : Nat) : (store.createBuild buildId project targets startedAt).settled.find? buildId =
      some { buildId, project, targets, startedAt } := by
  rw [createBuild, settled_write]
  exact OrderedMap.find?_set_self ..

theorem Store.find?_createBuild_ne (store : Store) {buildId other : String} (project : String)
    (targets : List String) (startedAt : Nat) (differ : other ≠ buildId) :
    (store.createBuild buildId project targets startedAt).settled.find? other =
      store.settled.find? other := by
  rw [createBuild, settled_write]
  exact OrderedMap.find?_set_ne _ _ differ

@[simp] theorem Store.settled_flush (store : Store) : store.flush.settled = store.settled := by
  obtain ⟨builds, queue⟩ := store
  cases queue <;> rfl

end SysDeck.Fester
