import Mathlib.Data.List.Nodup
import SysDeck.Fester.Events

/-! The events table: rows in the order of their AUTOINCREMENT ids, and the two
statements that write to it. -/

namespace SysDeck.Fester

/-- A row of `events`; its columns other than the id are those of the event. -/
structure EventRow where
  id : Nat
  event : FesterEvent
  deriving DecidableEq, Repr

/-- The table with the last id it has given out. -/
structure EventsTable where
  rows : List EventRow
  sequence : Nat
  ordered : rows.Pairwise fun row later => row.id < later.id
  bounded : ∀ row ∈ rows, row.id ≤ sequence

namespace EventsTable

def empty : EventsTable := ⟨[], 0, .nil, by simp⟩

/-- The rows of a build, `WHERE build_id = ? ORDER BY id`. -/
def ofBuild (table : EventsTable) (buildId : String) : List EventRow :=
  table.rows.filter fun row => row.event.buildId = some buildId

def countEvents (table : EventsTable) (buildId : String) : Nat := (table.ofBuild buildId).length

/-- `INSERT INTO events`. -/
def append (table : EventsTable) (event : FesterEvent) : EventsTable where
  rows := table.rows ++ [⟨table.sequence + 1, event⟩]
  sequence := table.sequence + 1
  ordered := by
    refine List.pairwise_append.mpr ⟨table.ordered, List.pairwise_singleton .., ?_⟩
    intro row member last final
    rw [List.mem_singleton.mp final]
    exact Nat.lt_succ_of_le (table.bounded row member)
  bounded := by
    intro row member
    rcases List.mem_append.mp member with old | new
    · exact Nat.le_succ_of_le (table.bounded row old)
    · obtain rfl := List.mem_singleton.mp new
      exact Nat.le_refl _

/-- The ids `SELECT id … ORDER BY id ASC LIMIT k` picks. -/
def oldest (table : EventsTable) (buildId : String) (k : Nat) : List Nat :=
  ((table.ofBuild buildId).take k).map (·.id)

/-- `DELETE FROM events WHERE id IN (…)`. -/
def trim (table : EventsTable) (buildId : String) (k : Nat) : EventsTable where
  rows := table.rows.filter fun row => row.id ∉ table.oldest buildId k
  sequence := table.sequence
  ordered := table.ordered.filter _
  bounded := fun row member => table.bounded row (List.mem_of_mem_filter member)

theorem countEvents_append (table : EventsTable) (event : FesterEvent) (buildId : String) :
    (table.append event).countEvents buildId =
      table.countEvents buildId + if event.buildId = some buildId then 1 else 0 := by
  unfold countEvents ofBuild append
  rw [List.filter_append, List.length_append]
  by_cases own : event.buildId = some buildId
  · simp [own]
  · simp [own]

theorem id_inj {table : EventsTable} {row other : EventRow} (member : row ∈ table.rows)
    (member' : other ∈ table.rows) (same : row.id = other.id) : row = other := by
  have distinct : (table.rows.map (·.id)).Nodup := by
    rw [List.Nodup, List.pairwise_map]
    exact table.ordered.imp fun earlier => Nat.ne_of_lt earlier
  exact List.inj_on_of_nodup_map distinct member member' same

/-- Trimming drops the oldest rows of its build, as many as there are. -/
theorem countEvents_trim (table : EventsTable) (buildId : String) (k : Nat) :
    (table.trim buildId k).countEvents buildId = table.countEvents buildId - k := by
  have own : ∀ row ∈ table.ofBuild buildId, row ∈ table.rows :=
    fun row member => List.mem_of_mem_filter member
  have kept : (table.trim buildId k).ofBuild buildId = (table.ofBuild buildId).drop k := by
    rw [ofBuild, trim, List.filter_comm, ← ofBuild]
    have distinct : (table.ofBuild buildId).Pairwise fun row later => row.id < later.id :=
      table.ordered.filter _
    rw [← List.take_append_drop k (table.ofBuild buildId), List.pairwise_append] at distinct
    conv_lhs => rw [← List.take_append_drop k (table.ofBuild buildId)]
    rw [List.filter_append, List.filter_eq_nil_iff.mpr, List.nil_append, List.filter_eq_self.mpr]
    · intro row member
      refine decide_eq_true fun victim => ?_
      obtain ⟨earlier, before, same⟩ := List.mem_map.mp victim
      exact Nat.ne_of_lt (distinct.2.2 earlier before row member) same
    · intro row member
      have picked : row.id ∈ table.oldest buildId k := List.mem_map.mpr ⟨row, member, rfl⟩
      simpa using picked
  rw [countEvents, kept, List.length_drop]
  rfl

theorem countEvents_trim_ne (table : EventsTable) {buildId other : String} (k : Nat)
    (differ : other ≠ buildId) :
    (table.trim buildId k).countEvents other = table.countEvents other := by
  have kept : (table.trim buildId k).ofBuild other = table.ofBuild other := by
    rw [ofBuild, trim, List.filter_comm, ← ofBuild]
    apply List.filter_eq_self.mpr
    intro row member
    refine decide_eq_true fun victim => ?_
    obtain ⟨picked, taken, same⟩ := List.mem_map.mp victim
    have mine := List.mem_filter.mp (List.mem_of_mem_take taken)
    have here := List.mem_filter.mp member
    rw [id_inj mine.1 here.1 same] at mine
    have both := (of_decide_eq_true here.2).symm.trans (of_decide_eq_true mine.2)
    exact differ (Option.some.inj both)
  rw [countEvents, kept]
  rfl

end EventsTable

/-- A statement on the events table waiting in the write chain. -/
inductive EventWrite where
  | append (event : FesterEvent)
  | trim (buildId : String) (k : Nat)
  deriving DecidableEq, Repr

def EventWrite.apply (table : EventsTable) : EventWrite → EventsTable
  | append event => table.append event
  | trim buildId k => table.trim buildId k

/-- The build whose rows a statement can change. -/
def EventWrite.buildId : EventWrite → Option String
  | append event => truthy event.buildId
  | trim buildId _ => some buildId

theorem EventWrite.countEvents_apply_ne {statement : EventWrite} {buildId : String}
    (named : buildId ≠ "") (foreign : statement.buildId ≠ some buildId) (table : EventsTable) :
    (statement.apply table).countEvents buildId = table.countEvents buildId := by
  cases statement with
  | append event =>
    have other : event.buildId ≠ some buildId := fun same =>
      foreign (truthy_eq_some_iff.mpr ⟨same, named⟩)
    rw [EventWrite.apply, EventsTable.countEvents_append, if_neg other, Nat.add_zero]
  | trim trimmed k =>
    exact EventsTable.countEvents_trim_ne table k fun same => foreign (congrArg some same.symm)

end SysDeck.Fester
