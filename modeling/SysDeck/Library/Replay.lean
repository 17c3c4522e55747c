import Mathlib.Data.List.Nodup
import Mathlib.Data.List.TakeWhile

/-! Replaying a keyed log in pages. The log is appended to at keys above all it has given out and
loses rows anywhere; a reader asks for what lies past its cursor, a page at a time. -/

namespace Replay

variable {Row : Type*} (key : Row → Nat)

/-- The first rows past the cursor. -/
def page (limit : Nat) (rows : List Row) (cursor : Nat) : List Row :=
  (rows.filter fun row => cursor < key row).take limit

/-- The key of the page's last row, where it has one. -/
def lastKey (page : List Row) : Option Nat := page.getLast?.map key

/-- What a reader of the rows has received is in order, is not past its cursor, and leaves out no row
that still stands up to there. -/
structure Exact (rows received : List Row) (cursor : Nat) : Prop where
  ascending : received.Pairwise fun row later => key row < key later
  behind : ∀ row ∈ received, key row ≤ cursor
  complete : ∀ row ∈ rows, key row ≤ cursor → row ∈ received

variable {key} {rows received : List Row} {cursor limit : Nat}

theorem page_mem {row : Row} (member : row ∈ page key limit rows cursor) :
    row ∈ rows ∧ cursor < key row := by
  simpa using List.mem_of_mem_take member

theorem page_ascending (ordered : rows.Pairwise fun row later => key row < key later) :
    (page key limit rows cursor).Pairwise fun row later => key row < key later :=
  (ordered.filter _).sublist (List.take_sublist ..)

/-- Nothing up to the last row of a page is passed over. -/
theorem page_complete (ordered : rows.Pairwise fun row later => key row < key later) {last : Nat}
    (reached : lastKey key (page key limit rows cursor) = some last) {row : Row} (member : row ∈ rows)
    (past : cursor < key row) (upTo : key row ≤ last) : row ∈ page key limit rows cursor := by
  obtain ⟨final, found, rfl⟩ := Option.map_eq_some_iff.mp reached
  have own : final ∈ page key limit rows cursor := List.mem_of_getLast? found
  have whole : row ∈ rows.filter fun row => cursor < key row :=
    List.mem_filter.mpr ⟨member, decide_eq_true past⟩
  have apart := ordered.filter fun row => decide (cursor < key row)
  rw [← List.take_append_drop limit (rows.filter _), List.pairwise_append] at apart
  rw [← List.take_append_drop limit (rows.filter _)] at whole
  rcases List.mem_append.mp whole with taken | dropped
  · exact taken
  · exact absurd (apart.2.2 final own row dropped) (Nat.not_lt.mpr upTo)

/-- An empty page means that nothing lies past the cursor. -/
theorem page_empty (room : 0 < limit) (empty : page key limit rows cursor = []) {row : Row}
    (member : row ∈ rows) : key row ≤ cursor := by
  rcases List.take_eq_nil_iff.mp empty with zero | none
  · exact absurd zero (Nat.ne_of_gt room)
  · simpa using List.filter_eq_nil_iff.mp none row member

namespace Exact

theorem start (positive : ∀ row ∈ rows, 0 < key row) : Exact key rows [] 0 where
  ascending := .nil
  behind := by simp
  complete := fun row member zero => absurd (positive row member) (Nat.not_lt.mpr zero)

/-- The log may lose rows, and gain rows past every cursor. -/
theorem change (exact_ : Exact key rows received cursor) {rows' : List Row}
    (fresh : ∀ row ∈ rows', row ∈ rows ∨ cursor < key row) : Exact key rows' received cursor where
  ascending := exact_.ascending
  behind := exact_.behind
  complete := by
    intro row member upTo
    rcases fresh row member with old | new
    · exact exact_.complete row old upTo
    · exact absurd new (Nat.not_lt.mpr upTo)

/-- A page, after which the cursor stands at its last row or where it stood. -/
theorem read (exact_ : Exact key rows received cursor)
    (ordered : rows.Pairwise fun row later => key row < key later) :
    Exact key rows (received ++ page key limit rows cursor)
      ((lastKey key (page key limit rows cursor)).getD cursor) := by
  have sorted := @page_ascending _ key rows cursor limit ordered
  cases reached : lastKey key (page key limit rows cursor) with
  | none =>
    have empty : page key limit rows cursor = [] := by simpa [lastKey] using reached
    rw [empty, List.append_nil]
    exact exact_
  | some last =>
    have upTo : ∀ row ∈ page key limit rows cursor, key row ≤ last := by
      obtain ⟨final, found, rfl⟩ := Option.map_eq_some_iff.mp reached
      obtain ⟨before, split⟩ := List.getLast?_eq_some_iff.mp found
      intro row member
      rw [split] at member sorted
      rcases List.mem_append.mp member with earlier | own
      · exact Nat.le_of_lt ((List.pairwise_append.mp sorted).2.2 row earlier final (by simp))
      · rw [List.mem_singleton.mp own]
    have forward : cursor ≤ last := by
      obtain ⟨final, found, rfl⟩ := Option.map_eq_some_iff.mp reached
      exact Nat.le_of_lt (page_mem (List.mem_of_getLast? found)).2
    refine ⟨?_, ?_, ?_⟩
    · refine List.pairwise_append.mpr ⟨exact_.ascending, sorted, fun row old later new => ?_⟩
      exact Nat.lt_of_le_of_lt (exact_.behind row old) (page_mem new).2
    · intro row member
      rcases List.mem_append.mp member with old | new
      · exact (exact_.behind row old).trans forward
      · exact upTo row new
    · intro row member low
      rcases Nat.lt_or_ge cursor (key row) with past | before
      · exact List.mem_append_right _ (page_complete ordered reached member past low)
      · exact List.mem_append_left _ (exact_.complete row member before)

/-- Once nothing lies past the cursor, every row of the log has been received. -/
theorem drained (exact_ : Exact key rows received cursor) (room : 0 < limit)
    (empty : page key limit rows cursor = []) {row : Row} (member : row ∈ rows) : row ∈ received :=
  exact_.complete row member (page_empty room empty member)

theorem nodup (exact_ : Exact key rows received cursor) : (received.map key).Nodup := by
  rw [List.Nodup, List.pairwise_map]
  exact exact_.ascending.imp fun earlier => Nat.ne_of_lt earlier

end Exact

end Replay
