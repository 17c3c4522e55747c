import SysDeck.Fester.Journal
import SysDeck.Library.Replay

/-! The timeline route and a client that follows it by its cursor, while the journal goes on. -/

namespace SysDeck.Fester

namespace EventsTable

/-- The rows a timeline is about: those of a build, or all; the empty id is no build. -/
def scope (table : EventsTable) (buildId : Option String) : List EventRow :=
  match truthy buildId with
  | some buildId => table.ofBuild buildId
  | none => table.rows

/-- The first rows of a build, or the last ones of the table. -/
def listEvents (table : EventsTable) (buildId : Option String) (limit : Nat) : List EventRow :=
  match truthy buildId with
  | some buildId => (table.ofBuild buildId).take limit
  | none => (table.rows.reverse.take limit).reverse

/-- `WHERE id > ? ORDER BY id LIMIT ?`. -/
def listEventsAfter (table : EventsTable) (buildId : Option String) (after limit : Nat) :
    List EventRow :=
  Replay.page EventRow.id limit (table.scope buildId) after

end EventsTable

/-- The `after` of a request: absent, or the integer it is, if it is one. -/
inductive AfterParameter where
  | absent
  | given (value : Option Int)

inductive TimelineResponse where
  | invalid (error : String)
  | latest (events : List EventRow)
  | replay (buildId : Option String) (after : Nat) (events : List EventRow) (nextCursor : Option Nat)

def replayLimit : Nat := 5000

/-- `GET /api/timeline/:buildId`, and without one. -/
def timeline (table : EventsTable) (buildId : Option String) : AfterParameter → TimelineResponse
  | .absent => .latest (table.listEvents buildId 1000)
  | .given (some (.ofNat after)) =>
    let events := table.listEventsAfter buildId after replayLimit
    .replay buildId after events (Replay.lastKey EventRow.id events)
  | .given _ => .invalid "after must be a non-negative integer event id"

/-- The service's table, and a client with its cursor and what it has received. -/
structure Following where
  table : EventsTable
  after : Nat := 0
  received : List EventRow := []

inductive FollowLabel where
  | write (statement : EventWrite)
  | poll

/-- A request of the client, which keeps its cursor where the response has none. -/
def Following.poll (buildId : Option String) (state : Following) : Following :=
  match timeline state.table buildId (.given (some state.after)) with
  | .replay _ _ events nextCursor =>
    { state with after := nextCursor.getD state.after, received := state.received ++ events }
  | _ => state

def Following.step (buildId : Option String) (state : Following) : FollowLabel → Following
  | .write statement => { state with table := statement.apply state.table }
  | .poll => state.poll buildId

def Following.boot : Following := { table := .empty }

def Following.run (buildId : Option String) (labels : List FollowLabel) : Following :=
  Execution.run (Following.step buildId) Following.boot labels

theorem EventsTable.scope_ordered (table : EventsTable) (buildId : Option String) :
    (table.scope buildId).Pairwise fun row later => row.id < later.id := by
  unfold scope
  split
  · exact table.ordered.filter _
  · exact table.ordered

theorem EventsTable.mem_rows {table : EventsTable} {buildId : Option String} {row : EventRow}
    (member : row ∈ table.scope buildId) : row ∈ table.rows := by
  unfold scope at member
  split at member
  · exact List.mem_of_mem_filter member
  · exact member

/-- A statement leaves the rows it does not remove, and gives a new one the next id. -/
theorem EventWrite.fresh {statement : EventWrite} {table : EventsTable} {buildId : Option String}
    {row : EventRow} (member : row ∈ (statement.apply table).scope buildId) :
    row ∈ table.scope buildId ∨ table.sequence < row.id := by
  cases statement with
  | append event =>
    rcases List.mem_append.mp (EventsTable.mem_rows member) with old | new
    · left
      unfold EventsTable.scope at member ⊢
      split at member
      · exact List.mem_filter.mpr ⟨old, (List.mem_filter.mp member).2⟩
      · exact old
    · right
      rw [List.mem_singleton.mp new]
      exact Nat.lt_succ_self _
  | trim trimmed k =>
    left
    have old : row ∈ table.rows := List.mem_of_mem_filter (EventsTable.mem_rows member)
    unfold EventsTable.scope at member ⊢
    split at member
    · exact List.mem_filter.mpr ⟨old, (List.mem_filter.mp member).2⟩
    · exact old

theorem EventWrite.sequence_le (statement : EventWrite) (table : EventsTable) :
    table.sequence ≤ (statement.apply table).sequence := by
  cases statement with
  | append event => exact Nat.le_succ _
  | trim trimmed k => exact Nat.le_refl _

namespace Following

/-- The client has replayed the table up to its cursor, which is an id given out. -/
structure Sound (buildId : Option String) (state : Following) : Prop where
  exact_ : Replay.Exact EventRow.id (state.table.scope buildId) state.received state.after
  issued : state.after ≤ state.table.sequence

/-- The page that the next request returns. -/
def next (buildId : Option String) (state : Following) : List EventRow :=
  state.table.listEventsAfter buildId state.after replayLimit

theorem poll_eq (buildId : Option String) (state : Following) :
    state.poll buildId =
      { state with
        after := (Replay.lastKey EventRow.id (state.next buildId)).getD state.after
        received := state.received ++ state.next buildId } := rfl

theorem Sound.step {buildId : Option String} {state : Following} (sound : state.Sound buildId)
    (label : FollowLabel) : (state.step buildId label).Sound buildId := by
  cases label with
  | write statement =>
    refine ⟨sound.exact_.change fun row member => ?_,
      sound.issued.trans (statement.sequence_le state.table)⟩
    exact (EventWrite.fresh member).imp_right (Nat.lt_of_le_of_lt sound.issued)
  | poll =>
    rw [Following.step, poll_eq]
    refine ⟨sound.exact_.read (state.table.scope_ordered buildId), ?_⟩
    cases reached : Replay.lastKey EventRow.id (state.next buildId) with
    | none => exact sound.issued
    | some last =>
      obtain ⟨final, found, rfl⟩ := Option.map_eq_some_iff.mp reached
      have own := Replay.page_mem (List.mem_of_getLast? found)
      exact state.table.bounded final (EventsTable.mem_rows own.1)

theorem sound_run (buildId : Option String) (labels : List FollowLabel) :
    (run buildId labels).Sound buildId := by
  have initial : (boot.table.scope buildId) = [] := by
    unfold EventsTable.scope
    split <;> rfl
  have start : Following.Sound buildId boot := by
    refine ⟨?_, Nat.le_refl _⟩
    rw [initial]
    exact Replay.Exact.start (List.forall_mem_nil _)
  exact Execution.invariant start (fun state label sound => sound.step label) labels

/-- What has been received stays received. -/
theorem received_prefix (buildId : Option String) (state : Following) (labels : List FollowLabel) :
    state.received <+: (Execution.run (step buildId) state labels).received := by
  induction labels generalizing state with
  | nil => exact List.prefix_refl _
  | cons label rest ih =>
    refine List.IsPrefix.trans ?_ (ih (state.step buildId label))
    cases label with
    | write statement => exact List.prefix_refl _
    | poll => exact List.prefix_append ..

end Following

/-- Whatever is appended and trimmed between the requests, the client receives the events in the
order of their ids and none twice, and an empty list tells it that it has all that were stored and
not trimmed before. -/
theorem timeline_exact (buildId : Option String) (labels : List FollowLabel) :
    (Following.run buildId labels).received.Pairwise (fun event later => event.id < later.id) ∧
      ((Following.run buildId labels).received.map EventRow.id).Nodup ∧
      ∀ before after, labels = before ++ .poll :: after →
        (Following.run buildId before).next buildId = [] →
        ∀ row ∈ (Following.run buildId before).table.scope buildId,
          row ∈ (Following.run buildId labels).received := by
  have sound := (Following.sound_run buildId labels).exact_
  refine ⟨sound.ascending, sound.nodup, ?_⟩
  intro before after split empty row member
  have received := (Following.sound_run buildId before).exact_.drained (by decide) empty member
  rw [split, Following.run, Execution.run_append]
  exact (Following.received_prefix buildId _ _).subset received

/-- The second event is trimmed before it is asked for; the id of the first is not used again. -/
example :
    let event : FesterEvent := { type := .debug, timestamp := 0, buildId := some "nginx-0" }
    let labels : List FollowLabel := [.write (.append event), .poll, .write (.append event),
      .write (.trim "nginx-0" 2), .write (.append event), .poll, .poll]
    (Following.run (some "nginx-0") labels).received.map (·.id) = [1, 3] := by
  decide

/-! ### Under the journal -/

/-- A step of the journal, or a request of the client. -/
inductive JournalFollowLabel where
  | journal (label : JournalLabel)
  | poll

/-- The journal at work, and the client on its table. -/
structure JournalFollowing where
  journal : Journal
  client : Following

def JournalFollowing.step (buildId : Option String) (state : JournalFollowing) :
    JournalFollowLabel → JournalFollowing
  | .journal label =>
    let journal := state.journal.step label
    { journal, client := { state.client with table := journal.table } }
  | .poll => { state with client := state.client.poll buildId }

def JournalFollowing.boot : JournalFollowing := ⟨Journal.boot .empty, Following.boot⟩

/-- Only the write chain writes to the table. -/
theorem Journal.table_step (state : Journal) (label : JournalLabel) :
    (state.step label).table = state.table ∨
      ∃ statement : EventWrite, (state.step label).table = statement.apply state.table := by
  cases label with
  | emit event =>
    obtain ⟨counts, call, same, _⟩ := journal_eq state event
    left
    rw [Journal.step, same]
  | flush =>
    unfold Journal.step
    cases state.writes with
    | nil => exact .inl rfl
    | cons entry rest => exact .inr ⟨entry.1, rfl⟩
  | resume now index =>
    left
    rw [Journal.step]
    cases state.settled[index]? with
    | none => rfl
    | some call =>
      obtain ⟨counts, noted, more, same, _⟩ := JournalCall.resume_eq now
        { state with settled := state.settled.eraseIdx index } call
      dsimp only
      rw [same]

def JournalFollowing.Refines (buildId : Option String) (state : JournalFollowing) : Prop :=
  state.client.table = state.journal.table ∧
    ∃ writes, Following.run buildId writes = state.client

/-- The client of a journal sees a run of appends and trims between its requests. -/
theorem JournalFollowing.refines (buildId : Option String) (labels : List JournalFollowLabel) :
    (Execution.run (JournalFollowing.step buildId) JournalFollowing.boot labels).Refines buildId := by
  refine Execution.invariant (motive := Refines buildId) ⟨rfl, [], rfl⟩ ?_ labels
  · intro state label ⟨same, writes, reached⟩
    cases label with
    | poll =>
      refine ⟨same, writes ++ [.poll], ?_⟩
      rw [Following.run, Execution.run_append, ← Following.run, reached]
      rfl
    | journal label =>
      refine ⟨rfl, ?_⟩
      rcases state.journal.table_step label with still | ⟨statement, wrote⟩
      · refine ⟨writes, ?_⟩
        rw [reached, JournalFollowing.step, still, ← same]
      · refine ⟨writes ++ [.write statement], ?_⟩
        rw [Following.run, Execution.run_append, ← Following.run, reached,
          JournalFollowing.step, wrote, ← same]
        rfl

/-- So it has replayed the table of the journal up to its cursor. -/
theorem JournalFollowing.replayed (buildId : Option String) (labels : List JournalFollowLabel) :
    let state := Execution.run (JournalFollowing.step buildId) JournalFollowing.boot labels
    Replay.Exact EventRow.id (state.journal.table.scope buildId) state.client.received
      state.client.after := by
  obtain ⟨same, writes, reached⟩ := JournalFollowing.refines buildId labels
  dsimp only
  rw [← same, ← reached]
  exact (Following.sound_run buildId writes).exact_

end SysDeck.Fester
