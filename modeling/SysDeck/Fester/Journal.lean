import SysDeck.Fester.Engine
import SysDeck.Fester.EventsTable
import SysDeck.Library.Execution

/-! The capped event journal. Every event on the bus starts a journal() call that
nothing awaits: it reads a counter, waits for its turn in the write chain and only
then writes the counter back. The calls and the chain are interleaved here. -/

namespace SysDeck.Fester

/-- The most events the journal keeps for a build. -/
def journalCap : Nat := 5000

/-- Where a journal() call is suspended, with the locals it still needs: the await
of an event without a build, of its own append, of the trim, of the cap note. -/
inductive JournalCall where
  | unfiled
  | append (buildId : String) (n : Nat)
  | trim (buildId : String)
  | note (buildId : String)
  deriving DecidableEq, Repr

def JournalCall.buildId : JournalCall → Option String
  | unfiled => none
  | append buildId _ | trim buildId | note buildId => some buildId

/-- The module state: the table, the write chain with the call that awaits each
statement, the calls whose statement has run, and the two maps. -/
structure Journal where
  table : EventsTable
  writes : List (EventWrite × JournalCall) := []
  settled : List JournalCall := []
  journalCounts : OrderedMap String Nat := OrderedMap.empty
  capNoted : List String := []

/-- Store.write, awaited by the call. -/
def Journal.write (state : Journal) (statement : EventWrite) (call : JournalCall) : Journal :=
  { state with writes := state.writes ++ [(statement, call)] }

/-- journal() up to its first await. -/
def journal (state : Journal) (event : FesterEvent) : Journal :=
  match truthy event.buildId with
  | none => state.write (.append event) .unfiled
  | some bid =>
    match state.journalCounts.find? bid with
    | some n => state.write (.append event) (.append bid n)
    | none =>
      let n := state.table.countEvents bid
      { state with journalCounts := state.journalCounts.set bid n }.write (.append event)
        (.append bid n)

def capNote (now : Nat) (bid : String) : FesterEvent :=
  { type := .debug, timestamp := now, buildId := some bid, state := some "journal-cap",
    reason := some ("journal capped at " ++ toString journalCap ++
      " events per build — oldest entries dropped"),
    metadata := [("cap", .number journalCap)] }

/-- journal() after an await, up to the next one. -/
def JournalCall.resume (now : Nat) (state : Journal) : JournalCall → Journal
  | unfiled => state
  | append bid n =>
    if journalCap < n + 1 then state.write (.trim bid (n + 1 - journalCap)) (.trim bid)
    else { state with journalCounts := state.journalCounts.set bid (n + 1) }
  | trim bid =>
    let state := { state with journalCounts := state.journalCounts.set bid journalCap }
    if bid ∈ state.capNoted then state
    else
      { state with capNoted := state.capNoted ++ [bid] }.write (.append (capNote now bid)) (.note bid)
  | note _ => state

/-- An event on the bus, the next statement of the write chain, or a call whose
statement has run going on. -/
inductive JournalLabel where
  | emit (event : FesterEvent)
  | flush
  | resume (now index : Nat)
  deriving DecidableEq, Repr

def Journal.step (state : Journal) : JournalLabel → Journal
  | .emit event => journal state event
  | .flush =>
    match state.writes with
    | [] => state
    | (statement, call) :: rest =>
      { state with
        table := statement.apply state.table, writes := rest, settled := state.settled ++ [call] }
  | .resume now index =>
    match state.settled[index]? with
    | none => state
    | some call => call.resume now { state with settled := state.settled.eraseIdx index }

/-- The journal of a process that finds this table. -/
def Journal.boot (table : EventsTable) : Journal := { table }

def Journal.after (table : EventsTable) (labels : List JournalLabel) : Journal :=
  Execution.run Journal.step (Journal.boot table) labels

/-- The journal() calls in flight. -/
def Journal.calls (state : Journal) : List JournalCall := state.writes.map (·.2) ++ state.settled

/-- No journal() call for the build is in flight. -/
def Journal.quiet (state : Journal) (buildId : String) : Prop :=
  ∀ call ∈ state.calls, call.buildId ≠ some buildId

namespace Journal

/-- The writes a build's calls wait for. -/
def pendingOf (state : Journal) (buildId : String) : List (EventWrite × JournalCall) :=
  state.writes.filter fun entry => entry.2.buildId = some buildId

/-- The calls of a build whose write has run. -/
def settledOf (state : Journal) (buildId : String) : List JournalCall :=
  state.settled.filter fun call => call.buildId = some buildId

theorem quiet_iff {state : Journal} {buildId : String} :
    state.quiet buildId ↔ state.pendingOf buildId = [] ∧ state.settledOf buildId = [] := by
  simp only [quiet, calls, pendingOf, settledOf, List.mem_append, List.mem_map,
    List.filter_eq_nil_iff, decide_eq_true_eq]
  constructor
  · intro none
    exact ⟨fun entry member => none entry.2 (.inl ⟨entry, member, rfl⟩),
      fun call member => none call (.inr member)⟩
  · rintro ⟨waiting, ready⟩ call (⟨entry, member, rfl⟩ | member)
    · exact waiting entry member
    · exact ready call member

/-- Every queued statement concerns the build of the call that awaits it, and no
call is for the empty build id. -/
structure Matched (state : Journal) : Prop where
  writes : ∀ entry ∈ state.writes, entry.1.buildId = entry.2.buildId
  named : ∀ call ∈ state.calls, call.buildId ≠ some ""

end Journal

/-- The stages of a build whose journal() calls never overlap, by its counter, its
queued write, its settled call, whether its cap was noted, and its rows. The note
is the one row the counter leaves out. -/
inductive Ledger (buildId : String) :
    Option Nat → List (EventWrite × JournalCall) → List JournalCall → Bool → Nat → Prop where
  | fresh (rows : Nat) : Ledger buildId none [] [] false rows
  | idle (n : Nat) (noted : Bool) (capped : n ≤ journalCap) :
      Ledger buildId (some n) [] [] noted (n + noted.toNat)
  | appending (event : FesterEvent) (own : truthy event.buildId = some buildId) (n : Nat)
      (noted : Bool) :
      Ledger buildId (some n) [(.append event, .append buildId n)] [] noted (n + noted.toNat)
  | appended (n : Nat) (noted : Bool) :
      Ledger buildId (some n) [] [.append buildId n] noted (n + 1 + noted.toNat)
  | trimming (n : Nat) (noted : Bool) (full : journalCap < n + 1) :
      Ledger buildId (some n) [(.trim buildId (n + 1 - journalCap), .trim buildId)] [] noted
        (n + 1 + noted.toNat)
  | trimmed (n : Nat) (noted : Bool) :
      Ledger buildId (some n) [] [.trim buildId] noted (journalCap + noted.toNat)
  | noting (event : FesterEvent) (own : truthy event.buildId = some buildId) :
      Ledger buildId (some journalCap) [(.append event, .note buildId)] [] true journalCap
  | noted : Ledger buildId (some journalCap) [] [.note buildId] true (journalCap + 1)

/-- The ledger of a build in a state of the journal. -/
def Journal.Balanced (state : Journal) (buildId : String) : Prop :=
  Ledger buildId (state.journalCounts.find? buildId) (state.pendingOf buildId)
    (state.settledOf buildId) (decide (buildId ∈ state.capNoted)) (state.table.countEvents buildId)

theorem Journal.Balanced.of_ledger {state : Journal} {buildId : String} {count : Option Nat}
    {pending : List (EventWrite × JournalCall)} {settled : List JournalCall} {noted : Bool}
    {rows : Nat} (ledger : Ledger buildId count pending settled noted rows)
    (counts : state.journalCounts.find? buildId = count)
    (writes : state.pendingOf buildId = pending) (ready : state.settledOf buildId = settled)
    (capNoted : decide (buildId ∈ state.capNoted) = noted)
    (table : state.table.countEvents buildId = rows) : state.Balanced buildId := by
  subst counts writes ready capNoted table
  exact ledger

theorem Journal.pendingOf_write_own {state : Journal} {statement : EventWrite}
    {call : JournalCall} {buildId : String} (own : call.buildId = some buildId) :
    (state.write statement call).pendingOf buildId =
      state.pendingOf buildId ++ [(statement, call)] := by
  simp [pendingOf, write, own]

theorem Journal.pendingOf_write_other {state : Journal} {statement : EventWrite}
    {call : JournalCall} {buildId : String} (other : call.buildId ≠ some buildId) :
    (state.write statement call).pendingOf buildId = state.pendingOf buildId := by
  simp [pendingOf, write, other]

/-- A call that starts alone appends from the counter, or from the rows. -/
theorem Ledger.start {buildId : String} {count : Option Nat} {noted : Bool} {rows : Nat}
    (ledger : Ledger buildId count [] [] noted rows) {event : FesterEvent}
    (own : truthy event.buildId = some buildId) :
    Ledger buildId (some (count.getD rows)) [(.append event, .append buildId (count.getD rows))] []
      noted rows := by
  cases ledger with
  | fresh => exact .appending event own rows false
  | idle n noted capped => exact .appending event own n noted

theorem Journal.Balanced.emit {state : Journal} {buildId : String}
    (balanced : state.Balanced buildId) {event : FesterEvent}
    (alone : truthy event.buildId = some buildId → state.quiet buildId) :
    (journal state event).Balanced buildId := by
  unfold journal
  cases filed : truthy event.buildId with
  | none => exact .of_ledger balanced rfl (Journal.pendingOf_write_other nofun) rfl rfl rfl
  | some bid =>
    by_cases own : bid = buildId
    · subst own
      obtain ⟨pending, settled⟩ := Journal.quiet_iff.mp (alone filed)
      unfold Journal.Balanced at balanced
      rw [pending, settled] at balanced
      have started := balanced.start filed
      dsimp only
      cases count : state.journalCounts.find? bid with
      | none =>
        rw [count] at started
        refine .of_ledger started (OrderedMap.find?_set_self ..) ?_ settled rfl rfl
        exact (Journal.pendingOf_write_own rfl).trans (congrArg (· ++ _) pending)
      | some n =>
        rw [count] at started
        refine .of_ledger started count ?_ settled rfl rfl
        exact (Journal.pendingOf_write_own rfl).trans (congrArg (· ++ _) pending)
    · have foreign : ∀ n, (JournalCall.append bid n).buildId ≠ some buildId :=
        fun _ same => own (Option.some.inj same)
      dsimp only
      cases state.journalCounts.find? bid with
      | none =>
        refine .of_ledger balanced (OrderedMap.find?_set_ne _ _ (Ne.symm own)) ?_ rfl rfl rfl
        exact Journal.pendingOf_write_other (foreign _)
      | some n => exact .of_ledger balanced rfl (Journal.pendingOf_write_other (foreign n)) rfl rfl rfl

/-- The write a build waits for runs. -/
theorem Ledger.run {buildId : String} {count : Option Nat} {entry : EventWrite × JournalCall}
    {rest : List (EventWrite × JournalCall)} {settled : List JournalCall} {noted : Bool}
    {table : EventsTable}
    (ledger : Ledger buildId count (entry :: rest) settled noted (table.countEvents buildId)) :
    Ledger buildId count rest (settled ++ [entry.2]) noted
      ((entry.1.apply table).countEvents buildId) := by
  generalize before : table.countEvents buildId = rows at ledger
  cases ledger with
  | appending event own n noted =>
    rw [EventWrite.apply, EventsTable.countEvents_append, before,
      if_pos (truthy_eq_some_iff.mp own).1, Nat.add_right_comm]
    exact .appended n noted
  | trimming n noted full =>
    rw [EventWrite.apply, EventsTable.countEvents_trim, before]
    have left : n + 1 + noted.toNat - (n + 1 - journalCap) = journalCap + noted.toNat := by omega
    rw [left]
    exact .trimmed n noted
  | noting event own =>
    rw [EventWrite.apply, EventsTable.countEvents_append, before,
      if_pos (truthy_eq_some_iff.mp own).1]
    exact .noted

theorem Journal.Balanced.flush {state : Journal} {buildId : String} (named : buildId ≠ "")
    (matched : state.Matched) (balanced : state.Balanced buildId) :
    (state.step .flush).Balanced buildId := by
  unfold Journal.step
  cases queue : state.writes with
  | nil => exact balanced
  | cons entry rest =>
    obtain ⟨statement, call⟩ := entry
    have agree : statement.buildId = call.buildId :=
      matched.writes (statement, call) (by simp [queue])
    unfold Journal.Balanced at balanced
    by_cases own : call.buildId = some buildId
    · have pending : state.pendingOf buildId = (statement, call) ::
          rest.filter fun entry => entry.2.buildId = some buildId := by
        rw [Journal.pendingOf, queue, List.filter_cons_of_pos (by simpa using own)]
      rw [pending] at balanced
      refine .of_ledger balanced.run rfl rfl ?_ rfl rfl
      simp [Journal.settledOf, own]
    · refine .of_ledger balanced rfl ?_ ?_ rfl ?_
      · rw [Journal.pendingOf, Journal.pendingOf, queue, List.filter_cons_of_neg (by simpa using own)]
      · simp [Journal.settledOf, own]
      · exact EventWrite.countEvents_apply_ne named (by rw [agree]; exact own) _

/-- A settled call of a build is its only call. -/
theorem Ledger.alone {buildId : String} {count : Option Nat}
    {pending : List (EventWrite × JournalCall)} {before after : List JournalCall}
    {call : JournalCall} {noted : Bool} {rows : Nat}
    (ledger : Ledger buildId count pending (before ++ call :: after) noted rows) :
    pending = [] ∧ before ++ after = [] ∧ Ledger buildId count [] [call] noted rows := by
  generalize list : before ++ call :: after = settled at ledger
  have single : ∀ other, settled = [other] → before = [] ∧ after = [] ∧ call = other := by
    intro other only
    rw [only] at list
    cases before with
    | nil =>
      obtain ⟨same, rest⟩ := List.cons.inj list
      exact ⟨rfl, rest, same⟩
    | cons head tail =>
      have length := congrArg List.length list
      simp at length
  cases ledger with
  | fresh | idle | appending | trimming | noting => simp at list
  | appended n noted =>
    obtain ⟨rfl, rfl, rfl⟩ := single _ rfl
    exact ⟨rfl, rfl, .appended n noted⟩
  | trimmed n noted =>
    obtain ⟨rfl, rfl, rfl⟩ := single _ rfl
    exact ⟨rfl, rfl, .trimmed n noted⟩
  | noted =>
    obtain ⟨rfl, rfl, rfl⟩ := single _ rfl
    exact ⟨rfl, rfl, .noted⟩

theorem JournalCall.resume_foreign {call : JournalCall} {state : Journal} {buildId : String}
    (foreign : call.buildId ≠ some buildId) (now : Nat) (balanced : state.Balanced buildId) :
    (call.resume now state).Balanced buildId := by
  cases call with
  | unfiled | note => exact balanced
  | append bid n =>
    have differ : buildId ≠ bid := fun same => foreign (congrArg some same.symm)
    rw [JournalCall.resume]
    split
    · exact .of_ledger balanced rfl (Journal.pendingOf_write_other foreign) rfl rfl rfl
    · exact .of_ledger balanced (OrderedMap.find?_set_ne _ _ differ) rfl rfl rfl rfl
  | trim bid =>
    have differ : buildId ≠ bid := fun same => foreign (congrArg some same.symm)
    rw [JournalCall.resume]
    dsimp only
    split
    · exact .of_ledger balanced (OrderedMap.find?_set_ne _ _ differ) rfl rfl rfl rfl
    · refine .of_ledger balanced (OrderedMap.find?_set_ne _ _ differ) ?_ rfl ?_ rfl
      · exact Journal.pendingOf_write_other foreign
      · simp [Journal.write, differ]

theorem JournalCall.resume_own {call : JournalCall} {state : Journal} {buildId : String}
    (named : buildId ≠ "") (own : call.buildId = some buildId) (now : Nat)
    (pending : state.pendingOf buildId = []) (settled : state.settledOf buildId = [])
    (ledger : Ledger buildId (state.journalCounts.find? buildId) [] [call]
      (decide (buildId ∈ state.capNoted)) (state.table.countEvents buildId)) :
    (call.resume now state).Balanced buildId := by
  generalize count : state.journalCounts.find? buildId = stored at ledger
  generalize listed : decide (buildId ∈ state.capNoted) = noted at ledger
  generalize total : state.table.countEvents buildId = rows at ledger
  cases ledger with
  | appended n noted =>
    rw [JournalCall.resume]
    split
    · rename_i full
      refine .of_ledger (.trimming n noted full) count ?_ settled listed total
      exact (Journal.pendingOf_write_own rfl).trans (congrArg (· ++ _) pending)
    · rename_i room
      exact .of_ledger (.idle (n + 1) noted (Nat.le_of_not_lt room)) (OrderedMap.find?_set_self ..)
        pending settled listed total
  | trimmed n noted =>
    rw [JournalCall.resume]
    dsimp only
    split
    · exact .of_ledger (.idle journalCap noted (Nat.le_refl _)) (OrderedMap.find?_set_self ..)
        pending settled listed total
    · rename_i unlisted
      obtain rfl : noted = false := listed ▸ decide_eq_false unlisted
      have filed : truthy (capNote now buildId).buildId = some buildId :=
        truthy_eq_some_iff.mpr ⟨rfl, named⟩
      refine .of_ledger (.noting (capNote now buildId) filed) (OrderedMap.find?_set_self ..) ?_
        settled ?_ total
      · exact (Journal.pendingOf_write_own rfl).trans (congrArg (· ++ _) pending)
      · simp [Journal.write]
  | noted =>
    exact .of_ledger (.idle journalCap true (Nat.le_refl _)) count pending settled listed total

theorem Journal.Balanced.resume {state : Journal} {buildId : String} (named : buildId ≠ "")
    (balanced : state.Balanced buildId) (now index : Nat) :
    (state.step (.resume now index)).Balanced buildId := by
  rw [Journal.step]
  cases found : state.settled[index]? with
  | none => exact balanced
  | some call =>
    obtain ⟨bound, here⟩ := List.getElem?_eq_some_iff.mp found
    have split : state.settled = state.settled.take index ++ call :: state.settled.drop (index + 1) := by
      rw [← here, List.getElem_cons_drop, List.take_append_drop]
    by_cases own : call.buildId = some buildId
    · have ledger := balanced
      unfold Journal.Balanced at ledger
      rw [Journal.settledOf, split, List.filter_append, List.filter_cons_of_pos (by simpa using own)]
        at ledger
      obtain ⟨pending, rest, ledger⟩ := ledger.alone
      refine JournalCall.resume_own named own now pending ?_ (pending ▸ ledger)
      rw [Journal.settledOf, List.eraseIdx_eq_take_drop_succ, List.filter_append]
      exact rest
    · refine JournalCall.resume_foreign own now (.of_ledger balanced rfl rfl ?_ rfl rfl)
      rw [Journal.settledOf, Journal.settledOf, List.eraseIdx_eq_take_drop_succ, List.filter_append]
      conv_rhs => rw [split]
      rw [List.filter_append, List.filter_cons_of_neg (by simpa using own)]

/-- What journal() does before its first await. -/
theorem journal_eq (state : Journal) (event : FesterEvent) :
    ∃ counts call, journal state event =
        { state with
          journalCounts := counts, writes := state.writes ++ [(.append event, call)] } ∧
      call.buildId = truthy event.buildId ∧
      (∀ buildId, (state.journalCounts.find? buildId).isSome = true ∨ call.buildId = some buildId →
        (counts.find? buildId).isSome = true) ∧
      ∀ bid, truthy event.buildId = some bid →
        call = .append bid ((state.journalCounts.find? bid).getD (state.table.countEvents bid)) := by
  unfold journal
  cases filed : truthy event.buildId with
  | none => exact ⟨_, _, rfl, rfl, fun _ known => known.resolve_right nofun, nofun⟩
  | some bid =>
    dsimp only
    cases count : state.journalCounts.find? bid with
    | none =>
      refine ⟨_, _, rfl, rfl, ?_, ?_⟩
      · intro buildId known
        rw [OrderedMap.find?_set]
        split
        · rfl
        · rename_i differ
          exact known.resolve_right fun same => differ (Option.some.inj same).symm
      · rintro other ⟨⟩
        rw [count]
        rfl
    | some n =>
      refine ⟨_, _, rfl, rfl, ?_, ?_⟩
      · rintro buildId (known | own)
        · exact known
        · obtain rfl := Option.some.inj own
          rw [count]
          rfl
      · rintro other ⟨⟩
        rw [count]
        rfl

theorem Journal.mem_calls {state : Journal} {call : JournalCall} :
    call ∈ state.calls ↔ call ∈ state.writes.map (·.2) ∨ call ∈ state.settled :=
  List.mem_append

theorem Journal.calls_flush (state : Journal) (call : JournalCall) :
    call ∈ (state.step .flush).calls ↔ call ∈ state.calls := by
  unfold Journal.step
  cases queue : state.writes with
  | nil => rfl
  | cons entry rest =>
    simp only [Journal.mem_calls, queue, List.map_cons, List.mem_cons, List.mem_append,
      List.not_mem_nil, or_false]
    tauto

/-- A call that goes on leaves, or queues one more write of its build. -/
theorem JournalCall.resume_eq (now : Nat) (state : Journal) (call : JournalCall) :
    ∃ counts noted more, call.resume now state =
        { state with journalCounts := counts, capNoted := noted, writes := state.writes ++ more } ∧
      (∀ entry ∈ more, entry.2.buildId = call.buildId ∧
        (call.buildId ≠ some "" → entry.1.buildId = entry.2.buildId)) ∧
      ∀ buildId, (state.journalCounts.find? buildId).isSome = true →
        (counts.find? buildId).isSome = true := by
  have grows : ∀ bid n buildId, (state.journalCounts.find? buildId).isSome = true →
      ((state.journalCounts.set bid n).find? buildId).isSome = true := by
    intro bid n buildId known
    rw [OrderedMap.find?_set]
    split
    · rfl
    · exact known
  cases call with
  | unfiled | note =>
    refine ⟨state.journalCounts, state.capNoted, [], ?_, List.forall_mem_nil _, fun _ known => known⟩
    rw [List.append_nil]
    rfl
  | append bid n =>
    rw [JournalCall.resume]
    split
    · refine ⟨_, _, _, rfl, ?_, fun _ known => known⟩
      intro entry member
      rw [List.mem_singleton.mp member]
      exact ⟨rfl, fun _ => rfl⟩
    · refine ⟨state.journalCounts.set bid (n + 1), state.capNoted, [], ?_, List.forall_mem_nil _, grows bid _⟩
      rw [List.append_nil]
  | trim bid =>
    rw [JournalCall.resume]
    dsimp only
    split
    · refine ⟨state.journalCounts.set bid journalCap, state.capNoted, [], ?_, List.forall_mem_nil _, grows bid _⟩
      rw [List.append_nil]
    · refine ⟨state.journalCounts.set bid journalCap, _, _, rfl, ?_, grows bid _⟩
      intro entry member
      rw [List.mem_singleton.mp member]
      refine ⟨rfl, fun named => truthy_eq_some_iff.mpr ⟨rfl, ?_⟩⟩
      exact fun empty => named (congrArg some empty)

theorem Journal.Matched.step {state : Journal} (matched : state.Matched) (label : JournalLabel) :
    (state.step label).Matched := by
  cases label with
  | emit event =>
    obtain ⟨counts, call, same, owner, _, _⟩ := journal_eq state event
    rw [Journal.step, same]
    constructor
    · intro entry member
      rcases List.mem_append.mp member with old | new
      · exact matched.writes entry old
      · rw [List.mem_singleton.mp new]
        exact owner.symm
    · intro other member
      rcases Journal.mem_calls.mp member with queued | settled
      · rw [List.map_append, List.mem_append] at queued
        rcases queued with old | new
        · exact matched.named other (Journal.mem_calls.mpr (.inl old))
        · rw [List.mem_singleton.mp new]
          intro empty
          exact (truthy_eq_some_iff.mp (owner.symm.trans empty)).2 rfl
      · exact matched.named other (Journal.mem_calls.mpr (.inr settled))
  | flush =>
    constructor
    · intro entry member
      unfold Journal.step at member
      cases queue : state.writes with
      | nil =>
        rw [queue] at member
        exact matched.writes entry member
      | cons head rest =>
        rw [queue] at member
        exact matched.writes entry (by rw [queue]; exact List.mem_cons_of_mem head member)
    · intro call member
      exact matched.named call ((Journal.calls_flush state call).mp member)
  | resume now index =>
    rw [Journal.step]
    cases found : state.settled[index]? with
    | none => exact matched
    | some call =>
      obtain ⟨counts, noted, more, same, queued, _⟩ := JournalCall.resume_eq now
        { state with settled := state.settled.eraseIdx index } call
      have named : call.buildId ≠ some "" :=
        matched.named call (Journal.mem_calls.mpr (.inr (List.mem_of_getElem? found)))
      dsimp only
      rw [same]
      constructor
      · intro entry member
        rcases List.mem_append.mp member with old | new
        · exact matched.writes entry old
        · exact (queued entry new).2 named
      · intro other member
        rcases Journal.mem_calls.mp member with waiting | settled
        · rw [List.map_append, List.mem_append] at waiting
          rcases waiting with old | new
          · exact matched.named other (Journal.mem_calls.mpr (.inl old))
          · obtain ⟨entry, added, rfl⟩ := List.mem_map.mp new
            rw [(queued entry added).1]
            exact named
        · exact matched.named other (Journal.mem_calls.mpr (.inr (List.mem_of_mem_eraseIdx settled)))

namespace Journal

/-- A journal() call starts only when no other one for its build is in flight. -/
def Alone (state : Journal) : JournalLabel → Prop
  | .emit event => ∀ bid, truthy event.buildId = some bid → state.quiet bid
  | .flush | .resume .. => True

/-- The row count the counter stands for stays below the cap when a call starts. -/
def Roomy (state : Journal) : JournalLabel → Prop
  | .emit event => ∀ bid, truthy event.buildId = some bid →
      (state.journalCounts.find? bid).getD (state.table.countEvents bid) < journalCap
  | .flush | .resume .. => True

/-- journalCounts holds the number of the build's rows, at most the cap and its note. -/
def Tallied (state : Journal) (buildId : String) : Prop :=
  state.journalCounts.find? buildId = some (state.table.countEvents buildId) ∧
    state.table.countEvents buildId ≤ journalCap + 1

instance (state : Journal) (buildId : String) : Decidable (state.quiet buildId) :=
  inferInstanceAs (Decidable (∀ _ ∈ _, _))

instance (state : Journal) (buildId : String) : Decidable (state.Tallied buildId) :=
  inferInstanceAs (Decidable (_ ∧ _))

/-- The invariant of runs whose calls of one build never overlap. -/
structure Sound (state : Journal) : Prop where
  matched : state.Matched
  balanced : ∀ buildId, buildId ≠ "" → state.Balanced buildId

theorem sound_boot (table : EventsTable) : (boot table).Sound where
  matched := ⟨List.forall_mem_nil _, List.forall_mem_nil _⟩
  balanced := fun _ _ => .fresh _

theorem Sound.step {state : Journal} {label : JournalLabel} (alone : state.Alone label)
    (sound : state.Sound) : (state.step label).Sound where
  matched := sound.matched.step label
  balanced := by
    intro buildId named
    have balanced := sound.balanced buildId named
    cases label with
    | emit event => exact balanced.emit (alone buildId)
    | flush => exact balanced.flush named sound.matched
    | resume now index => exact balanced.resume named now index

theorem sound_after {table : EventsTable} {labels : List JournalLabel}
    (alone : Execution.Along step Alone (boot table) labels) : (after table labels).Sound :=
  Execution.invariant_along (fun _ _ allowed sound => sound.step allowed) (sound_boot table) alone

/-- The cap was never passed: every call in flight will fit below it. -/
structure Below (state : Journal) : Prop where
  unnoted : state.capNoted = []
  fits : ∀ call ∈ state.calls, call = .unfiled ∨ ∃ bid n, call = .append bid n ∧ n < journalCap

theorem Below.step {state : Journal} {label : JournalLabel} (roomy : state.Roomy label)
    (below : state.Below) : (state.step label).Below := by
  obtain ⟨unnoted, fits⟩ := below
  cases label with
  | emit event =>
    obtain ⟨counts, call, same, owner, _, started⟩ := journal_eq state event
    rw [Journal.step, same]
    refine ⟨unnoted, ?_⟩
    intro other member
    rcases mem_calls.mp member with queued | settled
    · rw [List.map_append, List.mem_append] at queued
      rcases queued with old | new
      · exact fits other (mem_calls.mpr (.inl old))
      · rw [List.mem_singleton.mp new]
        cases filed : truthy event.buildId with
        | none =>
          rw [filed] at owner
          cases call with
          | unfiled => exact .inl rfl
          | append | trim | note => cases owner
        | some bid => exact .inr ⟨bid, _, started bid filed, roomy bid filed⟩
    · exact fits other (mem_calls.mpr (.inr settled))
  | flush =>
    refine ⟨?_, fun call member => fits call ((calls_flush state call).mp member)⟩
    unfold Journal.step
    cases state.writes <;> exact unnoted
  | resume now index =>
    rw [Journal.step]
    cases found : state.settled[index]? with
    | none => exact ⟨unnoted, fits⟩
    | some call =>
      have others : ∀ other, other ∈ state.writes.map (·.2) ++ state.settled.eraseIdx index →
          other = .unfiled ∨ ∃ bid n, other = .append bid n ∧ n < journalCap := by
        intro other member
        rcases List.mem_append.mp member with queued | settled
        · exact fits other (mem_calls.mpr (.inl queued))
        · exact fits other (mem_calls.mpr (.inr (List.mem_of_mem_eraseIdx settled)))
      rcases fits call (mem_calls.mpr (.inr (List.mem_of_getElem? found))) with
        rfl | ⟨bid, n, rfl, room⟩
      · exact ⟨unnoted, others⟩
      · dsimp only [JournalCall.resume]
        rw [if_neg (Nat.not_lt.mpr room)]
        exact ⟨unnoted, others⟩

theorem below_after {table : EventsTable} {labels : List JournalLabel}
    (roomy : Execution.Along step Roomy (boot table) labels) : (after table labels).Below :=
  Execution.invariant_along (fun _ _ allowed below => below.step allowed)
    ⟨rfl, List.forall_mem_nil _⟩ roomy

/-- A counter, once read, is never lost. -/
theorem counted_step {state : Journal} {buildId : String}
    (counted : (state.journalCounts.find? buildId).isSome = true) (label : JournalLabel) :
    ((state.step label).journalCounts.find? buildId).isSome = true := by
  cases label with
  | emit event =>
    obtain ⟨counts, call, same, _, kept, _⟩ := journal_eq state event
    rw [Journal.step, same]
    exact kept buildId (.inl counted)
  | flush =>
    unfold Journal.step
    cases state.writes <;> exact counted
  | resume now index =>
    rw [Journal.step]
    cases state.settled[index]? with
    | none => exact counted
    | some call =>
      obtain ⟨counts, noted, more, same, _, kept⟩ := JournalCall.resume_eq now
        { state with settled := state.settled.eraseIdx index } call
      dsimp only
      rw [same]
      exact kept buildId counted

/-- Every build with an event on the bus has a counter. -/
theorem counted_after (table : EventsTable) (labels : List JournalLabel) {event : FesterEvent}
    {buildId : String} (emitted : .emit event ∈ labels)
    (filed : truthy event.buildId = some buildId) :
    ((after table labels).journalCounts.find? buildId).isSome = true := by
  refine Execution.reached
    (motive := fun labels (state : Journal) => .emit event ∈ labels →
      (state.journalCounts.find? buildId).isSome = true) nofun ?_ labels emitted
  intro before label counted member
  rcases List.mem_append.mp member with earlier | last
  · exact counted_step (counted earlier) label
  · rw [← List.mem_singleton.mp last, Journal.step]
    obtain ⟨counts, call, same, owner, kept, _⟩ := journal_eq
      (Execution.run Journal.step (boot table) before) event
    rw [same]
    exact kept buildId (.inr (owner.trans filed))

/-- In runs whose calls of one build never overlap the counter leaves out the cap
note alone, and it never passes the cap. -/
theorem tally_after {table : EventsTable} {labels : List JournalLabel}
    (alone : Execution.Along step Alone (boot table) labels) {event : FesterEvent}
    {buildId : String} (emitted : .emit event ∈ labels)
    (filed : truthy event.buildId = some buildId) (quiet : (after table labels).quiet buildId) :
    ∃ n, (after table labels).journalCounts.find? buildId = some n ∧ n ≤ journalCap ∧
      (after table labels).table.countEvents buildId =
        n + if buildId ∈ (after table labels).capNoted then 1 else 0 := by
  obtain ⟨n, count⟩ := Option.isSome_iff_exists.mp (counted_after table labels emitted filed)
  have balanced := (sound_after alone).balanced buildId (truthy_eq_some_iff.mp filed).2
  obtain ⟨pending, settled⟩ := quiet_iff.mp quiet
  unfold Balanced at balanced
  rw [count, pending, settled] at balanced
  generalize listed : decide (buildId ∈ (after table labels).capNoted) = noted at balanced
  generalize total : (after table labels).table.countEvents buildId = rows at balanced ⊢
  cases balanced with
  | idle _ _ capped =>
    refine ⟨n, count, capped, ?_⟩
    rw [← listed]
    split <;> rename_i known <;> simp [known]

/-- Without overlap the counter is exact as long as the cap was not noted. -/
theorem tallied_iff {table : EventsTable} {labels : List JournalLabel}
    (alone : Execution.Along step Alone (boot table) labels) {event : FesterEvent}
    {buildId : String} (emitted : .emit event ∈ labels)
    (filed : truthy event.buildId = some buildId) (quiet : (after table labels).quiet buildId) :
    (after table labels).Tallied buildId ↔ buildId ∉ (after table labels).capNoted := by
  obtain ⟨n, count, capped, rows⟩ := tally_after alone emitted filed quiet
  rw [Tallied, count, rows]
  by_cases noted : buildId ∈ (after table labels).capNoted
  · simp [noted]
  · simp only [noted, if_false, Nat.add_zero, true_and, not_false_eq_true, iff_true]
    exact Nat.le_succ_of_le capped

end Journal

/-- In every run in which a journal() call starts only when no other one for its
build is in flight and its build is below the cap, the counter of a build with no
call in flight is the number of its rows. -/
theorem journal_counts (table : EventsTable) (labels : List JournalLabel)
    (alone : Execution.Along Journal.step Journal.Alone (Journal.boot table) labels)
    (roomy : Execution.Along Journal.step Journal.Roomy (Journal.boot table) labels)
    {event : FesterEvent} {buildId : String} (emitted : .emit event ∈ labels)
    (filed : truthy event.buildId = some buildId)
    (quiet : (Journal.after table labels).quiet buildId) :
    (Journal.after table labels).Tallied buildId := by
  rw [Journal.tallied_iff alone emitted filed quiet, (Journal.below_after roomy).unnoted]
  exact List.not_mem_nil

/-- The two events startBuild emits in one go. -/
def announced : List FesterEvent := (newRun 0 "nginx" ["main"] {}).events

/-- Journaled one after the other. -/
def announcedApart : List JournalLabel :=
  announced.flatMap fun event => [.emit event, .flush, .resume 0 0]

theorem journal_counts_apart :
    (Journal.after .empty announcedApart).journalCounts.find? "nginx-0" = some 2 ∧
      (Journal.after .empty announcedApart).table.countEvents "nginx-0" = 2 := by
  have alone : Execution.Along Journal.step Journal.Alone (Journal.boot .empty) announcedApart := by
    refine ⟨?_, trivial, trivial, ?_, trivial, trivial, trivial⟩
    all_goals
      rintro bid ⟨⟩
      decide
  have roomy : Execution.Along Journal.step Journal.Roomy (Journal.boot .empty) announcedApart := by
    refine ⟨?_, trivial, trivial, ?_, trivial, trivial, trivial⟩
    all_goals
      rintro bid ⟨⟩
      decide
  obtain ⟨event, member, filed⟩ :
      ∃ event ∈ announced, truthy event.buildId = some "nginx-0" := by
    decide
  have emitted : .emit event ∈ announcedApart :=
    List.mem_flatMap.mpr ⟨event, member, List.mem_cons_self⟩
  have rows : (Journal.after .empty announcedApart).table.countEvents "nginx-0" = 2 := by decide
  obtain ⟨count, _⟩ := journal_counts .empty announcedApart alone roomy emitted filed (by decide)
  exact ⟨rows ▸ count, rows⟩

/-- Emitted in one go, as startBuild does, both calls read the same counter. -/
theorem journal_counts_overlap :
    let state := Journal.after .empty
      (announced.map .emit ++ [.flush, .resume 0 0, .flush, .resume 0 0])
    state.calls = [] ∧ ¬ state.Tallied "nginx-0" := by
  decide

end SysDeck.Fester
