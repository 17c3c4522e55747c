import SysDeck.Library.Execution
import SysDeck.Web.DumpPipe

/-! Backups of the databases: the calls of `backup`, the processes that they start and the files that these
write, in any order of events. -/

namespace SysDeck.Web.Backups

open DumpPipe (Bytes Event Pipe)
open Execution (Along run)

/-! ### Engines and tools -/

inductive Engine where
  | postgres
  | mariadb
  | mysql
  | redis
  deriving DecidableEq

inductive Tool where
  | pgDump
  | mariadbDump
  | mysqldump
  deriving DecidableEq

def Tool.cmd : Tool → List Char
  | .pgDump => "pg_dump".toList
  | .mariadbDump => "mariadb-dump".toList
  | .mysqldump => "mysqldump".toList

structure EngineDef where
  id : List Char
  engine : Engine
  deriving DecidableEq

def ENGINES : List EngineDef :=
  [⟨"postgresql".toList, .postgres⟩, ⟨"mariadb".toList, .mariadb⟩, ⟨"mysql".toList, .mysql⟩,
    ⟨"redis".toList, .redis⟩]

/-- The tool that dumps the databases of an engine. -/
def Engine.tool : Engine → Option Tool
  | .postgres => some .pgDump
  | .mariadb => some .mariadbDump
  | .mysql => some .mysqldump
  | .redis => none

/-- The tool that `backup` takes. -/
def dumpTool (installed : Tool → Bool) (engine : Engine) : Except String Tool :=
  if engine = .postgres then
    if installed .pgDump then .ok .pgDump
    else .error "pg_dump not installed — install postgresql-client to dump this engine"
  else if installed .mariadbDump then .ok .mariadbDump
  else if installed .mysqldump then .ok .mysqldump
  else .error "mariadb-dump/mysqldump not installed — install the client package to dump this engine"

/-! ### Paths -/

/-- `toISOString().replace(/[:T]/g, '-').slice(0, 19)` -/
def stamp (now : List Char) : List Char := (now.map fun c => if c = ':' ∨ c = 'T' then '-' else c).take 19

def backupPath (id now : List Char) : List Char :=
  "/var/backups/".toList ++ (id ++ '-' :: (stamp now ++ ".sql.gz".toList))

/-- The path of a copy of the state store. -/
def copyPath (now : List Char) : List Char :=
  "/var/backups/".toList ++ ("sysdeck-state-".toList ++ (stamp now ++ ".db".toList))

/-! ### States -/

inductive Answer where
  | ok (path : List Char)
  | fail (error : List Char)
  | thrown

/-- A call of `backup` that has come to `dumpToGzip`, with its two processes. -/
structure Call where
  engine : EngineDef
  path : List Char
  tool : Tool
  spawned : Bool
  pipe : Pipe
  /-- What the dump tool has put out, and its end. -/
  output : Bytes
  dumped : Option (Option ℤ)
  /-- What gzip has written to the file, and its end. -/
  produced : Bytes
  zipped : Option (Option ℤ)
  answered : Option Answer

structure State where
  files : List Char → Bytes
  calls : List Call
  /-- The paths that have been answered. -/
  acknowledged : List (List Char)

/-- A write to a descriptor at its offset. -/
def writeAt (content : Bytes) (offset : ℕ) (bytes : Bytes) : Bytes :=
  content.take offset ++ List.replicate (offset - content.length) 0 ++ bytes ++
    content.drop (offset + bytes.length)

def State.put (state : State) (path : List Char) (content : Bytes) : State :=
  { state with files := fun other => if other = path then content else state.files other }

def State.update (state : State) (k : ℕ) (call : Call) : State := { state with calls := state.calls.set k call }

/-! ### Steps -/

inductive Step where
  /-- `backup` of an engine: the text of the clock, what `which` finds, and the error where the file does not
  open. -/
  | backup (id now : List Char) (installed : Tool → Bool) (refused : Option (List Char))
  | event (k : ℕ) (event : Event)
  /-- The gzip of a call writes to its file. -/
  | write (k : ℕ) (bytes : Bytes)
  /-- `backup` goes on after `dumpToGzip`; the record and the size of the file may fail. -/
  | answer (k : ℕ) (recorded : Bool)
  /-- `backup` of the state store: what was copied, if it could be. -/
  | copy (now : List Char) (content : Option Bytes) (recorded : Bool)

/-- What an event leaves of the two processes. -/
def Call.after (call : Call) : Event → Call
  | .dumpOutput chunk => { call with output := call.output ++ chunk }
  | .dumpClose rc => { call with dumped := some rc }
  | .gzipClose rc => { call with zipped := some rc }
  | _ => call

/-- The events that can come: none of a process that has ended, and gzip ends well only after the end of its
input, with the compressed image of it written. -/
def Call.CanHave (gzip : Bytes → Bytes) (call : Call) : Event → Prop
  | .dumpOutput _ => call.dumped = none
  | .dumpStderr _ => call.dumped = none
  | .dumpError => call.dumped = none
  | .dumpClose _ => call.dumped = none
  | .gzipError => call.zipped = none
  | .gzipClose rc =>
    call.zipped = none ∧ (rc = some 0 → call.pipe.ended = true ∧ call.produced = gzip call.pipe.written)
  | .timeout => True

instance (gzip : Bytes → Bytes) (call : Call) : ∀ event, Decidable (call.CanHave gzip event)
  | .dumpOutput _ => inferInstanceAs (Decidable (call.dumped = none))
  | .dumpStderr _ => inferInstanceAs (Decidable (call.dumped = none))
  | .dumpError => inferInstanceAs (Decidable (call.dumped = none))
  | .dumpClose _ => inferInstanceAs (Decidable (call.dumped = none))
  | .gzipError => inferInstanceAs (Decidable (call.zipped = none))
  | .gzipClose rc => inferInstanceAs (Decidable (call.zipped = none ∧
      (rc = some 0 → call.pipe.ended = true ∧ call.produced = gzip call.pipe.written)))
  | .timeout => inferInstanceAs (Decidable True)

def firstLine (text : List Char) : List Char := ((Text.trim text).splitOn '\n').headD []

/-- What is answered of how `dumpToGzip` settled. -/
def Call.answer (call : Call) (rc : ℤ) (stderr : List Char) (recorded : Bool) : Answer :=
  if recorded = false then .thrown
  else if rc ≠ 0 then .fail (call.tool.cmd ++ " failed — ".toList ++ firstLine stderr)
  else .ok call.path

/-- What `backup` starts when it has come to `dumpToGzip`. -/
def Call.start (engine : EngineDef) (path : List Char) (tool : Tool) (refused : Option (List Char)) : Call where
  engine
  path
  tool
  spawned := refused.isNone
  pipe := match refused with
    | none => .spawned
    | some error => .unopened ("cannot create ".toList ++ (path ++ (" — ".toList ++ error)))
  output := []
  dumped := none
  produced := []
  zipped := none
  answered := none

def State.begin (state : State) (call : Call) : State :=
  let opened := if call.spawned then state.put call.path [] else state
  { opened with calls := opened.calls ++ [call] }

def State.acknowledge (state : State) (path : List Char) : State :=
  { state with acknowledged := state.acknowledged ++ [path] }

def step (gzip : Bytes → Bytes) (state : State) : Step → State
  | .backup id now installed refused =>
    match ENGINES.find? (·.id = id) with
    | none => state
    | some engine =>
      match dumpTool installed engine.engine with
      | .error _ => state
      | .ok tool => state.begin (Call.start engine (backupPath engine.id now) tool refused)
  | .event k event =>
    match state.calls[k]? with
    | none => state
    | some call =>
      if call.spawned = true ∧ call.CanHave gzip event then
        state.update k { call.after event with pipe := call.pipe.handle event }
      else state
  | .write k bytes =>
    match state.calls[k]? with
    | none => state
    | some call =>
      if call.spawned = true ∧ call.zipped = none then
        (state.put call.path (writeAt (state.files call.path) call.produced.length bytes)).update k
          { call with produced := call.produced ++ bytes }
      else state
  | .answer k recorded =>
    match state.calls[k]? with
    | none => state
    | some call =>
      match call.answered, call.pipe.settled with
      | none, (rc, stderr) :: _ =>
        let answer := call.answer rc stderr recorded
        let told := state.update k { call with answered := some answer }
        match answer with
        | .ok path => told.acknowledge path
        | _ => told
      | _, _ => state
  | .copy now content recorded =>
    match content with
    | none => state
    | some content =>
      let copied := state.put (copyPath now) content
      if recorded then copied.acknowledge (copyPath now) else copied

def initial (files : List Char → Bytes) : State := ⟨files, [], []⟩

/-! ### What is to hold -/

def Call.Acknowledged (call : Call) : Prop := call.answered = some (.ok call.path)

/-- The dump tool of the engine has succeeded, and the file has the compressed image of all it put out. -/
structure Sound (gzip : Bytes → Bytes) (state : State) (call : Call) : Prop where
  own : call.engine.engine.tool = some call.tool
  succeeded : call.dumped = some (some 0)
  file : state.files call.path = gzip call.output

/-- `dumpToGzip` settles at most once, and the timer settles what nothing else has. -/
def SettlesOnce (state : State) : Prop :=
  ∀ call ∈ state.calls, call.pipe.settled.length ≤ 1 ∧
    (call.pipe.settled = [] → call.pipe.armed = true) ∧ (call.pipe.handle .timeout).settled.length = 1

structure Right (gzip : Bytes → Bytes) (state : State) : Prop where
  sound : ∀ call ∈ state.calls, call.Acknowledged → Sound gzip state call
  once : SettlesOnce state
  distinct : state.acknowledged.Nodup

/-! ### When it holds -/

/-- The tool that `backup` takes, if it takes any, is the engine's own. -/
def Suits (installed : Tool → Bool) : Engine → Prop
  | .postgres => True
  | .mariadb => installed .mariadbDump = true ∨ installed .mysqldump = false
  | .mysql => installed .mariadbDump = false
  | .redis => installed .mariadbDump = false ∧ installed .mysqldump = false

/-- It has failed, and its gzip does not run. -/
def Call.Over (call : Call) : Prop :=
  call.spawned = false ∨ (¬call.Acknowledged ∧ call.answered ≠ none ∧ call.zipped ≠ none)

/-- A backup takes the engine's own tool, and each earlier call of its path has failed and ended. -/
def Allowed (state : State) : Step → Prop
  | .backup id now installed refused =>
    ∀ engine, ENGINES.find? (·.id = id) = some engine → refused = none →
      Suits installed engine.engine ∧ ∀ call ∈ state.calls, call.path = backupPath engine.id now → call.Over
  | .copy now content recorded => content ≠ none → recorded = true → copyPath now ∉ state.acknowledged
  | _ => True

/-! ### Paths -/

/-- Two names in one directory that differ in their first two characters. -/
theorem start_of_path {directory name name' rest rest' : List Char} (long : 2 ≤ name.length)
    (long' : 2 ≤ name'.length) (same : directory ++ (name ++ rest) = directory ++ (name' ++ rest')) :
    name.take 2 = name'.take 2 := by
  have start := congrArg (List.take 2) (List.append_cancel_left same)
  rwa [List.take_append_of_le_length long, List.take_append_of_le_length long'] at start

theorem long_id {engine : EngineDef} (member : engine ∈ ENGINES) : 2 ≤ engine.id.length := by
  have all : ∀ engine ∈ ENGINES, 2 ≤ engine.id.length := by decide
  exact all engine member

/-- The path of a copy is that of no backup of an engine. -/
theorem copyPath_ne {engine : EngineDef} (member : engine ∈ ENGINES) (now now' : List Char) :
    copyPath now ≠ backupPath engine.id now' := by
  have other : ∀ engine ∈ ENGINES, "sysdeck-state-".toList.take 2 ≠ engine.id.take 2 := by decide
  exact fun same => other engine member (start_of_path (by decide) (long_id member) same)

/-- Two backups have one path only when they are of one engine and of one second. -/
theorem backupPath_inj {engine engine' : EngineDef} (member : engine ∈ ENGINES) (member' : engine' ∈ ENGINES)
    {now now' : List Char} (same : backupPath engine.id now = backupPath engine'.id now') :
    engine = engine' ∧ stamp now = stamp now' := by
  have all : ∀ engine ∈ ENGINES, ∀ engine' ∈ ENGINES, engine.id.take 2 = engine'.id.take 2 → engine = engine' := by
    decide
  obtain rfl := all engine member engine' member' (start_of_path (long_id member) (long_id member') same)
  have tails : engine.id ++ '-' :: (stamp now ++ ".sql.gz".toList) =
      engine.id ++ '-' :: (stamp now' ++ ".sql.gz".toList) := List.append_cancel_left same
  exact ⟨rfl, List.append_cancel_right (List.cons.inj (List.append_cancel_left tails)).2⟩

theorem suits_iff (installed : Tool → Bool) (engine : Engine) :
    Suits installed engine ↔ ∀ tool, dumpTool installed engine = .ok tool → engine.tool = some tool := by
  cases engine <;> cases first : installed .mariadbDump <;> cases second : installed .mysqldump <;>
    cases third : installed .pgDump <;> simp [Suits, dumpTool, Engine.tool, first, second, third]

/-! ### One call -/

/-- What stays of a call and its processes. -/
structure Call.Kept (gzip : Bytes → Bytes) (call : Call) : Prop where
  listener : call.pipe.listener = call.dumped
  ended : call.pipe.ended = true → call.pipe.done = true ∨ call.dumped ≠ none
  written : call.pipe.done = false → call.pipe.written = call.output
  succeeded : ∀ stderr, (0, stderr) ∈ call.pipe.settled → call.spawned = true ∧ call.dumped = some (some 0) ∧
    call.zipped ≠ none ∧ call.produced = gzip call.output
  acknowledged : call.Acknowledged → ∃ stderr, (0, stderr) ∈ call.pipe.settled
  own : call.spawned = true → call.engine.engine.tool = some call.tool

variable {gzip : Bytes → Bytes}

/-- A call that settles otherwise than well. -/
theorem Call.Kept.finish {call : Call} (kept : call.Kept gzip) {pipe : Pipe}
    (listener : pipe.listener = call.pipe.listener) (settled : pipe.settled = call.pipe.settled) {rc : ℤ}
    (failed : rc ≠ 0) : Call.Kept gzip { call with pipe := pipe.finish rc } := by
  have done := pipe.done_finish rc
  refine ⟨(pipe.listener_finish rc).trans (listener.trans kept.listener), fun _ => .inl done,
    fun running => ?_, fun stderr member => ?_, fun acknowledged => ?_, kept.own⟩
  · rw [show (pipe.finish rc).done = true from done] at running
    cases running
  · apply kept.succeeded stderr
    rw [← settled]
    rcases pipe.settled_finish rc with same | more
    · exact same ▸ member
    · rw [more] at member
      rcases List.mem_append.mp member with before | last
      · exact before
      · exact absurd (Prod.mk.inj (List.mem_singleton.mp last)).1.symm failed
  · obtain ⟨stderr, member⟩ := kept.acknowledged acknowledged
    rw [← settled] at member
    refine ⟨stderr, ?_⟩
    rcases pipe.settled_finish rc with same | more
    · exact same.symm ▸ member
    · exact more.symm ▸ List.mem_append_left _ member

theorem Call.Kept.event {call : Call} (kept : call.Kept gzip) {event : Event} (can : call.CanHave gzip event)
    (spawned : call.spawned = true) :
    Call.Kept gzip { call.after event with pipe := call.pipe.handle event } := by
  cases event with
  | dumpOutput chunk =>
    have running : call.dumped = none := can
    have unsettled (stderr : List Char) : (0, stderr) ∉ call.pipe.settled := by
      intro member
      have succeeded := (kept.succeeded stderr member).2.1
      rw [running] at succeeded
      cases succeeded
    have open_ : call.pipe.done = false → call.pipe.ended = false := by
      intro unfinished
      rw [Bool.eq_false_iff]
      intro ended
      rcases kept.ended ended with done | dumped
      · rw [unfinished] at done
        cases done
      · exact dumped running
    rw [Pipe.handle]
    split
    · next ended =>
      refine ⟨kept.listener, kept.ended, fun unfinished => ?_, fun stderr member => absurd member (unsettled stderr),
        kept.acknowledged, kept.own⟩
      rw [open_ unfinished] at ended
      cases ended
    · refine ⟨kept.listener, kept.ended, fun unfinished => ?_, fun stderr member => absurd member (unsettled stderr),
        kept.acknowledged, kept.own⟩
      exact congrArg (· ++ chunk) (kept.written unfinished)
  | dumpStderr text => exact ⟨kept.listener, kept.ended, kept.written, kept.succeeded, kept.acknowledged, kept.own⟩
  | dumpError =>
    have failed : (127 : ℤ) ≠ 0 := by decide
    exact @Call.Kept.finish _ _ kept { call.pipe with ended := true } rfl rfl _ failed
  | dumpClose rc =>
    have running : call.dumped = none := can
    refine ⟨rfl, fun _ => .inr (Option.some_ne_none rc), kept.written, ?_, kept.acknowledged, kept.own⟩
    intro stderr member
    have succeeded := (kept.succeeded stderr member).2.1
    rw [running] at succeeded
    cases succeeded
  | gzipError => exact kept.finish rfl rfl (by decide)
  | gzipClose grc =>
    obtain ⟨running, image⟩ := can
    have unsettled (stderr : List Char) : (0, stderr) ∉ call.pipe.settled :=
      fun member => (kept.succeeded stderr member).2.2.1 running
    rw [Pipe.handle]
    split
    · exact ⟨kept.listener, kept.ended, kept.written, fun stderr member => absurd member (unsettled stderr),
        kept.acknowledged, kept.own⟩
    · next rc listens =>
      rw [Pipe.finish]
      split
      · exact ⟨kept.listener, kept.ended, kept.written, fun stderr member => absurd member (unsettled stderr),
          kept.acknowledged, kept.own⟩
      · next unfinished =>
        refine ⟨kept.listener, fun _ => .inl rfl, fun running => (by cases running), ?_, ?_, kept.own⟩
        · intro stderr member
          rcases List.mem_append.mp member with before | last
          · exact absurd before (unsettled stderr)
          · have zero := (Prod.mk.inj (List.mem_singleton.mp last)).1
            obtain ⟨rfl, rfl⟩ := DumpPipe.bothCodes_eq_zero zero.symm
            refine ⟨spawned, kept.listener.symm.trans listens, Option.some_ne_none _, ?_⟩
            exact (image rfl).2.trans (congrArg gzip (kept.written (Bool.eq_false_iff.mpr unfinished)))
        · intro acknowledged
          obtain ⟨stderr, member⟩ := kept.acknowledged acknowledged
          exact ⟨stderr, List.mem_append_left _ member⟩
  | timeout =>
    rw [Pipe.handle]
    split
    · exact kept.finish rfl rfl (by decide)
    · exact kept

/-! ### All calls -/

theorem Call.over_of_settled {call : Call} (kept : call.Kept gzip) (acknowledged : call.Acknowledged) :
    ¬call.Over := by
  obtain ⟨stderr, member⟩ := kept.acknowledged acknowledged
  rintro (unspawned | ⟨failed, -, -⟩)
  · rw [(kept.succeeded stderr member).1] at unspawned
    cases unspawned
  · exact failed acknowledged

/-- What stays of a state: a call that is not over has the file of its path to itself. -/
structure State.Kept (gzip : Bytes → Bytes) (state : State) : Prop where
  calls : ∀ call ∈ state.calls, call.Kept gzip
  files : ∀ call ∈ state.calls, ¬call.Over → state.files call.path = call.produced
  alone : ∀ (i j : ℕ) (first second : Call), state.calls[i]? = some first → state.calls[j]? = some second → ¬first.Over →
    ¬second.Over → first.path = second.path → i = j
  paths : ∀ call ∈ state.calls, ∃ engine ∈ ENGINES, ∃ now, call.path = backupPath engine.id now
  distinct : state.acknowledged.Nodup
  acknowledged : ∀ path ∈ state.acknowledged,
    (∃ call ∈ state.calls, call.Acknowledged ∧ call.path = path) ∨ ∃ now, path = copyPath now

theorem State.Kept.sound {state : State} (kept : state.Kept gzip) :
    ∀ call ∈ state.calls, call.Acknowledged → Sound gzip state call := by
  intro call member acknowledged
  have callKept := kept.calls call member
  obtain ⟨stderr, settled⟩ := callKept.acknowledged acknowledged
  obtain ⟨spawned, dumped, -, produced⟩ := callKept.succeeded stderr settled
  have file := kept.files call member (Call.over_of_settled callKept acknowledged)
  exact ⟨callKept.own spawned, dumped, file.trans produced⟩

theorem State.Kept.initial (files : List Char → Bytes) : (initial files).Kept gzip := by
  refine ⟨?_, ?_, ?_, ?_, List.nodup_nil, ?_⟩ <;> simp [Backups.initial]

/-- A call that changes in its place keeps its path and does not come back; the files may change with it. -/
theorem State.Kept.update {state : State} (kept : state.Kept gzip) {k : ℕ} {call changed : Call}
    (found : state.calls[k]? = some call) (good : changed.Kept gzip) (path : changed.path = call.path)
    (ended : call.Over → changed.Over) (acknowledged : call.Acknowledged → changed.Acknowledged)
    {files : List Char → Bytes} (own : ¬changed.Over → files changed.path = changed.produced)
    (others : ∀ (i : ℕ) (other : Call), state.calls[i]? = some other → k ≠ i → ¬other.Over →
      files other.path = other.produced) : ({ state with files }.update k changed).Kept gzip := by
  have member : call ∈ state.calls := List.mem_of_getElem? found
  have inside : k < state.calls.length := (List.getElem?_eq_some_iff.mp found).1
  have old {i : ℕ} {other : Call} (at_ : (state.calls.set k changed)[i]? = some other) :
      ∃ before, state.calls[i]? = some before ∧ before.path = other.path ∧ (before.Over → other.Over) := by
    rw [List.getElem?_set] at at_
    split at at_
    · next same =>
      obtain rfl := Option.some.inj at_
      exact ⟨call, same ▸ found, path.symm, ended⟩
    · exact ⟨other, at_, rfl, id⟩
  refine ⟨?_, ?_, ?_, ?_, kept.distinct, ?_⟩
  · intro other present
    rcases List.mem_or_eq_of_mem_set present with before | rfl
    · exact kept.calls other before
    · exact good
  · intro other present alive
    obtain ⟨i, at_⟩ := List.mem_iff_getElem?.mp present
    rw [State.update, List.getElem?_set] at at_
    split at at_
    · obtain rfl := Option.some.inj at_
      exact own alive
    · next apart => exact others i other at_ apart alive
  · intro i j first second here there alive alive' same
    obtain ⟨before, here, path', gone'⟩ := old here
    obtain ⟨before', there, path'', gone''⟩ := old there
    exact kept.alone i j before before' here there (fun gone => alive (gone' gone))
      (fun gone => alive' (gone'' gone)) (path'.trans (same.trans path''.symm))
  · intro other present
    rcases List.mem_or_eq_of_mem_set present with before | rfl
    · exact kept.paths other before
    · exact path ▸ kept.paths call member
  · intro answered inAnswers
    refine (kept.acknowledged answered inAnswers).imp_left ?_
    rintro ⟨other, present, told, rfl⟩
    obtain ⟨i, at_⟩ := List.mem_iff_getElem?.mp present
    by_cases same : k = i
    · obtain rfl : call = other := Option.some.inj (found.symm.trans (same ▸ at_))
      exact ⟨changed, List.mem_set inside changed, acknowledged told, path⟩
    · have there : (state.calls.set k changed)[i]? = some other := by rw [List.getElem?_set_ne same, at_]
      exact ⟨other, List.mem_of_getElem? there, told, rfl⟩

/-- A file of no call that goes on may change. -/
theorem State.Kept.put {state : State} (kept : state.Kept gzip) {path : List Char} (content : Bytes)
    (free : ∀ call ∈ state.calls, ¬call.Over → call.path ≠ path) : (state.put path content).Kept gzip := by
  refine ⟨kept.calls, fun call member alive => ?_, kept.alone, kept.paths, kept.distinct, kept.acknowledged⟩
  rw [State.put]
  exact (if_neg (free call member alive)).trans (kept.files call member alive)

theorem State.Kept.event {state : State} (kept : state.Kept gzip) {k : ℕ} {call : Call} {event : Event}
    (found : state.calls[k]? = some call) (spawned : call.spawned = true) (can : call.CanHave gzip event) :
    (state.update k { call.after event with pipe := call.pipe.handle event }).Kept gzip := by
  have member : call ∈ state.calls := List.mem_of_getElem? found
  have same : (call.after event).path = call.path ∧ (call.after event).spawned = call.spawned ∧
      (call.after event).answered = call.answered ∧ (call.after event).produced = call.produced ∧
      (call.zipped ≠ none → (call.after event).zipped ≠ none) := by
    cases event <;> simp [Call.after]
  obtain ⟨path, spawned', answered, produced, zipped⟩ := same
  have ended : call.Over → Call.Over { call.after event with pipe := call.pipe.handle event } := by
    rintro (unspawned | ⟨failed, told, ended⟩)
    · exact .inl (spawned'.trans unspawned)
    · refine .inr ⟨?_, ?_, zipped ended⟩
      · rwa [Call.Acknowledged, path, answered]
      · exact answered ▸ told
  refine kept.update found ((kept.calls call member).event can spawned) path ended ?_ ?_ ?_
  · intro told
    rwa [Call.Acknowledged, path, answered]
  · intro alive
    rw [path, produced]
    exact kept.files call member fun gone => alive (ended gone)
  · exact fun i other at_ _ alive => kept.files other (List.mem_of_getElem? at_) alive

theorem writeAt_end (content bytes : Bytes) : writeAt content content.length bytes = content ++ bytes := by
  simp [writeAt]

theorem State.Kept.write {state : State} (kept : state.Kept gzip) {k : ℕ} {call : Call} (bytes : Bytes)
    (found : state.calls[k]? = some call) (spawned : call.spawned = true) (running : call.zipped = none) :
    ((state.put call.path (writeAt (state.files call.path) call.produced.length bytes)).update k
      { call with produced := call.produced ++ bytes }).Kept gzip := by
  have member : call ∈ state.calls := List.mem_of_getElem? found
  have alive : ¬call.Over := by
    rintro (unspawned | ⟨-, -, ended⟩)
    · rw [spawned] at unspawned
      cases unspawned
    · exact ended running
  have good := kept.calls call member
  have file := kept.files call member alive
  have more : Call.Kept gzip { call with produced := call.produced ++ bytes } := by
    refine ⟨good.listener, good.ended, good.written, ?_, good.acknowledged, good.own⟩
    intro stderr settled
    exact absurd running (good.succeeded stderr settled).2.2.1
  refine kept.update found more rfl id id ?_ ?_
  · intro _
    rw [if_pos rfl, file, writeAt_end]
  · intro i other at_ apart alive'
    rw [if_neg]
    · exact kept.files other (List.mem_of_getElem? at_) alive'
    · exact fun same => apart (kept.alone k i call other found at_ alive alive' same.symm)

theorem State.Kept.copy {state : State} (kept : state.Kept gzip) (now : List Char) (content : Bytes) :
    (state.put (copyPath now) content).Kept gzip := by
  refine kept.put content fun call member _ => ?_
  obtain ⟨engine, known, now', path⟩ := kept.paths call member
  exact path ▸ (copyPath_ne known now now').symm

theorem State.Kept.acknowledge {state : State} (kept : state.Kept gzip) {path : List Char}
    (fresh : path ∉ state.acknowledged)
    (known : (∃ call ∈ state.calls, call.Acknowledged ∧ call.path = path) ∨ ∃ now, path = copyPath now) :
    (state.acknowledge path).Kept gzip := by
  refine ⟨kept.calls, kept.files, kept.alone, kept.paths, ?_, ?_⟩
  · rw [State.acknowledge, List.nodup_append]
    refine ⟨kept.distinct, by simp, ?_⟩
    intro old member last here
    rw [List.mem_singleton.mp here]
    rintro rfl
    exact fresh member
  · intro answered member
    rcases List.mem_append.mp member with before | last
    · exact kept.acknowledged answered before
    · exact List.mem_singleton.mp last ▸ known

theorem Call.Kept.start {engine : EngineDef} {path : List Char} {tool : Tool} {refused : Option (List Char)}
    (own : refused = none → engine.engine.tool = some tool) : (Call.start engine path tool refused).Kept gzip := by
  cases refused with
  | none =>
    exact ⟨rfl, fun ended => (by cases ended), fun _ => rfl, fun stderr member => (by cases member),
      fun told => (by cases told), fun _ => own rfl⟩
  | some error =>
    refine ⟨rfl, fun ended => (by cases ended), fun running => (by cases running), ?_, fun told => (by cases told),
      fun spawned => (by cases spawned)⟩
    intro stderr member
    cases List.mem_singleton.mp member

theorem getElem?_append_singleton {calls : List Call} {new call : Call} {i : ℕ}
    (found : (calls ++ [new])[i]? = some call) : calls[i]? = some call ∨ (i = calls.length ∧ call = new) := by
  rw [List.getElem?_append] at found
  split at found
  · exact .inl found
  · next beyond =>
    have inside := (List.getElem?_eq_some_iff.mp found).1
    have last : i = calls.length := by
      rw [List.length_singleton] at inside
      omega
    subst last
    rw [Nat.sub_self] at found
    exact .inr ⟨rfl, (Option.some.inj found).symm⟩

/-- A call is added, with a file for which no other goes on, or with none. -/
theorem State.Kept.append {state : State} (kept : state.Kept gzip) {call : Call} (good : call.Kept gzip)
    {engine : EngineDef} (known : engine ∈ ENGINES) {now : List Char} (path : call.path = backupPath engine.id now)
    (alone : ¬call.Over → state.files call.path = call.produced ∧
      ∀ other ∈ state.calls, other.path = call.path → other.Over) :
    State.Kept gzip { state with calls := state.calls ++ [call] } := by
  refine ⟨?_, ?_, ?_, ?_, kept.distinct, ?_⟩
  · intro other member
    rcases List.mem_append.mp member with old | new
    · exact kept.calls other old
    · exact List.mem_singleton.mp new ▸ good
  · intro other member alive
    rcases List.mem_append.mp member with old | new
    · exact kept.files other old alive
    · rw [List.mem_singleton.mp new] at alive ⊢
      exact (alone alive).1
  · intro i j first second here there alive alive' same
    rcases getElem?_append_singleton here with old | ⟨rfl, rfl⟩
    · rcases getElem?_append_singleton there with old' | ⟨rfl, rfl⟩
      · exact kept.alone i j first second old old' alive alive' same
      · exact absurd ((alone alive').2 first (List.mem_of_getElem? old) same) alive
    · rcases getElem?_append_singleton there with old' | ⟨rfl, rfl⟩
      · exact absurd ((alone alive).2 second (List.mem_of_getElem? old') same.symm) alive'
      · rfl
  · intro other member
    rcases List.mem_append.mp member with old | new
    · exact kept.paths other old
    · exact List.mem_singleton.mp new ▸ ⟨engine, known, now, path⟩
  · intro answered member
    refine (kept.acknowledged answered member).imp_left ?_
    rintro ⟨other, present, told⟩
    exact ⟨other, List.mem_append_left _ present, told⟩

/-- A new call, for whose path none goes on. -/
theorem State.Kept.begin {state : State} (kept : state.Kept gzip) {engine : EngineDef} (known : engine ∈ ENGINES)
    {now : List Char} {tool : Tool} {refused : Option (List Char)}
    (allowed : refused = none → engine.engine.tool = some tool ∧
      ∀ call ∈ state.calls, call.path = backupPath engine.id now → call.Over) :
    (state.begin (Call.start engine (backupPath engine.id now) tool refused)).Kept gzip := by
  have good : (Call.start engine (backupPath engine.id now) tool refused).Kept gzip :=
    Call.Kept.start fun begun => (allowed begun).1
  cases refused with
  | none =>
    obtain ⟨-, free⟩ := allowed rfl
    have cleared : (state.put (backupPath engine.id now) []).Kept gzip :=
      kept.put [] fun call member alive same => alive (free call member same)
    exact cleared.append good known rfl fun _ => ⟨if_pos rfl, free⟩
  | some error => exact kept.append good known rfl fun alive => absurd (.inl rfl) alive

theorem Call.answer_ok {call : Call} {rc : ℤ} {stderr path : List Char} {recorded : Bool}
    (acknowledged : call.answer rc stderr recorded = .ok path) : rc = 0 ∧ path = call.path := by
  rw [Call.answer] at acknowledged
  split at acknowledged
  · cases acknowledged
  · split at acknowledged
    · cases acknowledged
    · next zero =>
      cases acknowledged
      exact ⟨not_not.mp zero, rfl⟩

section Answer

variable {state : State} (kept : state.Kept gzip) {k : ℕ} {call : Call} (found : state.calls[k]? = some call)
  (untold : call.answered = none) {rc : ℤ} {stderr : List Char} (settled : (rc, stderr) ∈ call.pipe.settled)

include kept found untold settled

theorem State.Kept.told {answer : Answer} (honest : answer = .ok call.path → rc = 0) :
    (state.update k { call with answered := some answer }).Kept gzip := by
  have member : call ∈ state.calls := List.mem_of_getElem? found
  have good := kept.calls call member
  have ended : call.Over → Call.Over { call with answered := some answer } := by
    rintro (unspawned | ⟨-, told, -⟩)
    · exact .inl unspawned
    · exact absurd untold told
  have better : Call.Kept gzip { call with answered := some answer } := by
    refine ⟨good.listener, good.ended, good.written, good.succeeded, fun told => ?_, good.own⟩
    have zero := honest (Option.some.inj told)
    exact ⟨stderr, zero ▸ settled⟩
  refine kept.update found better rfl ended ?_ ?_ ?_
  · intro told
    rw [Call.Acknowledged, untold] at told
    cases told
  · exact fun alive => kept.files call member fun gone => alive (ended gone)
  · exact fun i other at_ _ alive => kept.files other (List.mem_of_getElem? at_) alive

/-- A path that is answered has not been answered before. -/
theorem State.Kept.fresh (zero : rc = 0) : call.path ∉ state.acknowledged := by
  have member : call ∈ state.calls := List.mem_of_getElem? found
  have good := kept.calls call member
  have alive : ¬call.Over := by
    rintro (unspawned | ⟨-, told, -⟩)
    · rw [(good.succeeded stderr (zero ▸ settled)).1] at unspawned
      cases unspawned
    · exact told untold
  intro before
  rcases kept.acknowledged call.path before with ⟨other, present, told, same⟩ | ⟨now, path⟩
  · obtain ⟨i, at_⟩ := List.mem_iff_getElem?.mp present
    have alive' := Call.over_of_settled (kept.calls other present) told
    have one := kept.alone i k other call at_ found alive' alive same
    rw [one, found] at at_
    rw [Call.Acknowledged, ← Option.some.inj at_, untold] at told
    cases told
  · obtain ⟨engine, known, now', path'⟩ := kept.paths call member
    exact copyPath_ne known now now' (path.symm.trans path')

end Answer

theorem State.Kept.answer {state : State} (kept : state.Kept gzip) (k : ℕ) (recorded : Bool) :
    (Backups.step gzip state (.answer k recorded)).Kept gzip := by
  rw [Backups.step]
  split
  · exact kept
  · next call found =>
    split
    · next rc stderr more untold settled =>
      have here : (rc, stderr) ∈ call.pipe.settled := settled ▸ List.mem_cons_self
      have told : (state.update k { call with answered := some (call.answer rc stderr recorded) }).Kept gzip :=
        kept.told found untold here fun ok => (Call.answer_ok ok).1
      dsimp only
      split
      · next path acknowledged =>
        obtain ⟨zero, rfl⟩ := Call.answer_ok acknowledged
        have inside : k < state.calls.length := (List.getElem?_eq_some_iff.mp found).1
        rw [acknowledged] at told ⊢
        exact told.acknowledge (kept.fresh found untold here zero)
          (.inl ⟨_, List.mem_set inside _, rfl, rfl⟩)
      · exact told
    · exact kept

/-- What stays, stays over every step that is allowed. -/
theorem State.Kept.step {state : State} (kept : state.Kept gzip) {label : Step} (allowed : Allowed state label) :
    (Backups.step gzip state label).Kept gzip := by
  cases label with
  | backup id now installed refused =>
    rw [Backups.step]
    split
    · exact kept
    · next engine found =>
      split
      · exact kept
      · next tool taken =>
        refine kept.begin (List.mem_of_find?_eq_some found) fun begun => ?_
        obtain ⟨suits, free⟩ := allowed engine found begun
        exact ⟨(suits_iff installed engine.engine).mp suits tool taken, free⟩
  | event k event =>
    rw [Backups.step]
    split
    · exact kept
    · next call found =>
      split
      · next can => exact kept.event found can.1 can.2
      · exact kept
  | write k bytes =>
    rw [Backups.step]
    split
    · exact kept
    · next call found =>
      split
      · next can => exact kept.write bytes found can.1 can.2
      · exact kept
  | answer k recorded => exact kept.answer k recorded
  | copy now content recorded =>
    cases content with
    | none => exact kept
    | some content =>
      have copied := kept.copy now content
      rw [Backups.step]
      split
      · next told =>
        exact copied.acknowledge (allowed (Option.some_ne_none _) told) (.inr ⟨now, rfl⟩)
      · exact copied

/-! ### Runs -/

theorem once_update {state : State} (once : ∀ call ∈ state.calls, call.pipe.Once) {k : ℕ} {changed : Call}
    (good : changed.pipe.Once) : ∀ call ∈ (state.update k changed).calls, call.pipe.Once := by
  intro call member
  rcases List.mem_or_eq_of_mem_set member with old | rfl
  · exact once call old
  · exact good

theorem once_step {state : State} (once : ∀ call ∈ state.calls, call.pipe.Once) (label : Step) :
    ∀ call ∈ (step gzip state label).calls, call.pipe.Once := by
  cases label with
  | backup id now installed refused =>
    rw [step]
    split
    · exact once
    · next engine _ =>
      split
      · exact once
      · next tool _ =>
        intro call member
        have either : call ∈ state.calls ∨ call = Call.start engine (backupPath engine.id now) tool refused := by
          cases refused <;> simpa [State.begin, Call.start, State.put] using member
        rcases either with old | rfl
        · exact once call old
        · cases refused with
          | none => exact Pipe.Once.spawned
          | some error => exact Pipe.Once.unopened _
  | event k event =>
    rw [step]
    split
    · exact once
    · next call found =>
      split
      · exact once_update once ((once call (List.mem_of_getElem? found)).handle event)
      · exact once
  | write k bytes =>
    rw [step]
    split
    · exact once
    · next call found =>
      split
      · exact once_update once (once call (List.mem_of_getElem? found))
      · exact once
  | answer k recorded =>
    rw [step]
    split
    · exact once
    · next call found =>
      have good := once call (List.mem_of_getElem? found)
      split
      · dsimp only
        split
        · exact once_update once good
        · exact once_update once good
      · exact once
  | copy now content recorded =>
    cases content with
    | none => exact once
    | some content =>
      rw [step]
      split
      · exact once
      · exact once

theorem settlesOnce {state : State} (once : ∀ call ∈ state.calls, call.pipe.Once) : SettlesOnce state := by
  intro call member
  have good := once call member
  refine ⟨good.settled_le, fun unsettled => ?_, good.timeout⟩
  have count := good.settled
  rw [unsettled] at count
  rw [good.armed]
  cases running : call.pipe.done with
  | false => rfl
  | true =>
    rw [running] at count
    cases count

/-- Over any run each pipeline settles once. Over a run whose backups take the engine's own tool, and a path
of which each earlier call has failed and ended, an acknowledged backup has the dump, and no two have one
path. -/
theorem backups_right (gzip : Bytes → Bytes) (files : List Char → Bytes) (labels : List Step) :
    SettlesOnce (run (step gzip) (initial files) labels) ∧
      (Along (step gzip) Allowed (initial files) labels →
        Right gzip (run (step gzip) (initial files) labels)) := by
  have none : ∀ call ∈ (initial files).calls, call.pipe.Once := fun call member => by cases member
  have once := settlesOnce (@Execution.invariant _ _ (step gzip) (fun state => ∀ call ∈ state.calls, call.pipe.Once)
    _ none (fun state label holds => once_step holds label) labels)
  refine ⟨once, fun allowed => ?_⟩
  have kept : (run (step gzip) (initial files) labels).Kept gzip :=
    @Execution.invariant_along _ _ (step gzip) (State.Kept gzip) Allowed
      (fun state label allowed kept => kept.step allowed) _ (State.Kept.initial files) labels allowed
  exact ⟨kept.sound, once, kept.distinct⟩

/-! ### A dump of one comment -/

def comment : Bytes := [45, 45, 10]

/-- What gzip makes of the comment. -/
def image : Bytes :=
  [31, 139, 8, 0, 0, 0, 0, 0, 0, 3, 211, 213, 229, 2, 0, 80, 191, 43, 15, 3, 0, 0, 0]

/-- A backup with the three tools found, whose dump and gzip end well. -/
def dumps (k : ℕ) (id : String) : List Step :=
  [.backup id.toList "2025-01-01T00:00:00.000Z".toList (fun _ => true) none, .event k (.dumpOutput comment),
    .event k (.dumpClose (some 0)), .write k image, .event k (.gzipClose (some 0)), .answer k true]

def after (labels : List Step) : State := run (step fun _ => image) (initial fun _ => []) labels

theorem postgres_right : (after (dumps 0 "postgresql")).acknowledged =
      ["/var/backups/postgresql-2025-01-01-00-00-00.sql.gz".toList] ∧
    Right (fun _ => image) (after (dumps 0 "postgresql")) := by
  refine ⟨rfl, (backups_right (fun _ => image) (fun _ => []) (dumps 0 "postgresql")).2 ?_⟩
  refine ⟨?_, trivial, trivial, trivial, trivial, trivial, trivial⟩
  intro engine found _
  obtain rfl : (⟨"postgresql".toList, .postgres⟩ : EngineDef) = engine := Option.some.inj found
  exact ⟨trivial, fun call member => by cases member⟩

/-- A backup of Redis is a dump of MariaDB, and two backups of one second have one path. -/
theorem backups_of_other_engines_and_of_one_second :
    ¬Right (fun _ => image) (after (dumps 0 "redis")) ∧
      ¬Right (fun _ => image) (after (dumps 0 "mariadb" ++ dumps 1 "mariadb")) := by
  constructor
  · intro right
    have own := (right.sound _ (List.mem_singleton.mpr rfl : _ ∈ (after (dumps 0 "redis")).calls) rfl).own
    cases own
  · intro right
    have twice : (after (dumps 0 "mariadb" ++ dumps 1 "mariadb")).acknowledged =
        ["/var/backups/mariadb-2025-01-01-00-00-00.sql.gz".toList,
          "/var/backups/mariadb-2025-01-01-00-00-00.sql.gz".toList] := rfl
    have distinct := right.distinct
    rw [twice] at distinct
    simp at distinct

end SysDeck.Web.Backups
