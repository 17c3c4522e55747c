import SysDeck.Library.Execution
import SysDeck.Library.OrderedMap
import Mathlib.Logic.Function.Defs

/-! The integrity bridge: hashes of the monitored files are kept as a baseline, and a check
compares the files with it. -/

namespace SysDeck.Web.Integrity

def TARGETS : List String :=
  ["/etc/passwd", "/etc/group", "/etc/shadow", "/etc/hosts", "/etc/resolv.conf", "/etc/hostname",
    "/etc/os-release", "/etc/debian_version", "/bin/sh", "/bin/ls", "/usr/bin/env",
    "/usr/bin/python3", "/usr/bin/dpkg"]

def SENTINEL : String := "/var/tmp/sysdeck-integrity-sentinel"

def SENTINEL_CONTENT : String :=
  "sysdeck integrity sentinel v1\n" ++
    "This file is baselined by the integrity module.\n" ++
    "Edit it (or delete it) to watch drift detection report a real change.\n"

def monitoredPaths : List String := TARGETS ++ [SENTINEL]

/-- What stands at a path; a file may be there without being readable. The content is that of the
bytes, one character for each. -/
inductive File where
  | missing
  | present (content : String) (readable : Bool)
  deriving DecidableEq

def File.content : File → Option String
  | .missing => none
  | .present content _ => some content

inductive HashResult where
  | hash (hash : String)
  | missing
  | unreadable

structure Drift where
  path : String
  change : String
  oldHash : Option String
  newHash : Option String
  deriving DecidableEq

structure Report where
  clean : Bool
  drift : List Drift
  checked : ℕ
  unreadable : List String

/-- A row of `IntegrityDrift`. -/
structure DriftRow where
  id : ℕ
  drift : Drift
  resolved : Bool

structure State where
  files : String → File
  /-- `IntegrityBaseline`: a hash for each path. -/
  baselines : OrderedMap String String
  drifts : List DriftRow

section
variable (sha256 : String → String)

def hashFile : File → HashResult
  | .missing => .missing
  | .present content readable => if readable then .hash (sha256 content) else .unreadable

/-- The sentinel is made where it is missing and its directory can be written. -/
def ensureSentinel (writable : Bool) (files : String → File) : String → File :=
  if files SENTINEL = .missing ∧ writable then
    Function.update files SENTINEL (.present SENTINEL_CONTENT true)
  else files

/-- The row of a path is written where the file can be hashed, and left as it is elsewhere. -/
def upsert (files : String → File) (baselines : OrderedMap String String) (path : String) :
    OrderedMap String String :=
  match hashFile sha256 (files path) with
  | .hash hash => baselines.set path hash
  | _ => baselines

def baseline (writable : Bool) (state : State) : State :=
  let files := ensureSentinel writable state.files
  { state with files, baselines := monitoredPaths.foldl (upsert sha256 files) state.baselines }

/-- The drift of a path with a row. -/
def rowDrift (files : String → File) : String × String → Option Drift
  | (path, oldHash) =>
    match hashFile sha256 (files path) with
    | .missing => some ⟨path, "removed", some oldHash, none⟩
    | .unreadable => none
    | .hash hash => if hash ≠ oldHash then some ⟨path, "modified", some oldHash, some hash⟩ else none

/-- The drift of a monitored path without a row. -/
def newDrift (files : String → File) (path : String) : Option Drift :=
  match hashFile sha256 (files path) with
  | .hash hash => some ⟨path, "added", none, some hash⟩
  | _ => none

def isUnreadable : File → Bool
  | .present _ false => true
  | _ => false

/-- What `check` answers; `none` where there is no baseline yet. -/
def check (state : State) : Option Report :=
  if state.baselines.entries = [] then none
  else
    let drift := state.baselines.entries.filterMap (rowDrift sha256 state.files) ++
      (monitoredPaths.filter fun path => !state.baselines.contains path).filterMap
        (newDrift sha256 state.files)
    let unreadable := state.baselines.keys.filter fun path => isUnreadable (state.files path)
    some { clean := drift.isEmpty && unreadable.isEmpty, drift, checked := state.baselines.size,
           unreadable }

/-- The row is the unresolved one of the drift. -/
def DriftRow.isOf (d : Drift) (row : DriftRow) : Bool :=
  row.drift.path = d.path && row.drift.change = d.change && !row.resolved

def DriftRow.refresh (d : Drift) (row : DriftRow) : DriftRow :=
  if row.isOf d then { row with drift := { row.drift with newHash := d.newHash } } else row

/-- The unresolved row of a drift has its new hash refreshed; a new row is made where there is
none. -/
def persist (drifts : List DriftRow) (d : Drift) : List DriftRow :=
  if drifts.any (·.isOf d) then drifts.map (·.refresh d) else drifts ++ [⟨drifts.length, d, false⟩]

def DriftRow.resolve (id : ℕ) (row : DriftRow) : DriftRow :=
  if row.id = id then { row with resolved := true } else row

/-- The calls, and what happens to the files between them. -/
inductive Event where
  | baseline (writable : Bool)
  | check
  | resolve (id : ℕ)
  | change (path : String) (file : File)

def step (state : State) : Event → State
  | .baseline writable => baseline sha256 writable state
  | .check =>
    match check sha256 state with
    | none => state
    | some report => { state with drifts := report.drift.foldl persist state.drifts }
  | .resolve id =>
    { state with drifts := state.drifts.map (·.resolve id) }
  | .change path file => { state with files := Function.update state.files path file }

end

variable {sha256 : String → String}

/-! ### What the baseline holds -/

theorem find?_upsert (files : String → File) (baselines : OrderedMap String String)
    (path other : String) :
    (upsert sha256 files baselines path).find? other =
      match hashFile sha256 (files other) with
      | .hash hash => if other = path then some hash else baselines.find? other
      | _ => baselines.find? other := by
  unfold upsert
  by_cases same : other = path
  · subst same
    cases hashFile sha256 (files other) with
    | hash hash => simp
    | missing => rfl
    | unreadable => rfl
  · cases hashFile sha256 (files path) <;> cases hashFile sha256 (files other) <;>
      simp [same, OrderedMap.find?_set_ne]

/-- After a baseline a monitored file that can be read has its hash in the table; all other rows are
as they were. -/
theorem find?_baseline (files : String → File) (paths : List String)
    (baselines : OrderedMap String String) (path : String) :
    (paths.foldl (upsert sha256 files) baselines).find? path =
      match hashFile sha256 (files path) with
      | .hash hash => if path ∈ paths then some hash else baselines.find? path
      | _ => baselines.find? path := by
  induction paths generalizing baselines with
  | nil => cases hashFile sha256 (files path) <;> rfl
  | cons first paths ih =>
    rw [List.foldl_cons, ih, find?_upsert]
    cases hashFile sha256 (files path) with
    | hash hash =>
      by_cases later : path ∈ paths
      · simp [later]
      · simp [later]
    | missing => rfl
    | unreadable => rfl

/-- The table has the hashes of the files that could be read at the last baseline, and rows for
monitored files only. -/
structure Baselined (sha256 : String → String) (last : String → File) (state : State) : Prop where
  hashed : ∀ path ∈ monitoredPaths, ∀ content, last path = .present content true →
    state.baselines.find? path = some (sha256 content)
  monitored : ∀ path ∉ monitoredPaths, state.baselines.find? path = none

theorem baselined_baseline {state : State} (writable : Bool)
    (monitored : ∀ path ∉ monitoredPaths, state.baselines.find? path = none) :
    Baselined sha256 (baseline sha256 writable state).files (baseline sha256 writable state) where
  hashed := by
    intro path member content is
    have hash : hashFile sha256 (ensureSentinel writable state.files path) = .hash (sha256 content) := by
      have is : ensureSentinel writable state.files path = .present content true := is
      rw [is]
      rfl
    simp only [baseline]
    rw [find?_baseline, hash]
    exact if_pos member
  monitored := by
    intro path other
    simp only [baseline]
    rw [find?_baseline]
    cases hashFile sha256 (ensureSentinel writable state.files path) with
    | hash hash => exact (if_neg other).trans (monitored path other)
    | missing => exact monitored path other
    | unreadable => exact monitored path other

def isBaseline : Event → Bool
  | .baseline _ => true
  | _ => false

theorem baselines_step {state : State} {event : Event} (other : isBaseline event = false) :
    (step sha256 state event).baselines = state.baselines := by
  cases event with
  | baseline writable => cases other
  | check =>
    simp only [step]
    split <;> rfl
  | resolve id => rfl
  | change path file => rfl

theorem baselines_run {events : List Event} (other : ∀ event ∈ events, isBaseline event = false)
    (state : State) : (Execution.run (step sha256) state events).baselines = state.baselines := by
  induction events generalizing state with
  | nil => rfl
  | cons event events ih =>
    rw [Execution.run_cons, ih fun later member => other later (List.mem_cons_of_mem _ member),
      baselines_step (other event List.mem_cons_self)]

theorem monitored_run (events : List Event) {state : State}
    (monitored : ∀ path ∉ monitoredPaths, state.baselines.find? path = none) :
    ∀ path ∉ monitoredPaths, (Execution.run (step sha256) state events).baselines.find? path = none := by
  refine Execution.invariant (motive := fun state : State =>
    ∀ path ∉ monitoredPaths, state.baselines.find? path = none) monitored ?_ events
  intro state event before
  by_cases other : isBaseline event = false
  · rwa [baselines_step other]
  · cases event with
    | baseline writable => exact (baselined_baseline writable before).monitored
    | check | resolve | change => exact absurd rfl other

/-! ### What a check reports -/

/-- The path is reported. -/
def Reported (report : Report) (path : String) : Prop := ∃ d ∈ report.drift, d.path = path

/-- The hash of the file is not the one in the table. -/
def Moved (sha256 : String → String) (state : State) (path : String) : Prop :=
  match state.baselines.find? path, hashFile sha256 (state.files path) with
  | some _, .missing => True
  | some old, .hash hash => hash ≠ old
  | none, .hash _ => path ∈ monitoredPaths
  | _, _ => False

theorem rowDrift_path {files : String → File} {row : String × String} {d : Drift}
    (found : rowDrift sha256 files row = some d) : d.path = row.1 := by
  obtain ⟨path, old⟩ := row
  simp only [rowDrift] at found
  split at found
  · cases found
    rfl
  · cases found
  · split at found
    · cases found
      rfl
    · cases found

theorem newDrift_path {files : String → File} {path : String} {d : Drift}
    (found : newDrift sha256 files path = some d) : d.path = path := by
  unfold newDrift at found
  split at found
  · cases found
    rfl
  · cases found

theorem rowDrift_isSome {state : State} {path old : String}
    (row : state.baselines.find? path = some old) :
    (rowDrift sha256 state.files (path, old)).isSome ↔ Moved sha256 state path := by
  unfold Moved
  simp only [rowDrift, row]
  cases hashFile sha256 (state.files path) with
  | hash hash => by_cases same : hash = old <;> simp [same]
  | missing => simp
  | unreadable => simp

theorem newDrift_isSome {state : State} {path : String} (bare : state.baselines.find? path = none)
    (member : path ∈ monitoredPaths) :
    (newDrift sha256 state.files path).isSome ↔ Moved sha256 state path := by
  unfold Moved newDrift
  rw [bare]
  cases hashFile sha256 (state.files path) with
  | hash hash => simpa using member
  | missing => simp
  | unreadable => simp

theorem reported_iff {state : State} {report : Report} (checked : check sha256 state = some report)
    (path : String) : Reported report path ↔ Moved sha256 state path := by
  unfold check at checked
  split at checked
  · cases checked
  · cases checked
    simp only [Reported, List.mem_append, List.mem_filterMap, List.mem_filter]
    constructor
    · rintro ⟨d, ⟨⟨other, old⟩, row, found⟩ | ⟨other, ⟨member, absent⟩, found⟩, rfl⟩
      · have is := OrderedMap.find?_eq_some_iff.mpr row
        rw [rowDrift_path found]
        exact (rowDrift_isSome is).mp (found ▸ rfl)
      · have bare : state.baselines.find? other = none := by
          simpa [OrderedMap.contains] using absent
        rw [newDrift_path found]
        exact (newDrift_isSome bare member).mp (found ▸ rfl)
    · intro moved
      cases row : state.baselines.find? path with
      | none =>
        have member : path ∈ monitoredPaths := by
          unfold Moved at moved
          rw [row] at moved
          split at moved
          · rename_i is _
            cases is
          · rename_i is _
            cases is
          · exact moved
          · exact moved.elim
        obtain ⟨d, found⟩ := Option.isSome_iff_exists.mp ((newDrift_isSome row member).mpr moved)
        refine ⟨d, .inr ⟨path, ⟨member, by simp [OrderedMap.contains, row]⟩, found⟩, newDrift_path found⟩
      | some old =>
        obtain ⟨d, found⟩ := Option.isSome_iff_exists.mp ((rowDrift_isSome row).mpr moved)
        exact ⟨d, .inl ⟨(path, old), OrderedMap.find?_eq_some_iff.mp row, found⟩, rowDrift_path found⟩

/-! ### A check against the last baseline -/

/-- What the table does not know of the files at the last baseline is what cannot be seen now. -/
structure Known (last : String → File) (state : State) : Prop where
  begun : state.baselines.entries ≠ []
  missing : ∀ path ∈ monitoredPaths, last path = .missing → state.baselines.find? path = none
  unreadable : ∀ path ∈ monitoredPaths, isUnreadable (last path) →
    state.baselines.find? path = none ∧ isUnreadable (state.files path)

/-- A check reports the paths whose presence or content is not that of the last baseline, among those
that are missing or can be read, and it is clean where no file has changed. -/
def Exact (sha256 : String → String) (last : String → File) (state : State) : Prop :=
  ∃ report, check sha256 state = some report ∧
    (∀ path, Reported report path ↔ path ∈ monitoredPaths ∧ ¬ isUnreadable (state.files path) ∧
      (last path).content ≠ (state.files path).content) ∧
    ((∀ path ∈ monitoredPaths, state.files path = last path) → report.clean ∧ report.drift = [])

theorem moved_iff (injective : Function.Injective sha256) {last : String → File} {state : State}
    (baselined : Baselined sha256 last state) (known : Known last state) (path : String) :
    Moved sha256 state path ↔ path ∈ monitoredPaths ∧ ¬ isUnreadable (state.files path) ∧
      (last path).content ≠ (state.files path).content := by
  by_cases member : path ∈ monitoredPaths
  · unfold Moved
    cases was : last path with
    | missing =>
      rw [known.missing path member was]
      cases state.files path with
      | missing => simp [hashFile, File.content]
      | present content readable =>
        cases readable <;> simp [hashFile, isUnreadable, File.content, member]
    | present content readable =>
      cases readable with
      | false =>
        obtain ⟨bare, hidden⟩ := known.unreadable path member (by rw [was]; rfl)
        rw [bare]
        cases now : state.files path with
        | missing => simp [now, isUnreadable] at hidden
        | present content' readable' =>
          cases readable' with
          | true => simp [now, isUnreadable] at hidden
          | false => simp [hashFile, isUnreadable]
      | true =>
        rw [baselined.hashed path member content was]
        cases state.files path with
        | missing => simp [hashFile, isUnreadable, File.content, member]
        | present content' readable' =>
          cases readable' with
          | false => simp [hashFile, isUnreadable]
          | true => simp [hashFile, isUnreadable, File.content, member, injective.eq_iff, eq_comm]
  · unfold Moved
    rw [baselined.monitored path member]
    cases hashFile sha256 (state.files path) <;> simp [member]

theorem check_clean {state : State} {report : Report} (checked : check sha256 state = some report) :
    report.clean = (report.drift.isEmpty && report.unreadable.isEmpty) ∧
      report.unreadable = state.baselines.keys.filter fun path => isUnreadable (state.files path) := by
  unfold check at checked
  split at checked
  · cases checked
  · cases checked
    exact ⟨rfl, rfl⟩

theorem exact_of_known (injective : Function.Injective sha256) {last : String → File} {state : State}
    (baselined : Baselined sha256 last state) (known : Known last state) : Exact sha256 last state := by
  have begun : check sha256 state ≠ none := by simp [check, known.begun]
  obtain ⟨report, checked⟩ := Option.ne_none_iff_exists'.mp begun
  have exactly (path : String) := (reported_iff checked path).trans (moved_iff injective baselined known path)
  refine ⟨report, checked, exactly, ?_⟩
  intro same
  have quiet : report.drift = [] := by
    refine List.eq_nil_iff_forall_not_mem.mpr fun d member => ?_
    obtain ⟨monitored, -, differ⟩ := (exactly d.path).mp ⟨d, member, rfl⟩
    exact differ (congrArg File.content (same d.path monitored)).symm
  obtain ⟨clean, unreadable⟩ := check_clean checked
  rw [clean, quiet, unreadable]
  refine ⟨?_, rfl⟩
  have none : state.baselines.keys.filter (fun path => isUnreadable (state.files path)) = [] := by
    refine List.filter_eq_nil_iff.mpr fun path row hidden => ?_
    have listed : state.baselines.find? path ≠ Option.none :=
      Option.isSome_iff_ne_none.mp (OrderedMap.find?_isSome_iff.mpr row)
    have monitored : path ∈ monitoredPaths := not_imp_comm.mp (baselined.monitored path) listed
    exact listed (known.unreadable path monitored (same path monitored ▸ hidden)).1
  rw [none]
  rfl

/-- In every history each check after a baseline is exact, where the table says of the files at that
baseline what can be seen of them. -/
theorem check_exact (injective : Function.Injective sha256) {files : String → File}
    {before between : List Event} {writable : Bool}
    (others : ∀ event ∈ between, isBaseline event = false)
    (known : Known (Execution.run (step sha256) ⟨files, .empty, []⟩ (before ++ [.baseline writable])).files
      (Execution.run (step sha256) ⟨files, .empty, []⟩ (before ++ .baseline writable :: between))) :
    Exact sha256 (Execution.run (step sha256) ⟨files, .empty, []⟩ (before ++ [.baseline writable])).files
      (Execution.run (step sha256) ⟨files, .empty, []⟩ (before ++ .baseline writable :: between)) := by
  refine exact_of_known injective ?_ known
  have monitored := @monitored_run sha256 before ⟨files, .empty, []⟩ fun path _ => rfl
  have fresh := @baselined_baseline sha256 _ writable monitored
  rw [Execution.run_append, Execution.run_append, Execution.run_cons]
  have kept := @baselines_run sha256 between others
    (step sha256 (Execution.run (step sha256) ⟨files, .empty, []⟩ before) (.baseline writable))
  exact ⟨kept ▸ fresh.hashed, kept ▸ fresh.monitored⟩

/-- The digest of the sentinel; any other text has its own. -/
def sampleSha256 (content : String) : String :=
  if content = SENTINEL_CONTENT then
    "c084d67fc950b33eb38014229bd463ade82f17625a4f5de73a634a61a70a5ec4"
  else "x" ++ content

theorem sampleSha256_injective : Function.Injective sampleSha256 := by
  intro first second same
  unfold sampleSha256 at same
  split at same <;> split at same
  · rename_i is is'
    rw [is, is']
  · exact absurd (congrArg (·.toList.head?) same) (by simp)
  · exact absurd (congrArg (·.toList.head?) same) (by simp)
  · exact String.append_right_inj _ |>.mp same

/-- A host on which nothing but `/etc/hosts` is there, if at all. -/
def sampleFiles (hosts : File) (path : String) : File :=
  if path = "/etc/hosts" then hosts else .missing

theorem check_exact_sentinel :
    Exact sampleSha256
      (Execution.run (step sampleSha256) ⟨sampleFiles .missing, .empty, []⟩ ([] ++ [.baseline true])).files
      (Execution.run (step sampleSha256) ⟨sampleFiles .missing, .empty, []⟩
        ([] ++ .baseline true :: [.check])) :=
  check_exact sampleSha256_injective (by decide)
    ⟨by decide +kernel, by decide +kernel, by decide +kernel⟩

/-- A file is deleted before the second baseline, and a check right after it reports the file. -/
theorem deleted_file_reported :
    ¬ Exact sampleSha256
      (Execution.run (step sampleSha256) ⟨sampleFiles (.present "127.0.0.1 localhost\n" true), .empty, []⟩
        ([.baseline true, .change "/etc/hosts" .missing] ++ [.baseline true])).files
      (Execution.run (step sampleSha256) ⟨sampleFiles (.present "127.0.0.1 localhost\n" true), .empty, []⟩
        ([.baseline true, .change "/etc/hosts" .missing] ++ [.baseline true])) := by
  rintro ⟨report, checked, -, fresh⟩
  have quiet := (fresh fun path _ => rfl).2
  have drift := congrArg (Option.map Report.drift) checked
  rw [Option.map_some, quiet] at drift
  exact absurd drift (by decide +kernel)

end SysDeck.Web.Integrity
