import SysDeck.Cockpit.ActiveTemplate

/-! What the record of the active template says in every run of the commands. -/

namespace SysDeck.Cockpit.ActiveTemplate

open FileTree

variable (host : Host)

/-- The last start that succeeded is that of the file, none of it has failed since, and nothing that
stops the firewall has succeeded since. -/
def stands (path : Location) : List (Call × Answer) → Bool
  | [] => false
  | (.template other .start _, answer) :: before =>
    if answer.succeeded then other = path else other ≠ path && stands path before
  | (.template _ .detect _, _) :: before => stands path before
  | (_, answer) :: before => !answer.succeeded && stands path before

/-- The active template, if there is one, is that of the file that stands, which the commands find under
its name and under none. -/
def Tracked (state : State) : Prop :=
  ∀ name, state.readActiveTemplate = some name →
    ∃ path, resolveTemplatePath host state (some name) = some path ∧
      resolveTemplatePath host state none = some path ∧ stands path state.calls

inductive Command where
  | apply (args : List (List Char))
  | stop
  | restart
  | switchBackend (args : List (List Char))

def step (state : State) : Command × Outcomes → State
  | (.apply args, outcomes) => (cmdApply host outcomes state args).1
  | (.stop, outcomes) => (cmdStop host outcomes state).1
  | (.restart, outcomes) => (cmdRestart host outcomes state).1
  | (.switchBackend args, outcomes) => (cmdSwitchBackend host outcomes state args).1

/-- No template is active. -/
def initial (backend : Option (List Char)) : State := ⟨none, backend, []⟩

/-! ### When the record stays true -/

/-- The name in a template's header, if there is any, stands for its file. -/
def SelfNamed (path : Location) : Prop :=
  ∀ name, named (metadataName host path) = some name → fileOf host name = some path

/-- The active template, if there is one, is not that of the file. -/
def Other (state : State) (path : Location) : Prop :=
  ∀ name, state.readActiveTemplate = some name → fileOf host name ≠ some path

def Outcomes.succeed (outcomes : Outcomes) (call : Call) : Bool := (outcomes.answer call).succeeded

/-- The file that the arguments of `apply` start, where all of them are valid. -/
def applied : List (List Char) → Option Location
  | [] => none
  | name :: extra => if extra.all Validators.validateFilename then fileOf host name else none

/-- The stop of the backend before the one that the arguments name. -/
def stopOf (state : State) (name : List Char) : Option Call :=
  if state.readActiveBackend = name then none
  else if state.readActiveBackend = "cilium".toList then
    (fileOf host "cilium".toList).map (.template · .stop [])
  else some .deleteTable

/-- The file that the switch to the backend starts. -/
def startOf (outcomes : Outcomes) (target : Backend) : Option Location :=
  (autoApplied outcomes target).bind (fileOf host)

/-- A template that starts is one whose header names it, one that fails to start is not the active one,
and a backend is not stopped under an active template unless the next one starts. -/
def Kept (state : State) : Command × Outcomes → Prop
  | (.apply args, outcomes) =>
    ∀ path, applied host args = some path →
      if outcomes.succeed (.template path .start args.tail) then SelfNamed host path
      else Other host state path
  | (.stop, _) => True
  | (.restart, outcomes) =>
    ∀ name path, state.readActiveTemplate = some name → fileOf host name = some path →
      if outcomes.succeed (.template path .start []) then SelfNamed host path
      else outcomes.succeed (.template path .stop []) ∨ outcomes.succeed .deleteTable ∨
        outcomes.succeed .stopService
  | (.switchBackend args, outcomes) =>
    ∀ name, args.head? = some name → ∀ target, FIREWALL_BACKENDS.find? (·.id = name) = some target →
      (∃ path, startOf host outcomes target = some path ∧ outcomes.succeed (.template path .start [])) ∨
      (∀ call, stopOf host state name = some call → outcomes.succeed call →
        state.readActiveTemplate = none) ∧
      ∀ path, startOf host outcomes target = some path → Other host state path

/-! ### Names -/

theorem named_nonempty {text name : List Char} (found : named text = some name) : name ≠ [] := by
  unfold named at found
  split at found
  · cases found
  next begun =>
    rintro rfl
    rw [Option.some.inj found] at begun
    exact begun rfl

theorem readActive_nonempty {state : State} {name : List Char}
    (active : state.readActiveTemplate = some name) : name ≠ [] := by
  obtain ⟨text, -, found⟩ := Option.bind_eq_some_iff.mp active
  exact named_nonempty found

variable {host}

theorem valid_of_fileOf {name : List Char} {path : Location} (found : fileOf host name = some path) :
    Validators.validateTemplateName (stemOf name) = true := by
  unfold fileOf at found
  dsimp only at found
  split at found
  next valid => exact valid
  · cases found

theorem nonempty_of_fileOf {name : List Char} {path : Location} (found : fileOf host name = some path) :
    name ≠ [] := by
  rintro rfl
  have valid := valid_of_fileOf found
  cases valid

theorem resolve_named (state : State) {name : List Char} (begun : name ≠ []) :
    resolveTemplatePath host state (some name) = fileOf host name := by
  have kept : (some name).filter (!·.isEmpty) = some name := by simp [Option.filter, begun]
  rw [resolveTemplatePath, kept]

theorem resolve_active {state : State} {name : List Char} {path : Location}
    (active : state.readActiveTemplate = some name) (found : fileOf host name = some path) :
    resolveTemplatePath host state none = some path := by
  simp [resolveTemplatePath, active, found]

theorem tracked_iff {state : State} : Tracked host state ↔ ∀ name, state.readActiveTemplate = some name →
    ∃ path, fileOf host name = some path ∧ stands path state.calls := by
  refine forall₂_congr fun name active => ?_
  rw [resolve_named state (readActive_nonempty active)]
  constructor
  · rintro ⟨path, found, -, holds⟩
    exact ⟨path, found, holds⟩
  · rintro ⟨path, found, holds⟩
    exact ⟨path, found, resolve_active active found, holds⟩

theorem tracked_of_unset {state : State} (unset : state.readActiveTemplate = none) : Tracked host state := by
  intro name active
  rw [unset] at active
  cases active

/-! ### Calls -/

@[simp] theorem readActive_made (state : State) (call : Call) (answer : Answer) :
    (state.made call answer).readActiveTemplate = state.readActiveTemplate := rfl

@[simp] theorem readActive_cleared (state : State) :
    (state.writeActiveTemplate none).readActiveTemplate = none := rfl

@[simp] theorem readActive_written (state : State) (name : List Char) :
    (state.writeActiveTemplate (some name)).readActiveTemplate = named name := rfl

@[simp] theorem calls_written (state : State) (name : Option (List Char)) :
    (state.writeActiveTemplate name).calls = state.calls := rfl

/-- The calls that stop the firewall. -/
def Call.Stops : Call → Prop
  | .template _ action _ => action = .stop
  | .deleteTable => True
  | .stopService => True

theorem stops_template (path : Location) (extra : List (List Char)) :
    (Call.template path .stop extra).Stops := rfl

theorem stands_stop {call : Call} (stops : call.Stops) (path : Location) (answer : Answer)
    (before : List (Call × Answer)) :
    stands path ((call, answer) :: before) = (!answer.succeeded && stands path before) := by
  cases call with
  | template other action extra =>
    obtain rfl : action = .stop := stops
    rfl
  | deleteTable => rfl
  | stopService => rfl

theorem stands_start (path other : Location) (extra : List (List Char)) (answer : Answer)
    (before : List (Call × Answer)) :
    stands path ((.template other .start extra, answer) :: before) =
      if answer.succeeded then decide (other = path) else decide (other ≠ path) && stands path before := rfl

theorem tracked_failed_stop {call : Call} (stops : call.Stops) (state : State) {answer : Answer}
    (failed : answer.succeeded = false) : Tracked host (state.made call answer) ↔ Tracked host state := by
  rw [tracked_iff, tracked_iff]
  simp [State.made, stands_stop stops, failed, State.readActiveTemplate]

theorem tracked_stopped {call : Call} (stops : call.Stops) (state : State) {answer : Answer}
    (succeeded : answer.succeeded = true) :
    Tracked host (state.made call answer) ↔ state.readActiveTemplate = none := by
  constructor
  · intro tracked
    by_contra active
    obtain ⟨name, active⟩ := Option.ne_none_iff_exists'.mp active
    obtain ⟨path, -, holds⟩ := tracked_iff.mp tracked name active
    rw [State.made, stands_stop stops, succeeded] at holds
    cases holds
  · exact fun unset => tracked_of_unset unset

theorem tracked_failed_start (state : State) (path : Location) (extra : List (List Char)) {answer : Answer}
    (failed : answer.succeeded = false) :
    Tracked host (state.made (.template path .start extra) answer) ↔
      Tracked host state ∧ Other host state path := by
  rw [tracked_iff, tracked_iff]
  constructor
  · intro tracked
    constructor
    · intro name active
      obtain ⟨other, found, holds⟩ := tracked name active
      rw [State.made, stands_start, failed] at holds
      exact ⟨other, found, (Bool.and_eq_true_iff.mp holds).2⟩
    · intro name active same
      obtain ⟨other, found, holds⟩ := tracked name active
      rw [State.made, stands_start, failed] at holds
      obtain rfl : path = other := Option.some.inj (same.symm.trans found)
      simp at holds
  · rintro ⟨tracked, apart⟩ name active
    obtain ⟨other, found, holds⟩ := tracked name active
    have distinct : path ≠ other := by
      rintro rfl
      exact apart name active found
    refine ⟨other, found, ?_⟩
    rw [State.made, stands_start, failed]
    simp [distinct, holds]

/-- A file that was started stands, whatever was recorded before. -/
theorem tracked_started (state : State) (path : Location) (extra : List (List Char)) {answer : Answer}
    (succeeded : answer.succeeded = true) (text : List Char) :
    Tracked host ((state.made (.template path .start extra) answer).writeActiveTemplate (some text)) ↔
      ∀ name, named text = some name → fileOf host name = some path := by
  rw [tracked_iff]
  refine forall₂_congr fun name active => ?_
  rw [calls_written, State.made]
  constructor
  · rintro ⟨other, found, holds⟩
    rw [stands_start, succeeded] at holds
    rw [found, of_decide_eq_true holds]
  · intro found
    refine ⟨path, found, ?_⟩
    rw [stands_start, succeeded]
    exact decide_eq_true rfl

theorem tracked_start (state : State) (path : Location) (extra : List (List Char)) (answer : Answer)
    (text : List Char) :
    Tracked host (if answer.succeeded then
      (state.made (.template path .start extra) answer).writeActiveTemplate (some text)
      else state.made (.template path .start extra) answer) ↔
    if answer.succeeded then ∀ name, named text = some name → fileOf host name = some path
    else Tracked host state ∧ Other host state path := by
  cases succeeded : answer.succeeded with
  | true => exact tracked_started state path extra succeeded text
  | false => exact tracked_failed_start state path extra succeeded

/-! ### Templates that run -/

theorem runTemplate_none {name : List Char} (begun : name ≠ []) (missing : fileOf host name = none)
    (outcomes : Outcomes) (state : State) (action : Action) (extra : List (List Char)) :
    runTemplate host outcomes state (some name) action extra =
      (state, ⟨127, [], "no firewall template available".toList⟩) := by
  rw [runTemplate, resolve_named state begun, missing]

theorem runTemplate_refused {name : List Char} {path : Location} (found : fileOf host name = some path)
    {extra : List (List Char)} (refused : extra.all Validators.validateFilename = false)
    (outcomes : Outcomes) (state : State) (action : Action) :
    ∃ err, runTemplate host outcomes state (some name) action extra = (state, ⟨127, [], err⟩) := by
  rw [runTemplate, resolve_named state (nonempty_of_fileOf found), found]
  cases bad : extra.find? (!Validators.validateFilename ·) with
  | none =>
    have all : extra.all Validators.validateFilename = true := by simpa using bad
    rw [all] at refused
    cases refused
  | some arg => exact ⟨_, rfl⟩

theorem runTemplate_ran {name : List Char} {path : Location} (found : fileOf host name = some path)
    {extra : List (List Char)} (valid : extra.all Validators.validateFilename = true) (outcomes : Outcomes)
    (state : State) (action : Action) :
    runTemplate host outcomes state (some name) action extra =
      (state.made (.template path action extra) (outcomes.answer (.template path action extra)),
        (outcomes.answer (.template path action extra)).result) := by
  have good : extra.find? (!Validators.validateFilename ·) = none := by simpa using valid
  rw [runTemplate, resolve_named state (nonempty_of_fileOf found), found, good]

/-! ### Commands -/

theorem templateInfo_of_fileOf {name : List Char} {path : Location} (found : fileOf host name = some path) :
    templateInfo host name = some (metadataName host path) := by
  simp [templateInfo, nonempty_of_fileOf found, found]

theorem cmdApply_none {args : List (List Char)} (nothing : applied host args = none) (outcomes : Outcomes)
    (state : State) : (cmdApply host outcomes state args).1 = state := by
  cases args with
  | nil => rfl
  | cons name extra =>
    rw [cmdApply]
    split
    · rfl
    · cases found : fileOf host name with
      | none =>
        have unknown : templateInfo host name = none := by simp [templateInfo, found]
        rw [unknown]
      | some path =>
        have refused : extra.all Validators.validateFilename = false := by
          simpa [applied, found] using nothing
        obtain ⟨err, ran⟩ := runTemplate_refused found refused outcomes state .start
        rw [templateInfo_of_fileOf found, ran]
        rfl

theorem cmdApply_some {args : List (List Char)} {path : Location} (starts : applied host args = some path)
    (outcomes : Outcomes) (state : State) :
    (cmdApply host outcomes state args).1 =
      if (outcomes.answer (.template path .start args.tail)).succeeded then
        (state.made (.template path .start args.tail)
          (outcomes.answer (.template path .start args.tail))).writeActiveTemplate
            (some (metadataName host path))
      else state.made (.template path .start args.tail)
        (outcomes.answer (.template path .start args.tail)) := by
  cases args with
  | nil => cases starts
  | cons name extra =>
    rw [applied] at starts
    split at starts
    next valid =>
      rw [cmdApply, if_neg (by simp [valid_of_fileOf starts]), templateInfo_of_fileOf starts]
      dsimp only
      rw [runTemplate_ran starts valid]
      exact if_congr (Answer.result_rc _) rfl rfl
    · cases starts

theorem step_apply_iff {state : State} (tracked : Tracked host state) (args : List (List Char))
    (outcomes : Outcomes) :
    Tracked host (step host state (.apply args, outcomes)) ↔ Kept host state (.apply args, outcomes) := by
  rw [step, Kept]
  cases starts : applied host args with
  | none =>
    rw [cmdApply_none starts]
    exact iff_of_true tracked (by rintro path ⟨⟩)
  | some path =>
    rw [cmdApply_some starts, tracked_start]
    simp only [Option.some.injEq, forall_eq', tracked, true_and]
    rfl

/-- What stops the firewall besides the template. -/
def Outcomes.tableStopped (outcomes : Outcomes) : Bool :=
  outcomes.succeed .deleteTable || outcomes.succeed .stopService

theorem stopTable_stopped {outcomes : Outcomes} (stopped : outcomes.tableStopped = true) (state : State) :
    (stopTable outcomes state).1.readActiveTemplate = none := by
  unfold stopTable
  dsimp only
  split
  · rfl
  next failed =>
    rw [Answer.result_rc] at failed
    have last : (outcomes.answer .stopService).succeeded = true := by
      simpa [Outcomes.tableStopped, Outcomes.succeed, failed] using stopped
    cases answer : outcomes.answer .stopService with
    | returned returncode stdout stderr =>
      rw [answer] at last
      have zero : returncode = 0 := of_decide_eq_true last
      simp [zero]
    | raised exc =>
      rw [answer] at last
      cases last

theorem stopTable_failed {outcomes : Outcomes} (failed : outcomes.tableStopped = false) (state : State) :
    (stopTable outcomes state).1 =
      (state.made .deleteTable (outcomes.answer .deleteTable)).made .stopService
        (outcomes.answer .stopService) := by
  obtain ⟨table, service⟩ := Bool.or_eq_false_iff.mp failed
  unfold stopTable
  dsimp only
  rw [if_neg (by rw [Answer.result_rc, ← Outcomes.succeed, table]; simp)]
  cases answer : outcomes.answer .stopService with
  | returned returncode stdout stderr =>
    rw [Outcomes.succeed, answer] at service
    have nonzero : returncode ≠ 0 := of_decide_eq_false service
    simp [nonzero]
  | raised exc => rfl

theorem stopTable_tracked {state : State} (tracked : Tracked host state) (outcomes : Outcomes) :
    Tracked host (stopTable outcomes state).1 := by
  cases stopped : outcomes.tableStopped with
  | true => exact tracked_of_unset (stopTable_stopped stopped state)
  | false =>
    obtain ⟨table, service⟩ := Bool.or_eq_false_iff.mp stopped
    rw [stopTable_failed stopped, tracked_failed_stop (by trivial) _ service,
      tracked_failed_stop (by trivial) _ table]
    exact tracked

theorem cmdStop_unset {state : State} (unset : state.readActiveTemplate = none) (outcomes : Outcomes) :
    (cmdStop host outcomes state).1 = (stopTable outcomes state).1 := by
  rw [cmdStop, unset]

theorem cmdStop_stopped {state : State} {name : List Char} {path : Location}
    (active : state.readActiveTemplate = some name) (found : fileOf host name = some path)
    {outcomes : Outcomes} (stopped : outcomes.succeed (.template path .stop []) = true) :
    (cmdStop host outcomes state).1.readActiveTemplate = none := by
  have succeeded : (outcomes.answer (.template path .stop [])).result.rc = 0 :=
    (Answer.result_rc _).mpr stopped
  unfold cmdStop
  rw [active]
  dsimp only
  rw [runTemplate_ran found rfl, if_pos succeeded]
  rfl

theorem cmdStop_failed {state : State} {name : List Char} {path : Location}
    (active : state.readActiveTemplate = some name) (found : fileOf host name = some path)
    {outcomes : Outcomes} (failed : outcomes.succeed (.template path .stop []) = false) :
    (cmdStop host outcomes state).1 =
      (stopTable outcomes (state.made (.template path .stop [])
        (outcomes.answer (.template path .stop [])))).1 := by
  have nonzero : (outcomes.answer (.template path .stop [])).result.rc ≠ 0 := by
    rw [ne_eq, Answer.result_rc, ← Outcomes.succeed, failed]
    exact Bool.false_ne_true
  unfold cmdStop
  rw [active]
  dsimp only
  rw [runTemplate_ran found rfl, if_neg nonzero]

theorem cmdStop_tracked {state : State} (tracked : Tracked host state) (outcomes : Outcomes) :
    Tracked host (cmdStop host outcomes state).1 := by
  cases active : state.readActiveTemplate with
  | none =>
    rw [cmdStop_unset active]
    exact stopTable_tracked tracked outcomes
  | some name =>
    obtain ⟨path, found, -⟩ := tracked_iff.mp tracked name active
    cases stopped : outcomes.succeed (.template path .stop []) with
    | true => exact tracked_of_unset (cmdStop_stopped active found stopped)
    | false =>
      rw [cmdStop_failed active found stopped]
      exact stopTable_tracked ((tracked_failed_stop (stops_template path []) state stopped).mpr tracked) outcomes

/-- The record is gone after a stop just where something stopped the firewall. -/
theorem cmdStop_active {state : State} {name : List Char} {path : Location}
    (active : state.readActiveTemplate = some name) (found : fileOf host name = some path)
    (outcomes : Outcomes) :
    (cmdStop host outcomes state).1.readActiveTemplate =
      if outcomes.succeed (.template path .stop []) || outcomes.tableStopped then none else some name := by
  cases stopped : outcomes.succeed (.template path .stop []) with
  | true => simp [cmdStop_stopped active found stopped]
  | false =>
    rw [cmdStop_failed active found stopped]
    cases table : outcomes.tableStopped with
    | true => simp [stopTable_stopped table]
    | false => simp [stopTable_failed table, active]

theorem cmdRestart_unset {state : State} (unset : state.readActiveTemplate = none) (outcomes : Outcomes) :
    (cmdRestart host outcomes state).1 = (cmdStop host outcomes state).1 := by
  rw [cmdRestart, unset]

theorem cmdRestart_active {state : State} {name : List Char} (active : state.readActiveTemplate = some name)
    (outcomes : Outcomes) :
    (cmdRestart host outcomes state).1 =
      (cmdApply host outcomes (cmdStop host outcomes state).1 [name]).1 := by
  rw [cmdRestart, active]

theorem step_restart_iff {state : State} (tracked : Tracked host state) (outcomes : Outcomes) :
    Tracked host (step host state (.restart, outcomes)) ↔ Kept host state (.restart, outcomes) := by
  rw [step, Kept]
  have stopped := cmdStop_tracked tracked outcomes
  cases active : state.readActiveTemplate with
  | none =>
    rw [cmdRestart_unset active]
    exact iff_of_true stopped (by rintro name path ⟨⟩)
  | some name =>
    obtain ⟨path, found, -⟩ := tracked_iff.mp tracked name active
    have starts : applied host [name] = some path := found
    have only : Other host (cmdStop host outcomes state).1 path ↔
        outcomes.succeed (.template path .stop []) = true ∨ outcomes.tableStopped = true := by
      unfold Other
      rw [cmdStop_active active found]
      cases outcomes.succeed (.template path .stop []) <;> cases outcomes.tableStopped <;> simp [found]
    rw [cmdRestart_active active, cmdApply_some starts, tracked_start, only, and_iff_right stopped,
      Outcomes.tableStopped, Bool.or_eq_true]
    simp only [Option.some.injEq, List.tail_cons]
    constructor
    · rintro kept other place rfl same
      obtain rfl : path = place := Option.some.inj (found.symm.trans same)
      exact kept
    · exact fun kept => kept name path rfl found

/-! ### The switch of the backend -/

theorem stops_of_stopOf {state : State} {name : List Char} {call : Call}
    (found : stopOf host state name = some call) : call.Stops := by
  rw [stopOf] at found
  split at found
  · cases found
  split at found
  · obtain ⟨path, -, rfl⟩ := Option.map_eq_some_iff.mp found
    exact stops_template path []
  · rw [← Option.some.inj found]
    trivial

theorem stopPrevious_state {state : State} {name : List Char} (other : state.readActiveBackend ≠ name)
    (outcomes : Outcomes) :
    (stopPrevious host outcomes state state.readActiveBackend).1 =
      ((stopOf host state name).map fun call => state.made call (outcomes.answer call)).getD state := by
  rw [stopPrevious, stopOf, if_neg other]
  split
  · cases found : fileOf host "cilium".toList with
    | none => rw [runTemplate_none (by decide) found]; rfl
    | some path => rw [runTemplate_ran found rfl]; rfl
  · rfl

/-- The state once the previous backend is stopped. -/
def stoppedFor (host : Host) (outcomes : Outcomes) (state : State) (name : List Char) : State :=
  ((stopOf host state name).map fun call => state.made call (outcomes.answer call)).getD state

theorem stoppedFor_active (outcomes : Outcomes) (state : State) (name : List Char) :
    (stoppedFor host outcomes state name).readActiveTemplate = state.readActiveTemplate := by
  unfold stoppedFor
  cases stopOf host state name <;> rfl

theorem stoppedFor_tracked {state : State} (tracked : Tracked host state) (outcomes : Outcomes)
    (name : List Char) : Tracked host (stoppedFor host outcomes state name) ↔
      ∀ call, stopOf host state name = some call → outcomes.succeed call →
        state.readActiveTemplate = none := by
  unfold stoppedFor
  cases stop : stopOf host state name with
  | none => exact iff_of_true tracked (by rintro call ⟨⟩)
  | some call =>
    change Tracked host (state.made call (outcomes.answer call)) ↔ _
    have stops := stops_of_stopOf stop
    cases succeeded : outcomes.succeed call with
    | true =>
      rw [tracked_stopped stops state succeeded]
      simp [succeeded]
    | false =>
      rw [tracked_failed_stop stops state succeeded]
      simp [succeeded, tracked]

theorem template_named {target : Backend} (registered : target ∈ FIREWALL_BACKENDS) {outcomes : Outcomes}
    {template : List Char} (auto : autoApplied outcomes target = some template) :
    named template = some template := by
  obtain ⟨own, -⟩ := Option.filter_eq_some_iff.mp auto
  simp only [FIREWALL_BACKENDS, List.mem_cons, List.not_mem_nil, or_false] at registered
  rcases registered with rfl | rfl | rfl
  · cases own
  · rw [← Option.some.inj own]
    decide
  · rw [← Option.some.inj own]
    decide

theorem applyBackend_tracked {target : Backend} (registered : target ∈ FIREWALL_BACKENDS)
    (outcomes : Outcomes) (state : State) :
    Tracked host (applyBackend host outcomes state target).1 ↔
      (∃ path, startOf host outcomes target = some path ∧ outcomes.succeed (.template path .start [])) ∨
      Tracked host state ∧ ∀ path, startOf host outcomes target = some path → Other host state path := by
  unfold applyBackend startOf
  cases auto : autoApplied outcomes target with
  | none => simp
  | some template =>
    have own := template_named registered auto
    dsimp only
    rw [Option.bind_some]
    cases found : fileOf host template with
    | none =>
      rw [runTemplate_none (named_nonempty own) found]
      simp
    | some path =>
      rw [runTemplate_ran found rfl]
      dsimp only
      rw [if_congr (Answer.result_rc _) rfl rfl, tracked_start]
      cases succeeded : (outcomes.answer (.template path .start [])).succeeded with
      | true => simp [own, found, Outcomes.succeed, succeeded]
      | false => simp [Outcomes.succeed, succeeded]

theorem valid_of_registered {name : List Char} {target : Backend}
    (found : FIREWALL_BACKENDS.find? (·.id = name) = some target) :
    Validators.validateBackendName name = true := by
  have same : target.id = name := by simpa using List.find?_some found
  have registered := List.mem_of_find?_eq_some found
  simp only [FIREWALL_BACKENDS, List.mem_cons, List.not_mem_nil, or_false] at registered
  rw [← same]
  rcases registered with rfl | rfl | rfl <;> decide

theorem cmdSwitchBackend_state {name : List Char} {target : Backend}
    (found : FIREWALL_BACKENDS.find? (·.id = name) = some target) (rest : List (List Char))
    (outcomes : Outcomes) (state : State) :
    (cmdSwitchBackend host outcomes state (name :: rest)).1 =
      (applyBackend host outcomes
        ((stoppedFor host outcomes state name).writeActiveBackend name) target).1 := by
  rw [cmdSwitchBackend, if_neg (by simp [valid_of_registered found]), found]
  dsimp only
  by_cases same : state.readActiveBackend = name
  · have unstopped : stopOf host state name = none := by rw [stopOf, if_pos same]
    rw [if_pos same, stoppedFor, unstopped]
    rfl
  · rw [if_neg same, stoppedFor, ← stopPrevious_state same]

theorem step_switch_iff {state : State} (tracked : Tracked host state) (args : List (List Char))
    (outcomes : Outcomes) :
    Tracked host (step host state (.switchBackend args, outcomes)) ↔
      Kept host state (.switchBackend args, outcomes) := by
  rw [step, Kept]
  cases args with
  | nil => exact iff_of_true tracked (by rintro name ⟨⟩)
  | cons name rest =>
    cases found : FIREWALL_BACKENDS.find? (·.id = name) with
    | none =>
      have unchanged : (cmdSwitchBackend host outcomes state (name :: rest)).1 = state := by
        rw [cmdSwitchBackend]
        split
        · rfl
        · rw [found]
      rw [unchanged]
      refine iff_of_true tracked ?_
      rintro other ⟨⟩ target registered
      rw [found] at registered
      cases registered
    | some target =>
      have only : (∀ other, (name :: rest).head? = some other → ∀ target',
          FIREWALL_BACKENDS.find? (·.id = other) = some target' →
            (∃ path, startOf host outcomes target' = some path ∧
              outcomes.succeed (.template path .start [])) ∨
            (∀ call, stopOf host state other = some call → outcomes.succeed call →
              state.readActiveTemplate = none) ∧
            ∀ path, startOf host outcomes target' = some path → Other host state path) ↔
          (∃ path, startOf host outcomes target = some path ∧
            outcomes.succeed (.template path .start [])) ∨
          (∀ call, stopOf host state name = some call → outcomes.succeed call →
            state.readActiveTemplate = none) ∧
          ∀ path, startOf host outcomes target = some path → Other host state path := by
        simp [found]
      rw [only, cmdSwitchBackend_state found, applyBackend_tracked (List.mem_of_find?_eq_some found)]
      refine or_congr_right (and_congr ?_ (forall₂_congr fun path _ => ?_))
      · exact stoppedFor_tracked tracked outcomes name
      · unfold Other
        change (∀ other, (stoppedFor host outcomes state name).readActiveTemplate = some other → _) ↔ _
        rw [stoppedFor_active]

/-- A step keeps the record true just where the condition holds. -/
theorem step_tracked_iff {state : State} (tracked : Tracked host state) (next : Command × Outcomes) :
    Tracked host (step host state next) ↔ Kept host state next := by
  obtain ⟨command, outcomes⟩ := next
  cases command with
  | apply args => exact step_apply_iff tracked args outcomes
  | stop => exact iff_of_true (cmdStop_tracked tracked outcomes) trivial
  | restart => exact step_restart_iff tracked outcomes
  | switchBackend args => exact step_switch_iff tracked args outcomes

/-- In a run from no active template, the record is true in every state reached just where the condition
holds at each step. -/
theorem always_tracked_iff (backend : Option (List Char)) (steps : List (Command × Outcomes)) :
    (∀ before after, steps = before ++ after →
      Tracked host (Execution.run (step host) (initial backend) before)) ↔
      Execution.Along (step host) (Kept host) (initial backend) steps :=
  @Execution.always_iff_along _ _ (step host) (fun _ => True) (Tracked host) (fun _ _ => True) (Kept host)
    (fun _ _ _ _ => trivial) (fun _ next _ _ tracked => step_tracked_iff tracked next) _ trivial
    (tracked_of_unset rfl) _ (Execution.along_of_forall (fun _ _ => trivial) _ _)

/-- A host with one template. -/
def webHost : Host where
  tree place :=
    if place = ["web.sh", "templates", "firewall", "sysdeck", "share", "usr"] then some .file
    else some .directory
  depth := 0
  contents _ := some "#!/usr/bin/env bash\n# Name: web\n".toList
  installed := [["web.sh", "templates", "firewall", "sysdeck", "share", "usr"]]
  repr name := name

/-- Every call succeeds. -/
def succeeding : Outcomes := ⟨fun _ => .returned 0 [] [], true, false, false⟩

/-- A template is applied, and the backend switched. -/
def switching : List (Command × Outcomes) :=
  [(.apply ["web".toList], succeeding), (.switchBackend ["cilium".toList], succeeding)]

theorem the_record_outlives_the_table :
    (Execution.run (step webHost) (initial none) switching).readActiveTemplate = some "web".toList ∧
      ¬Tracked webHost (Execution.run (step webHost) (initial none) switching) := by
  have active : (Execution.run (step webHost) (initial none) switching).readActiveTemplate =
      some "web".toList := rfl
  refine ⟨active, fun tracked => ?_⟩
  obtain ⟨path, -, -, holds⟩ := tracked _ active
  -- the last call has deleted the table
  change (!true && stands path _) = true at holds
  cases holds

end SysDeck.Cockpit.ActiveTemplate
