import SysDeck.Fester.Runs

/-! Dependency safety: an action is entered only after its dependencies are done,
so nothing downstream of a failed, skipped or cancelled action ever starts. -/

namespace SysDeck.Fester

variable {hashAction : HashedAction → String}

/-- An action that has ended keeps its state. -/
theorem View.ended {context : Context} {action changed : ActionNode} {events : List FesterEvent}
    (view : View hashAction context action events changed)
    (valid : StateAt hashAction context.run action) (ended : action.state.terminal = true) :
    changed.state = action.state := by
  cases view with
  | still => rfl
  | gated move => exact move.frame.2.2
  | acted step =>
    cases step with
    | enter | abandon | again | stamp => rfl
    | skip now live pending | windDown now cancelled pending =>
      rw [pending] at ended
      cases ended
    | cancel now decision leaves cancelled =>
      have holding := (valid.leaving leaves).1
      cases state : action.state <;> simp [state, ActionState.terminal, ActionState.occupying] at *
    | schedule now decision next point | cached now decision key point | start now attempt point
    | retry now attempt point | fail now attempt point | done now attempt point =>
      exfalso
      cases state : action.state <;> simp [StateAt, point, state, ActionState.terminal] at *

/-- A test that only ended states pass stays true of a dependency. -/
theorem Micro.dependency {context next : Context} (step : Micro hashAction context next)
    (valid : RunInvariant hashAction context.run) {dep : String} {test : ActionState → Bool}
    (final : ∀ state, test state = true → state.terminal = true)
    (holds : context.run.dependency dep test = true) : next.run.dependency dep test = true := by
  obtain ⟨action, found, passes⟩ := BuildRun.dependency_iff.mp holds
  obtain ⟨changed, events, present, _, view⟩ := step.view found (valid.named dep action found)
  refine BuildRun.dependency_iff.mpr ⟨changed, present, ?_⟩
  rw [view.ended (valid.coherent dep action found).1 (final _ passes)]
  exact passes

/-- The event announces that its action is scheduled or runs an attempt. -/
def FesterEvent.starts (event : FesterEvent) : Bool :=
  event.type = .taskUpdate &&
    (event.state = some ActionState.scheduled.text || event.state = some ActionState.running.text)

/-- The action was entered with its dependencies done, or has started nothing. -/
structure Cleared (run : BuildRun) (action : ActionNode) : Prop where
  entered : action.point ≠ .idle → run.depsDone action
  untouched : action.point = .idle → ∀ event ∈ run.eventsOf action.name, event.starts = false

/-- An idle action stays idle only through steps that start nothing. -/
theorem ActionStep.cleared {context : Context} {action changed : ActionNode}
    {events : List FesterEvent} {slot : Slot} {key : Option String}
    (step : ActionStep hashAction context action events slot key changed)
    (entered : action.point ≠ .idle → context.run.depsDone action) :
    (changed.point ≠ .idle → context.run.depsDone action) ∧
      (changed.point = .idle → action.point = .idle ∧ ∀ event ∈ events, event.starts = false) := by
  cases step with
  | enter running live member pending idle ready => exact ⟨fun _ => ready, by simp⟩
  | skip now live pending idle => exact ⟨entered, fun _ => ⟨idle, by simp [BuildRun.skippedEvent,
      BuildRun.taskUpdate, FesterEvent.starts, ActionState.text]⟩⟩
  | windDown now cancelled pending halted =>
    exact ⟨entered, fun idle => ⟨idle, by simp [BuildRun.windDownEvent, BuildRun.taskUpdate,
      FesterEvent.starts, ActionState.text]⟩⟩
  | schedule now decision next point live registered onward =>
    refine ⟨fun _ => entered (by simp [point]), fun idle => ?_⟩
    rcases onward with ⟨rfl, _⟩ | ⟨rfl, _⟩ <;> cases idle
  | cancel now decision leaves =>
    refine ⟨fun _ => entered fun idle => ?_, by simp⟩
    rw [idle] at leaves
    cases leaves
  | abandon point | cached now decision key point | start now attempt point
  | retry now attempt point | fail now attempt point | done now attempt point
  | again attempt point | stamp now decision point =>
    exact ⟨fun _ => entered (by simp [point]), by simp⟩

theorem Cleared.micro {before after : Context} (valid : RunInvariant hashAction before.run)
    (step : Micro hashAction before after)
    (cleared : ∀ name action, before.run.actions.find? name = some action →
      Cleared before.run action) :
    ∀ name action, after.run.actions.find? name = some action → Cleared after.run action := by
  intro name changed found
  obtain ⟨action, events, present, appended, view⟩ := step.before valid.named found
  obtain ⟨sameName, sameDeps⟩ := view.identity
  have owner : action.name = name := valid.named name action present
  have carried : before.run.depsDone action → after.run.depsDone changed := by
    intro done dep needed
    rw [sameDeps] at needed
    exact step.dependency valid (fun state => by cases state <;> decide) (done dep needed)
  have log : after.run.eventsOf changed.name = before.run.eventsOf action.name ++ events := by
    rw [sameName, owner, appended]
  obtain ⟨entered, untouched⟩ := cleared name action present
  cases view with
  | still => exact ⟨fun moved => carried (entered moved), by simpa [log] using untouched⟩
  | gated move =>
    refine ⟨fun _ => carried (entered ?_), fun idle => ?_⟩
    · cases move <;> simp [*]
    · cases move <;> cases idle
  | acted step =>
    obtain ⟨onward, resting⟩ := step.cleared entered
    refine ⟨fun moved => carried (onward moved), fun idle => ?_⟩
    obtain ⟨before, quiet⟩ := resting idle
    rw [log]
    intro event member
    rcases List.mem_append.mp member with old | new
    · exact untouched before event old
    · exact quiet event new

theorem cleared_after (labels : List Label) {index : Nat} {run : BuildRun}
    (found : (Engine.after hashAction labels).created[index]? = some run) :
    RunInvariant hashAction run ∧
      ∀ name action, run.actions.find? name = some action → Cleared run action := by
  refine Engine.runs_invariant (motive := fun run => ∀ name action,
    run.actions.find? name = some action → Cleared run action) ?_
    (fun _ _ valid step => Cleared.micro valid step) labels found
  intro now project targets opts name action present
  obtain ⟨_, _, step, _, _, rfl⟩ := newRun_origin present
  exact ⟨fun moved => absurd rfl moved, fun _ => by
    simp [newRun, BuildRun.eventsOf, BuildRun.emit, BuildRun.pipelineUpdate]⟩

/-- A started action has left the idle point. -/
theorem StateAt.moved {run : BuildRun} {action : ActionNode} (valid : StateAt hashAction run action)
    (started : action.state.started = true) : action.point ≠ .idle := by
  intro idle
  simp only [StateAt, idle] at valid
  rcases valid with state | state | state <;> simp [state, ActionState.started] at started

/-- Everything upstream of an entered action is done. -/
theorem upstream_done {run : BuildRun} (valid : RunInvariant hashAction run)
    (cleared : ∀ name action, run.actions.find? name = some action → Cleared run action)
    {upstream name : String} (waits : DependencyOrder.Dependent run.depsOf upstream name)
    {action : ActionNode} (found : run.actions.find? name = some action)
    (entered : action.point ≠ .idle) : run.dependency upstream (· == .done) = true := by
  induction waits generalizing action with
  | single needed =>
    rw [BuildRun.depsOf_of_find? found] at needed
    exact (cleared _ action found).entered entered upstream needed
  | tail _ needed ih =>
    rw [BuildRun.depsOf_of_find? found] at needed
    obtain ⟨middle, present, done⟩ :=
      BuildRun.dependency_iff.mp ((cleared _ action found).entered entered _ needed)
    have finished : middle.state = .done := by simpa using done
    exact ih present ((valid.coherent _ middle present).1.moved (by rw [finished]; rfl))

/-- A name that waits for another one is an action of the run. -/
theorem BuildRun.find?_of_dependent {run : BuildRun} {upstream name : String}
    (waits : DependencyOrder.Dependent run.depsOf upstream name) :
    ∃ action, run.actions.find? name = some action := by
  have needed : ∃ dep, dep ∈ run.depsOf name := by
    cases waits with
    | single needed => exact ⟨_, needed⟩
    | tail _ needed => exact ⟨_, needed⟩
  obtain ⟨dep, member⟩ := needed
  cases found : run.actions.find? name with
  | some action => exact ⟨action, rfl⟩
  | none => simp [depsOf, found] at member

/-- The graph of a run and its failed, skipped or cancelled actions stay as they are. -/
theorem Evolves.blocking {run final : BuildRun} (evolves : Evolves hashAction run final)
    (valid : RunInvariant hashAction run) {name : String}
    (blocked : run.dependency name ActionState.blocking = true) :
    final.depsOf = run.depsOf ∧ final.dependency name ActionState.blocking = true := by
  refine (evolves.preserves (motive := fun next => next.depsOf = run.depsOf ∧
    next.dependency name ActionState.blocking = true) ?_ valid ⟨rfl, blocked⟩).2
  intro before after sound step ⟨graph, holds⟩
  exact ⟨(step.depsOf_eq sound.named).trans graph,
    step.dependency sound (fun state => by cases state <;> decide) holds⟩

/-- Over every interleaving: an action past its dependencies has all of them done,
and nothing downstream of a failed, skipped or cancelled action ever starts. -/
theorem dependency_safety (hashAction : HashedAction → String) (labels later : List Label)
    {index : Nat} {run : BuildRun}
    (found : (Engine.after hashAction labels).created[index]? = some run) :
    (∀ name action, run.actions.find? name = some action → action.state.started = true →
      ∀ dep ∈ action.deps, ∃ upstream, run.actions.find? dep = some upstream ∧
        upstream.state = .done) ∧
    ∀ name action, run.actions.find? name = some action → action.state.blocking = true →
      ∃ final, (Engine.after hashAction (labels ++ later)).created[index]? = some final ∧
        ∀ dependent, DependencyOrder.Dependent run.depsOf name dependent →
          (∀ waiter, final.actions.find? dependent = some waiter → waiter.state.started = false) ∧
            ∀ event ∈ final.eventsOf dependent, event.starts = false := by
  obtain ⟨valid, cleared⟩ := cleared_after labels found
  constructor
  · intro name action present started dep needed
    have entered := (valid.coherent name action present).1.moved started
    obtain ⟨upstream, seen, done⟩ :=
      BuildRun.dependency_iff.mp ((cleared name action present).entered entered dep needed)
    exact ⟨upstream, seen, by simpa using done⟩
  · intro name action present blocking
    obtain ⟨final, reached, evolves⟩ :=
      Engine.run_evolves (Engine.sound_after labels) later found
    rw [← Engine.after_append] at reached
    obtain ⟨current, finalCleared⟩ := cleared_after (labels ++ later) reached
    obtain ⟨graph, blocked⟩ :=
      evolves.blocking valid (BuildRun.dependency_iff.mpr ⟨action, present, blocking⟩)
    refine ⟨final, reached, ?_⟩
    intro dependent waits
    rw [← graph] at waits
    obtain ⟨waiter, listed⟩ := BuildRun.find?_of_dependent waits
    have owner : waiter.name = dependent := current.named dependent waiter listed
    have idle : waiter.point = .idle := by
      by_contra moved
      have done := upstream_done current finalCleared waits listed moved
      obtain ⟨upstream, seen, finished⟩ := BuildRun.dependency_iff.mp done
      have state : upstream.state = .done := by simpa using finished
      simp [BuildRun.dependency, seen, state, ActionState.blocking] at blocked
    refine ⟨?_, ?_⟩
    · intro other same
      obtain rfl := Option.some.inj (listed.symm.trans same)
      by_contra started
      exact (current.coherent dependent waiter listed).1.moved (by simpa using started) idle
    · rw [← owner]
      exact (finalCleared dependent waiter listed).untouched idle

/-- A build whose first action runs out of attempts. -/
def failingBuild : List Label :=
  let decision : ScheduleDecision := ⟨"ryzen-1", 10, "free"⟩
  [.startBuild 0 "nginx" ["main"] { failAction := some "nginx:main:fetch" },
    .resume 1 0 "nginx:main:fetch" decision, .resume 2 0 "nginx:main:fetch" decision,
    .resume 3 0 "nginx:main:fetch" decision]

theorem dependency_safety_failing :
    ∃ run, (Engine.after HashedAction.name failingBuild).created[0]? = some run ∧
      run.dependency "nginx:main:fetch" (· == .failed) = true ∧
      ∃ final, (Engine.after HashedAction.name (failingBuild ++ [.nextWave 4 0])).created[0]? =
          some final ∧
        ∀ event ∈ final.eventsOf "nginx:main:toolchain", event.starts = false := by
  obtain ⟨run, found⟩ := Option.isSome_iff_exists.mp
    (show ((Engine.after HashedAction.name failingBuild).created[0]?).isSome = true by decide)
  have failed : run.dependency "nginx:main:fetch" (· == .failed) = true := by
    have seen : ((Engine.after HashedAction.name failingBuild).created[0]?).any
        (fun run => run.dependency "nginx:main:fetch" (· == .failed)) = true := by decide
    simpa [found] using seen
  have waits : run.depsOf "nginx:main:toolchain" = ["nginx:main:fetch"] := by
    have seen : ((Engine.after HashedAction.name failingBuild).created[0]?).map
        (fun run => run.depsOf "nginx:main:toolchain") = some ["nginx:main:fetch"] := by decide
    simpa [found] using seen
  obtain ⟨action, present, state⟩ := BuildRun.dependency_iff.mp failed
  have blocking : action.state.blocking = true := by
    rw [show action.state = .failed by simpa using state]
    rfl
  obtain ⟨final, reached, quiet⟩ :=
    (dependency_safety HashedAction.name failingBuild [.nextWave 4 0] found).2
      "nginx:main:fetch" action present blocking
  have dependent : DependencyOrder.Dependent run.depsOf "nginx:main:fetch" "nginx:main:toolchain" :=
    .single (by simp [waits])
  exact ⟨run, found, failed, final, reached, (quiet _ dependent).2⟩

end SysDeck.Fester
