import SysDeck.Fester.Refinement
import SysDeck.Library.Execution

/-! Reachable engines: every run ever created satisfies the run invariant, and
what every move preserves holds of it in every state reached. -/

namespace SysDeck.Fester

variable {hashAction : HashedAction → String}

/-- The action map of a build holds its steps, each after its dependencies. -/
structure Assembled (failAction : Option String) (steps : List BuildStep)
    (actions : OrderedMap String ActionNode) : Prop where
  origin : ∀ name action, actions.find? name = some action →
    ∃ step ∈ steps, step.name = name ∧ action = newAction failAction step
  ordered : DependencyOrder.Topological actions.keys
    fun name => ((actions.find? name).map (·.deps)).getD []

theorem Assembled.set {failAction : Option String} {steps : List BuildStep}
    {actions : OrderedMap String ActionNode} (built : Assembled failAction steps actions)
    {step : BuildStep} (member : step ∈ steps)
    (unique : ∀ other ∈ steps, other.name = step.name → other = step)
    (grounded : ∀ dep ∈ step.deps, dep ∈ actions.keys) :
    Assembled failAction steps (actions.set step.name (newAction failAction step)) := by
  cases found : actions.find? step.name with
  | some action =>
    obtain ⟨other, listed, same, rfl⟩ := built.origin step.name action found
    rw [unique other listed same] at found
    rw [OrderedMap.set_eq_self found]
    exact built
  | none =>
    have keys := OrderedMap.keys_set_of_absent (newAction failAction step) found
    refine ⟨?_, ?_⟩
    · intro name action present
      rw [OrderedMap.find?_set] at present
      split at present
      · rename_i same
        obtain rfl := Option.some.inj present
        exact ⟨step, member, same.symm, rfl⟩
      · exact built.origin name action present
    · rw [keys]
      have old : DependencyOrder.Topological actions.keys fun name =>
          (((actions.set step.name (newAction failAction step)).find? name).map (·.deps)).getD [] := by
        apply built.ordered.congr
        intro name listed
        have differ : name ≠ step.name := by
          rintro rfl
          exact OrderedMap.find?_eq_none_iff.mp found listed
        simp only [OrderedMap.find?_set_ne _ _ differ]
      apply old.concat
      intro dep needed
      simp only [OrderedMap.find?_set_self, Option.map_some, Option.getD_some] at needed
      exact grounded dep needed

private theorem assembled_fold {failAction : Option String} {steps : List BuildStep}
    (unique : ∀ first ∈ steps, ∀ second ∈ steps, first.name = second.name → first = second)
    (rest : List BuildStep) (subset : ∀ step ∈ rest, step ∈ steps) (known : List String)
    (grounded : Grounded known rest) {actions : OrderedMap String ActionNode}
    (listed : ∀ name ∈ known, name ∈ actions.keys) (built : Assembled failAction steps actions) :
    Assembled failAction steps (rest.foldl
      (fun actions step => actions.set step.name (newAction failAction step)) actions) := by
  induction rest generalizing known actions with
  | nil => exact built
  | cons step rest ih =>
    have member := subset step (by simp)
    refine ih (fun other later => subset other (List.mem_cons_of_mem _ later))
      (known ++ [step.name]) grounded.2 ?_
      (built.set member (fun other present => unique other present step member)
        fun dep needed => listed dep (grounded.1 dep needed))
    intro name present
    rw [OrderedMap.mem_keys_iff]
    rw [OrderedMap.find?_set]
    by_cases same : name = step.name
    · exact ⟨_, if_pos same⟩
    · rw [if_neg same]
      have before : name ∈ known := by simpa [same] using present
      exact OrderedMap.mem_keys_iff.mp (listed name before)

theorem buildActions_assembled (project : String) (targets : List String)
    (failAction : Option String) :
    Assembled failAction (targets.flatMap (stepsFor project))
      (buildActions project targets failAction) := by
  have unique : ∀ first ∈ targets.flatMap (stepsFor project),
      ∀ second ∈ targets.flatMap (stepsFor project), first.name = second.name → first = second := by
    intro first member second member' same
    obtain ⟨target, _, inside⟩ := List.mem_flatMap.mp member
    obtain ⟨target', _, inside'⟩ := List.mem_flatMap.mp member'
    exact stepsFor_unique inside inside' same
  refine assembled_fold unique _ (fun _ member => member) [] (grounded_targets [] project targets)
    (by simp) ⟨?_, ?_⟩
  · intro name action found
    cases found
  · exact DependencyOrder.topological_nil _

/-- Every action of a new run is a fresh action of one of its generated steps. -/
theorem newRun_origin {now : Nat} {project : String} {targets : List String} {opts : BuildOptions}
    {name : String} {action : ActionNode}
    (found : (newRun now project targets opts).actions.find? name = some action) :
    ∃ target ∈ targets, ∃ step ∈ stepsFor project target,
      step.name = name ∧ action = newAction opts.failAction step := by
  obtain ⟨step, member, named, fresh⟩ :=
    (buildActions_assembled project targets opts.failAction).origin name action found
  obtain ⟨target, listed, inside⟩ := List.mem_flatMap.mp member
  exact ⟨target, listed, step, inside, named, fresh⟩

theorem newRun_settled (now : Nat) (project : String) (targets : List String)
    (opts : BuildOptions) : (newRun now project targets opts).settled := by
  intro action member
  obtain ⟨name, found⟩ := OrderedMap.mem_values_iff.mp member
  obtain ⟨_, _, step, _, _, rfl⟩ := newRun_origin found
  rfl

theorem newRun_invariant (now : Nat) (project : String) (targets : List String)
    (opts : BuildOptions) : RunInvariant hashAction (newRun now project targets opts) where
  named := by
    intro name action found
    obtain ⟨_, _, step, _, named, rfl⟩ := newRun_origin found
    exact named
  ordered := (buildActions_assembled project targets opts.failAction).ordered
  coherent := by
    intro name action found
    obtain ⟨_, _, step, _, _, rfl⟩ := newRun_origin found
    exact ⟨.inl rfl, by simp [newAction]⟩

/-- The calls that create a run, with the project and the clock they read. -/
def Label.call? : Label → Option (String × Nat)
  | .startBuild now project _ _ => some (project, now)
  | _ => none

/-- The context in which startBuild enters the wave loop of the new run. -/
def startContext (engine : Engine) (run : BuildRun) : Context :=
  { engine.context run with
    store := (engine.store.createBuild run.buildId run.project run.targets run.startedAt).updateBuild
      run.buildId { state := some .running, actionsTotal := some run.actions.size } }

/-- The code of one run that a label executes: a coroutine up to its next
suspension, a turn of the wave loop, or an accepted command. -/
inductive Segment (hashAction : HashedAction → String) (engine : Engine) (index : Nat)
    (run : BuildRun) : Label → Context → Prop where
  | resume {now : Nat} {action : ActionNode} {decision : ScheduleDecision} {next : Context}
      (found : run.actions.find? action.name = some action)
      (resumed : executeAction hashAction now decision (engine.context run) action = some next) :
      Segment hashAction engine index run (.resume now index action.name decision) next
  | wave {now : Nat} (running : run.state = .running) (halted : run.settled) :
      Segment hashAction engine index run (.nextWave now index)
        (executeRun now (engine.context run))
  | cancel {buildId : String} (named : engine.lookup buildId = some (index, run))
      (running : run.state = .running) (calm : run.calm) :
      Segment hashAction engine index run (.cancelBuild buildId)
        { engine.context run with run := cancelRun run }
  | command {now : Nat} {buildId command state : String} {changed : BuildRun}
      (named : engine.lookup buildId = some (index, run)) (calm : run.calm)
      (reply : debugRun now command run = some (changed, state)) :
      Segment hashAction engine index run (.debuggerCommand now buildId command)
        { engine.context run with run := changed }

/-- A command other than the three of the debugger does nothing. -/
theorem debugRun_cases {now : Nat} {command state : String} {run changed : BuildRun}
    (reply : debugRun now command run = some (changed, state)) :
    changed = pauseRun now run ∨ changed = resumeRun now run ∨ changed = stepRun now run := by
  unfold debugRun at reply
  split at reply <;> cases reply
  · exact .inl rfl
  · exact .inr (.inl rfl)
  · exact .inr (.inr rfl)

theorem Segment.moves {engine : Engine} {index : Nat} {run : BuildRun} {label : Label}
    {next : Context} (segment : Segment hashAction engine index run label next)
    (valid : RunInvariant hashAction run) : Moves hashAction (engine.context run) next := by
  cases segment with
  | resume found resumed => exact executeAction_moves found resumed
  | wave running halted => exact executeRun_moves valid _ running halted
  | cancel named running calm =>
    have step : Micro hashAction (engine.context run)
        { engine.context run with run := cancelRun run } := .cancel running calm
    exact .single step
  | @command now _ _ _ _ named calm reply =>
    rcases debugRun_cases reply with rfl | rfl | rfl
    · have step : Micro hashAction (engine.context run)
          { engine.context run with run := pauseRun now run } := .pause now calm
      exact .single step
    · have step : Micro hashAction (engine.context run)
          { engine.context run with run := resumeRun now run } := .resume now calm
      exact .single step
    · have step : Micro hashAction (engine.context run)
          { engine.context run with run := stepRun now run } := .step now calm
      exact .single step

/-- What one step of the engine can do. -/
inductive EngineStep (hashAction : HashedAction → String) (engine : Engine) (label : Label) :
    Engine → Prop where
  | still (quiet : label.call? = none) (store : Store)
      (same : store.settled = engine.store.settled) :
      EngineStep hashAction engine label { engine with store }
  | run (quiet : label.call? = none) {index : Nat} {run : BuildRun} {next : Context}
      (found : engine.created[index]? = some run)
      (segment : Segment hashAction engine index run label next)
      (moves : Moves hashAction (engine.context run) next) :
      EngineStep hashAction engine label (engine.update index next)
  | start {now : Nat} {project : String} {targets : List String} {opts : BuildOptions}
      {next : Context} (call : label = .startBuild now project targets opts)
      (turn : next = executeRun now (startContext engine (newRun now project targets opts)))
      (moves : Moves hashAction (startContext engine (newRun now project targets opts)) next) :
      EngineStep hashAction engine label
        { created := engine.created ++ [next.run],
          runs := engine.runs.set (newRun now project targets opts).buildId engine.created.length,
          nodes := next.nodes, cas := next.cas, store := next.store }

/-- Every run object satisfies the run invariant. -/
def Engine.Sound (hashAction : HashedAction → String) (engine : Engine) : Prop :=
  ∀ (index : Nat) (run : BuildRun), engine.created[index]? = some run → RunInvariant hashAction run

theorem EngineStep.unchanged {engine : Engine} {label : Label} (quiet : label.call? = none) :
    EngineStep hashAction engine label engine :=
  .still quiet engine.store rfl

theorem Engine.lookup_eq_some {engine : Engine} {buildId : String} {index : Nat} {run : BuildRun}
    (found : engine.lookup buildId = some (index, run)) :
    engine.runs.find? buildId = some index ∧ engine.created[index]? = some run := by
  simp only [lookup, Option.bind_eq_bind, Option.bind_eq_some_iff, Option.some.injEq,
    Prod.mk.injEq] at found
  obtain ⟨_, named, _, present, rfl, rfl⟩ := found
  exact ⟨named, present⟩

/-- A quiescent engine has no microtask of any run queued. -/
theorem Engine.calm {engine : Engine} (quiescent : engine.quiescent = true) {index : Nat}
    {run : BuildRun} (found : engine.created[index]? = some run) : run.calm := by
  have idle := List.all_eq_true.mp quiescent run (List.mem_of_getElem? found)
  simp only [BuildRun.microtask, Bool.not_or, Bool.and_eq_true, Bool.not_eq_true',
    List.any_eq_false] at idle
  intro action member
  simpa using idle.1 action member

theorem Segment.engineStep {engine : Engine} (sound : engine.Sound hashAction) {index : Nat}
    {run : BuildRun} {label : Label} {next : Context}
    (segment : Segment hashAction engine index run label next)
    (found : engine.created[index]? = some run) :
    EngineStep hashAction engine label (engine.update index next) := by
  refine .run ?_ found segment (segment.moves (sound index run found))
  cases segment <;> rfl

theorem Engine.step_cases {engine : Engine} (sound : engine.Sound hashAction) (label : Label) :
    EngineStep hashAction engine label (engine.step hashAction label) := by
  cases label with
  | startBuild now project targets opts =>
    exact .start rfl rfl (executeRun_moves (newRun_invariant now project targets opts) now rfl
      (newRun_settled now project targets opts))
  | resume now index name decision =>
    simp only [step, step?, Option.bind_eq_bind]
    cases found : engine.created[index]? with
    | none => exact .unchanged rfl
    | some run =>
      cases present : run.actions.find? name with
      | none =>
        simp only [Option.bind_some, present, Option.bind_none, Option.getD_none]
        exact .unchanged rfl
      | some action =>
        simp only [Option.bind_some, present]
        cases resumed : executeAction hashAction now decision (engine.context run) action with
        | none => exact .unchanged rfl
        | some next =>
          obtain rfl := (sound index run found).named name action present
          exact Segment.engineStep sound (.resume present resumed) found
  | nextWave now index =>
    simp only [step, step?, Option.bind_eq_bind]
    cases found : engine.created[index]? with
    | none => exact .unchanged rfl
    | some run =>
      simp only [Option.bind_some]
      split
      · rename_i complete
        simp only [Bool.and_eq_true, decide_eq_true_eq, List.all_eq_true] at complete
        exact Segment.engineStep sound (.wave complete.1 complete.2) found
      · exact .unchanged rfl
  | cancelBuild buildId =>
    simp only [step, step?]
    split
    · rename_i quiescent
      simp only [Option.getD_some, SysDeck.Fester.cancelBuild]
      cases named : engine.lookup buildId with
      | none => exact .unchanged rfl
      | some entry =>
        obtain ⟨index, run⟩ := entry
        have found := (lookup_eq_some named).2
        dsimp only
        by_cases running : run.state = .running
        · rw [if_neg (not_not.mpr running)]
          exact Segment.engineStep sound (.cancel named running (calm quiescent found)) found
        · rw [if_pos running]
          exact .unchanged rfl
    · exact .unchanged rfl
  | debuggerCommand now buildId command =>
    simp only [step, step?]
    split
    · rename_i quiescent
      simp only [Option.getD_some, SysDeck.Fester.debuggerCommand]
      cases named : engine.lookup buildId with
      | none => exact .unchanged rfl
      | some entry =>
        obtain ⟨index, run⟩ := entry
        have found := (lookup_eq_some named).2
        dsimp only
        cases reply : debugRun now command run with
        | none => exact .unchanged rfl
        | some result =>
          exact Segment.engineStep sound (.command named (calm quiescent found) reply) found
    · exact .unchanged rfl
  | flush => exact .still rfl _ (Store.settled_flush _)

/-- An entry of a list with one more at its end. -/
theorem getElem?_concat_cases {Entry : Type} {entries : List Entry} {last : Entry} {index : Nat}
    {entry : Entry} (found : (entries ++ [last])[index]? = some entry) :
    entries[index]? = some entry ∨ (index = entries.length ∧ entry = last) := by
  rw [List.getElem?_append] at found
  split at found
  · exact .inl found
  · rename_i beyond
    have bound := (List.getElem?_eq_some_iff.mp found).1
    have here : index - entries.length = 0 := by
      rw [List.length_singleton] at bound
      omega
    rw [here] at found
    exact .inr ⟨by omega, (Option.some.inj found).symm⟩

theorem getElem?_concat_of_eq_some {Entry : Type} {entries : List Entry} {index : Nat}
    {entry : Entry} (found : entries[index]? = some entry) (last : Entry) :
    (entries ++ [last])[index]? = some entry := by
  rw [List.getElem?_append_left (List.getElem?_eq_some_iff.mp found).1, found]

theorem Engine.getElem?_update {engine : Engine} {index : Nat} {run : BuildRun}
    (found : engine.created[index]? = some run) (next : Context) (other : Nat) :
    (engine.update index next).created[other]? =
      if other = index then some next.run else engine.created[other]? := by
  obtain ⟨bound, _⟩ := List.getElem?_eq_some_iff.mp found
  by_cases same : other = index
  · subst same
    simp [update, bound]
  · simp [update, List.getElem?_set_ne (Ne.symm same), same]

theorem EngineStep.sound {engine next : Engine} {label : Label}
    (move : EngineStep hashAction engine label next) (sound : engine.Sound hashAction) :
    next.Sound hashAction := by
  intro other result present
  cases move with
  | still quiet store same => exact sound other result present
  | @run _ index run next found _ moves =>
    rw [Engine.getElem?_update found] at present
    split at present
    · obtain rfl := Option.some.inj present
      exact (sound index run found).moves moves
    · exact sound other result present
  | @start now project targets opts next call _ moves =>
    have fresh : RunInvariant hashAction next.run :=
      (newRun_invariant now project targets opts).moves moves
    rcases getElem?_concat_cases present with old | ⟨_, rfl⟩
    · exact sound other result old
    · exact fresh

theorem Engine.Sound.step {engine : Engine} (sound : engine.Sound hashAction) (label : Label) :
    (engine.step hashAction label).Sound hashAction :=
  (engine.step_cases sound label).sound sound

/-- The engine after the labels, oldest first, from its initial state. -/
def Engine.after (hashAction : HashedAction → String) (labels : List Label) : Engine :=
  Execution.run (Engine.step hashAction) Engine.init labels

theorem Engine.after_append (first second : List Label) :
    Engine.after hashAction (first ++ second) =
      Execution.run (Engine.step hashAction) (Engine.after hashAction first) second :=
  Execution.run_append ..

theorem Engine.sound_after (labels : List Label) :
    (Engine.after hashAction labels).Sound hashAction :=
  Execution.invariant (motive := fun engine : Engine => engine.Sound hashAction)
    (fun index run found => by simp [Engine.init] at found)
    (fun _ label sound => sound.step label) labels

/-- What one step of a reachable engine preserves holds of every reachable engine. -/
theorem Engine.invariant_after {motive : List Label → Engine → Prop} (initial : motive [] Engine.init)
    (step : ∀ before label next, EngineStep hashAction (Engine.after hashAction before) label next →
      motive before (Engine.after hashAction before) → motive (before ++ [label]) next)
    (labels : List Label) : motive labels (Engine.after hashAction labels) :=
  Execution.reached initial
    (fun before label => step before label _ (Engine.step_cases (sound_after before) label)) labels

/-- A run before and after some moves, whatever the other runs did to the nodes,
the cache and the store in between. -/
def Evolves (hashAction : HashedAction → String) : BuildRun → BuildRun → Prop :=
  Relation.ReflTransGen fun run next =>
    ∃ before after, Micro hashAction before after ∧ before.run = run ∧ after.run = next

theorem Moves.evolves {context next : Context} (moves : Moves hashAction context next) :
    Evolves hashAction context.run next.run := by
  induction moves with
  | refl => exact .refl
  | tail _ step ih => exact ih.tail ⟨_, _, step, rfl, rfl⟩

/-- A fact about a sound run that every move preserves survives any evolution. -/
theorem Evolves.preserves {motive : BuildRun → Prop}
    (step : ∀ before after, RunInvariant hashAction before.run → Micro hashAction before after →
      motive before.run → motive after.run)
    {run next : BuildRun} (evolves : Evolves hashAction run next)
    (valid : RunInvariant hashAction run) (initial : motive run) :
    RunInvariant hashAction next ∧ motive next := by
  induction evolves with
  | refl => exact ⟨valid, initial⟩
  | tail _ move ih =>
    obtain ⟨before, after, micro, rfl, rfl⟩ := move
    exact ⟨ih.1.micro micro, step before after ih.1 micro ih.2⟩

theorem Evolves.buildId_eq {run next : BuildRun} (evolves : Evolves hashAction run next) :
    next.buildId = run.buildId := by
  induction evolves with
  | refl => rfl
  | tail _ move ih =>
    obtain ⟨before, after, micro, rfl, rfl⟩ := move
    exact micro.frame.buildId.trans ih

theorem EngineStep.evolves {engine result : Engine} {label : Label}
    (move : EngineStep hashAction engine label result) {index : Nat} {run : BuildRun}
    (found : engine.created[index]? = some run) :
    ∃ next, result.created[index]? = some next ∧ Evolves hashAction run next := by
  cases move with
  | still quiet store same => exact ⟨run, found, .refl⟩
  | @run _ changed before next present _ moves =>
    rw [Engine.getElem?_update present]
    by_cases same : index = changed
    · subst same
      obtain rfl := Option.some.inj (found.symm.trans present)
      exact ⟨next.run, if_pos rfl, moves.evolves⟩
    · exact ⟨run, by rw [if_neg same, found], .refl⟩
  | start call _ moves => exact ⟨run, getElem?_concat_of_eq_some found _, .refl⟩

/-- A run object keeps its place and only evolves. -/
theorem Engine.run_evolves {engine : Engine} (sound : engine.Sound hashAction)
    (labels : List Label) {index : Nat} {run : BuildRun}
    (found : engine.created[index]? = some run) :
    ∃ next, (Execution.run (Engine.step hashAction) engine labels).created[index]? = some next ∧
      Evolves hashAction run next := by
  induction labels generalizing engine run with
  | nil => exact ⟨run, found, .refl⟩
  | cons label rest ih =>
    obtain ⟨middle, present, first⟩ := (engine.step_cases sound label).evolves found
    obtain ⟨next, later, second⟩ := ih (sound.step label) present
    exact ⟨next, later, first.trans second⟩

/-- The run began as the run of some startBuild call. -/
def Begun (hashAction : HashedAction → String) (run : BuildRun) : Prop :=
  ∃ now project targets opts, Evolves hashAction (newRun now project targets opts) run

theorem EngineStep.begun {engine result : Engine} {label : Label}
    (move : EngineStep hashAction engine label result)
    (begun : ∀ (index : Nat) (run : BuildRun), engine.created[index]? = some run →
      Begun hashAction run)
    {index : Nat} {run : BuildRun} (found : result.created[index]? = some run) :
    Begun hashAction run := by
  cases move with
  | still quiet store same => exact begun index run found
  | @run _ changed before next present _ moves =>
    rw [Engine.getElem?_update present] at found
    split at found
    · obtain rfl := Option.some.inj found
      obtain ⟨now, project, targets, opts, evolves⟩ := begun changed before present
      exact ⟨now, project, targets, opts, evolves.trans moves.evolves⟩
    · exact begun index run found
  | @start now project targets opts next call _ moves =>
    rcases getElem?_concat_cases found with old | ⟨_, rfl⟩
    · exact begun index run old
    · exact ⟨now, project, targets, opts, moves.evolves⟩

/-- Every run object of a reachable engine began as the run of some startBuild. -/
theorem Engine.begun_after (labels : List Label) :
    ∀ (index : Nat) (run : BuildRun),
      (Engine.after hashAction labels).created[index]? = some run → Begun hashAction run :=
  Engine.invariant_after
    (motive := fun _ engine => ∀ (index : Nat) (run : BuildRun),
      engine.created[index]? = some run → Begun hashAction run)
    (fun index run found => by simp [Engine.init] at found)
    (fun _ _ _ move begun _ _ found => move.begun begun found) labels

/-- What every new run satisfies and every move preserves holds of every run of
a reachable engine. -/
theorem Engine.runs_invariant {motive : BuildRun → Prop}
    (fresh : ∀ now project targets opts, motive (newRun now project targets opts))
    (step : ∀ before after, RunInvariant hashAction before.run → Micro hashAction before after →
      motive before.run → motive after.run)
    (labels : List Label) {index : Nat} {run : BuildRun}
    (found : (Engine.after hashAction labels).created[index]? = some run) :
    RunInvariant hashAction run ∧ motive run := by
  obtain ⟨now, project, targets, opts, evolves⟩ := Engine.begun_after labels index run found
  exact evolves.preserves step (newRun_invariant now project targets opts)
    (fresh now project targets opts)

end SysDeck.Fester
