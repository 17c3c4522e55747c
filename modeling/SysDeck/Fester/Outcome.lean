import SysDeck.Fester.EventProtocol

/-! The outcome of a run: its final state comes from the states of its actions, in
memory, in the final event and in its row, and a cancel decides it exactly when
it still finds an action that has not concluded. -/

namespace SysDeck.Fester

variable {hashAction : HashedAction → String}

/-- The states a cancel cannot turn into 'cancelled'. -/
def ActionState.concluded : ActionState → Bool
  | done | failed | skipped => true
  | pending | scheduled | running | retry | cancelled => false

theorem outcome_congr {before after : BuildRun} (keys : after.actions.keys = before.actions.keys)
    (states : ∀ name action, before.actions.find? name = some action →
      ∃ changed, after.actions.find? name = some changed ∧ changed.state = action.state) :
    outcome after = outcome before := by
  have same : ∀ test : ActionState → Bool, after.actions.values.any (fun action => test action.state) =
      before.actions.values.any fun action => test action.state := by
    intro test
    refine OrderedMap.any_values_congr keys fun name action found => ?_
    obtain ⟨changed, present, state⟩ := states name action found
    exact ⟨changed, present, by rw [state]⟩
  rw [outcome, outcome, same (· == .cancelled), same (· == .failed)]

/-- The final pipeline_update of a run, and its state, are the outcome of its actions. -/
structure Reported (run : BuildRun) : Prop where
  silent : run.state = .running → ∀ event ∈ run.events, event.closing = false
  closed : run.state ≠ .running → run.state = outcome run ∧
    (run.events.filter FesterEvent.closing).map (·.state) = [some run.state.text]

theorem outcome_ne_running (run : BuildRun) : outcome run ≠ .running := by
  unfold outcome
  repeat' split
  all_goals decide

theorem Reported.micro {context next : Context} (valid : RunInvariant hashAction context.run)
    (closed : Closed context.run) (step : Micro hashAction context next)
    (reported : Reported context.run) : Reported next.run := by
  rcases step.log with ⟨events, appended, others, state, _⟩ | ⟨now, rfl, running, _⟩
  · have others' : ∀ event ∈ events, event.closing = false := by
      intro event member
      simp [FesterEvent.closing, others event member]
    refine ⟨?_, ?_⟩
    · intro running event member
      rw [appended] at member
      rcases List.mem_append.mp member with old | new
      · exact reported.silent (state ▸ running) event old
      · exact others' event new
    · intro finished
      rw [state] at finished ⊢
      obtain ⟨same, events'⟩ := reported.closed finished
      have kept : outcome next.run = outcome context.run := by
        refine outcome_congr step.frame.keys fun name action found => ?_
        obtain ⟨changed, _, present, _, view⟩ := step.view found (valid.named name action found)
        exact ⟨changed, present, view.ended (valid.coherent name action found).1
          (closed (.inl finished) name action found)⟩
      refine ⟨same.trans kept.symm, ?_⟩
      have none : events.filter FesterEvent.closing = [] :=
        List.filter_eq_nil_iff.mpr fun event member => by simp [others' event member]
      rw [appended, List.filter_append, none, List.append_nil]
      exact events'
  · have quiet : context.run.events.filter FesterEvent.closing = [] :=
      List.filter_eq_nil_iff.mpr fun event member => by simp [reported.silent running event member]
    refine ⟨fun again => absurd again (outcome_ne_running context.run), fun _ => ⟨rfl, ?_⟩⟩
    change ((context.run.events ++ [_]).filter FesterEvent.closing).map FesterEvent.state =
      [some (outcome context.run).text]
    rw [List.filter_append, quiet]
    have final : outcome context.run = .succeeded ∨ outcome context.run = .failed ∨
        outcome context.run = .cancelled := by
      unfold outcome
      repeat' split
      all_goals simp
    rcases final with state | state | state <;> rw [state] <;> rfl

theorem reported_after (labels : List Label) {index : Nat} {run : BuildRun}
    (found : (Engine.after hashAction labels).created[index]? = some run) :
    RunInvariant hashAction run ∧ Closed run ∧ Reported run := by
  refine Engine.runs_invariant (motive := fun run => Closed run ∧ Reported run) ?_ ?_ labels found
  · intro now project targets opts
    exact ⟨newRun_closed now project targets opts, fun _ => newRun_open now project targets opts,
      fun stopped => absurd rfl stopped⟩
  · intro before after valid step ⟨closed, reported⟩
    exact ⟨closed.micro valid step, reported.micro valid closed step⟩

/-- In a cancelled run an action keeps its concluded state, and none concludes. -/
theorem View.cancelled {context : Context} {action changed : ActionNode}
    {events : List FesterEvent} (view : View hashAction context action events changed)
    (requested : context.run.cancelRequested = true) :
    changed.state = action.state ∨ changed.state = .cancelled := by
  cases view with
  | still => exact .inl rfl
  | gated move => exact .inl move.frame.2.2
  | acted step =>
    cases step with
    | abandon | again | stamp => exact .inl rfl
    | cancel | windDown => exact .inr rfl
    | enter _ live | schedule _ _ _ _ live | cached _ _ _ _ live | start _ _ _ live
    | retry _ _ _ live | fail _ _ _ live | done _ _ _ live | skip _ live =>
      exact absurd (live.symm.trans requested) (by decide)

/-- Since a cancel every concluded action kept its state and no other concluded. -/
structure SinceCancel (start run : BuildRun) : Prop where
  requested : run.cancelRequested = true
  keys : run.actions.keys = start.actions.keys
  states : ∀ name action, start.actions.find? name = some action →
    ∃ changed, run.actions.find? name = some changed ∧
      if action.state.concluded then changed.state = action.state
      else changed.state.concluded = false

theorem SinceCancel.micro {start : BuildRun} {context next : Context}
    (valid : RunInvariant hashAction context.run) (step : Micro hashAction context next)
    (since : SinceCancel start context.run) : SinceCancel start next.run := by
  obtain ⟨requested, keys, states⟩ := since
  refine ⟨step.frame.cancelled requested, step.frame.keys.trans keys, ?_⟩
  intro name action found
  obtain ⟨middle, present, kept⟩ := states name action found
  obtain ⟨changed, _, later, _, view⟩ := step.view present (valid.named name middle present)
  refine ⟨changed, later, ?_⟩
  by_cases concluded : action.state.concluded = true
  · rw [if_pos concluded] at kept ⊢
    have ended : middle.state.terminal = true := by
      rw [kept]
      cases state : action.state <;> simp [state, ActionState.concluded] at concluded <;> rfl
    rw [view.ended (valid.coherent name middle present).1 ended, kept]
  · rw [if_neg concluded] at kept ⊢
    rcases view.cancelled requested with same | cancelled
    · rw [same]
      exact kept
    · rw [cancelled]
      rfl

/-- The cancel itself changes no state of an action. -/
theorem cancelRun_states (run : BuildRun) : SinceCancel run (cancelRun run) := by
  obtain ⟨actions, same, keys, woken⟩ := releaseGates_eq { run with cancelRequested := true }
  rw [show cancelRun run = _ from same]
  refine ⟨rfl, keys, ?_⟩
  intro name action found
  have kept : ∃ changed, actions.find? name = some changed ∧ changed.state = action.state := by
    rw [woken name]
    split
    · refine ⟨action.wake, by rw [show run.actions.find? name = _ from found]; rfl, ?_⟩
      rcases action.wake_move with still | move
      · rw [still]
      · exact move.frame.2.2
    · exact ⟨action, found, rfl⟩
  obtain ⟨changed, present, state⟩ := kept
  refine ⟨changed, present, ?_⟩
  by_cases concluded : action.state.concluded = true
  · rw [if_pos concluded, state]
  · rw [if_neg concluded, state]
    simpa using concluded

/-- The outcome of a run whose cancel was accepted in this state. -/
def cancelOutcome (run : BuildRun) : BuildState :=
  if run.actions.values.any fun action => !action.state.concluded then .cancelled else outcome run

theorem SinceCancel.outcome_eq {start run : BuildRun} (since : SinceCancel start run)
    (ended : ∀ name action, run.actions.find? name = some action → action.state.terminal = true) :
    outcome run = cancelOutcome start := by
  unfold cancelOutcome
  split
  · rename_i unfinished
    obtain ⟨action, member, open'⟩ := List.any_eq_true.mp unfinished
    obtain ⟨name, found⟩ := OrderedMap.mem_values_iff.mp member
    obtain ⟨changed, present, kept⟩ := since.states name action found
    have state : changed.state = .cancelled := by
      rw [if_neg (by simpa using open')] at kept
      have final := ended name changed present
      cases state : changed.state <;> simp [state, ActionState.terminal, ActionState.concluded] at *
    have some : run.actions.values.any (·.state == .cancelled) = true :=
      List.any_eq_true.mpr ⟨changed, OrderedMap.mem_values present, by simp [state]⟩
    rw [outcome, if_pos some]
  · rename_i finished
    refine outcome_congr since.keys fun name action found => ?_
    obtain ⟨changed, present, kept⟩ := since.states name action found
    have concluded : action.state.concluded = true := by
      by_contra unfinished
      exact finished (List.any_eq_true.mpr
        ⟨action, OrderedMap.mem_values found, by simpa using unfinished⟩)
    rw [if_pos concluded] at kept
    exact ⟨changed, present, kept⟩

/-- The row of the run shows its state. -/
def RowShows (builds : BuildsTable) (run : BuildRun) : Prop :=
  ∃ row, builds.find? run.buildId = some row ∧ row.state = run.state

/-- A move keeps the row of its run up to date and leaves the other rows alone. -/
theorem Micro.row {context next : Context} (step : Micro hashAction context next) :
    (RowShows context.store.settled context.run → RowShows next.store.settled next.run) ∧
      ∀ buildId, buildId ≠ context.run.buildId →
        next.store.settled.find? buildId = context.store.settled.find? buildId := by
  rcases step.log with ⟨_, _, _, state, store⟩ | ⟨now, rfl, _⟩
  · rw [store]
    refine ⟨?_, fun _ _ => rfl⟩
    rintro ⟨row, found, same⟩
    exact ⟨row, by rw [step.frame.buildId, found], by rw [state, same]⟩
  · refine ⟨?_, fun buildId differ => Store.find?_updateBuild_ne _ _ differ⟩
    rintro ⟨row, found, _⟩
    exact ⟨_, Store.find?_updateBuild found _, rfl⟩

theorem Moves.row {context next : Context} (moves : Moves hashAction context next) :
    (RowShows context.store.settled context.run → RowShows next.store.settled next.run) ∧
      ∀ buildId, buildId ≠ context.run.buildId →
        next.store.settled.find? buildId = context.store.settled.find? buildId := by
  induction moves with
  | refl => exact ⟨id, fun _ _ => rfl⟩
  | tail before step ih =>
    obtain ⟨shows, others⟩ := step.row
    refine ⟨fun first => shows (ih.1 first), fun buildId differ => ?_⟩
    rw [others buildId (by rw [Moves.frame before |>.buildId]; exact differ), ih.2 buildId differ]

/-- No other run of the engine has this id. -/
def Engine.Sole (engine : Engine) (index : Nat) (buildId : String) : Prop :=
  ∀ (other : Nat) (run : BuildRun), engine.created[other]? = some run → run.buildId = buildId →
    other = index

/-- The row of every run that shares its id with no other shows its state. -/
def Engine.Shown (engine : Engine) : Prop :=
  ∀ (index : Nat) (run : BuildRun), engine.created[index]? = some run →
    engine.Sole index run.buildId → RowShows engine.store.settled run

theorem EngineStep.sole {engine next : Engine} {label : Label}
    (move : EngineStep hashAction engine label next) {index : Nat} {buildId : String}
    (sole : next.Sole index buildId) : engine.Sole index buildId := by
  intro other run found same
  obtain ⟨later, present, evolves⟩ := move.evolves found
  exact sole other later present (evolves.buildId_eq.trans same)

theorem EngineStep.shown {engine next : Engine} {label : Label}
    (move : EngineStep hashAction engine label next) (shown : engine.Shown) : next.Shown := by
  intro other result present sole
  have before := move.sole sole
  cases move with
  | still quiet store same =>
    change RowShows store.settled result
    rw [same]
    exact shown other result present before
  | @run _ index run next found _ moves =>
    have here := Engine.getElem?_update found next index
    rw [if_pos rfl] at here
    have id := moves.frame.buildId
    obtain ⟨kept, others⟩ := moves.row
    rw [Engine.getElem?_update found] at present
    split at present
    · rename_i same
      subst same
      obtain rfl := Option.some.inj present
      exact kept (shown other run found (by rw [id] at before; exact before))
    · rename_i apart
      have differ : result.buildId ≠ run.buildId := fun same =>
        apart (sole index next.run here (id.trans same.symm)).symm
      obtain ⟨row, listed, state⟩ := shown other result present before
      exact ⟨row, (others result.buildId differ).trans listed, state⟩
  | @start now project targets opts next call _ moves =>
    obtain ⟨kept, others⟩ := moves.row
    have id : next.run.buildId = newBuildId project now := moves.frame.buildId
    rcases getElem?_concat_cases present with old | ⟨_, rfl⟩
    · have differ : result.buildId ≠ newBuildId project now := by
        intro same
        have last := sole engine.created.length next.run List.getElem?_concat_length
          (id.trans same.symm)
        have bound := (List.getElem?_eq_some_iff.mp old).1
        omega
      obtain ⟨row, listed, state⟩ := shown other result old before
      refine ⟨row, (others result.buildId differ).trans ?_, state⟩
      exact (Store.find?_updateBuild_ne _ _ differ).trans
        ((Store.find?_createBuild_ne _ _ _ _ differ).trans listed)
    · exact kept ⟨_, Store.find?_updateBuild (Store.find?_createBuild ..) _, rfl⟩

theorem shown_after (hashAction : HashedAction → String) (labels : List Label) :
    (Engine.after hashAction labels).Shown :=
  Engine.invariant_after (motive := fun _ engine => engine.Shown)
    (fun index run found => by simp [Engine.init] at found)
    (fun _ _ _ move shown => move.shown shown) labels

theorem Evolves.sinceCancel {start run final : BuildRun} (evolves : Evolves hashAction run final)
    (valid : RunInvariant hashAction run) (since : SinceCancel start run) :
    SinceCancel start final :=
  (evolves.preserves (motive := SinceCancel start)
    (fun _ _ valid step since => since.micro valid step) valid since).2

/-- An accepted cancel takes the run its id names through cancelRun. -/
theorem Engine.step_cancel {engine : Engine} (quiescent : engine.quiescent = true)
    {buildId : String} {index : Nat} {run : BuildRun}
    (named : engine.lookup buildId = some (index, run))
    (accepted : (cancelBuild engine buildId).2 = true) :
    (engine.step hashAction (.cancelBuild buildId)).created[index]? = some (cancelRun run) := by
  have found := (Engine.lookup_eq_some named).2
  have bound := (List.getElem?_eq_some_iff.mp found).1
  by_cases running : run.state = .running
  · simp [Engine.step, Engine.step?, quiescent, cancelBuild, named, running, bound]
  · simp [cancelBuild, named, running] at accepted

/-- An accepted cancel decides the outcome exactly when it still finds an action
that has not concluded: then the run ends 'cancelled', and otherwise as its
concluded actions say. The final event carries that state, and so does the row
of a run that shares its id with no other. -/
theorem cancel_outcome (hashAction : HashedAction → String) (before later : List Label)
    {buildId : String} {index : Nat} {run final : BuildRun}
    (quiescent : (Engine.after hashAction before).quiescent = true)
    (named : (Engine.after hashAction before).lookup buildId = some (index, run))
    (accepted : (cancelBuild (Engine.after hashAction before) buildId).2 = true)
    (reached : (Engine.after hashAction
      (before ++ [.cancelBuild buildId] ++ later)).created[index]? = some final)
    (finished : final.state ≠ .running) :
    final.state = cancelOutcome run ∧
      (final.events.filter FesterEvent.closing).map (·.state) = [some final.state.text] ∧
      ((Engine.after hashAction (before ++ [.cancelBuild buildId] ++ later)).Sole index
          final.buildId →
        RowShows (Engine.after hashAction
          (before ++ [.cancelBuild buildId] ++ later)).store.settled final) := by
  have cancelled : (Engine.after hashAction (before ++ [.cancelBuild buildId])).created[index]? =
      some (cancelRun run) := by
    rw [Engine.after_append]
    exact Engine.step_cancel quiescent named accepted
  have sound : (Engine.after hashAction (before ++ [.cancelBuild buildId])).Sound hashAction :=
    Engine.sound_after _
  obtain ⟨other, present, evolves⟩ := Engine.run_evolves sound later cancelled
  rw [← Engine.after_append] at present
  obtain rfl := Option.some.inj (present.symm.trans reached)
  have since := evolves.sinceCancel (sound index _ cancelled) (cancelRun_states run)
  obtain ⟨_, closed, reported⟩ := reported_after _ reached
  obtain ⟨state, events⟩ := reported.closed finished
  refine ⟨state.trans (since.outcome_eq (closed (.inl finished))), events, ?_⟩
  exact shown_after hashAction _ index other reached

/-- A build cancelled while its first action works. -/
def cancelledWork : List Label :=
  let resume (now : Nat) : Label := .resume now 0 "nginx:main:fetch" ⟨"ryzen-1", 10, "free"⟩
  [.startBuild 0 "nginx" ["main"] {}, resume 1, resume 2]

theorem cancel_outcome_working :
    ∃ final, (Engine.after HashedAction.name (cancelledWork ++ [.cancelBuild "nginx-0"] ++
        [.resume 3 0 "nginx:main:fetch" ⟨"ryzen-1", 10, "free"⟩, .nextWave 4 0])).created[0]? =
          some final ∧
      final.state = .cancelled ∧
      (final.events.filter FesterEvent.closing).map (·.state) = [some "cancelled"] := by
  obtain ⟨run, found⟩ := Option.isSome_iff_exists.mp
    (show ((Engine.after HashedAction.name cancelledWork).created[0]?).isSome = true by decide)
  obtain ⟨final, reached⟩ := Option.isSome_iff_exists.mp
    (show ((Engine.after HashedAction.name (cancelledWork ++ [.cancelBuild "nginx-0"] ++
      [.resume 3 0 "nginx:main:fetch" ⟨"ryzen-1", 10, "free"⟩, .nextWave 4 0])).created[0]?).isSome =
        true by decide)
  have mapped : (Engine.after HashedAction.name cancelledWork).runs.find? "nginx-0" = some 0 := by
    decide
  have named : (Engine.after HashedAction.name cancelledWork).lookup "nginx-0" = some (0, run) := by
    simp [Engine.lookup, mapped, found]
  have stopped : ((Engine.after HashedAction.name (cancelledWork ++ [.cancelBuild "nginx-0"] ++
      [.resume 3 0 "nginx:main:fetch" ⟨"ryzen-1", 10, "free"⟩, .nextWave 4 0])).created[0]?).all
        (fun final => final.state ≠ .running) = true := by
    decide
  have undecided : ((Engine.after HashedAction.name cancelledWork).created[0]?).all
      (fun run => cancelOutcome run = .cancelled) = true := by
    decide
  simp only [found, reached, Option.all_some, decide_eq_true_eq] at stopped undecided
  obtain ⟨state, events, _⟩ := cancel_outcome HashedAction.name cancelledWork
    [.resume 3 0 "nginx:main:fetch" ⟨"ryzen-1", 10, "free"⟩, .nextWave 4 0] (by decide)
    named (by decide) reached stopped
  rw [undecided] at state
  exact ⟨final, reached, state, by rw [events, state]; rfl⟩

/-- A build whose last action is done and waits for its stamp. -/
def stampingBuild : List Label :=
  let resume (stage : String) : Label :=
    .resume 1 0 (stepName "nginx" "main" stage) ⟨"ryzen-1", 10, "free"⟩
  .startBuild 0 "nginx" ["main"] {} ::
    ((stages.dropLast.flatMap fun stage =>
      [resume stage, resume stage, resume stage, resume stage, .nextWave 1 0]) ++
    [resume "stamp", resume "stamp", resume "stamp"])

/-- A cancel accepted in that wait leaves the build 'succeeded' everywhere. -/
theorem cancel_outcome_stamping :
    (cancelBuild (Engine.after HashedAction.name stampingBuild) "nginx-0").2 = true ∧
      let engine := Engine.after HashedAction.name (stampingBuild ++ [.cancelBuild "nginx-0",
        .resume 2 0 "nginx:main:stamp" ⟨"ryzen-1", 10, "free"⟩, .nextWave 3 0])
      (engine.created[0]?).any (fun run => run.cancelRequested && run.state = .succeeded &&
        (run.events.filter FesterEvent.closing).map (·.state) = [some "succeeded"]) = true ∧
        (engine.store.settled.find? "nginx-0").map (·.state) = some .succeeded := by
  decide +kernel

end SysDeck.Fester
