import SysDeck.Fester.Lifecycle

/-! The invariant of a run: its action map is keyed by name and topologically
ordered, and the state of every action agrees with where its coroutine stands. -/

namespace SysDeck.Fester

/-- A scheduled action carries the locals of its coroutine. -/
def Assigned (hashAction : HashedAction → String) (action : ActionNode)
    (decision : ScheduleDecision) (key : String) : Prop :=
  action.node = some decision.node ∧ key = hashAction action.hashed

/-- The attempt counter at a gate or in the work sleep. -/
def Attempting (hashAction : HashedAction → String) (run : BuildRun) (action : ActionNode)
    (attempt : Attempt) : Prop :=
  Assigned hashAction action attempt.decision attempt.key ∧
    1 ≤ attempt.number ∧ attempt.number ≤ run.maxAttempts

/-- The state an action shows at each suspension point. -/
def StateAt (hashAction : HashedAction → String) (run : BuildRun) (action : ActionNode) : Prop :=
  match action.point with
  | .idle => action.state = .pending ∨ action.state = .skipped ∨ action.state = .cancelled
  | .entering .schedule | .parked .schedule | .passed .schedule => action.state = .pending
  | .entering (.run attempt) | .parked (.run attempt) | .passed (.run attempt) =>
    Attempting hashAction run action attempt ∧
      ((attempt.number = 1 ∧ action.state = .scheduled) ∨
        (1 < attempt.number ∧ action.state = .retry))
  | .cacheWait decision key => Assigned hashAction action decision key ∧ action.state = .scheduled
  | .work attempt => Attempting hashAction run action attempt ∧ action.state = .running
  | .backoff attempt =>
    Attempting hashAction run action attempt ∧ attempt.number < run.maxAttempts ∧
      action.state = .retry
  | .stampWait _ => action.state = .done
  | .returned =>
    action.state = .done ∨ action.state = .failed ∨ action.state = .cancelled ∨
      (action.state = .pending ∧ run.cancelRequested = true)

/-- State and suspension point agree, and only a completed action is a cache hit. -/
def Coherent (hashAction : HashedAction → String) (run : BuildRun) (action : ActionNode) : Prop :=
  StateAt hashAction run action ∧ (action.cacheHit = true → action.state = .done)

structure RunInvariant (hashAction : HashedAction → String) (run : BuildRun) : Prop where
  named : ∀ name action, run.actions.find? name = some action → action.name = name
  ordered : DependencyOrder.Topological run.actions.keys run.depsOf
  coherent : ∀ name action, run.actions.find? name = some action → Coherent hashAction run action

variable {hashAction : HashedAction → String}

theorem StateAt.frame {before after : BuildRun} (frame : Frame before after) {action : ActionNode}
    (valid : StateAt hashAction before action) : StateAt hashAction after action := by
  have budget : after.maxAttempts = before.maxAttempts := by
    simp [BuildRun.maxAttempts, frame.retries]
  unfold StateAt Attempting at *
  rw [budget]
  cases point : action.point with
  | returned =>
    simp only [point] at valid ⊢
    rcases valid with done | failed | cancelled | ⟨pending, requested⟩
    · exact .inl done
    · exact .inr (.inl failed)
    · exact .inr (.inr (.inl cancelled))
    · exact .inr (.inr (.inr ⟨pending, frame.cancelled requested⟩))
  | entering place => cases place <;> simpa [point] using valid
  | parked place => cases place <;> simpa [point] using valid
  | passed place => cases place <;> simpa [point] using valid
  | _ => simpa [point] using valid

theorem StateAt.act {context : Context} {action changed : ActionNode}
    {events : List FesterEvent} {slot : Slot} {key : Option String}
    (step : ActionStep hashAction context action events slot key changed)
    (valid : StateAt hashAction context.run action) :
    StateAt hashAction context.run changed := by
  cases step with
  | enter running live member pending idle ready => exact pending
  | abandon point cancelled =>
    simp only [StateAt, point] at valid
    exact .inr (.inr (.inr ⟨valid, cancelled⟩))
  | schedule now decision next point live registered onward =>
    rcases onward with ⟨rfl, _⟩ | ⟨rfl, _⟩
    · exact ⟨⟨rfl, rfl⟩, rfl⟩
    · exact ⟨⟨⟨rfl, rfl⟩, Nat.le_refl 1, Nat.le_add_right 1 _⟩, .inl ⟨rfl, rfl⟩⟩
  | cancel now decision leaves cancelled => exact .inr (.inr (.inl rfl))
  | cached now decision key point live => exact .inl rfl
  | start now attempt point live =>
    simp only [StateAt, point] at valid
    exact ⟨valid.1, rfl⟩
  | retry now attempt point live fails budget =>
    simp only [StateAt, point] at valid
    exact ⟨valid.1, budget, rfl⟩
  | fail now attempt point live fails spent => exact .inr (.inl rfl)
  | done now attempt point live succeeds => exact rfl
  | again attempt point =>
    simp only [StateAt, point] at valid
    obtain ⟨⟨assigned, positive, _⟩, budget, retrying⟩ := valid
    exact ⟨⟨assigned, Nat.le_add_left 1 _, budget⟩,
      .inr ⟨Nat.lt_add_of_pos_left positive, retrying⟩⟩
  | stamp now decision point =>
    simp only [StateAt, point] at valid
    exact .inl valid
  | skip now live pending idle needed blocked => simp [StateAt, idle]
  | windDown now cancelled pending halted =>
    cases point : action.point with
    | idle | returned => simp [StateAt]
    | _ => simp [point, Point.settled] at halted

theorem StateAt.gated {run : BuildRun} {action changed : ActionNode}
    (move : GateMove action changed) (valid : StateAt hashAction run action) :
    StateAt hashAction run changed := by
  cases move with
  | pass place point | park place point | wake place point =>
    cases place <;> simpa [StateAt, Attempting, Assigned, ActionNode.hashed, point] using valid

/-- A cancelled exit leaves a state that holds the slot of the decided node. -/
theorem StateAt.leaving {run : BuildRun} {action : ActionNode} {decision : ScheduleDecision}
    (valid : StateAt hashAction run action) (leaves : Leaves action.point decision) :
    action.state.occupying = true ∧ action.node = some decision.node := by
  unfold StateAt at valid
  generalize action.point = point at leaves valid
  cases leaves with
  | cacheWait decision key => exact ⟨by rw [valid.2]; rfl, valid.1.1⟩
  | gate attempt =>
    refine ⟨?_, valid.1.1.1⟩
    rcases valid.2 with ⟨_, scheduled⟩ | ⟨_, retrying⟩
    · rw [scheduled]; rfl
    · rw [retrying]; rfl
  | work attempt => exact ⟨by rw [valid.2]; rfl, valid.1.1.1⟩

/-- An action that is not done yet was not served from the cache. -/
theorem StateAt.hit {context : Context} {action changed : ActionNode}
    {events : List FesterEvent} {slot : Slot} {key : Option String}
    (valid : StateAt hashAction context.run action)
    (hit : action.cacheHit = true → action.state = .done)
    (step : ActionStep hashAction context action events slot key changed) :
    changed.cacheHit = true → changed.state = .done := by
  intro completed
  cases step with
  | cached now decision key point live => rfl
  | done now attempt point live succeeds => rfl
  | stamp now decision point => exact hit completed
  | enter running live member pending idle ready =>
    exact hit completed
  | skip now live pending idle needed blocked | windDown now cancelled pending halted =>
    have finished := hit completed
    rw [pending] at finished
    cases finished
  | abandon point cancelled => exact hit completed
  | again attempt point => exact hit completed
  | cancel now decision leaves cancelled =>
    have holding := (valid.leaving leaves).1
    rw [hit completed] at holding
    cases holding
  | schedule now decision next point live registered onward | start now attempt point live
  | retry now attempt point live fails budget | fail now attempt point live fails spent =>
    have finished := hit completed
    simp [StateAt, point, finished] at valid

theorem Coherent.view {context next : Context} (frame : Frame context.run next.run)
    {action changed : ActionNode} {events : List FesterEvent}
    (view : View hashAction context action events changed)
    (valid : Coherent hashAction context.run action) : Coherent hashAction next.run changed := by
  obtain ⟨placed, hit⟩ := valid
  cases view with
  | still => exact ⟨placed.frame frame, hit⟩
  | gated move =>
    refine ⟨(placed.gated move).frame frame, ?_⟩
    cases move <;> exact hit
  | acted step => exact ⟨(placed.act step).frame frame, placed.hit hit step⟩

theorem BuildRun.depsOf_of_find? {run : BuildRun} {name : String} {action : ActionNode}
    (found : run.actions.find? name = some action) : run.depsOf name = action.deps := by
  simp [depsOf, found]

/-- An action present after a move was present before it, with the same deps. -/
theorem Micro.before {context next : Context} (step : Micro hashAction context next)
    (named : ∀ name action, context.run.actions.find? name = some action → action.name = name)
    {name : String} {changed : ActionNode} (found : next.run.actions.find? name = some changed) :
    ∃ action events, context.run.actions.find? name = some action ∧
      next.run.eventsOf name = context.run.eventsOf name ++ events ∧
      View hashAction context action events changed := by
  have listed : name ∈ context.run.actions.keys := by
    rw [← step.frame.keys]
    exact OrderedMap.mem_keys_iff.mpr ⟨changed, found⟩
  obtain ⟨action, present⟩ := OrderedMap.mem_keys_iff.mp listed
  obtain ⟨other, events, seen, appended, view⟩ := step.view present (named name action present)
  have same : other = changed := Option.some.inj (seen.symm.trans found)
  subst same
  exact ⟨action, events, present, appended, view⟩

/-- The name, the deps and the command of an action never change. -/
theorem View.identity {context : Context} {action changed : ActionNode}
    {events : List FesterEvent} (view : View hashAction context action events changed) :
    changed.name = action.name ∧ changed.deps = action.deps := by
  cases view with
  | still => exact ⟨rfl, rfl⟩
  | acted step => exact ⟨step.name_eq, step.deps_eq.1⟩
  | gated move => exact ⟨move.frame.1, move.frame.2.1⟩

/-- A move leaves the dependency graph of the run as it is. -/
theorem Micro.depsOf_eq {context next : Context} (step : Micro hashAction context next)
    (named : ∀ name action, context.run.actions.find? name = some action → action.name = name) :
    next.run.depsOf = context.run.depsOf := by
  funext name
  cases present : context.run.actions.find? name with
  | some action =>
    obtain ⟨changed, events, seen, _, view⟩ := step.view present (named name action present)
    rw [BuildRun.depsOf_of_find? present, BuildRun.depsOf_of_find? seen, view.identity.2]
  | none =>
    have missing : next.run.actions.find? name = none := by
      rw [OrderedMap.find?_eq_none_iff, step.frame.keys, ← OrderedMap.find?_eq_none_iff]
      exact present
    simp [BuildRun.depsOf, present, missing]

theorem RunInvariant.micro {context next : Context} (valid : RunInvariant hashAction context.run)
    (step : Micro hashAction context next) : RunInvariant hashAction next.run where
  named := by
    intro name changed found
    obtain ⟨action, events, present, _, view⟩ := step.before valid.named found
    rw [view.identity.1, valid.named name action present]
  ordered := by
    rw [step.frame.keys, step.depsOf_eq valid.named]
    exact valid.ordered
  coherent := by
    intro name changed found
    obtain ⟨action, events, present, _, view⟩ := step.before valid.named found
    exact (valid.coherent name action present).view step.frame view

/-- A sequence of moves. -/
abbrev Moves (hashAction : HashedAction → String) : Context → Context → Prop :=
  Relation.ReflTransGen (Micro hashAction)

theorem RunInvariant.moves {context next : Context} (valid : RunInvariant hashAction context.run)
    (moves : Moves hashAction context next) : RunInvariant hashAction next.run := by
  induction moves with
  | refl => exact valid
  | tail _ step ih => exact ih.micro step

end SysDeck.Fester
