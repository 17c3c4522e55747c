import SysDeck.Fester.Gates

/-! What a cancel unblocks: an accepted cancel releases every gate waiter, and the
only way back into gateWaiters is a retry backoff that ends while the cancelled
run has been paused again. -/

namespace SysDeck.Fester

variable {hashAction : HashedAction → String}

/-- A fold whose steps keep a component keeps it. -/
theorem foldl_keeps {State Item Part : Type} {step : State → Item → State} (part : State → Part)
    (keeps : ∀ state item, part (step state item) = part state) (items : List Item) (state : State) :
    part (items.foldl step state) = part state := by
  induction items generalizing state with
  | nil => rfl
  | cons item rest ih => exact (ih _).trans (keeps state item)

theorem gate_cancelRequested (run : BuildRun) (name : String) (place : Gate) :
    (gate run name place).cancelRequested = run.cancelRequested := by
  obtain ⟨_, _, _, _, _, same⟩ := gate_eq run name place
  rw [same]

/-- Only cancelBuild writes cancelRequested. -/
theorem executeAction_cancelRequested {now : Nat} {decision : ScheduleDecision}
    {context next : Context} {action : ActionNode}
    (resumed : executeAction hashAction now decision context action = some next) :
    next.run.cancelRequested = context.run.cancelRequested := by
  unfold executeAction at resumed
  split at resumed
  iterate 3 cases resumed
  · obtain rfl := Option.some.inj resumed
    exact gate_cancelRequested ..
  · split at resumed
    · obtain rfl := Option.some.inj resumed
      unfold scheduleAction
      split
      · rfl
      · dsimp only
        split
        · rfl
        · exact gate_cancelRequested ..
    · cases resumed
  · obtain rfl := Option.some.inj resumed
    unfold startAttempt
    split <;> rfl
  · obtain rfl := Option.some.inj resumed
    unfold finishCached
    split <;> rfl
  · obtain rfl := Option.some.inj resumed
    unfold finishAttempt
    repeat' split
    all_goals rfl
  · obtain rfl := Option.some.inj resumed
    exact gate_cancelRequested ..
  · obtain rfl := Option.some.inj resumed
    rfl

theorem windDownAction_keeps (now : Nat) (run : BuildRun) (name : String) :
    (windDownAction now run name).cancelRequested = run.cancelRequested ∧
      (windDownAction now run name).gateWaiters = run.gateWaiters := by
  unfold windDownAction
  repeat' split
  all_goals exact ⟨rfl, rfl⟩

theorem windDown_cancelRequested (now : Nat) (run : BuildRun) :
    (windDown now run).cancelRequested = run.cancelRequested := by
  unfold windDown
  split
  · exact foldl_keeps BuildRun.cancelRequested (fun run name => (windDownAction_keeps now run name).1) _ _
  · rfl

theorem windDown_gateWaiters (now : Nat) (run : BuildRun) :
    (windDown now run).gateWaiters = run.gateWaiters := by
  unfold windDown
  split
  · exact foldl_keeps BuildRun.gateWaiters (fun run name => (windDownAction_keeps now run name).2) _ _
  · rfl

theorem readyActions_cancelRequested (now : Nat) (run : BuildRun) :
    (readyActions now run).1.cancelRequested = run.cancelRequested := by
  refine foldl_keeps (fun scan : BuildRun × List String => scan.1.cancelRequested) ?_ _ _
  intro scan name
  unfold readyAction
  repeat' split
  all_goals rfl

theorem executeRun_cancelRequested (now : Nat) (context : Context) :
    (executeRun now context).run.cancelRequested = context.run.cancelRequested := by
  unfold executeRun
  split
  · exact windDown_cancelRequested now context.run
  · dsimp only
    split
    · exact (windDown_cancelRequested now _).trans (readyActions_cancelRequested now context.run)
    · refine (foldl_keeps BuildRun.cancelRequested (fun run name => ?_) _ _).trans
        (readyActions_cancelRequested now context.run)
      exact gate_cancelRequested ..

/-- No coroutine is about to run the head of the gate loop. -/
def BuildRun.offGate (run : BuildRun) : Prop :=
  ∀ action ∈ run.actions.values, ∀ place, action.point ≠ .entering place

/-- A cancelled run has no gate waiter, and while it is paused none can be added. -/
def Freed (run : BuildRun) : Prop :=
  run.cancelRequested = true → run.gateWaiters = [] ∧ (run.paused = true → run.offGate)

/-- A retry backoff of a cancelled run ends at a gate that nothing opens: the run
has been paused since, and neither a pass nor a step ticket lets it through. -/
inductive BackoffParks (engine : Engine) : Label → Prop where
  | parks {now index : Nat} {decision : ScheduleDecision} {run : BuildRun} {action : ActionNode}
      {attempt : Attempt} (found : engine.created[index]? = some run)
      (present : run.actions.find? action.name = some action)
      (cancelled : run.cancelRequested = true) (backoff : action.point = .backoff attempt)
      (paused : run.paused = true) (none : run.passes action.name = 0)
      (empty : run.stepTickets = 0) :
      BackoffParks engine (.resume now index action.name decision)

/-- After an accepted cancel nothing waits at a gate. -/
def Engine.Unblocked (engine : Engine) : Prop :=
  ∀ (index : Nat) (run : BuildRun), engine.created[index]? = some run →
    run.cancelRequested = true → run.gateWaiters = []

theorem BuildRun.offGate_modify {run : BuildRun} (off : run.offGate) {name : String}
    {change : ActionNode → ActionNode}
    (changed : ∀ old, run.actions.find? name = some old → ∀ place, (change old).point ≠ .entering place) :
    ∀ action ∈ (run.actions.modify name change).values, ∀ place, action.point ≠ .entering place := by
  intro action member
  rcases OrderedMap.mem_values_modify member with ⟨old, present, rfl⟩ | kept
  · exact changed old present
  · exact off action kept

theorem BuildRun.calm_offGate {run : BuildRun} (calm : run.calm) : run.offGate := by
  intro action member place entering
  have resting := calm action member
  rw [entering] at resting
  cases resting

theorem BuildRun.settled_offGate {run : BuildRun} (halted : run.settled) : run.offGate := by
  intro action member place entering
  have stopped := halted action member
  rw [entering] at stopped
  cases stopped

/-- In a cancelled run every resumption but the end of a backoff leaves its action. -/
theorem Freed.executeAction {now : Nat} {decision : ScheduleDecision} {context next : Context}
    {action : ActionNode} (freed : Freed context.run)
    (found : context.run.actions.find? action.name = some action)
    (resumed : executeAction hashAction now decision context action = some next)
    (opens : ∀ attempt, action.point = .backoff attempt → context.run.cancelRequested = true →
      context.run.paused = true → context.run.passes action.name = 0 →
        context.run.stepTickets ≠ 0) :
    Freed next.run := by
  intro asked
  rw [executeAction_cancelRequested resumed] at asked
  obtain ⟨waiters, off⟩ := freed asked
  have returned : ∀ (changed : ActionNode), changed.point = .returned →
      context.run.paused = true → ∀ other ∈ (context.run.put changed).actions.values,
        ∀ place, other.point ≠ .entering place := by
    intro changed point paused
    refine BuildRun.offGate_modify (off paused) fun _ _ place entering => ?_
    rw [point] at entering
    cases entering
  have leaves : ∀ decision', ((cancelAction now context action decision').run.gateWaiters = []) ∧
      ((cancelAction now context action decision').run.paused = true →
        (cancelAction now context action decision').run.offGate) := fun decision' =>
    ⟨waiters, returned { action with state := .cancelled, point := .returned } rfl⟩
  unfold SysDeck.Fester.executeAction at resumed
  cases point : action.point with
  | idle | parked place | returned => simp [point] at resumed
  | entering place =>
    simp only [point, Option.some.injEq] at resumed
    subst resumed
    have unpaused : context.run.paused = false := by
      by_contra stopped
      exact off (by simpa using stopped) action (OrderedMap.mem_values found) place point
    simp only [gate, unpaused, if_true]
    exact ⟨waiters, fun paused => absurd (unpaused.symm.trans paused) (by decide)⟩
  | passed place =>
    cases place with
    | schedule =>
      simp only [point] at resumed
      split at resumed
      · obtain rfl := Option.some.inj resumed
        simp only [scheduleAction, asked, if_true]
        exact ⟨waiters, returned { action with point := .returned } rfl⟩
      · cases resumed
    | run attempt =>
      simp only [point, Option.some.injEq] at resumed
      subst resumed
      simp only [startAttempt, asked, if_true]
      exact leaves attempt.decision
  | cacheWait decision' key =>
    simp only [point, Option.some.injEq] at resumed
    subst resumed
    simp only [finishCached, asked, if_true]
    exact leaves decision'
  | work attempt =>
    simp only [point, Option.some.injEq] at resumed
    subst resumed
    simp only [finishAttempt, asked, if_true]
    exact leaves attempt.decision
  | backoff attempt =>
    simp only [point, Option.some.injEq] at resumed
    subst resumed
    let place : Gate := .run { attempt with number := attempt.number + 1 }
    have through : context.run.paused = true → ∀ other ∈
        ((context.run.actions.modify action.name fun action =>
          { action with point := .entering place }).modify action.name fun action =>
            { action with point := .passed place }).values,
        ∀ gate, other.point ≠ .entering gate := by
      intro paused
      rw [OrderedMap.modify_modify]
      exact BuildRun.offGate_modify (off paused) (fun _ _ _ entering => by cases entering)
    have turn := gate_turn (context.run.move action.name (.entering place)) action.name place
    change (callGate context.run action.name place).gateWaiters = [] ∧
      ((callGate context.run action.name place).paused = true →
        (callGate context.run action.name place).offGate)
    unfold callGate
    generalize gate (context.run.move action.name (.entering place)) action.name place = result
      at turn
    cases turn with
    | through unpaused =>
      exact ⟨waiters, fun paused => absurd (unpaused.symm.trans paused) (by decide)⟩
    | pass paused held => exact ⟨waiters, through⟩
    | ticket paused none left => exact ⟨waiters, through⟩
    | park paused none empty => exact absurd empty (opens attempt point asked paused none)
  | stampWait decision' =>
    simp only [point, Option.some.injEq] at resumed
    subst resumed
    exact ⟨waiters, returned { action with point := .returned } rfl⟩

theorem Freed.wave {context : Context} (valid : RunInvariant hashAction context.run) (now : Nat)
    (freed : Freed context.run) (running : context.run.state = .running)
    (halted : context.run.settled) : Freed (executeRun now context).run := by
  intro asked
  rw [executeRun_cancelRequested] at asked
  have down := windDown_down valid now running asked halted
  simp only [executeRun, asked, if_true]
  refine ⟨?_, fun _ => BuildRun.settled_offGate down.halted⟩
  exact (windDown_gateWaiters now context.run).trans (freed asked).1

theorem Freed.release (run : BuildRun) : Freed (releaseGates run) := by
  intro _
  obtain ⟨_, same, _⟩ := releaseGates_eq run
  rw [same]
  exact ⟨rfl, fun paused => by cases paused⟩

theorem Segment.freed {engine : Engine} {index : Nat} {run : BuildRun} {label : Label}
    {next : Context} (segment : Segment hashAction engine index run label next)
    (created : engine.created[index]? = some run) (valid : RunInvariant hashAction run)
    (opens : ¬ BackoffParks engine label) (freed : Freed run) : Freed next.run := by
  have start : Freed (engine.context run).run := freed
  cases segment with
  | resume found resumed =>
    refine start.executeAction found resumed ?_
    intro attempt backoff cancelled paused none empty
    exact opens (.parks created found cancelled backoff paused none empty)
  | wave running halted => exact Freed.wave valid _ start running halted
  | cancel named running calm => exact Freed.release { run with cancelRequested := true }
  | @command now _ _ _ _ named calm reply =>
    rcases debugRun_cases reply with rfl | rfl | rfl
    · intro asked
      exact ⟨(freed asked).1, fun _ => BuildRun.calm_offGate calm⟩
    · exact fun asked => Freed.release run asked
    · cases waiting : run.gateWaiters with
      | nil =>
        rw [stepRun_ticket now waiting]
        intro asked
        exact ⟨waiting, fun paused => (freed asked).2 paused⟩
      | cons head rest =>
        rw [stepRun_waiting now waiting]
        intro asked
        have empty := (freed asked).1
        rw [waiting] at empty
        cases empty

theorem EngineStep.freed {engine next : Engine} {label : Label}
    (move : EngineStep hashAction engine label next) (sound : engine.Sound hashAction)
    (opens : ¬ BackoffParks engine label)
    (freed : ∀ (index : Nat) (run : BuildRun), engine.created[index]? = some run → Freed run) :
    ∀ (index : Nat) (run : BuildRun), next.created[index]? = some run → Freed run := by
  intro other result present
  cases move with
  | still quiet store same => exact freed other result present
  | @run _ index run next found segment moves =>
    rw [Engine.getElem?_update found] at present
    split at present
    · obtain rfl := Option.some.inj present
      exact segment.freed found (sound index run found) opens (freed index run found)
    · exact freed other result present
  | @start now project targets opts next call turn moves =>
    rcases getElem?_concat_cases present with old | ⟨_, rfl⟩
    · exact freed other result old
    · intro asked
      rw [turn, executeRun_cancelRequested] at asked
      cases asked

/-- A backoff that ends at a closed gate puts its action back into gateWaiters. -/
theorem BackoffParks.blocks {engine : Engine} {label : Label} (parks : BackoffParks engine label) :
    ¬ (engine.step hashAction label).Unblocked := by
  intro unblocked
  cases parks with
  | @parks now index decision run action attempt found present cancelled backoff paused none empty =>
    let place : Gate := .run { attempt with number := attempt.number + 1 }
    have resumed : executeAction hashAction now decision (engine.context run) action =
        some { engine.context run with run := callGate run action.name place } := by
      simp [executeAction, backoff, Engine.context, place]
    have updated := Engine.getElem?_update found
      { engine.context run with run := callGate run action.name place } index
    rw [if_pos rfl] at updated
    have after : (engine.step hashAction (.resume now index action.name decision)).created[index]? =
        some (callGate run action.name place) := by
      simp only [Engine.step, Engine.step?, Option.bind_eq_bind, found, Option.bind_some, present,
        resumed, Option.getD_some]
      exact updated
    have shut : callGate run action.name place = _ :=
      show gate (run.move action.name (.entering place)) action.name place =
        { run.move action.name (.entering place) with
          gateWaiters := run.gateWaiters ++ [(⟨action.name, place.index⟩ : Waiter)] }.move
            action.name (.parked place) by
        have spent : (run.move action.name (.entering place)).actionPasses.getD action.name 0 = 0 :=
          none
        have closed : (run.move action.name (.entering place)).paused = true := paused
        have drained : (run.move action.name (.entering place)).stepTickets = 0 := empty
        simp only [gate, closed, spent, drained, Bool.true_eq_false, if_false, Nat.lt_irrefl]
        rfl
    have blocked := unblocked index _ after (by rw [shut]; exact cancelled)
    rw [shut] at blocked
    exact absurd blocked (by simp [BuildRun.move])

/-- In every execution: no action of a run whose cancel was accepted is ever in
gateWaiters again, exactly when no retry backoff of a cancelled run ends while
that run is paused with neither a pass nor a ticket. -/
theorem cancel_unblocks (hashAction : HashedAction → String) (labels : List Label) :
    (∀ before rest, labels = before ++ rest → (Engine.after hashAction before).Unblocked) ↔
      Execution.Along (Engine.step hashAction) (fun engine label => ¬ BackoffParks engine label)
        Engine.init labels := by
  constructor
  · intro holds
    refine Execution.along_of_reached (motive := Engine.Unblocked) ?_ holds
    intro engine label refused
    exact (not_not.mp refused).blocks
  · rintro allowed before rest rfl index run found asked
    have freed := Execution.invariant_along
      (motive := fun engine : Engine => engine.Sound hashAction ∧
        ∀ (index : Nat) (run : BuildRun), engine.created[index]? = some run → Freed run)
      (fun engine label opens held => ⟨held.1.step label,
        (engine.step_cases held.1 label).freed held.1 opens held.2⟩)
      ⟨fun index run found => by simp [Engine.init] at found,
        fun index run found => by simp [Engine.init] at found⟩
      (Execution.along_append.mp allowed).1
    exact (freed.2 index run found asked).1

/-- A build cancelled in the backoff of its first action. -/
def cancelledBackoff : List Label :=
  let decision : ScheduleDecision := ⟨"ryzen-1", 10, "free"⟩
  let resume (now : Nat) : Label := .resume now 0 "nginx:main:fetch" decision
  [.startBuild 0 "nginx" ["main"] { failAction := some "nginx:main:fetch", retries := some 1 },
    resume 1, resume 2, resume 3]

/-- The cancel is accepted, then a pause arrives before the backoff is over: the
retry parks at gate 2 of the cancelled run. -/
theorem cancel_unblocks_parked :
    (cancelBuild (Engine.after HashedAction.name cancelledBackoff) "nginx-0").2 = true ∧
      ((Engine.after HashedAction.name (cancelledBackoff ++
        [.cancelBuild "nginx-0", .debuggerCommand 4 "nginx-0" "pause",
          .resume 5 0 "nginx:main:fetch" ⟨"ryzen-1", 10, "free"⟩])).created[0]?).any
        (fun run => run.cancelRequested &&
          run.gateWaiters = [(⟨"nginx:main:fetch", 2⟩ : Waiter)]) = true := by
  decide

end SysDeck.Fester
