import SysDeck.Fester.EventProtocol
import SysDeck.Fester.Gates

/-! Debugger exactness: while a run stays paused, every attempt that starts was
paid for by a step, and a step releases one blocked action for one attempt. -/

namespace SysDeck.Fester

variable {hashAction : HashedAction → String}

/-- A debug event of this state. -/
def FesterEvent.debugs (state : String) (event : FesterEvent) : Bool :=
  event.type = .debug && event.state = some state

/-- An attempt enters 'running'. -/
def FesterEvent.enters (event : FesterEvent) : Bool :=
  event.type = .taskUpdate && event.state = some ActionState.running.text

/-- Gate 2 is behind the coroutine and its attempt has not begun. -/
def Point.atRun : Point → Bool
  | .passed (.run _) => true
  | _ => false

/-- The action may still start an attempt that a step has paid for. -/
def BuildRun.credited (run : BuildRun) (name : String) : Bool :=
  0 < run.passes name || (run.actions.find? name).any (·.point.atRun)

/-- The number of attempts that released actions may still start. -/
def BuildRun.credit (run : BuildRun) : Nat := run.actions.keys.countP run.credited

private theorem countP_exchange {names : List String} (nodup : names.Nodup) {name : String}
    (listed : name ∈ names) {before after : String → Bool}
    (others : ∀ other, other ≠ name → after other = true → before other = true) :
    names.countP after + (if before name then 1 else 0) ≤
      names.countP before + (if after name then 1 else 0) := by
  induction names with
  | nil => simp at listed
  | cons head rest ih =>
    rw [List.nodup_cons] at nodup
    rw [List.countP_cons, List.countP_cons]
    rcases List.mem_cons.mp listed with rfl | later
    · have tail : rest.countP after ≤ rest.countP before := by
        apply List.countP_mono_left
        intro other member
        exact others other fun same => nodup.1 (same ▸ member)
      omega
    · have differ : head ≠ name := fun same => nodup.1 (same ▸ later)
      have tail := ih nodup.2 later
      have first : (if after head then 1 else 0) ≤ if before head then 1 else 0 := by
        by_cases credited : after head = true
        · simp [credited, others head differ credited]
        · simp [credited]
      omega

/-- The credit moves with the one action whose credit changed. -/
theorem BuildRun.credit_exchange (before after : BuildRun)
    (keys : after.actions.keys = before.actions.keys) {name : String} {action : ActionNode}
    (found : before.actions.find? name = some action)
    (others : ∀ other, other ≠ name → after.credited other = true → before.credited other = true) :
    after.credit + (if before.credited name then 1 else 0) ≤
      before.credit + (if after.credited name then 1 else 0) := by
  rw [credit, credit, keys]
  exact countP_exchange before.actions.nodup (OrderedMap.mem_keys_iff.mpr ⟨action, found⟩) others

theorem ActionStep.meter {context : Context} {action changed : ActionNode}
    {events : List FesterEvent} {slot : Slot} {key : Option String}
    (step : ActionStep hashAction context action events slot key changed) :
    changed.point.atRun = false ∧
      events.countP FesterEvent.enters ≤ if action.point.atRun then 1 else 0 := by
  cases step with
  | start now attempt point => simp [Point.atRun, point, List.countP_cons]; split <;> simp
  | skip now live pending idle => exact ⟨by simp [idle, Point.atRun], Nat.zero_le _⟩
  | windDown now cancelled pending halted =>
    refine ⟨?_, Nat.zero_le _⟩
    cases point : action.point <;> simp [point, Point.settled] at halted <;> rfl
  | schedule now decision next point live registered onward =>
    refine ⟨?_, Nat.zero_le _⟩
    rcases onward with ⟨rfl, _⟩ | ⟨rfl, _⟩ <;> rfl
  | enter | abandon | cancel | cached | retry | fail | done | again | stamp =>
    exact ⟨rfl, Nat.zero_le _⟩

/-- A step of an action spends the credit its attempt needs. -/
theorem BuildRun.credit_act {context : Context} {action changed : ActionNode}
    {events : List FesterEvent} {slot : Slot} {key : Option String}
    (gated : Gated context.run) (found : context.run.actions.find? action.name = some action)
    (step : ActionStep hashAction context action events slot key changed) :
    events.countP FesterEvent.enters + ((context.run.put changed).emitAll events).credit ≤
      context.run.credit := by
  obtain ⟨later, started⟩ := step.meter
  have others : ∀ other, other ≠ action.name →
      (context.run.put changed).actions.find? other = context.run.actions.find? other :=
    fun other differ => OrderedMap.find?_modify_ne _ _ (by rw [step.name_eq]; exact differ)
  have exchange := BuildRun.credit_exchange context.run
    ((context.run.put changed).emitAll events) (OrderedMap.keys_modify ..) found (by
      intro other differ
      have same := others other differ
      simp only [BuildRun.credited, BuildRun.emitAll, same]
      exact id)
  have after : ((context.run.put changed).emitAll events).credited action.name =
      decide (0 < context.run.passes action.name) := by
    have present : ((context.run.put changed).emitAll events).actions.find? action.name =
        some changed := by
      have written := BuildRun.find?_put found step.name_eq
      rwa [step.name_eq] at written
    simp only [BuildRun.credited, present, Option.any_some, later, Bool.or_false]
    rfl
  have before : context.run.credited action.name =
      (decide (0 < context.run.passes action.name) || action.point.atRun) := by
    simp [BuildRun.credited, found]
  rw [after, before] at exchange
  cases waiting : action.point.atRun with
  | false =>
    rw [waiting] at started exchange
    simp only [Bool.or_false, Bool.false_eq_true, ↓reduceIte] at started exchange
    omega
  | true =>
    have none : context.run.passes action.name = 0 := by
      have bound := gated.bounded action.name action found
      cases point : action.point with
      | passed place =>
        cases place with
        | schedule => simp [point, Point.atRun] at waiting
        | run attempt =>
          rw [point] at bound
          exact Nat.le_zero.mp bound
      | _ => simp [point, Point.atRun] at waiting
    rw [waiting, none] at exchange
    rw [waiting] at started
    simp only [Nat.lt_irrefl, decide_false, Bool.false_or, Bool.false_eq_true, ↓reduceIte] at exchange
    simp only [↓reduceIte] at started
    omega

/-- What the run may still start, in passes and in tickets. -/
def BuildRun.allowance (run : BuildRun) : Nat := run.stepTickets + run.credit

/-- The credit after one coroutine moved and only its own passes changed. -/
theorem BuildRun.credit_move (run moved : BuildRun) {action : ActionNode}
    (found : run.actions.find? action.name = some action) (actions : moved.actions = run.actions)
    (passes : ∀ other, other ≠ action.name → moved.passes other = run.passes other) (point : Point) :
    (moved.move action.name point).credit +
        (if 0 < run.passes action.name ∨ action.point.atRun = true then 1 else 0) ≤
      run.credit + (if 0 < moved.passes action.name ∨ point.atRun = true then 1 else 0) := by
  have exchange := credit_exchange run (moved.move action.name point)
    (by rw [← actions]; exact OrderedMap.keys_modify ..) found (by
      intro other differ
      have same : (moved.move action.name point).actions.find? other = run.actions.find? other := by
        rw [← actions]
        exact OrderedMap.find?_modify_ne _ _ differ
      have kept : (moved.move action.name point).passes other = run.passes other :=
        passes other differ
      simp only [credited, same, kept]
      exact id)
  have before : run.credited action.name =
      (decide (0 < run.passes action.name) || action.point.atRun) := by
    simp [credited, found]
  have after : (moved.move action.name point).credited action.name =
      (decide (0 < moved.passes action.name) || point.atRun) := by
    have present : (moved.move action.name point).actions.find? action.name =
        some { action with point } := by
      simp only [move, actions, OrderedMap.find?_modify_self, found]
      rfl
    simp only [credited, present, Option.any_some]
    rfl
  simpa [before, after] using exchange

/-- A turn of gate() in a paused run grants no new allowance. -/
theorem BuildRun.allowance_gate {run : BuildRun} (paused : run.paused = true) {action : ActionNode}
    {place : Gate} (found : run.actions.find? action.name = some action)
    (point : action.point = .entering place) :
    (gate run action.name place).allowance ≤ run.allowance := by
  have turn := gate_turn run action.name place
  generalize gate run action.name place = next at turn
  have waiting : action.point.atRun = false := by rw [point]; rfl
  have most : ∀ (test : Prop) [Decidable test], (if test then 1 else 0) ≤ 1 := by
    intro test _
    split <;> decide
  cases turn with
  | through unpaused => exact absurd (unpaused.symm.trans paused) (by decide)
  | pass _ held =>
    let moved : BuildRun :=
      { run with actionPasses := run.actionPasses.set action.name (run.passes action.name - 1) }
    have exchange := credit_move run moved found rfl (fun other differ => by
      simp only [moved, passes, OrderedMap.getD_set, if_neg differ]) (.passed place)
    rw [if_pos (.inl held)] at exchange
    have bound := most (0 < moved.passes action.name ∨ (Point.passed place).atRun = true)
    change run.stepTickets + (moved.move action.name (.passed place)).credit ≤
      run.stepTickets + run.credit
    omega
  | ticket _ none left =>
    let moved : BuildRun :=
      { run with
        stepTickets := run.stepTickets - 1
        actionPasses := run.actionPasses.set action.name (totalGates - place.index) }
    have exchange := credit_move run moved found rfl (fun other differ => by
      simp only [moved, passes, OrderedMap.getD_set, if_neg differ]) (.passed place)
    have bound := most (0 < moved.passes action.name ∨ (Point.passed place).atRun = true)
    change run.stepTickets - 1 + (moved.move action.name (.passed place)).credit ≤
      run.stepTickets + run.credit
    omega
  | park _ none empty =>
    let moved : BuildRun :=
      { run with gateWaiters := run.gateWaiters ++ [(⟨action.name, place.index⟩ : Waiter)] }
    have exchange := credit_move run moved found rfl (fun _ _ => rfl) (.parked place)
    have still : ¬ (0 < moved.passes action.name ∨ (Point.parked place).atRun = true) := by
      have same : moved.passes action.name = 0 := none
      simp [same, Point.atRun]
    rw [if_neg still] at exchange
    change run.stepTickets + (moved.move action.name (.parked place)).credit ≤
      run.stepTickets + run.credit
    omega

/-- A step adds one to the allowance: a released action or a ticket. -/
theorem BuildRun.allowance_step {run : BuildRun} (gated : Gated run) (now : Nat) :
    (stepRun now run).allowance ≤ run.allowance + 1 := by
  cases waiting : run.gateWaiters with
  | nil =>
    rw [stepRun_ticket now waiting]
    change run.stepTickets + 1 + run.credit ≤ run.stepTickets + run.credit + 1
    omega
  | cons head rest =>
    obtain ⟨action, place, found, _⟩ := gated.parked head (by simp [waiting])
    have exchange := credit_exchange run (stepRun now run) (by
        rw [stepRun_waiting now waiting]
        exact OrderedMap.keys_modify ..) found (by
      intro other differ
      have same : (stepRun now run).actions.find? other = run.actions.find? other := by
        rw [stepRun_waiting now waiting]
        exact OrderedMap.find?_modify_ne _ _ differ
      have kept : (stepRun now run).passes other = run.passes other := by
        rw [stepRun_waiting now waiting]
        exact (OrderedMap.getD_set ..).trans (if_neg differ)
      simp only [credited, same, kept]
      exact id)
    have most : (if (stepRun now run).credited head.action = true then 1 else 0) ≤ 1 := by
      split <;> decide
    have tickets : (stepRun now run).stepTickets = run.stepTickets := by
      rw [stepRun_waiting now waiting]
      rfl
    unfold allowance
    omega

/-- Since any pause, without a resume or a cancel, no more attempts have started
than steps were issued, counting what released actions may still start. -/
def Metered (run : BuildRun) : Prop :=
  run.cancelRequested = false → ∀ pre pause post, run.events = pre ++ pause :: post →
    pause.debugs "paused" = true → (∀ event ∈ post, event.debugs "resumed" = false) →
      run.paused = true ∧
        post.countP FesterEvent.enters + run.allowance ≤ post.countP (FesterEvent.debugs "step")

/-- A move that adds these events, none of them a pause, meters what the run metered. -/
theorem Metered.extend {before after : BuildRun} (metered : Metered before)
    (events : List FesterEvent) (appended : after.events = before.events ++ events)
    (live : after.cancelRequested = false → before.cancelRequested = false)
    (unpaused : ∀ event ∈ events, event.debugs "paused" = false)
    (paid : before.paused = true → (∀ event ∈ events, event.debugs "resumed" = false) →
      after.paused = true ∧ events.countP FesterEvent.enters + after.allowance ≤
        before.allowance + events.countP (FesterEvent.debugs "step")) : Metered after := by
  intro going pre pause post split paused resumed
  rw [appended] at split
  rcases List.append_eq_append_iff.mp split with ⟨gap, rfl, new⟩ | ⟨gap, old, new⟩
  · have listed : pause ∈ events := by simp [new]
    exact absurd paused (by simp [unpaused pause listed])
  · cases gap with
    | nil =>
      have same : pause :: post = events := by simpa using new
      have listed : pause ∈ events := same ▸ List.mem_cons_self
      exact absurd paused (by simp [unpaused pause listed])
    | cons first middle =>
      obtain ⟨rfl, rfl⟩ : pause = first ∧ post = middle ++ events := by simpa using new
      obtain ⟨held, bound⟩ := metered (live going) pre pause middle old paused fun event member =>
        resumed event (List.mem_append_left _ member)
      obtain ⟨still, more⟩ := paid held fun event member =>
        resumed event (List.mem_append_right _ member)
      refine ⟨still, ?_⟩
      rw [List.countP_append, List.countP_append]
      omega

/-- A pause takes back everything that was granted before it. -/
theorem BuildRun.allowance_pause {run : BuildRun} (now : Nat) (calm : run.calm) :
    (pauseRun now run).allowance = 0 := by
  have none : (pauseRun now run).credit = 0 := by
    apply List.countP_eq_zero.mpr
    intro name listed
    obtain ⟨action, found⟩ := OrderedMap.mem_keys_iff.mp listed
    have resting := calm action (OrderedMap.mem_values found)
    have point : action.point.atRun = false := by
      cases point : action.point <;> simp [point, Point.ready] at resting <;> rfl
    have passes : (pauseRun now run).passes name = 0 := rfl
    simp [credited, found, point, passes]
  change 0 + (pauseRun now run).credit = 0
  rw [none]

theorem Metered.pause {run : BuildRun} (metered : Metered run) (now : Nat) (calm : run.calm) :
    Metered (pauseRun now run) := by
  intro going pre mark post split paused resumed
  refine ⟨rfl, ?_⟩
  rw [BuildRun.allowance_pause now calm]
  change run.events ++ [run.debugEvent now "paused"] = pre ++ mark :: post at split
  rcases List.append_eq_append_iff.mp split with ⟨gap, rfl, new⟩ | ⟨gap, old, new⟩
  · cases gap with
    | nil =>
      obtain ⟨_, rfl⟩ := List.cons.inj new
      exact Nat.le_refl 0
    | cons first middle => simp at new
  · cases gap with
    | nil =>
      obtain ⟨_, rfl⟩ := List.cons.inj new
      exact Nat.le_refl 0
    | cons first middle =>
      obtain ⟨rfl, rfl⟩ : mark = first ∧ post = middle ++ [run.debugEvent now "paused"] := by
        simpa using new
      obtain ⟨_, bound⟩ := metered going pre mark middle old paused fun event member =>
        resumed event (List.mem_append_left _ member)
      have counts : [run.debugEvent now "paused"].countP FesterEvent.enters = 0 ∧
          [run.debugEvent now "paused"].countP (FesterEvent.debugs "step") = 0 := ⟨rfl, rfl⟩
      rw [List.countP_append, List.countP_append]
      omega

theorem ActionStep.no_debug {context : Context} {action changed : ActionNode}
    {events : List FesterEvent} {slot : Slot} {key : Option String}
    (step : ActionStep hashAction context action events slot key changed) :
    ∀ event ∈ events, event.type ≠ .debug := by
  cases step <;> simp [BuildRun.scheduledEvent, BuildRun.cancelledEvent, BuildRun.hitEvent,
    BuildRun.cachedEvent, BuildRun.runningEvent, BuildRun.retryEvent, BuildRun.failureEvent,
    BuildRun.doneEvent, BuildRun.stampEvent, BuildRun.skippedEvent, BuildRun.windDownEvent,
    BuildRun.taskUpdate]

theorem Metered.micro {context next : Context} (gated : Gated context.run)
    (step : Micro hashAction context next) (metered : Metered context.run) : Metered next.run := by
  cases step with
  | @act action changed events slot key found own =>
    have quiet : ∀ event ∈ events, ∀ state, event.debugs state = false := by
      intro event member state
      simp [FesterEvent.debugs, own.no_debug event member]
    refine metered.extend events rfl id (fun event member => quiet event member _) fun paused _ => ?_
    have spent := BuildRun.credit_act gated found own
    refine ⟨paused, ?_⟩
    change _ + (context.run.stepTickets + ((context.run.put changed).emitAll events).credit) ≤
      context.run.stepTickets + context.run.credit + _
    omega
  | @gate action place found point =>
    obtain ⟨_, _, _, _, _, same⟩ := gate_eq context.run action.name place
    refine metered.extend [] ?_ ?_ (by simp) fun paused _ => ?_
    · rw [same]
      simp
    · rw [same]
      exact id
    · refine ⟨by rw [same]; exact paused, ?_⟩
      simpa using BuildRun.allowance_gate paused found point
  | launch wave running live halted =>
    refine metered.extend [] (by simp) id (by simp) fun paused _ => ⟨paused, ?_⟩
    exact Nat.le_of_eq (Nat.zero_add _)
  | finish now running halted ended =>
    refine metered.extend _ rfl id (by simp [FesterEvent.debugs, BuildRun.pipelineUpdate])
      fun paused _ => ⟨paused, ?_⟩
    exact Nat.le_of_eq (Nat.zero_add _)
  | cancel running calm =>
    intro going
    obtain ⟨_, same, _⟩ := releaseGates_eq { context.run with cancelRequested := true }
    rw [show cancelRun context.run = _ from same] at going
    cases going
  | pause now calm => exact metered.pause now calm
  | resume now calm =>
    obtain ⟨_, same, _⟩ := releaseGates_eq context.run
    rw [resumeRun, same]
    refine metered.extend _ rfl id (by simp [FesterEvent.debugs, BuildRun.debugEvent])
      fun _ resumed => ?_
    simp [FesterEvent.debugs, BuildRun.debugEvent] at resumed
  | step now calm =>
    have more := BuildRun.allowance_step gated now
    obtain ⟨_, _, _, _, same, _⟩ := stepRun_eq now context.run
    refine metered.extend [context.run.debugEvent now "step"] ?_ ?_ ?_ fun paused _ => ?_
    · rw [same]
    · rw [same]
      exact id
    · simp [FesterEvent.debugs, BuildRun.debugEvent]
    · refine ⟨by rw [same]; exact paused, ?_⟩
      have counts : [context.run.debugEvent now "step"].countP FesterEvent.enters = 0 ∧
          [context.run.debugEvent now "step"].countP (FesterEvent.debugs "step") = 1 := ⟨rfl, rfl⟩
      change _ + (stepRun now context.run).allowance ≤ _
      omega

/-- Points of a released action whose attempt has not begun, with the passes it needs. -/
def Point.funded (passes : Nat) : Point → Prop
  | .entering .schedule => 2 ≤ passes
  | .passed .schedule | .entering (.run _) => 1 ≤ passes
  | .passed (.run _) | .cacheWait .. | .returned => True
  | .idle | .parked _ | .work _ | .backoff _ | .stampWait _ => False

/-- Points of a released action whose attempt has begun. -/
def Point.spent : Point → Prop
  | .work _ | .backoff _ | .stampWait _ | .returned | .entering (.run _) | .parked (.run _) => True
  | .idle | .entering .schedule | .parked .schedule | .passed _ | .cacheWait .. => False

/-- Where a released action stands until the next command: on its way to one
attempt, or past it with nothing left to pass another gate. -/
structure ReleasedAt (started : Nat) (name : String) (run : BuildRun) : Prop where
  paused : run.paused = true
  tickets : run.stepTickets = 0
  phase : ∃ action, run.actions.find? name = some action ∧
    (((run.word name).count .running = started ∧ action.point.funded (run.passes name)) ∨
      ((run.word name).count .running = started + 1 ∧ run.passes name = 0 ∧ action.point.spent))

theorem ActionStep.released {context : Context} {action changed : ActionNode}
    {events : List FesterEvent} {slot : Slot} {key : Option String}
    (step : ActionStep hashAction context action events slot key changed)
    (live : context.run.cancelRequested = false) {passes : Nat}
    (bound : passes ≤ action.point.passBound) :
    (action.point.funded passes →
      ((events.filterMap FesterEvent.token).count .running = 0 ∧ changed.point.funded passes) ∨
        ((events.filterMap FesterEvent.token).count .running = 1 ∧ passes = 0 ∧
          changed.point.spent)) ∧
      (action.point.spent →
        (events.filterMap FesterEvent.token).count .running = 0 ∧ changed.point.spent) := by
  cases step with
  | enter running live member pending idle => simp [idle, Point.funded, Point.spent]
  | skip now live pending idle => simp [idle, Point.funded, Point.spent]
  | abandon point cancelled | cancel now decision leaves cancelled =>
    exact absurd (live.symm.trans cancelled) (by decide)
  | windDown now cancelled => exact absurd (live.symm.trans cancelled) (by decide)
  | schedule now decision next point _ registered onward =>
    simp only [point, Point.funded, Point.spent]
    refine ⟨fun held => .inl ⟨rfl, ?_⟩, False.elim⟩
    rcases onward with ⟨rfl, _⟩ | ⟨rfl, _⟩
    · trivial
    · exact held
  | cached now decision key point =>
    simp only [point, Point.funded, Point.spent]
    exact ⟨fun _ => .inl ⟨rfl, trivial⟩, False.elim⟩
  | start now attempt point =>
    rw [point] at bound
    simp only [point, Point.funded, Point.spent]
    exact ⟨fun _ => .inr ⟨rfl, Nat.le_zero.mp bound, trivial⟩, False.elim⟩
  | retry now attempt point | fail now attempt point | done now attempt point
  | again attempt point | stamp now decision point =>
    simp only [point, Point.funded, Point.spent]
    exact ⟨False.elim, fun _ => ⟨rfl, trivial⟩⟩

theorem ReleasedAt.act {context : Context} {actor changed : ActionNode}
    {events : List FesterEvent} {slot : Slot} {key : Option String} {started : Nat} {name : String}
    (gated : Gated context.run) (found : context.run.actions.find? actor.name = some actor)
    (own : ActionStep hashAction context actor events slot key changed)
    (live : context.run.cancelRequested = false)
    (released : ReleasedAt started name context.run) :
    ReleasedAt started name (context.acted changed events slot key).run := by
  obtain ⟨paused, tickets, action, present, phase⟩ := released
  refine ⟨paused, tickets, ?_⟩
  by_cases same : name = actor.name
  · subst same
    obtain rfl := Option.some.inj (present.symm.trans found)
    obtain ⟨written, appended⟩ := own.acted_self found
    have word : (context.acted changed events slot key).run.word action.name =
        context.run.word action.name ++ events.filterMap FesterEvent.token := by
      simp [BuildRun.word, appended]
    obtain ⟨onward, after⟩ := own.released live (gated.bounded action.name action found)
    refine ⟨changed, written, ?_⟩
    rw [word, List.count_append]
    rcases phase with ⟨count, funded⟩ | ⟨count, none, spent⟩
    · rcases onward funded with ⟨quiet, still⟩ | ⟨starts, none, exceeds⟩
      · exact .inl ⟨by omega, still⟩
      · exact .inr ⟨by omega, none, exceeds⟩
    · obtain ⟨quiet, still⟩ := after spent
      exact .inr ⟨by omega, none, still⟩
  · obtain ⟨kept, quiet⟩ := own.acted_other same
    have word : (context.acted changed events slot key).run.word name = context.run.word name := by
      simp [BuildRun.word, quiet]
    refine ⟨action, kept.trans present, ?_⟩
    rw [word]
    exact phase

theorem ReleasedAt.gate {run : BuildRun} {actor : ActionNode} {place : Gate} {started : Nat}
    {name : String} (found : run.actions.find? actor.name = some actor)
    (point : actor.point = .entering place) (released : ReleasedAt started name run) :
    ReleasedAt started name (gate run actor.name place) := by
  obtain ⟨paused, tickets, action, present, phase⟩ := released
  have turn := gate_turn run actor.name place
  generalize SysDeck.Fester.gate run actor.name place = next at turn
  cases turn with
  | through unpaused => exact absurd (unpaused.symm.trans paused) (by decide)
  | ticket _ none left => omega
  | pass _ held =>
    refine ⟨paused, tickets, ?_⟩
    by_cases same : name = actor.name
    · subst same
      obtain rfl := Option.some.inj (present.symm.trans found)
      refine ⟨{ action with point := .passed place }, ?_, ?_⟩
      · change (run.actions.modify action.name _).find? action.name = _
        rw [OrderedMap.find?_modify_self, found]
        rfl
      · rcases phase with ⟨count, funded⟩ | ⟨count, none, spent⟩
        · refine .inl ⟨count, ?_⟩
          have left : (run.actionPasses.set action.name (run.passes action.name - 1)).getD
              action.name 0 = run.passes action.name - 1 :=
            (OrderedMap.getD_set ..).trans (if_pos rfl)
          change (Point.passed place).funded ((run.actionPasses.set action.name _).getD _ 0)
          rw [left]
          rw [point] at funded
          cases place with
          | schedule =>
            simp only [Point.funded] at funded ⊢
            omega
          | run attempt => trivial
        · omega
    · refine ⟨action, (OrderedMap.find?_modify_ne _ _ same).trans present, ?_⟩
      have kept : (run.actionPasses.set actor.name (run.passes actor.name - 1)).getD name 0 =
          run.passes name := (OrderedMap.getD_set ..).trans (if_neg same)
      simp only [BuildRun.passes, BuildRun.move] at kept phase ⊢
      rw [kept]
      exact phase
  | park _ none empty =>
    refine ⟨paused, tickets, ?_⟩
    by_cases same : name = actor.name
    · subst same
      obtain rfl := Option.some.inj (present.symm.trans found)
      refine ⟨{ action with point := .parked place }, ?_, ?_⟩
      · change (run.actions.modify action.name _).find? action.name = _
        rw [OrderedMap.find?_modify_self, found]
        rfl
      · rcases phase with ⟨count, funded⟩ | ⟨count, _, spent⟩
        · rw [point, none] at funded
          cases place <;> simp [Point.funded] at funded
        · refine .inr ⟨count, none, ?_⟩
          rw [point] at spent
          cases place with
          | schedule => cases spent
          | run attempt => trivial
    · exact ⟨action, (OrderedMap.find?_modify_ne _ _ same).trans present, phase⟩

/-- Without a command in between, a released action stays where its step put it. -/
theorem ReleasedAt.micro {context next : Context} {started : Nat} {name : String}
    (gated : Gated context.run) (step : Micro hashAction context next)
    (quiet : ∀ events, next.run.events = context.run.events ++ events →
      ∀ event ∈ events, event.type ≠ .debug)
    (live : next.run.cancelRequested = false) (released : ReleasedAt started name context.run) :
    ReleasedAt started name next.run := by
  cases step with
  | act found own => exact released.act gated found own live
  | gate found point => exact released.gate found point
  | launch wave running live halted => exact ⟨released.paused, released.tickets, released.phase⟩
  | finish now running halted ended =>
    obtain ⟨paused, tickets, action, found, phase⟩ := released
    refine ⟨paused, tickets, action, found, ?_⟩
    have word : (finishRun now context).run.word name = context.run.word name := by
      simp [BuildRun.word, BuildRun.eventsOf, finishRun, BuildRun.emit, BuildRun.pipelineUpdate]
    rw [word]
    exact phase
  | cancel running calm =>
    obtain ⟨_, same, _⟩ := releaseGates_eq { context.run with cancelRequested := true }
    rw [show cancelRun context.run = _ from same] at live
    cases live
  | pause now calm =>
    exact absurd rfl (quiet [context.run.debugEvent now "paused"] rfl _ List.mem_cons_self)
  | resume now calm =>
    obtain ⟨_, same, _⟩ := releaseGates_eq context.run
    have appended : (resumeRun now context.run).events =
        context.run.events ++ [context.run.debugEvent now "resumed"] := by
      rw [resumeRun, same]
      rfl
    exact absurd rfl (quiet _ appended _ List.mem_cons_self)
  | step now calm =>
    obtain ⟨_, _, _, _, same, _⟩ := stepRun_eq now context.run
    have appended : (stepRun now context.run).events =
        context.run.events ++ [context.run.debugEvent now "step"] := by
      rw [same]
    exact absurd rfl (quiet _ appended _ List.mem_cons_self)

theorem Micro.events_grow {context next : Context} (step : Micro hashAction context next) :
    ∃ events, next.run.events = context.run.events ++ events := by
  rcases step.log with ⟨events, appended, _⟩ | ⟨now, rfl, _⟩
  · exact ⟨events, appended⟩
  · exact ⟨_, rfl⟩

/-- A released action over any evolution of its run without a command. -/
theorem Evolves.released {run final : BuildRun} (evolves : Evolves hashAction run final)
    (valid : RunInvariant hashAction run) (gated : Gated run) {started : Nat} {name : String}
    (released : ReleasedAt started name run) {post : List FesterEvent}
    (appended : final.events = run.events ++ post) (quiet : ∀ event ∈ post, event.type ≠ .debug)
    (live : final.cancelRequested = false) : ReleasedAt started name final := by
  refine ((evolves.preserves (motive := fun next => Gated next ∧ run.events <+: next.events ∧
    ∀ post, next.events = run.events ++ post → (∀ event ∈ post, event.type ≠ .debug) →
      next.cancelRequested = false → ReleasedAt started name next) ?_ valid
    ⟨gated, List.prefix_rfl, fun _ _ _ _ => released⟩).2.2.2 post appended quiet live)
  intro before after _ step ⟨gated, ⟨old, grown⟩, held⟩
  obtain ⟨fresh, more⟩ := step.events_grow
  refine ⟨gated.micro step, ⟨old ++ fresh, by rw [more, ← grown, List.append_assoc]⟩, ?_⟩
  intro post split quiet live
  have parts : post = old ++ fresh := by
    rw [more, ← grown, List.append_assoc] at split
    exact (List.append_cancel_left split).symm
  have going : before.run.cancelRequested = false := by
    cases asked : before.run.cancelRequested with
    | false => rfl
    | true => exact absurd ((step.frame.cancelled asked).symm.trans live) (by decide)
  refine ReleasedAt.micro gated step ?_ live (held old grown.symm ?_ going)
  · intro events tail event member
    have same : events = fresh := List.append_cancel_left (tail.symm.trans more)
    exact quiet event (by rw [parts]; exact List.mem_append_right _ (same ▸ member))
  · intro event member
    exact quiet event (by rw [parts]; exact List.mem_append_left _ member)

/-- A step with a waiter sends its action back into the gate with its passes. -/
theorem Gated.released {run : BuildRun} (gated : Gated run) (now : Nat) {head : Waiter}
    {rest : List Waiter} (waiting : run.gateWaiters = head :: rest) :
    ReleasedAt ((run.word head.action).count .running) head.action (stepRun now run) := by
  obtain ⟨action, place, found, point, index⟩ := gated.parked head (by simp [waiting])
  have none : run.passes head.action = 0 := by
    have bound := gated.bounded head.action action found
    rw [point] at bound
    exact Nat.le_zero.mp bound
  have paused : run.paused = true := by
    by_contra stopped
    have empty := (gated.opened (by simpa using stopped)).1
    rw [waiting] at empty
    cases empty
  rw [stepRun_waiting now waiting]
  refine ⟨paused, gated.spent (by simp [waiting]), action.wake, ?_, .inl ⟨?_, ?_⟩⟩
  · change (run.actions.modify head.action ActionNode.wake).find? head.action = _
    rw [OrderedMap.find?_modify_self, found]
    rfl
  · simp [BuildRun.word, BuildRun.eventsOf, BuildRun.emit, BuildRun.resolve, BuildRun.debugEvent]
  · change action.wake.point.funded ((run.actionPasses.set head.action _).getD head.action 0)
    rw [OrderedMap.getD_set, if_pos rfl, none, index]
    cases place <;> simp [ActionNode.wake, point, Point.funded, totalGates, Gate.index]

/-- A step releases the head waiter and leaves every other action where it is. -/
structure ReleasesOne (run stepped : BuildRun) (head : Waiter) (rest : List Waiter) : Prop where
  blocked : ∃ action place, run.actions.find? head.action = some action ∧
    action.point = .parked place ∧ head.gate = place.index ∧
    stepped.actions.find? head.action = some { action with point := .entering place }
  others : ∀ name, name ≠ head.action → stepped.actions.find? name = run.actions.find? name
  waiting : stepped.gateWaiters = rest

theorem Gated.releasesOne {run : BuildRun} (gated : Gated run) (now : Nat) {head : Waiter}
    {rest : List Waiter} (waiting : run.gateWaiters = head :: rest) :
    ReleasesOne run (stepRun now run) head rest := by
  obtain ⟨action, place, found, point, index⟩ := gated.parked head (by simp [waiting])
  rw [stepRun_waiting now waiting]
  refine ⟨⟨action, place, found, point, index, ?_⟩, ?_, rfl⟩
  · change (run.actions.modify head.action ActionNode.wake).find? head.action = _
    rw [OrderedMap.find?_modify_self, found]
    simp [ActionNode.wake, point]
  · intro name differ
    exact OrderedMap.find?_modify_ne _ _ differ

/-- A delivered step command takes the run its id names through stepRun. -/
theorem Engine.step_command {engine : Engine} (quiescent : engine.quiescent = true) (now : Nat)
    {buildId : String} {index : Nat} {run : BuildRun}
    (named : engine.lookup buildId = some (index, run)) :
    (engine.step hashAction (.debuggerCommand now buildId "step")).created[index]? =
      some (stepRun now run) := by
  have found := (Engine.lookup_eq_some named).2
  have updated := Engine.getElem?_update found { engine.context run with run := stepRun now run } index
  rw [if_pos rfl] at updated
  simp only [Engine.step, Engine.step?, quiescent, if_true, debuggerCommand, named, debugRun,
    Option.getD_some]
  exact updated

theorem metered_after (labels : List Label) {index : Nat} {run : BuildRun}
    (found : (Engine.after hashAction labels).created[index]? = some run) :
    RunInvariant hashAction run ∧ Gated run ∧ Metered run := by
  refine Engine.runs_invariant (motive := fun run => Gated run ∧ Metered run) ?_
    (fun _ _ _ step held => ⟨held.1.micro step, held.2.micro held.1 step⟩) labels found
  intro now project targets opts
  refine ⟨newRun_gated now project targets opts, ?_⟩
  intro _ pre pause post split paused
  have listed : pause ∈ (newRun now project targets opts).events := by simp [split]
  simp only [newRun, BuildRun.emit, List.nil_append, List.mem_append, List.mem_singleton] at listed
  rcases listed with rfl | rfl <;> cases paused

/-- Over every interleaving without a cancel: (1) since any pause, up to a resume, at
most as many attempts start as steps were issued; (2) the gate waiters are the
blocked actions; (3) a step with a waiter releases exactly the head, which then
is not blocked before its attempt starts (or its cache hit), starts at most
that one attempt before the next command, and once it has started any call of
gate() for it only parks. -/
theorem debugger_step_exactness (hashAction : HashedAction → String) (labels : List Label)
    {index : Nat} {run : BuildRun}
    (found : (Engine.after hashAction labels).created[index]? = some run)
    (live : run.cancelRequested = false) :
    (∀ pre pause post, run.events = pre ++ pause :: post → pause.debugs "paused" = true →
      (∀ event ∈ post, event.debugs "resumed" = false) →
        post.countP FesterEvent.enters ≤ post.countP (FesterEvent.debugs "step")) ∧
    (∀ name, name ∈ run.gateWaiters.map (·.action) ↔
      ∃ action place, run.actions.find? name = some action ∧ action.point = .parked place) ∧
    ∀ now buildId head rest, (Engine.after hashAction labels).quiescent = true →
      (Engine.after hashAction labels).lookup buildId = some (index, run) →
      run.gateWaiters = head :: rest →
      (Engine.after hashAction (labels ++ [.debuggerCommand now buildId "step"])).created[index]? =
          some (stepRun now run) ∧
        ReleasesOne run (stepRun now run) head rest ∧
        ∀ later final post,
          (Engine.after hashAction
            (labels ++ [.debuggerCommand now buildId "step"] ++ later)).created[index]? = some final →
          final.events = (stepRun now run).events ++ post → (∀ event ∈ post, event.type ≠ .debug) →
          final.cancelRequested = false →
            ((final.word head.action).count .running = (run.word head.action).count .running ∧
              ∀ action place, final.actions.find? head.action = some action →
                action.point ≠ .parked place) ∨
            ((final.word head.action).count .running = (run.word head.action).count .running + 1 ∧
              ∀ place, gate final head.action place =
                { final with gateWaiters := final.gateWaiters ++
                    [(⟨head.action, place.index⟩ : Waiter)] }.move head.action (.parked place)) := by
  obtain ⟨valid, gated, metered⟩ := metered_after labels found
  refine ⟨?_, ?_, ?_⟩
  · intro pre pause post split paused going
    have bound := (metered live pre pause post split paused going).2
    omega
  · intro name
    constructor
    · intro member
      obtain ⟨waiter, listed, rfl⟩ := List.mem_map.mp member
      obtain ⟨action, place, present, point, _⟩ := gated.parked waiter listed
      exact ⟨action, place, present, point⟩
    · rintro ⟨action, place, present, point⟩
      exact gated.waits name action place present point
  · intro now buildId head rest quiescent named waiting
    have stepped : (Engine.after hashAction
        (labels ++ [.debuggerCommand now buildId "step"])).created[index]? =
          some (stepRun now run) := by
      rw [Engine.after_append]
      exact Engine.step_command quiescent now named
    refine ⟨stepped, gated.releasesOne now waiting, ?_⟩
    intro later final post reached appended quiet going
    obtain ⟨other, present, evolves⟩ :=
      Engine.run_evolves (Engine.sound_after _) later stepped
    rw [← Engine.after_append] at present
    obtain rfl := Option.some.inj (present.symm.trans reached)
    obtain ⟨current, held⟩ := gated_after _ stepped
    obtain ⟨paused, tickets, action, listed, phase⟩ :=
      evolves.released current held (gated.released now waiting) appended quiet going
    rcases phase with ⟨count, funded⟩ | ⟨count, none, _⟩
    · refine .inl ⟨count, ?_⟩
      intro action' place same parked
      obtain rfl := Option.some.inj (listed.symm.trans same)
      rw [parked] at funded
      exact funded
    · refine .inr ⟨count, fun place => ?_⟩
      have spent : other.actionPasses.getD head.action 0 = 0 := none
      simp [SysDeck.Fester.gate, paused, spent, tickets]

/-- A paused build whose fetch waits at gate 2 for its second attempt. -/
def blockedBuild : List Label :=
  let decision : ScheduleDecision := ⟨"ryzen-1", 10, "free"⟩
  let resume (now : Nat) : Label := .resume now 0 "nginx:main:fetch" decision
  [.startBuild 0 "nginx" ["main"] { failAction := some "nginx:main:fetch", retries := some 2 },
    resume 1, resume 2, .debuggerCommand 3 "nginx-0" "pause", resume 4, resume 5]

/-- Through the gate, into its attempt, into the backoff and back to gate 2. -/
def retriedAttempt : List Label :=
  let decision : ScheduleDecision := ⟨"ryzen-1", 10, "free"⟩
  let resume (now : Nat) : Label := .resume now 0 "nginx:main:fetch" decision
  [resume 7, resume 8, resume 9, resume 10]

theorem debugger_step_exactness_retry :
    ∃ run final, (Engine.after HashedAction.name blockedBuild).created[0]? = some run ∧
      ReleasesOne run (stepRun 6 run) ⟨"nginx:main:fetch", 2⟩ [] ∧
      (Engine.after HashedAction.name
        (blockedBuild ++ [.debuggerCommand 6 "nginx-0" "step"] ++ retriedAttempt)).created[0]? =
          some final ∧
      final.gateWaiters = [⟨"nginx:main:fetch", 2⟩] ∧
      ∀ place, gate final "nginx:main:fetch" place =
        { final with gateWaiters := final.gateWaiters ++
            [(⟨"nginx:main:fetch", place.index⟩ : Waiter)] }.move "nginx:main:fetch"
          (.parked place) := by
  obtain ⟨run, found⟩ := Option.isSome_iff_exists.mp
    (show ((Engine.after HashedAction.name blockedBuild).created[0]?).isSome = true by decide)
  obtain ⟨final, reached⟩ := Option.isSome_iff_exists.mp
    (show ((Engine.after HashedAction.name (blockedBuild ++
      [.debuggerCommand 6 "nginx-0" "step"] ++ retriedAttempt)).created[0]?).isSome = true by decide)
  have before : ((Engine.after HashedAction.name blockedBuild).created[0]?).all (fun run =>
      !run.cancelRequested && run.gateWaiters = [⟨"nginx:main:fetch", 2⟩] &&
        (run.word "nginx:main:fetch").count .running = 1) = true := by
    decide
  have after : ((Engine.after HashedAction.name (blockedBuild ++
      [.debuggerCommand 6 "nginx-0" "step"] ++ retriedAttempt)).created[0]?).all (fun final =>
      !final.cancelRequested && final.gateWaiters = [⟨"nginx:main:fetch", 2⟩] &&
        (final.word "nginx:main:fetch").count .running = 2 &&
        (final.events.drop 7).all fun event => event.type ≠ .debug) = true := by
    decide
  have kept : ((Engine.after HashedAction.name (blockedBuild ++
      [.debuggerCommand 6 "nginx-0" "step"] ++ retriedAttempt)).created[0]?).map
        (fun final => final.events.take 7) =
      ((Engine.after HashedAction.name blockedBuild).created[0]?).map
        (fun run => (stepRun 6 run).events) := by
    decide
  have named : (Engine.after HashedAction.name blockedBuild).lookup "nginx-0" = some (0, run) := by
    have mapped : (Engine.after HashedAction.name blockedBuild).runs.find? "nginx-0" = some 0 := by
      decide
    simp [Engine.lookup, mapped, found]
  simp only [found, reached, Option.all_some, Option.map_some, Option.some.injEq, Bool.and_eq_true,
    decide_eq_true_eq, Bool.not_eq_true', List.all_eq_true] at before after kept
  obtain ⟨⟨live, waiting⟩, once⟩ := before
  obtain ⟨⟨⟨going, parked⟩, twice⟩, quiet⟩ := after
  obtain ⟨_, releases, phases⟩ :=
    (debugger_step_exactness HashedAction.name blockedBuild found live).2.2 6 "nginx-0" _ []
      (by decide) named waiting
  refine ⟨run, final, found, releases, reached, parked, ?_⟩
  rcases phases retriedAttempt final (final.events.drop 7) reached
    (by rw [← kept, List.take_append_drop]) quiet going with ⟨count, _⟩ | ⟨_, blocks⟩
  · rw [once, twice] at count
    cases count
  · exact blocks

end SysDeck.Fester
