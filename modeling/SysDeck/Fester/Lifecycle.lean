import SysDeck.Fester.Engine
import SysDeck.Library.DependencyOrder
import Mathlib.Logic.Relation

/-! Everything one step can do to a run, said once. `ActionStep` is the life of
one action, `Micro` adds the gate, the wave loop and the commands; later
invariants are read off these two relations and never unfold the engine. -/

namespace SysDeck.Fester

/-- What a step does to the job slots. -/
inductive Slot where
  | keep
  | take (node : String)
  | free (node : String)
  deriving DecidableEq, Repr

def Slot.apply (nodes : NodeRegistry) : Slot → NodeRegistry
  | keep => nodes
  | take node => occupy nodes node
  | free node => release nodes node

namespace BuildRun

def emitAll (run : BuildRun) (events : List FesterEvent) : BuildRun :=
  { run with events := run.events ++ events }

/-- The events of one action of the run. -/
def eventsOf (run : BuildRun) (name : String) : List FesterEvent :=
  run.events.filter fun event => event.action = some name

def depsOf (run : BuildRun) (name : String) : List String :=
  ((run.actions.find? name).map (·.deps)).getD []

def depsDone (run : BuildRun) (action : ActionNode) : Prop :=
  ∀ dep ∈ action.deps, run.dependency dep (· == .done) = true

/-- Every executeAction coroutine of the run has returned or not begun. -/
def settled (run : BuildRun) : Prop := ∀ action ∈ run.actions.values, action.point.settled = true

/-- No microtask of an executeAction coroutine is queued. -/
def calm (run : BuildRun) : Prop := ∀ action ∈ run.actions.values, action.point.ready = false

end BuildRun

/-- The points from which a cancelled run leaves a scheduled action. -/
inductive Leaves : Point → ScheduleDecision → Prop where
  | cacheWait (decision key) : Leaves (.cacheWait decision key) decision
  | gate (attempt) : Leaves (.passed (.run attempt)) attempt.decision
  | work (attempt) : Leaves (.work attempt) attempt.decision

/-- The steps in the life of one action: its events, its effect on the slots, the
cache key it fills, and the action afterwards. -/
inductive ActionStep (hashAction : HashedAction → String) (context : Context)
    (action : ActionNode) : List FesterEvent → Slot → Option String → ActionNode → Prop where
  | enter (running : context.run.state = .running) (live : context.run.cancelRequested = false)
      (member : action.name ∈ context.run.wave) (pending : action.state = .pending)
      (idle : action.point = .idle) (ready : context.run.depsDone action) :
      ActionStep hashAction context action [] .keep none { action with point := .entering .schedule }
  | abandon (point : action.point = .passed .schedule)
      (cancelled : context.run.cancelRequested = true) :
      ActionStep hashAction context action [] .keep none { action with point := .returned }
  | schedule (now : Nat) (decision : ScheduleDecision) (next : Point)
      (point : action.point = .passed .schedule) (live : context.run.cancelRequested = false)
      (registered : decision.node ∈ context.nodes.keys)
      (onward : (next = .cacheWait decision (hashAction action.hashed) ∧
          context.run.noCache = false ∧ context.cas.contains (hashAction action.hashed) = true) ∨
        (next = .entering (.run ⟨decision, hashAction action.hashed, 1, now⟩) ∧
          (context.run.noCache = true ∨
            context.cas.contains (hashAction action.hashed) = false))) :
      ActionStep hashAction context action [context.run.scheduledEvent now action decision]
        (.take decision.node) none { action.assigned decision with point := next }
  | cancel (now : Nat) (decision : ScheduleDecision) (leaves : Leaves action.point decision)
      (cancelled : context.run.cancelRequested = true) :
      ActionStep hashAction context action [context.run.cancelledEvent now action decision]
        (.free decision.node) none { action with state := .cancelled, point := .returned }
  | cached (now : Nat) (decision : ScheduleDecision) (key : String)
      (point : action.point = .cacheWait decision key)
      (live : context.run.cancelRequested = false) :
      ActionStep hashAction context action
        [context.run.hitEvent now action decision key (context.cas.getD key ""),
          context.run.cachedEvent now action decision]
        (.free decision.node) none
        { action with
          cacheHit := true, state := .done, durationMs := some 150, endedAt := some now,
          attempts := some 1, point := .returned }
  | start (now : Nat) (attempt : Attempt) (point : action.point = .passed (.run attempt))
      (live : context.run.cancelRequested = false) :
      ActionStep hashAction context action [context.run.runningEvent now action attempt] .keep none
        { action with state := .running, startedAt := some now, point := .work attempt }
  | retry (now : Nat) (attempt : Attempt) (point : action.point = .work attempt)
      (live : context.run.cancelRequested = false) (fails : action.failScheduled = true)
      (budget : attempt.number < context.run.maxAttempts) :
      ActionStep hashAction context action [context.run.retryEvent now action attempt] .keep none
        { action with endedAt := some now, state := .retry, point := .backoff attempt }
  | fail (now : Nat) (attempt : Attempt) (point : action.point = .work attempt)
      (live : context.run.cancelRequested = false) (fails : action.failScheduled = true)
      (spent : context.run.maxAttempts ≤ attempt.number) :
      ActionStep hashAction context action [context.run.failureEvent now action attempt]
        (.free attempt.decision.node) none
        { action.measured now attempt with state := .failed, point := .returned }
  | done (now : Nat) (attempt : Attempt) (point : action.point = .work attempt)
      (live : context.run.cancelRequested = false) (succeeds : action.failScheduled = false) :
      ActionStep hashAction context action [context.run.doneEvent now action attempt]
        (.free attempt.decision.node) (some attempt.key)
        { action.measured now attempt with state := .done, point := .stampWait attempt.decision }
  | again (attempt : Attempt) (point : action.point = .backoff attempt) :
      ActionStep hashAction context action [] .keep none
        { action with point := .entering (.run { attempt with number := attempt.number + 1 }) }
  | stamp (now : Nat) (decision : ScheduleDecision) (point : action.point = .stampWait decision) :
      ActionStep hashAction context action [context.run.stampEvent now action decision] .keep none
        { action with point := .returned }
  | skip (now : Nat) (live : context.run.cancelRequested = false) (pending : action.state = .pending)
      (idle : action.point = .idle) {dep : String} (needed : dep ∈ action.deps)
      (blocked : context.run.dependency dep ActionState.blocking = true) :
      ActionStep hashAction context action [context.run.skippedEvent now action] .keep none
        { action with state := .skipped }
  | windDown (now : Nat) (cancelled : context.run.cancelRequested = true)
      (pending : action.state = .pending) (halted : action.point.settled = true) :
      ActionStep hashAction context action [context.run.windDownEvent now action] .keep none
        { action with state := .cancelled }

/-- The cache after a step that completed an action under this key. -/
def filled (context : Context) : Option String → Cas
  | none => context.cas
  | some key => context.cas.set key context.run.buildId

/-- The smallest moves of a run. One step of the engine is a sequence of these. -/
inductive Micro (hashAction : HashedAction → String) : Context → Context → Prop where
  | act {context : Context} {action changed : ActionNode} {events : List FesterEvent} {slot : Slot}
      {key : Option String} (found : context.run.actions.find? action.name = some action)
      (step : ActionStep hashAction context action events slot key changed) :
      Micro hashAction context
        { run := (context.run.put changed).emitAll events, nodes := slot.apply context.nodes,
          cas := filled context key, store := context.store }
  | gate {context : Context} {action : ActionNode} {place : Gate}
      (found : context.run.actions.find? action.name = some action)
      (point : action.point = .entering place) :
      Micro hashAction context { context with run := gate context.run action.name place }
  | launch {context : Context} (wave : List String) (running : context.run.state = .running)
      (live : context.run.cancelRequested = false) (halted : context.run.settled) :
      Micro hashAction context { context with run := { context.run with wave } }
  | finish {context : Context} (now : Nat) (running : context.run.state = .running)
      (halted : context.run.settled)
      (ended : ∀ action ∈ context.run.actions.values, action.state.terminal = true) :
      Micro hashAction context (finishRun now context)
  | cancel {context : Context} (running : context.run.state = .running) (calm : context.run.calm) :
      Micro hashAction context { context with run := cancelRun context.run }
  | pause {context : Context} (now : Nat) (calm : context.run.calm) :
      Micro hashAction context { context with run := pauseRun now context.run }
  | resume {context : Context} (now : Nat) (calm : context.run.calm) :
      Micro hashAction context { context with run := resumeRun now context.run }
  | step {context : Context} (now : Nat) (calm : context.run.calm) :
      Micro hashAction context { context with run := stepRun now context.run }

/-- A change of the suspension point alone, inside gate(). -/
inductive GateMove (action : ActionNode) : ActionNode → Prop where
  | pass (place : Gate) (point : action.point = .entering place) :
      GateMove action { action with point := .passed place }
  | park (place : Gate) (point : action.point = .entering place) :
      GateMove action { action with point := .parked place }
  | wake (place : Gate) (point : action.point = .parked place) :
      GateMove action { action with point := .entering place }

theorem ActionNode.wake_move (action : ActionNode) :
    action.wake = action ∨ GateMove action action.wake := by
  unfold ActionNode.wake
  split
  · rename_i place point
    exact .inr (.wake place point)
  · exact .inl rfl

theorem ActionNode.wake_wake (action : ActionNode) : action.wake.wake = action.wake := by
  cases point : action.point <;> simp [ActionNode.wake, point]

/-- gate() moves the coroutine of its action and touches only the gate bookkeeping. -/
theorem gate_eq (run : BuildRun) (name : String) (place : Gate) :
    ∃ point waiters tickets passes, (point = .passed place ∨ point = .parked place) ∧
      gate run name place = { run with
        actions := run.actions.modify name fun action => { action with point }
        gateWaiters := waiters, stepTickets := tickets, actionPasses := passes } := by
  unfold gate
  split
  · exact ⟨_, _, _, _, .inl rfl, rfl⟩
  · split
    · exact ⟨_, _, _, _, .inl rfl, rfl⟩
    · split
      · exact ⟨_, _, _, _, .inl rfl, rfl⟩
      · exact ⟨_, _, _, _, .inr rfl, rfl⟩

private theorem resolveAll_eq (waiters : List Waiter) (run : BuildRun) :
    waiters.foldl BuildRun.resolve run = { run with
      actions := waiters.foldl
        (fun actions waiter => actions.modify waiter.action ActionNode.wake) run.actions } := by
  induction waiters generalizing run with
  | nil => rfl
  | cons waiter rest ih =>
    rw [List.foldl_cons, ih]
    rfl

private theorem find?_resolveAll (waiters : List Waiter) (actions : OrderedMap String ActionNode)
    (name : String) :
    (waiters.foldl (fun actions waiter => actions.modify waiter.action ActionNode.wake)
        actions).find? name =
      if name ∈ waiters.map (·.action) then (actions.find? name).map ActionNode.wake
      else actions.find? name := by
  induction waiters generalizing actions with
  | nil => simp
  | cons waiter rest ih =>
    rw [List.foldl_cons, ih, OrderedMap.find?_modify]
    by_cases head : name = waiter.action
    · by_cases later : name ∈ rest.map (·.action)
      · simp only [head, ↓reduceIte, List.map_cons, List.mem_cons, true_or]
        rw [← head]
        simp [later, Option.map_map, Function.comp_def, ActionNode.wake_wake]
      · simp only [head, ↓reduceIte, List.map_cons, List.mem_cons, true_or]
        rw [← head]
        simp [later]
    · simp [head]

private theorem keys_resolveAll (waiters : List Waiter) (actions : OrderedMap String ActionNode) :
    (waiters.foldl (fun actions waiter => actions.modify waiter.action ActionNode.wake)
        actions).keys = actions.keys := by
  induction waiters generalizing actions with
  | nil => rfl
  | cons waiter rest ih => rw [List.foldl_cons, ih, OrderedMap.keys_modify]

/-- releaseGates wakes exactly the waiting actions. -/
theorem releaseGates_eq (run : BuildRun) :
    ∃ actions, releaseGates run = { run with
        actions, paused := false, stepMode := false, stepTickets := 0,
        actionPasses := OrderedMap.empty, gateWaiters := [] } ∧
      actions.keys = run.actions.keys ∧
      ∀ name, actions.find? name =
        if name ∈ run.gateWaiters.map (·.action) then (run.actions.find? name).map ActionNode.wake
        else run.actions.find? name := by
  refine ⟨_, resolveAll_eq _ _, keys_resolveAll _ _, ?_⟩
  intro name
  exact find?_resolveAll run.gateWaiters run.actions name

/-- A step wakes at most the head waiter. -/
theorem stepRun_eq (now : Nat) (run : BuildRun) :
    ∃ actions waiters tickets passes, stepRun now run = { run with
        actions, stepMode := true, gateWaiters := waiters, stepTickets := tickets,
        actionPasses := passes, events := run.events ++ [run.debugEvent now "step"] } ∧
      actions.keys = run.actions.keys ∧
      ∀ name, actions.find? name = run.actions.find? name ∨
        actions.find? name = (run.actions.find? name).map ActionNode.wake := by
  unfold stepRun
  split
  · rename_i head rest waiting
    refine ⟨_, _, _, _, rfl, OrderedMap.keys_modify .., ?_⟩
    intro name
    have view := OrderedMap.find?_modify run.actions head.action ActionNode.wake name
    split at view
    · exact .inr view
    · exact .inl view
  · exact ⟨_, _, _, _, rfl, rfl, fun name => .inl rfl⟩

section Structure

variable {hashAction : HashedAction → String}

theorem ActionStep.name_eq {context : Context} {action changed : ActionNode}
    {events : List FesterEvent} {slot : Slot} {key : Option String}
    (step : ActionStep hashAction context action events slot key changed) :
    changed.name = action.name := by
  cases step <;> rfl

theorem ActionStep.deps_eq {context : Context} {action changed : ActionNode}
    {events : List FesterEvent} {slot : Slot} {key : Option String}
    (step : ActionStep hashAction context action events slot key changed) :
    changed.deps = action.deps ∧ changed.command = action.command ∧
      changed.failScheduled = action.failScheduled := by
  cases step <;> exact ⟨rfl, rfl, rfl⟩

/-- Every event of an action's step carries the action's name. -/
theorem ActionStep.events_named {context : Context} {action changed : ActionNode}
    {events : List FesterEvent} {slot : Slot} {key : Option String}
    (step : ActionStep hashAction context action events slot key changed) :
    ∀ event ∈ events, event.action = some action.name := by
  cases step <;> simp [BuildRun.scheduledEvent, BuildRun.cancelledEvent, BuildRun.hitEvent,
    BuildRun.cachedEvent, BuildRun.runningEvent, BuildRun.retryEvent, BuildRun.failureEvent,
    BuildRun.doneEvent, BuildRun.stampEvent, BuildRun.skippedEvent, BuildRun.windDownEvent,
    BuildRun.taskUpdate]

theorem GateMove.frame {action changed : ActionNode} (move : GateMove action changed) :
    changed.name = action.name ∧ changed.deps = action.deps ∧ changed.state = action.state := by
  cases move <;> exact ⟨rfl, rfl, rfl⟩

/-- What no step changes, and the cancel request that no step withdraws. -/
structure Frame (before after : BuildRun) : Prop where
  buildId : after.buildId = before.buildId
  project : after.project = before.project
  targets : after.targets = before.targets
  retries : after.retries = before.retries
  noCache : after.noCache = before.noCache
  keys : after.actions.keys = before.actions.keys
  cancelled : before.cancelRequested = true → after.cancelRequested = true

theorem Micro.frame {context next : Context} (step : Micro hashAction context next) :
    Frame context.run next.run := by
  cases step with
  | act found step => exact ⟨rfl, rfl, rfl, rfl, rfl, OrderedMap.keys_modify .., id⟩
  | @gate action place found point =>
    obtain ⟨point, waiters, tickets, passes, _, same⟩ := gate_eq context.run action.name place
    rw [same]
    exact ⟨rfl, rfl, rfl, rfl, rfl, OrderedMap.keys_modify .., id⟩
  | launch wave running live halted => exact ⟨rfl, rfl, rfl, rfl, rfl, rfl, id⟩
  | finish now running halted ended => exact ⟨rfl, rfl, rfl, rfl, rfl, rfl, id⟩
  | cancel running calm =>
    obtain ⟨actions, same, keys, _⟩ :=
      releaseGates_eq { context.run with cancelRequested := true }
    rw [show (cancelRun context.run) = _ from same]
    exact ⟨rfl, rfl, rfl, rfl, rfl, keys, fun _ => rfl⟩
  | pause now calm => exact ⟨rfl, rfl, rfl, rfl, rfl, rfl, id⟩
  | resume now calm =>
    obtain ⟨actions, same, keys, _⟩ := releaseGates_eq context.run
    simp only [resumeRun, same]
    exact ⟨rfl, rfl, rfl, rfl, rfl, keys, id⟩
  | step now calm =>
    obtain ⟨actions, waiters, tickets, passes, same, keys, _⟩ := stepRun_eq now context.run
    simp only [same]
    exact ⟨rfl, rfl, rfl, rfl, rfl, keys, id⟩

theorem ActionStep.events_task {context : Context} {action changed : ActionNode}
    {events : List FesterEvent} {slot : Slot} {key : Option String}
    (step : ActionStep hashAction context action events slot key changed) :
    ∀ event ∈ events, event.type ≠ .pipelineUpdate := by
  cases step <;> simp [BuildRun.scheduledEvent, BuildRun.cancelledEvent, BuildRun.hitEvent,
    BuildRun.cachedEvent, BuildRun.runningEvent, BuildRun.retryEvent, BuildRun.failureEvent,
    BuildRun.doneEvent, BuildRun.stampEvent, BuildRun.skippedEvent, BuildRun.windDownEvent,
    BuildRun.taskUpdate]

/-- Only the end of the wave loop changes the state of a run, reports it and
writes to the store; every other move appends events of other kinds. -/
theorem Micro.log {context next : Context} (step : Micro hashAction context next) :
    (∃ events, next.run.events = context.run.events ++ events ∧
        (∀ event ∈ events, event.type ≠ .pipelineUpdate) ∧
        next.run.state = context.run.state ∧ next.store = context.store) ∨
      (∃ now, next = finishRun now context ∧ context.run.state = .running ∧
        ∀ action ∈ context.run.actions.values, action.state.terminal = true) := by
  cases step with
  | act found step => exact .inl ⟨_, rfl, step.events_task, rfl, rfl⟩
  | @gate action place found point =>
    obtain ⟨point, waiters, tickets, passes, _, same⟩ := gate_eq context.run action.name place
    rw [same]
    exact .inl ⟨[], by simp, by simp, rfl, rfl⟩
  | launch wave running live halted => exact .inl ⟨[], by simp, by simp, rfl, rfl⟩
  | finish now running halted ended => exact .inr ⟨now, rfl, running, ended⟩
  | cancel running calm =>
    obtain ⟨actions, same, _, _⟩ := releaseGates_eq { context.run with cancelRequested := true }
    rw [show (cancelRun context.run) = _ from same]
    exact .inl ⟨[], by simp, by simp, rfl, rfl⟩
  | pause now calm =>
    exact .inl ⟨[context.run.debugEvent now "paused"], rfl, by simp [BuildRun.debugEvent], rfl, rfl⟩
  | resume now calm =>
    obtain ⟨actions, same, _, _⟩ := releaseGates_eq context.run
    rw [resumeRun, same]
    exact .inl ⟨[context.run.debugEvent now "resumed"], rfl, by simp [BuildRun.debugEvent], rfl, rfl⟩
  | step now calm =>
    obtain ⟨actions, waiters, tickets, passes, same, _, _⟩ := stepRun_eq now context.run
    rw [same]
    exact .inl ⟨[context.run.debugEvent now "step"], rfl, by simp [BuildRun.debugEvent], rfl, rfl⟩

/-- How one action and its events look after a move of its run. -/
inductive View (hashAction : HashedAction → String) (context : Context) (action : ActionNode) :
    List FesterEvent → ActionNode → Prop where
  | still : View hashAction context action [] action
  | acted {events : List FesterEvent} {slot : Slot} {key : Option String} {changed : ActionNode}
      (step : ActionStep hashAction context action events slot key changed) :
      View hashAction context action events changed
  | gated {changed : ActionNode} (move : GateMove action changed) :
      View hashAction context action [] changed

private theorem eventsOf_append (run : BuildRun) (name : String) (events : List FesterEvent) :
    (run.emitAll events).eventsOf name =
      run.eventsOf name ++ events.filter fun event => event.action = some name :=
  List.filter_append ..

private theorem wake_rests {before after : OrderedMap String ActionNode} {name : String}
    {action : ActionNode} (found : before.find? name = some action)
    (woken : after.find? name = before.find? name ∨
      after.find? name = (before.find? name).map ActionNode.wake) :
    ∃ changed, after.find? name = some changed ∧ (changed = action ∨ GateMove action changed) := by
  rcases woken with same | waked
  · exact ⟨action, same.trans found, .inl rfl⟩
  · exact ⟨action.wake, by rw [waked, found]; rfl, action.wake_move⟩

/-- A move that is no step of an action: coroutines move inside gate() at most. -/
structure Rests (context next : Context) : Prop where
  nodes : next.nodes = context.nodes
  cas : next.cas = context.cas
  events : ∀ name, next.run.eventsOf name = context.run.eventsOf name
  actions : ∀ name action, context.run.actions.find? name = some action →
    ∃ changed, next.run.actions.find? name = some changed ∧
      (changed = action ∨ GateMove action changed)

/-- The context after a step of one action. -/
def Context.acted (context : Context) (changed : ActionNode) (events : List FesterEvent)
    (slot : Slot) (key : Option String) : Context :=
  { run := (context.run.put changed).emitAll events, nodes := slot.apply context.nodes,
    cas := filled context key, store := context.store }

/-- A move is a step of one action, or it rests. -/
theorem Micro.acts_or_rests {context next : Context} (step : Micro hashAction context next) :
    (∃ action changed events slot key, context.run.actions.find? action.name = some action ∧
        ActionStep hashAction context action events slot key changed ∧
        next = context.acted changed events slot key) ∨ Rests context next := by
  cases step with
  | @act action changed events slot key found step =>
    exact .inl ⟨action, changed, events, slot, key, found, step, rfl⟩
  | @gate actor place present point =>
    refine .inr ?_
    obtain ⟨next, waiters, tickets, passes, choice, same⟩ :=
      gate_eq context.run actor.name place
    rw [same]
    refine ⟨rfl, rfl, fun _ => rfl, ?_⟩
    intro name action found
    by_cases own : name = actor.name
    · subst own
      obtain rfl := Option.some.inj (found.symm.trans present)
      refine ⟨{ action with point := next }, ?_, .inr ?_⟩
      · rw [OrderedMap.find?_modify_self, found]
        rfl
      · rcases choice with rfl | rfl
        · exact .pass place point
        · exact .park place point
    · exact ⟨action, by rw [OrderedMap.find?_modify_ne _ _ own, found], .inl rfl⟩
  | launch wave running live halted =>
    exact .inr ⟨rfl, rfl, fun _ => rfl, fun _ action found => ⟨action, found, .inl rfl⟩⟩
  | finish now running halted ended =>
    refine .inr ⟨rfl, rfl, ?_, fun _ action found => ⟨action, found, .inl rfl⟩⟩
    simp [finishRun, BuildRun.emit, BuildRun.eventsOf, BuildRun.pipelineUpdate]
  | cancel running calm =>
    obtain ⟨actions, same, _, woken⟩ :=
      releaseGates_eq { context.run with cancelRequested := true }
    rw [show cancelRun context.run = _ from same]
    refine .inr ⟨rfl, rfl, fun _ => rfl, fun name action found => wake_rests found ?_⟩
    rw [woken name]
    split
    · exact .inr rfl
    · exact .inl rfl
  | pause now calm =>
    refine .inr ⟨rfl, rfl, ?_, fun _ action found => ⟨action, found, .inl rfl⟩⟩
    simp [pauseRun, BuildRun.emit, BuildRun.eventsOf, BuildRun.debugEvent]
  | resume now calm =>
    obtain ⟨actions, same, _, woken⟩ := releaseGates_eq context.run
    rw [resumeRun, same]
    refine .inr ⟨rfl, rfl, ?_, fun name action found => wake_rests found ?_⟩
    · simp [BuildRun.emit, BuildRun.eventsOf, BuildRun.debugEvent]
    · change actions.find? name = _ ∨ actions.find? name = _
      rw [woken name]
      split
      · exact .inr rfl
      · exact .inl rfl
  | step now calm =>
    obtain ⟨actions, waiters, tickets, passes, same, _, woken⟩ := stepRun_eq now context.run
    rw [same]
    refine .inr ⟨rfl, rfl, ?_, fun name action found => wake_rests found (woken name)⟩
    simp [BuildRun.eventsOf, BuildRun.debugEvent]

theorem ActionStep.acted_self {context : Context} {action changed : ActionNode}
    {events : List FesterEvent} {slot : Slot} {key : Option String}
    (step : ActionStep hashAction context action events slot key changed)
    (found : context.run.actions.find? action.name = some action) :
    (context.acted changed events slot key).run.actions.find? action.name = some changed ∧
      (context.acted changed events slot key).run.eventsOf action.name =
        context.run.eventsOf action.name ++ events := by
  constructor
  · simp only [Context.acted, BuildRun.emitAll, BuildRun.put, step.name_eq]
    rw [OrderedMap.find?_modify_self, found]
    rfl
  · have owned : events.filter (fun event => event.action = some action.name) = events :=
      List.filter_eq_self.mpr (by simpa using step.events_named)
    rw [Context.acted, eventsOf_append, owned]
    rfl

theorem ActionStep.acted_other {context : Context} {action changed : ActionNode}
    {events : List FesterEvent} {slot : Slot} {key : Option String}
    (step : ActionStep hashAction context action events slot key changed) {name : String}
    (differ : name ≠ action.name) :
    (context.acted changed events slot key).run.actions.find? name =
        context.run.actions.find? name ∧
      (context.acted changed events slot key).run.eventsOf name = context.run.eventsOf name := by
  constructor
  · simp only [Context.acted, BuildRun.emitAll, BuildRun.put, step.name_eq]
    rw [OrderedMap.find?_modify_ne _ _ differ]
  · have foreign : events.filter (fun event => event.action = some name) = [] := by
      apply List.filter_eq_nil_iff.mpr
      intro event member
      simp [step.events_named event member, Ne.symm differ]
    rw [Context.acted, eventsOf_append, foreign, List.append_nil]
    rfl

/-- Each action of a run sees a move as one step of its own, or not at all. -/
theorem Micro.view {context next : Context} (step : Micro hashAction context next)
    {name : String} {action : ActionNode} (found : context.run.actions.find? name = some action)
    (named : action.name = name) :
    ∃ changed events, next.run.actions.find? name = some changed ∧
      next.run.eventsOf name = context.run.eventsOf name ++ events ∧
      View hashAction context action events changed := by
  rcases step.acts_or_rests with ⟨actor, changed, events, slot, key, present, own, rfl⟩ | rests
  · by_cases same : name = actor.name
    · subst same
      obtain rfl := Option.some.inj (found.symm.trans present)
      obtain ⟨written, appended⟩ := own.acted_self present
      exact ⟨changed, events, written, appended, .acted own⟩
    · obtain ⟨kept, quiet⟩ := own.acted_other same
      exact ⟨action, [], kept.trans found, by rw [quiet, List.append_nil], .still⟩
  · obtain ⟨changed, present, same | move⟩ := rests.actions name action found
    · exact ⟨changed, [], present, by simp [rests.events name], same ▸ .still⟩
    · exact ⟨changed, [], present, by simp [rests.events name], .gated move⟩

end Structure

end SysDeck.Fester
