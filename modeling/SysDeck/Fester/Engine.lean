import Mathlib.Data.Nat.Digits.Defs
import SysDeck.Fester.Build
import SysDeck.Fester.Targets

/-! The pipeline engine. executeAction, executeRun and the commands are cut at
their suspension points: each definition is what runs between two of them, and
`step` interleaves them. The event loop drains its microtasks before it delivers
a command, and a resumption may come in any order. -/

namespace SysDeck.Fester

/-- What hashAction digests. -/
structure HashedAction where
  name : String
  command : String
  deps : List String
  deriving DecidableEq, Repr

def ActionNode.hashed (action : ActionNode) : HashedAction :=
  ⟨action.name, action.command, action.deps⟩

/-- The content-addressed cache: action hash to the build that produced it. -/
abbrev Cas := OrderedMap String String

/-- What the code of one run reads and writes. -/
structure Context where
  run : BuildRun
  nodes : NodeRegistry
  cas : Cas
  store : Store

/-- The block every cancelled exit of a scheduled action repeats. -/
def cancelAction (now : Nat) (context : Context) (action : ActionNode)
    (decision : ScheduleDecision) : Context :=
  { context with
    run := (context.run.put { action with state := .cancelled, point := .returned }).emit
      (context.run.cancelledEvent now action decision)
    nodes := release context.nodes decision.node }

/-- The fields the schedule step writes on an action. -/
def ActionNode.assigned (action : ActionNode) (decision : ScheduleDecision) : ActionNode :=
  { action with
    node := some decision.node, score := some decision.score,
    reason := some decision.reason, state := .scheduled }

/-- The fields an executed attempt writes when it is the last one. -/
def ActionNode.measured (action : ActionNode) (now : Nat) (attempt : Attempt) : ActionNode :=
  { action with
    endedAt := some now, durationMs := some ((now : Rat) - attempt.firstStart),
    attempts := some attempt.number }

/-- executeAction after gate 1: schedule, then the cache check. -/
def scheduleAction (hashAction : HashedAction → String) (now : Nat) (decision : ScheduleDecision)
    (context : Context) (action : ActionNode) : Context :=
  if context.run.cancelRequested then
    { context with run := context.run.put { action with point := .returned } }
  else
    let key := hashAction action.hashed
    let event := context.run.scheduledEvent now action decision
    let nodes := occupy context.nodes decision.node
    if !context.run.noCache && context.cas.contains key then
      { context with
        run := (context.run.put
          { action.assigned decision with point := .cacheWait decision key }).emit event
        nodes }
    else
      { context with
        run := callGate ((context.run.put (action.assigned decision)).emit event) action.name
          (.run ⟨decision, key, 1, now⟩)
        nodes }

/-- executeAction after the cache sleep. -/
def finishCached (now : Nat) (context : Context) (action : ActionNode)
    (decision : ScheduleDecision) (key : String) : Context :=
  if context.run.cancelRequested then cancelAction now context action decision
  else
    { context with
      run := ((context.run.put { action with
          cacheHit := true, state := .done, durationMs := some 150, endedAt := some now,
          attempts := some 1, point := .returned }).emit
        (context.run.hitEvent now action decision key (context.cas.getD key ""))).emit
        (context.run.cachedEvent now action decision)
      nodes := release context.nodes decision.node }

/-- executeAction after gate 2: enter 'running'. -/
def startAttempt (now : Nat) (context : Context) (action : ActionNode) (attempt : Attempt) :
    Context :=
  if context.run.cancelRequested then cancelAction now context action attempt.decision
  else
    { context with
      run := (context.run.put { action with
          state := .running, startedAt := some now, point := .work attempt }).emit
        (context.run.runningEvent now action attempt) }

/-- executeAction after the work sleep: cancelled, retried, failed or done. -/
def finishAttempt (now : Nat) (context : Context) (action : ActionNode) (attempt : Attempt) :
    Context :=
  if context.run.cancelRequested then cancelAction now context action attempt.decision
  else if action.failScheduled && attempt.number < context.run.maxAttempts then
    { context with
      run := (context.run.put { action with
          endedAt := some now, state := .retry, point := .backoff attempt }).emit
        (context.run.retryEvent now action attempt) }
  else if action.failScheduled then
    { context with
      run := (context.run.put { action.measured now attempt with
          state := .failed, point := .returned }).emit
        (context.run.failureEvent now action attempt)
      nodes := release context.nodes attempt.decision.node }
  else
    { context with
      run := (context.run.put { action.measured now attempt with
          state := .done, point := .stampWait attempt.decision }).emit
        (context.run.doneEvent now action attempt)
      nodes := release context.nodes attempt.decision.node
      cas := context.cas.set attempt.key context.run.buildId }

/-- executeAction after the stamp sleep. -/
def stampOutputs (now : Nat) (context : Context) (action : ActionNode)
    (decision : ScheduleDecision) : Context :=
  { context with
    run := (context.run.put { action with point := .returned }).emit
      (context.run.stampEvent now action decision) }

/-- Resume executeAction at its suspension point. The decision is the
scheduler's, read only after gate 1. A parked or finished coroutine has nothing
to resume. -/
def executeAction (hashAction : HashedAction → String) (now : Nat) (decision : ScheduleDecision)
    (context : Context) (action : ActionNode) : Option Context :=
  match action.point with
  | .idle | .parked _ | .returned => none
  | .entering place => some { context with run := gate context.run action.name place }
  | .passed .schedule =>
    if decision.node ∈ context.nodes.keys then
      some (scheduleAction hashAction now decision context action)
    else none
  | .passed (.run attempt) => some (startAttempt now context action attempt)
  | .cacheWait decision key => some (finishCached now context action decision key)
  | .work attempt => some (finishAttempt now context action attempt)
  | .backoff attempt =>
    some { context with
      run := callGate context.run action.name (.run { attempt with number := attempt.number + 1 }) }
  | .stampWait decision => some (stampOutputs now context action decision)

/-- One iteration of readyActions. -/
def readyAction (now : Nat) (scan : BuildRun × List String) (name : String) :
    BuildRun × List String :=
  match scan.1.actions.find? name with
  | none => scan
  | some action =>
    if action.state ≠ .pending then scan
    else if action.deps.any fun dep => scan.1.dependency dep ActionState.blocking then
      ((scan.1.put { action with state := .skipped }).emit (scan.1.skippedEvent now action), scan.2)
    else if action.deps.all fun dep => scan.1.dependency dep (· == .done) then
      (scan.1, scan.2 ++ [name])
    else scan

/-- readyActions: skip what lies downstream of a failure, collect what is ready. -/
def readyActions (now : Nat) (run : BuildRun) : BuildRun × List String :=
  run.actions.keys.foldl (readyAction now) (run, [])

/-- Promise.all over the wave: every executeAction starts and runs up to gate 1. -/
def startWave (run : BuildRun) (wave : List String) : BuildRun :=
  wave.foldl (fun run name => callGate run name .schedule) { run with wave }

/-- One iteration of the wind-down loop. -/
def windDownAction (now : Nat) (run : BuildRun) (name : String) : BuildRun :=
  match run.actions.find? name with
  | none => run
  | some action =>
    if action.state = .pending then
      (run.put { action with state := .cancelled }).emit (run.windDownEvent now action)
    else if action.state = .scheduled ∨ action.state = .running then
      run.put { action with state := .cancelled }
    else run

def windDown (now : Nat) (run : BuildRun) : BuildRun :=
  if run.cancelRequested then run.actions.keys.foldl (windDownAction now) run else run

/-- `cancelled ? 'cancelled' : failed ? 'failed' : 'succeeded'`. -/
def outcome (run : BuildRun) : BuildState :=
  if run.actions.values.any (·.state == .cancelled) then .cancelled
  else if run.actions.values.any (·.state == .failed) then .failed
  else .succeeded

/-- The end of executeRun: settle the run, write its row, emit the final event. -/
def finishRun (now : Nat) (context : Context) : Context :=
  let run := context.run
  let state := outcome run
  let criticalPathMs := CriticalPath.computeCriticalPath run.actions
  let actionsDone := run.actions.values.countP (·.state == .done)
  let actionsFailed := run.actions.values.countP (·.state == .failed)
  let cacheHits := run.actions.values.countP (·.cacheHit)
  { context with
    run := { run with finishedAt := some now, criticalPathMs, state }.emit
      { run.pipelineUpdate now state with
        metadata := [("actions", .number run.actions.size), ("done", .number actionsDone),
          ("failed", .number actionsFailed), ("cache_hits", .number cacheHits),
          ("critical_path_ms", .number (criticalPathMs.getD 0))] }
    store := context.store.updateBuild run.buildId
      { state := some state, finishedAt := some now, actionsDone := some actionsDone,
        actionsFailed := some actionsFailed, cacheHits := some cacheHits, criticalPathMs,
        rc := some (if state = .succeeded then 0 else 1) } }

/-- One turn of the wave loop of executeRun, from its head to the next await. -/
def executeRun (now : Nat) (context : Context) : Context :=
  if context.run.cancelRequested then
    finishRun now { context with run := windDown now context.run }
  else
    let (run, wave) := readyActions now context.run
    if wave = [] then finishRun now { context with run := windDown now run }
    else { context with run := startWave run wave }

/-- The engine: every run object ever created, the id map over them, and what the
runs share. -/
structure Engine where
  created : List BuildRun
  runs : OrderedMap String Nat
  nodes : NodeRegistry
  cas : Cas
  store : Store

def Engine.init : Engine := ⟨[], OrderedMap.empty, cluster, OrderedMap.empty, Store.empty⟩

namespace Engine

def context (engine : Engine) (run : BuildRun) : Context :=
  ⟨run, engine.nodes, engine.cas, engine.store⟩

/-- Write back what the code of one run changed. -/
def update (engine : Engine) (index : Nat) (context : Context) : Engine :=
  { engine with
    created := engine.created.set index context.run
    nodes := context.nodes, cas := context.cas, store := context.store }

/-- The run object an id currently names. -/
def lookup (engine : Engine) (buildId : String) : Option (Nat × BuildRun) := do
  let index ← engine.runs.find? buildId
  let run ← engine.created[index]?
  some (index, run)

/-- No microtask is queued, so the event loop may deliver a command. -/
def quiescent (engine : Engine) : Bool := engine.created.all fun run => !run.microtask

end Engine

/-- Number.prototype.toString(36) on a natural number. -/
def base36 (n : Nat) : String :=
  let digit (value : Nat) : Char := "0123456789abcdefghijklmnopqrstuvwxyz".toList.getD value '0'
  if n = 0 then "0" else String.ofList ((Nat.digits 36 n).reverse.map digit)

/-- `${project}-${Date.now().toString(36)}`. -/
def newBuildId (project : String) (now : Nat) : String := project ++ "-" ++ base36 now

structure BuildOptions where
  failAction : Option String := none
  noCache : Bool := false
  retries : Option Int := none
  deriving DecidableEq, Repr

/-- `Math.max(0, Math.min(3, Math.trunc(opts.retries ?? 0) || 0))`. -/
def clampRetries (retries : Option Int) : Nat := (max 0 (min 3 (retries.getD 0))).toNat

/-- The action object of a generated step. -/
def newAction (failAction : Option String) (step : BuildStep) : ActionNode :=
  { name := step.name, command := step.command, deps := step.deps,
    failScheduled := failAction = some step.name }

/-- The action map of a build: the steps of its targets, in order. -/
def buildActions (project : String) (targets : List String) (failAction : Option String) :
    OrderedMap String ActionNode :=
  (targets.flatMap (stepsFor project)).foldl
    (fun actions step => actions.set step.name (newAction failAction step)) OrderedMap.empty

/-- The run object of a build when executeRun reaches its wave loop. -/
def newRun (now : Nat) (project : String) (targets : List String) (opts : BuildOptions) : BuildRun :=
  let actions := buildActions project targets opts.failAction
  let retries := clampRetries opts.retries
  let run : BuildRun :=
    { buildId := newBuildId project now, project, targets, state := .running, actions,
      startedAt := now, retries, noCache := opts.noCache }
  let announced := run.emit { run.pipelineUpdate now .queued with
    target := some project,
    metadata := [("targets", .names targets), ("actions", .number actions.size),
      ("retries", .number retries)] }
  announced.emit { run.pipelineUpdate now .running with
    metadata := [("actions", .number actions.size), ("retries", .number retries)] }

/-- startBuild: register the run, write its row, run executeRun up to its first await. -/
def startBuild (now : Nat) (engine : Engine) (project : String) (targets : List String)
    (opts : BuildOptions) : Engine × String :=
  let run := newRun now project targets opts
  let store := (engine.store.createBuild run.buildId project targets now).updateBuild run.buildId
    { state := some .running, actionsTotal := some run.actions.size }
  let context := executeRun now { engine.context run with store }
  ({ engine with
     created := engine.created ++ [context.run]
     runs := engine.runs.set run.buildId engine.created.length
     nodes := context.nodes, cas := context.cas, store := context.store }, run.buildId)

/-- cancelBuild on a run object. -/
def cancelRun (run : BuildRun) : BuildRun := releaseGates { run with cancelRequested := true }

def cancelBuild (engine : Engine) (buildId : String) : Engine × Bool :=
  match engine.lookup buildId with
  | none => (engine, false)
  | some (index, run) =>
    if run.state ≠ .running then (engine, false)
    else ({ engine with created := engine.created.set index (cancelRun run) }, true)

def pauseRun (now : Nat) (run : BuildRun) : BuildRun :=
  { run with
    paused := true, stepMode := false, stepTickets := 0,
    actionPasses := OrderedMap.empty }.emit (run.debugEvent now "paused")

def resumeRun (now : Nat) (run : BuildRun) : BuildRun :=
  (releaseGates run).emit (run.debugEvent now "resumed")

/-- Release the head waiter with passes for its current and remaining gates, or
leave a ticket for the next gated action. -/
def stepRun (now : Nat) (run : BuildRun) : BuildRun :=
  match run.gateWaiters with
  | head :: rest =>
    let passes := run.actionPasses.getD head.action 0 + (totalGates - head.gate + 1)
    ({ run with
       stepMode := true, gateWaiters := rest,
       actionPasses := run.actionPasses.set head.action passes }.resolve head).emit
      (run.debugEvent now "step")
  | [] =>
    { run with stepMode := true, stepTickets := run.stepTickets + 1 }.emit
      (run.debugEvent now "step")

structure DebuggerReply where
  ok : Bool
  command : String
  buildId : String
  state : Option String := none
  error : Option String := none
  deriving DecidableEq, Repr

/-- The effect of a debugger command on a run object, with the acknowledged state. -/
def debugRun (now : Nat) (command : String) (run : BuildRun) : Option (BuildRun × String) :=
  match command with
  | "pause" => some (pauseRun now run, "paused")
  | "resume" => some (resumeRun now run, "resumed")
  | "step" => some (stepRun now run, "step")
  | _ => none

def debuggerCommand (now : Nat) (engine : Engine) (buildId command : String) :
    Engine × DebuggerReply :=
  match engine.lookup buildId with
  | none =>
    (engine, { ok := false, command, buildId, error := some "build not found or already finished" })
  | some (index, run) =>
    match debugRun now command run with
    | none =>
      (engine, { ok := false, command, buildId,
                 error := some ("unknown debugger command: " ++ command) })
    | some (run, state) =>
      ({ engine with created := engine.created.set index run },
        { ok := true, command, buildId, state := some state })

/-- What happens next: a call from outside, a coroutine that goes on, or a
statement of the write chain. `now` is the clock and the decision is what the
scheduler would pick. -/
inductive Label where
  | startBuild (now : Nat) (project : String) (targets : List String) (opts : BuildOptions)
  | resume (now index : Nat) (action : String) (decision : ScheduleDecision)
  | nextWave (now index : Nat)
  | cancelBuild (buildId : String)
  | debuggerCommand (now : Nat) (buildId command : String)
  | flush
  deriving DecidableEq, Repr

/-- A coroutine goes on when it is suspended at a point that can complete, a wave
when all its coroutines have returned, and a command when no microtask is queued. -/
def Engine.step? (hashAction : HashedAction → String) (engine : Engine) : Label → Option Engine
  | .startBuild now project targets opts => some (startBuild now engine project targets opts).1
  | .resume now index name decision => do
    let run ← engine.created[index]?
    let action ← run.actions.find? name
    let context ← executeAction hashAction now decision (engine.context run) action
    some (engine.update index context)
  | .nextWave now index => do
    let run ← engine.created[index]?
    if run.state = .running && run.actions.values.all (·.point.settled) then
      some (engine.update index (executeRun now (engine.context run)))
    else none
  | .cancelBuild buildId =>
    if engine.quiescent then some (cancelBuild engine buildId).1 else none
  | .debuggerCommand now buildId command =>
    if engine.quiescent then some (debuggerCommand now engine buildId command).1 else none
  | .flush => some { engine with store := engine.store.flush }

/-- A label that is not enabled leaves the engine as it is. -/
def Engine.step (hashAction : HashedAction → String) (engine : Engine) (label : Label) : Engine :=
  (engine.step? hashAction label).getD engine

end SysDeck.Fester
