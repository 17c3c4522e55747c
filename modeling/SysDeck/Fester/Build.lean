import Mathlib.Algebra.Order.Ring.Rat
import Mathlib.Data.Rat.Floor
import SysDeck.Fester.Events
import SysDeck.Fester.Nodes
import SysDeck.Fester.Store

/-! One build of the engine: its actions, where the coroutine of each action is
suspended, the debugger's gate bookkeeping and the events it has emitted. -/

namespace SysDeck.Fester

inductive ActionState where
  | pending | scheduled | running | retry | done | failed | skipped | cancelled
  deriving DecidableEq, Repr

def ActionState.text : ActionState → String
  | pending => "pending"
  | scheduled => "scheduled"
  | running => "running"
  | retry => "retry"
  | done => "done"
  | failed => "failed"
  | skipped => "skipped"
  | cancelled => "cancelled"

/-- The states an action never leaves. -/
def ActionState.terminal : ActionState → Bool
  | done | failed | skipped | cancelled => true
  | pending | scheduled | running | retry => false

/-- The states in which an action holds a job slot of its node. -/
def ActionState.occupying : ActionState → Bool
  | scheduled | running | retry => true
  | pending | done | failed | skipped | cancelled => false

/-- The states of an action whose upstream has been passed. -/
def ActionState.started : ActionState → Bool
  | scheduled | running | retry | done | failed => true
  | pending | skipped | cancelled => false

/-- The states of a dependency that make the wave loop skip its dependents. -/
def ActionState.blocking : ActionState → Bool
  | failed | cancelled | skipped => true
  | pending | scheduled | running | retry | done => false

/-- What executeAction keeps in local variables across an attempt. -/
structure Attempt where
  decision : ScheduleDecision
  key : String
  number : Nat
  firstStart : Nat
  deriving DecidableEq, Repr

/-- The two places executeAction calls gate(): before scheduling, and before
every attempt. -/
inductive Gate where
  | schedule
  | run (attempt : Attempt)
  deriving DecidableEq, Repr

def Gate.index : Gate → Nat
  | schedule => 1
  | run _ => 2

/-- Where the executeAction coroutine of an action stands. `entering` is the head
of the loop in gate(), reached by the call and again when a waiter is resolved;
`passed` is the continuation after gate() returned. Both run as microtasks. -/
inductive Point where
  | idle
  | entering (gate : Gate)
  | parked (gate : Gate)
  | passed (gate : Gate)
  | cacheWait (decision : ScheduleDecision) (key : String)
  | work (attempt : Attempt)
  | backoff (attempt : Attempt)
  | stampWait (decision : ScheduleDecision)
  | returned
  deriving DecidableEq, Repr

/-- A microtask of this coroutine is queued. -/
def Point.ready : Point → Bool
  | entering _ | passed _ => true
  | _ => false

/-- No executeAction coroutine is live. -/
def Point.settled : Point → Bool
  | idle | returned => true
  | _ => false

structure ActionNode where
  name : String
  command : String
  deps : List String
  state : ActionState := .pending
  node : Option String := none
  score : Option Int := none
  reason : Option String := none
  cacheHit : Bool := false
  startedAt : Option Nat := none
  endedAt : Option Nat := none
  durationMs : Option Rat := none
  attempts : Option Nat := none
  failScheduled : Bool := false
  point : Point := .idle
  deriving DecidableEq

/-- A gate() promise that is still pending. -/
structure Waiter where
  action : String
  gate : Nat
  deriving DecidableEq, Repr

/-- A run object. `wave` is what the current Promise.all awaits and `events` is
everything the bus carried for the run, oldest first; `noCache` comes from the
options its coroutines close over. -/
structure BuildRun where
  buildId : String
  project : String
  targets : List String
  state : BuildState
  actions : OrderedMap String ActionNode
  criticalPathMs : Option Int := none
  startedAt : Nat
  finishedAt : Option Nat := none
  cancelRequested : Bool := false
  paused : Bool := false
  stepMode : Bool := false
  retries : Nat
  gateWaiters : List Waiter := []
  stepTickets : Nat := 0
  actionPasses : OrderedMap String Nat := OrderedMap.empty
  noCache : Bool
  wave : List String := []
  events : List FesterEvent := []

namespace BuildRun

def maxAttempts (run : BuildRun) : Nat := 1 + run.retries

def emit (run : BuildRun) (event : FesterEvent) : BuildRun :=
  { run with events := run.events ++ [event] }

/-- Assign to the fields of an action object. -/
def put (run : BuildRun) (action : ActionNode) : BuildRun :=
  { run with actions := run.actions.modify action.name fun _ => action }

/-- Move the coroutine of an action. -/
def move (run : BuildRun) (name : String) (point : Point) : BuildRun :=
  { run with actions := run.actions.modify name fun action => { action with point } }

/-- A task_update event of the run. -/
def taskUpdate (run : BuildRun) (now : Nat) (name : String) (state : ActionState) : FesterEvent :=
  { type := .taskUpdate, timestamp := now, buildId := some run.buildId,
    action := some name, state := some state.text }

def pipelineUpdate (run : BuildRun) (now : Nat) (state : BuildState) : FesterEvent :=
  { type := .pipelineUpdate, timestamp := now, buildId := some run.buildId,
    state := some state.text }

def debugEvent (run : BuildRun) (now : Nat) (state : String) : FesterEvent :=
  { type := .debug, timestamp := now, buildId := some run.buildId, state := some state }

/-- The state of a dependency satisfies the test; a name outside the run does not. -/
def dependency (run : BuildRun) (name : String) (test : ActionState → Bool) : Bool :=
  (run.actions.find? name).any fun action => test action.state

/-- The actions that name this one among their deps. -/
def downstreamOf (run : BuildRun) (name : String) : List String :=
  (run.actions.values.filter fun action => action.deps.contains name).map (·.name)

/-! The events of executeAction, readyActions and the wind-down. -/

def scheduledEvent (run : BuildRun) (now : Nat) (action : ActionNode)
    (decision : ScheduleDecision) : FesterEvent :=
  { run.taskUpdate now action.name .scheduled with
    node := some decision.node, score := some decision.score, reason := some decision.reason,
    parent := action.deps.head?,
    metadata := [("deps", .names action.deps), ("retries", .number run.retries)] }

def cancelledEvent (run : BuildRun) (now : Nat) (action : ActionNode)
    (decision : ScheduleDecision) : FesterEvent :=
  { run.taskUpdate now action.name .cancelled with
    node := some decision.node, reason := some "build cancelled" }

def hitEvent (run : BuildRun) (now : Nat) (action : ActionNode) (decision : ScheduleDecision)
    (key producer : String) : FesterEvent :=
  { type := .cacheUpdate, timestamp := now, buildId := some run.buildId,
    action := some action.name, state := some "hit", node := some decision.node,
    metadata := [("key", .text key), ("producer", .text producer)] }

def cachedEvent (run : BuildRun) (now : Nat) (action : ActionNode)
    (decision : ScheduleDecision) : FesterEvent :=
  { run.taskUpdate now action.name .done with
    node := some decision.node, reason := some "cache hit — execution skipped",
    metadata := [("duration_ms", .number 150), ("attempt", .number 1), ("cache", .text "hit")] }

def runningEvent (run : BuildRun) (now : Nat) (action : ActionNode) (attempt : Attempt) :
    FesterEvent :=
  { run.taskUpdate now action.name .running with
    node := some attempt.decision.node,
    metadata := [("attempt", .number attempt.number), ("max_attempts", .number run.maxAttempts)] }

def retryEvent (run : BuildRun) (now : Nat) (action : ActionNode) (attempt : Attempt) :
    FesterEvent :=
  { run.taskUpdate now action.name .retry with
    node := some attempt.decision.node,
    reason := some ("non-zero exit code from " ++ action.command ++ " — retrying"),
    metadata := [("attempt", .number attempt.number), ("next_attempt", .number (attempt.number + 1)),
      ("max_attempts", .number run.maxAttempts), ("rc", .number 2)] }

def failureEvent (run : BuildRun) (now : Nat) (action : ActionNode) (attempt : Attempt) :
    FesterEvent :=
  { type := .failure, timestamp := now, buildId := some run.buildId,
    action := some action.name, node := some attempt.decision.node,
    state := some ActionState.failed.text,
    reason := some ("non-zero exit code from " ++ action.command),
    metadata := [("rc", .number 2), ("attempt", .number attempt.number),
      ("max_attempts", .number run.maxAttempts),
      ("downstream", .names (run.downstreamOf action.name))] }

def doneEvent (run : BuildRun) (now : Nat) (action : ActionNode) (attempt : Attempt) :
    FesterEvent :=
  { run.taskUpdate now action.name .done with
    node := some attempt.decision.node, score := some attempt.decision.score,
    metadata := [("duration_ms", .number (now - attempt.firstStart)),
      ("attempt", .number attempt.number)] }

def stampEvent (run : BuildRun) (now : Nat) (action : ActionNode) (decision : ScheduleDecision) :
    FesterEvent :=
  { type := .btcStamp, timestamp := now, buildId := some run.buildId,
    action := some action.name, node := some decision.node, state := some "stamped",
    metadata := [("toolchain", .text "BTC-0.4.0"), ("target", .text "haswell-ep")] }

def skippedEvent (run : BuildRun) (now : Nat) (action : ActionNode) : FesterEvent :=
  { run.taskUpdate now action.name .skipped with reason := some "upstream failed" }

def windDownEvent (run : BuildRun) (now : Nat) (action : ActionNode) : FesterEvent :=
  { run.taskUpdate now action.name .cancelled with reason := some "build cancelled" }

/-- A continuation of the run is queued as a microtask: a gate to re-run, a
passed gate, or the Promise.all of a completed wave. -/
def microtask (run : BuildRun) : Bool :=
  run.actions.values.any (·.point.ready) ||
    (run.state = .running && run.actions.values.all (·.point.settled))

end BuildRun

/-- Gates of one action. -/
def totalGates : Nat := 2

/-- gate(): one turn of its loop. It returns at once unless the run is paused; a
pass of the action or a step ticket lets it through, otherwise it parks. -/
def gate (run : BuildRun) (name : String) (place : Gate) : BuildRun :=
  if run.paused = false then run.move name (.passed place)
  else if 0 < run.actionPasses.getD name 0 then
    { run with actionPasses := run.actionPasses.set name (run.actionPasses.getD name 0 - 1) }.move
      name (.passed place)
  else if 0 < run.stepTickets then
    -- the ticket carries passes for the remaining gates of this attempt only
    { run with
      stepTickets := run.stepTickets - 1
      actionPasses := run.actionPasses.set name (totalGates - place.index) }.move name (.passed place)
  else
    { run with gateWaiters := run.gateWaiters ++ [(⟨name, place.index⟩ : Waiter)] }.move name (.parked place)

/-- The call of gate() from executeAction. -/
def callGate (run : BuildRun) (name : String) (place : Gate) : BuildRun :=
  gate (run.move name (.entering place)) name place

/-- The promise a parked coroutine awaits is resolved. -/
def ActionNode.wake (action : ActionNode) : ActionNode :=
  match action.point with
  | .parked gate => { action with point := .entering gate }
  | _ => action

/-- Resolve the promise of a waiter. -/
def BuildRun.resolve (run : BuildRun) (waiter : Waiter) : BuildRun :=
  { run with actions := run.actions.modify waiter.action ActionNode.wake }

/-- Release every gated action (resume, cancel) and clear the step state. -/
def releaseGates (run : BuildRun) : BuildRun :=
  run.gateWaiters.foldl BuildRun.resolve
    { run with
      paused := false, stepMode := false, stepTickets := 0,
      actionPasses := OrderedMap.empty, gateWaiters := [] }

namespace CriticalPath

/-- path(): the longest chain ending at a name, with its memo. The fuel bounds
the recursion depth; running out of it is the stack overflow of a cyclic map. -/
def path (actions : OrderedMap String ActionNode) :
    Nat → String → OrderedMap String Rat → Option (Rat × OrderedMap String Rat)
  | 0, _, _ => none
  | fuel + 1, name, memo =>
    match memo.find? name with
    | some value => some (value, memo)
    | none =>
      match actions.find? name with
      | none => some (0, memo)
      | some action => do
        let (depMax, memo) ← action.deps.foldlM (fun (best, memo) dep => do
          let (value, memo) ← path actions fuel dep memo
          some (max best value, memo)) (0, memo)
        let value := depMax + action.durationMs.getD 0
        some (value, memo.set name value)

/-- computeCriticalPath, rounded as Math.round. -/
def computeCriticalPath (actions : OrderedMap String ActionNode) : Option Int := do
  let (longest, _) ← actions.values.foldlM (fun (longest, memo) action => do
    let (value, memo) ← path actions (actions.size + 1) action.name memo
    some (max longest value, memo)) ((0 : Rat), OrderedMap.empty)
  some ⌊longest + 1 / 2⌋

end CriticalPath

end SysDeck.Fester
