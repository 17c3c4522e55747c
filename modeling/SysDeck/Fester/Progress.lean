import Mathlib.Algebra.Order.BigOperators.Group.List
import SysDeck.Fester.Cancel
import SysDeck.Fester.Outcome

/-! How far a run can go. What is left of a run falls with every turn of its own code, and a run that
waits for nothing has a turn to take. -/

namespace SysDeck.Fester

variable {hashAction : HashedAction → String}

/-- The turns that an action has before it when no command meets its run. -/
def ActionNode.turnsLeft (limit : Nat) (action : ActionNode) : Nat :=
  match action.point with
  | .idle => if action.state = .pending then 6 * limit + 3 else 0
  | .entering .schedule => 6 * limit + 2
  | .parked .schedule | .passed .schedule => 6 * limit + 1
  | .entering (.run attempt) => 6 * (limit - attempt.number) + 5
  | .parked (.run attempt) | .passed (.run attempt) => 6 * (limit - attempt.number) + 4
  | .work attempt => 6 * (limit - attempt.number) + 3
  | .backoff attempt => 6 * (limit - attempt.number) + 2
  | .cacheWait .. | .stampWait _ => 1
  | .returned => 0

namespace BuildRun

def turnsOf (run : BuildRun) (name : String) : Nat :=
  ((run.actions.find? name).map (·.turnsLeft run.maxAttempts)).getD 0

/-- The last turn settles the run. -/
def turnsLeft (run : BuildRun) : Nat :=
  (run.actions.keys.map run.turnsOf).sum + if run.state = .running then 1 else 0

end BuildRun

/-- The run whose own code a label executes. -/
def Label.turnOf? : Label → Option Nat
  | .resume _ index _ _ | .nextWave _ index => some index
  | _ => none

def Label.command : Label → Bool
  | .cancelBuild _ | .debuggerCommand .. => true
  | _ => false

/-- A turn of the run that the engine takes at this label. -/
def Engine.takes (hashAction : HashedAction → String) (index : Nat) (engine : Engine) (label : Label) : Bool :=
  label.turnOf? = some index && (engine.step? hashAction label).isSome

/-- The turns of the run in an execution. -/
def Engine.turns (hashAction : HashedAction → String) (index : Nat) : Engine → List Label → Nat
  | _, [] => 0
  | engine, label :: rest =>
    (if engine.takes hashAction index label then 1 else 0) +
      Engine.turns hashAction index (engine.step hashAction label) rest

/-! ### Moves that take turns away -/

/-- No action has more turns left, and nothing else of the run that counts changes. -/
structure Falls (run next : BuildRun) : Prop where
  keys : next.actions.keys = run.actions.keys
  retries : next.retries = run.retries
  paused : next.paused = run.paused
  named : (∀ name action, run.actions.find? name = some action → action.name = name) →
    ∀ name action, next.actions.find? name = some action → action.name = name
  le : ∀ name, next.turnsOf name ≤ run.turnsOf name

theorem Falls.refl (run : BuildRun) : Falls run run := ⟨rfl, rfl, rfl, id, fun _ => Nat.le_refl _⟩

theorem Falls.trans {first second third : BuildRun} (falls : Falls first second) (more : Falls second third) :
    Falls first third :=
  ⟨more.keys.trans falls.keys, more.retries.trans falls.retries, more.paused.trans falls.paused,
    more.named ∘ falls.named, fun name => (more.le name).trans (falls.le name)⟩

/-- Only the actions, the retries and the pause count. -/
theorem Falls.congr {run next other : BuildRun} (falls : Falls run next) (actions : other.actions = next.actions)
    (retries : other.retries = next.retries) (paused : other.paused = next.paused) : Falls run other := by
  have same : other.turnsOf = next.turnsOf := by
    funext name
    simp only [BuildRun.turnsOf, BuildRun.maxAttempts, actions, retries]
  refine ⟨?_, retries.trans falls.retries, paused.trans falls.paused, ?_, ?_⟩
  · rw [actions]
    exact falls.keys
  · rw [actions]
    exact falls.named
  · rw [same]
    exact falls.le

theorem BuildRun.turnsOf_of_find? {run : BuildRun} {name : String} {action : ActionNode}
    (found : run.actions.find? name = some action) : run.turnsOf name = action.turnsLeft run.maxAttempts := by
  rw [turnsOf, found]
  rfl

/-- The writing of an action that has no more turns left. -/
theorem Falls.put {run : BuildRun} {action changed : ActionNode}
    (found : run.actions.find? action.name = some action) (same : changed.name = action.name)
    (less : changed.turnsLeft run.maxAttempts ≤ action.turnsLeft run.maxAttempts) :
    Falls run (run.put changed) := by
  have written := BuildRun.find?_put found same
  refine ⟨OrderedMap.keys_modify .., rfl, rfl, ?_, ?_⟩
  · intro named name other present
    rcases OrderedMap.find?_modify_eq_some present with ⟨here, _, _, rfl⟩ | ⟨_, old⟩
    · exact here.symm
    · exact named name other old
  · intro name
    by_cases here : name = changed.name
    · subst here
      rw [BuildRun.turnsOf_of_find? written]
      rw [BuildRun.turnsOf_of_find? (same ▸ found)]
      exact less
    · have kept : (run.put changed).actions.find? name = run.actions.find? name :=
        OrderedMap.find?_modify_ne _ _ here
      rw [BuildRun.turnsOf, kept]
      exact Nat.le_refl _

/-- One action has fewer turns left. -/
structure Drops (run next : BuildRun) : Prop extends Falls run next where
  strict : ∃ name ∈ run.actions.keys, next.turnsOf name < run.turnsOf name

theorem Drops.trans {first second third : BuildRun} (drops : Drops first second) (more : Falls second third) :
    Drops first third := by
  obtain ⟨name, member, less⟩ := drops.strict
  exact ⟨drops.toFalls.trans more, name, member, (more.le name).trans_lt less⟩

theorem Drops.after {first second third : BuildRun} (falls : Falls first second) (drops : Drops second third) :
    Drops first third := by
  obtain ⟨name, member, less⟩ := drops.strict
  exact ⟨falls.trans drops.toFalls, name, falls.keys ▸ member, less.trans_le (falls.le name)⟩

theorem Drops.put {run next : BuildRun} {action changed : ActionNode}
    (found : run.actions.find? action.name = some action) (same : changed.name = action.name)
    (less : changed.turnsLeft run.maxAttempts < action.turnsLeft run.maxAttempts)
    (actions : next.actions = (run.put changed).actions) (retries : next.retries = run.retries)
    (paused : next.paused = run.paused) : Drops run next := by
  refine ⟨(Falls.put found same less.le).congr actions retries paused, action.name,
    OrderedMap.mem_keys_iff.mpr ⟨action, found⟩, ?_⟩
  have written := BuildRun.find?_put found same
  rw [← actions, same] at written
  rw [BuildRun.turnsOf_of_find? written, BuildRun.turnsOf_of_find? found, BuildRun.maxAttempts, retries]
  exact less

theorem Drops.turnsLeft_lt {run next : BuildRun} (drops : Drops run next)
    (state : next.state = .running → run.state = .running) : next.turnsLeft < run.turnsLeft := by
  have actions : (next.actions.keys.map next.turnsOf).sum < (run.actions.keys.map run.turnsOf).sum := by
    rw [drops.keys]
    exact List.sum_lt_sum _ _ (fun name _ => drops.le name) drops.strict
  unfold BuildRun.turnsLeft
  split
  · next running =>
    rw [if_pos (state running)]
    omega
  · omega

theorem Falls.turnsLeft_lt {run next : BuildRun} (falls : Falls run next) (running : run.state = .running)
    (ended : next.state ≠ .running) : next.turnsLeft < run.turnsLeft := by
  have actions : (next.actions.keys.map next.turnsOf).sum ≤ (run.actions.keys.map run.turnsOf).sum := by
    rw [falls.keys]
    exact List.sum_le_sum fun name _ => falls.le name
  rw [BuildRun.turnsLeft, BuildRun.turnsLeft, if_pos running, if_neg ended]
  omega

/-! ### The turns of executeAction -/

theorem gate_put {run : BuildRun} {action : ActionNode} (found : run.actions.find? action.name = some action)
    (place : Gate) : ∃ point, (point = .passed place ∨ point = .parked place) ∧
      (gate run action.name place).actions = (run.put { action with point }).actions ∧
      (gate run action.name place).retries = run.retries ∧
      (gate run action.name place).paused = run.paused ∧
      (gate run action.name place).state = run.state := by
  obtain ⟨point, waiters, tickets, passes, choice, same⟩ := gate_eq run action.name place
  rw [same]
  refine ⟨point, choice, ?_, rfl, rfl, rfl⟩
  have agree : run.actions.modify action.name (fun old => { old with point }) =
      run.actions.modify action.name fun _ => { action with point } :=
    OrderedMap.modify_congr found rfl
  exact agree

theorem callGate_put_actions {run : BuildRun} {action : ActionNode}
    (found : run.actions.find? action.name = some action) (place : Gate) :
    ∃ point, (point = .passed place ∨ point = .parked place) ∧
      (callGate run action.name place).actions = (run.put { action with point }).actions ∧
      (callGate run action.name place).retries = run.retries ∧
      (callGate run action.name place).paused = run.paused ∧
      (callGate run action.name place).state = run.state := by
  have entered : (run.put { action with point := .entering place }).actions.find? action.name =
      some { action with point := .entering place } :=
    @BuildRun.find?_put run action { action with point := .entering place } found rfl
  rw [callGate, BuildRun.move_eq_put found]
  obtain ⟨point, choice, actions, rest⟩ := @gate_put _ { action with point := .entering place } entered place
  refine ⟨point, choice, actions.trans ?_, rest⟩
  simp only [BuildRun.put, OrderedMap.modify_modify]
  rfl

theorem ActionNode.turnsLeft_gated (action : ActionNode) (limit : Nat) {place : Gate} {point : Point}
    (choice : point = .passed place ∨ point = .parked place) :
    ({ action with point } : ActionNode).turnsLeft limit + 1 =
      ({ action with point := .entering place } : ActionNode).turnsLeft limit := by
  rcases choice with rfl | rfl <;> cases place <;> rfl

/-- What a turn of one coroutine does to its run. -/
structure Turn (run next : BuildRun) : Prop extends Drops run next where
  state : next.state = run.state

theorem Turn.put {run next : BuildRun} {action : ActionNode} (changed : ActionNode)
    (found : run.actions.find? action.name = some action) (same : changed.name = action.name)
    (less : changed.turnsLeft run.maxAttempts < action.turnsLeft run.maxAttempts)
    (actions : next.actions = (run.put changed).actions) (retries : next.retries = run.retries)
    (paused : next.paused = run.paused) (state : next.state = run.state) : Turn run next :=
  ⟨Drops.put found same less actions retries paused, state⟩

/-- A turn that ends behind the gate it calls, or before it. -/
theorem Turn.gated {run next called : BuildRun} {action : ActionNode} (changed : ActionNode) {place : Gate}
    (found : run.actions.find? action.name = some action) (same : changed.name = action.name)
    (less : ({ changed with point := .entering place } : ActionNode).turnsLeft run.maxAttempts ≤
      action.turnsLeft run.maxAttempts)
    (outcome : ∃ point, (point = .passed place ∨ point = .parked place) ∧
      next.actions = (called.put { changed with point }).actions ∧
      next.retries = called.retries ∧ next.paused = called.paused ∧ next.state = called.state)
    (written : ∀ point, (called.put { changed with point }).actions = (run.put { changed with point }).actions)
    (retries : called.retries = run.retries) (paused : called.paused = run.paused)
    (state : called.state = run.state) : Turn run next := by
  obtain ⟨point, choice, actions, retries', paused', state'⟩ := outcome
  have fewer := changed.turnsLeft_gated run.maxAttempts choice
  exact .put { changed with point } found same (by omega) (actions.trans (written point))
    (retries'.trans retries) (paused'.trans paused) (state'.trans state)

theorem maxAttempts_pos (run : BuildRun) : 0 < run.maxAttempts := Nat.lt_add_right _ Nat.one_pos

theorem scheduleAction_turn {now : Nat} {decision : ScheduleDecision} {context : Context} {action : ActionNode}
    (found : context.run.actions.find? action.name = some action) (point : action.point = .passed .schedule) :
    Turn context.run (scheduleAction hashAction now decision context action).run := by
  have before : action.turnsLeft context.run.maxAttempts = 6 * context.run.maxAttempts + 1 := by
    simp only [ActionNode.turnsLeft, point]
  have some' := maxAttempts_pos context.run
  unfold scheduleAction
  split
  · refine .put { action with point := .returned } found rfl ?_ rfl rfl rfl rfl
    rw [before]
    exact Nat.succ_pos _
  · dsimp only
    split
    · refine .put { action.assigned decision with
        point := .cacheWait decision (hashAction action.hashed) } found rfl ?_ rfl rfl rfl rfl
      rw [before]
      exact Nat.lt_add_of_pos_left (by omega)
    · have assigned : ((context.run.put (action.assigned decision)).emit
          (context.run.scheduledEvent now action decision)).actions.find? (action.assigned decision).name =
            some (action.assigned decision) :=
        @BuildRun.find?_put context.run action (action.assigned decision) found rfl
      refine .gated (action.assigned decision) found rfl ?_
        (callGate_put_actions assigned _) (fun point => ?_) rfl rfl rfl
      · rw [before]
        simp only [ActionNode.turnsLeft]
        omega
      · simp only [BuildRun.put, BuildRun.emit, OrderedMap.modify_modify]
        rfl

/-- Every turn of a coroutine takes turns away from its action. -/
theorem executeAction_turn {now : Nat} {decision : ScheduleDecision} {context next : Context} {action : ActionNode}
    (valid : RunInvariant hashAction context.run)
    (found : context.run.actions.find? action.name = some action)
    (resumed : executeAction hashAction now decision context action = some next) :
    Turn context.run next.run := by
  have placed := (valid.coherent action.name action found).1
  unfold executeAction at resumed
  cases point : action.point with
  | idle | parked place | returned => simp [point] at resumed
  | entering place =>
    simp only [point, Option.some.injEq] at resumed
    subst resumed
    have here : ({ action with point := .entering place } : ActionNode) = action := by
      rw [← point]
    exact .gated action found rfl (by rw [here]) (gate_put found place) (fun _ => rfl) rfl rfl rfl
  | passed place =>
    cases place with
    | schedule =>
      simp only [point] at resumed
      split at resumed
      · obtain rfl := Option.some.inj resumed
        exact scheduleAction_turn found point
      · cases resumed
    | run attempt =>
      simp only [point, Option.some.injEq] at resumed
      subst resumed
      have before : action.turnsLeft context.run.maxAttempts =
          6 * (context.run.maxAttempts - attempt.number) + 4 := by
        simp only [ActionNode.turnsLeft, point]
      unfold startAttempt
      split
      · refine .put { action with state := .cancelled, point := .returned } found rfl ?_ rfl rfl rfl rfl
        rw [before]
        exact Nat.succ_pos _
      · refine .put { action with state := .running, startedAt := some now, point := .work attempt }
          found rfl ?_ rfl rfl rfl rfl
        rw [before]
        exact Nat.lt_succ_self _
  | cacheWait decision key =>
    simp only [point, Option.some.injEq] at resumed
    subst resumed
    have before : action.turnsLeft context.run.maxAttempts = 1 := by
      simp only [ActionNode.turnsLeft, point]
    unfold finishCached
    split
    · refine .put { action with state := .cancelled, point := .returned } found rfl ?_ rfl rfl rfl rfl
      rw [before]
      exact Nat.one_pos
    · refine .put { action with
        cacheHit := true, state := .done, durationMs := some 150, endedAt := some now,
        attempts := some 1, point := .returned } found rfl ?_ rfl rfl rfl rfl
      rw [before]
      exact Nat.one_pos
  | work attempt =>
    simp only [point, Option.some.injEq] at resumed
    subst resumed
    have before : action.turnsLeft context.run.maxAttempts =
        6 * (context.run.maxAttempts - attempt.number) + 3 := by
      simp only [ActionNode.turnsLeft, point]
    unfold finishAttempt
    split
    · refine .put { action with state := .cancelled, point := .returned } found rfl ?_ rfl rfl rfl rfl
      rw [before]
      exact Nat.succ_pos _
    · split
      · refine .put { action with endedAt := some now, state := .retry, point := .backoff attempt }
          found rfl ?_ rfl rfl rfl rfl
        rw [before]
        exact Nat.lt_succ_self _
      · split
        · refine .put { action.measured now attempt with state := .failed, point := .returned }
            found rfl ?_ rfl rfl rfl rfl
          rw [before]
          exact Nat.succ_pos _
        · refine .put { action.measured now attempt with
            state := .done, point := .stampWait attempt.decision } found rfl ?_ rfl rfl rfl rfl
          rw [before]
          exact Nat.lt_of_lt_of_le (by decide : 1 < 3) (Nat.le_add_left 3 _)
  | backoff attempt =>
    simp only [point, Option.some.injEq] at resumed
    subst resumed
    simp only [StateAt, point] at placed
    have budget : attempt.number < context.run.maxAttempts := placed.2.1
    refine .gated action found rfl ?_ (callGate_put_actions found _) (fun _ => rfl) rfl rfl rfl
    simp only [ActionNode.turnsLeft, point]
    omega
  | stampWait decision =>
    simp only [point, Option.some.injEq] at resumed
    subst resumed
    refine .put { action with point := .returned } found rfl ?_ rfl rfl rfl rfl
    simp only [ActionNode.turnsLeft, point]
    exact Nat.one_pos

/-! ### The turns of the wave loop -/

/-- An action that leaves the pending state where it stands has no more turns left. -/
theorem ActionNode.turnsLeft_state (action : ActionNode) (limit : Nat) {state : ActionState}
    (left : state ≠ .pending) :
    ({ action with state } : ActionNode).turnsLeft limit ≤ action.turnsLeft limit := by
  unfold turnsLeft
  cases action.point with
  | idle =>
    rw [if_neg left]
    exact Nat.zero_le _
  | entering place | parked place | passed place => cases place <;> exact Nat.le_refl _
  | _ => exact Nat.le_refl _

def BuildRun.named (run : BuildRun) : Prop :=
  ∀ name action, run.actions.find? name = some action → action.name = name

theorem Falls.state {run next : BuildRun} {name : String} {action : ActionNode} (named : run.named)
    (found : run.actions.find? name = some action) {state : ActionState} (left : state ≠ .pending)
    (actions : next.actions = (run.put { action with state }).actions) (retries : next.retries = run.retries)
    (paused : next.paused = run.paused) : Falls run next := by
  obtain rfl := named name action found
  have falls := @Falls.put run action { action with state } found rfl (action.turnsLeft_state _ left)
  exact falls.congr actions retries paused

theorem windDown_falls (now : Nat) {run : BuildRun} (named : run.named) :
    Falls run (windDown now run) ∧ (windDown now run).state = run.state := by
  have visit : ∀ (names : List String) (run : BuildRun), run.named →
      Falls run (names.foldl (windDownAction now) run) ∧
        (names.foldl (windDownAction now) run).state = run.state := by
    intro names
    induction names with
    | nil => exact fun run _ => ⟨.refl run, rfl⟩
    | cons name rest ih =>
      intro run named
      have first : Falls run (windDownAction now run name) ∧ (windDownAction now run name).state = run.state := by
        unfold windDownAction
        cases found : run.actions.find? name with
        | none => exact ⟨.refl run, rfl⟩
        | some action =>
          dsimp only
          split
          · exact ⟨.state named found (by decide) rfl rfl rfl, rfl⟩
          · split
            · exact ⟨.state named found (by decide) rfl rfl rfl, rfl⟩
            · exact ⟨.refl run, rfl⟩
      have later := ih (windDownAction now run name) (first.1.named named)
      exact ⟨first.1.trans later.1, later.2.trans first.2⟩
  unfold windDown
  split
  · exact visit run.actions.keys run named
  · exact ⟨.refl run, rfl⟩

theorem readyActions_falls (now : Nat) {run : BuildRun} (named : run.named) :
    Falls run (readyActions now run).1 := by
  have visit : ∀ (names : List String) (scan : BuildRun × List String), scan.1.named →
      Falls scan.1 (names.foldl (readyAction now) scan).1 := by
    intro names
    induction names with
    | nil => exact fun scan _ => .refl scan.1
    | cons name rest ih =>
      intro scan named
      have first : Falls scan.1 (readyAction now scan name).1 := by
        unfold readyAction
        cases found : scan.1.actions.find? name with
        | none => exact .refl scan.1
        | some action =>
          dsimp only
          split
          · exact .refl scan.1
          · split
            · exact .state named found (by decide) rfl rfl rfl
            · split <;> exact .refl scan.1
      exact first.trans (ih _ (first.named named))
  exact visit run.actions.keys (run, []) named

theorem Startable.turn {run : BuildRun} {name : String} (startable : Startable run name) :
    Turn run (SysDeck.Fester.callGate run name .schedule) := by
  obtain ⟨action, found, rfl, pending, idle, _⟩ := startable
  refine .gated action found rfl ?_ (callGate_put_actions found _) (fun _ => rfl) rfl rfl rfl
  simp only [ActionNode.turnsLeft, idle, pending, if_true]
  omega

theorem startWave_falls {wave : List String} {run : BuildRun} (nodup : wave.Nodup)
    (startable : ∀ name ∈ wave, Startable run name) :
    Falls run (wave.foldl (fun run name => callGate run name .schedule) run) := by
  induction wave generalizing run with
  | nil => exact .refl run
  | cons name rest ih =>
    rw [List.nodup_cons] at nodup
    refine (startable name List.mem_cons_self).turn.toFalls.trans (ih nodup.2 fun other member => ?_)
    refine (startable other (List.mem_cons_of_mem _ member)).callGate ?_
    rintro rfl
    exact nodup.1 member

theorem startWave_drops {wave : List String} {run : BuildRun} (some' : wave ≠ []) (nodup : wave.Nodup)
    (startable : ∀ name ∈ wave, Startable run name) :
    Drops run (wave.foldl (fun run name => callGate run name .schedule) run) := by
  obtain ⟨name, rest, rfl⟩ := List.exists_cons_of_ne_nil some'
  rw [List.nodup_cons] at nodup
  refine (startable name List.mem_cons_self).turn.toDrops.trans (startWave_falls nodup.2 fun other member => ?_)
  refine (startable other (List.mem_cons_of_mem _ member)).callGate ?_
  rintro rfl
  exact nodup.1 member

/-- A turn of the wave loop starts an action, or it ends the run. -/
theorem executeRun_turn {context : Context} (valid : RunInvariant hashAction context.run) (now : Nat)
    (running : context.run.state = .running) (halted : context.run.settled) :
    (executeRun now context).run.turnsLeft < context.run.turnsLeft ∧
      (executeRun now context).run.retries = context.run.retries ∧
      (executeRun now context).run.actions.keys = context.run.actions.keys ∧
      (executeRun now context).run.paused = context.run.paused := by
  have finishes : ∀ run, Falls context.run run →
      (finishRun now { context with run }).run.turnsLeft < context.run.turnsLeft ∧
        (finishRun now { context with run }).run.retries = context.run.retries ∧
        (finishRun now { context with run }).run.actions.keys = context.run.actions.keys ∧
        (finishRun now { context with run }).run.paused = context.run.paused := by
    intro run falls
    have ended : Falls context.run (finishRun now { context with run }).run := falls.congr rfl rfl rfl
    exact ⟨ended.turnsLeft_lt running (outcome_ne_running run), ended.retries, ended.keys, ended.paused⟩
  unfold executeRun
  split
  · exact finishes _ (windDown_falls now valid.named).1
  · rename_i notCancelled
    have live : context.run.cancelRequested = false := by simpa using notCancelled
    have scanned := readyActions_scanned valid now running live halted
    have falls := readyActions_falls now valid.named
    generalize readyActions now context.run = result at scanned falls ⊢
    obtain ⟨run, wave⟩ := result
    dsimp only at falls ⊢
    split
    · exact finishes _ (falls.trans (windDown_falls now (falls.named valid.named)).1)
    · rename_i some'
      have current : RunInvariant hashAction run := valid.moves scanned.moves
      have startable : ∀ name ∈ wave, Startable { run with wave } name := by
        intro name member
        obtain ⟨action, found, pending, done⟩ := scanned.ready name member
        exact ⟨action, found, current.named name action found, pending,
          current.idle scanned.live scanned.halted found pending, done⟩
      have launched : Falls context.run { run with wave } := falls.congr rfl rfl rfl
      have drops := Drops.after launched
        (startWave_drops some' (scanned.sublist.nodup context.run.actions.nodup) startable)
      exact ⟨drops.turnsLeft_lt fun _ => running, drops.retries, drops.keys, drops.paused⟩

/-! ### Commands -/

theorem ActionNode.turnsLeft_wake (action : ActionNode) (limit : Nat) :
    action.wake.turnsLeft limit ≤ action.turnsLeft limit + 1 := by
  unfold wake
  split
  · rename_i place point
    cases place <;> simp only [turnsLeft, point] <;> omega
  · exact Nat.le_succ _

/-- A command wakes coroutines at most. -/
theorem turnsLeft_of_woken {run next : BuildRun} (keys : next.actions.keys = run.actions.keys)
    (retries : next.retries = run.retries) (state : next.state = run.state)
    (woken : ∀ name, next.actions.find? name = run.actions.find? name ∨
      next.actions.find? name = (run.actions.find? name).map ActionNode.wake) :
    next.turnsLeft ≤ run.turnsLeft + run.actions.size := by
  have each : ∀ name, next.turnsOf name ≤ run.turnsOf name + 1 := by
    intro name
    have budget : next.maxAttempts = run.maxAttempts := congrArg (1 + ·) retries
    rcases woken name with same | waked
    · rw [BuildRun.turnsOf, same, budget]
      exact Nat.le_succ _
    · rw [BuildRun.turnsOf, waked, budget, BuildRun.turnsOf]
      cases run.actions.find? name with
      | none => exact Nat.zero_le _
      | some action => exact action.turnsLeft_wake _
  have total : (run.actions.keys.map next.turnsOf).sum ≤
      (run.actions.keys.map fun name => run.turnsOf name + 1).sum :=
    List.sum_le_sum fun name _ => each name
  have ones : (run.actions.keys.map fun name => run.turnsOf name + 1).sum =
      (run.actions.keys.map run.turnsOf).sum + run.actions.size := by
    rw [List.sum_map_add, List.map_const', List.sum_replicate_nat, Nat.mul_one, OrderedMap.keys,
      List.length_map, OrderedMap.size]
  rw [BuildRun.turnsLeft, BuildRun.turnsLeft, keys, state]
  omega

theorem cancelRun_turnsLeft (run : BuildRun) : (cancelRun run).turnsLeft ≤ run.turnsLeft + run.actions.size := by
  obtain ⟨actions, same, keys, woken⟩ := releaseGates_eq { run with cancelRequested := true }
  have next : cancelRun run = _ := same
  rw [next]
  refine turnsLeft_of_woken keys rfl rfl fun name => ?_
  change actions.find? name = _ ∨ actions.find? name = _
  rw [woken name]
  split
  · exact .inr rfl
  · exact .inl rfl

theorem debugRun_turnsLeft {now : Nat} {command state : String} {run changed : BuildRun}
    (reply : debugRun now command run = some (changed, state)) :
    changed.turnsLeft ≤ run.turnsLeft + run.actions.size := by
  rcases debugRun_cases reply with rfl | rfl | rfl
  · exact turnsLeft_of_woken rfl rfl rfl fun _ => .inl rfl
  · obtain ⟨actions, same, keys, woken⟩ := releaseGates_eq run
    rw [resumeRun, same]
    refine turnsLeft_of_woken keys rfl rfl fun name => ?_
    change actions.find? name = _ ∨ actions.find? name = _
    rw [woken name]
    split
    · exact .inr rfl
    · exact .inl rfl
  · obtain ⟨actions, waiters, tickets, passes, same, keys, woken⟩ := stepRun_eq now run
    rw [same]
    exact turnsLeft_of_woken keys rfl rfl woken

/-! ### Executions -/

theorem Moves.nodes_keys {context next : Context} (moves : Moves hashAction context next) :
    next.nodes.keys = context.nodes.keys := by
  induction moves with
  | refl => rfl
  | tail _ step ih =>
    refine Eq.trans ?_ ih
    rcases step.acts_or_rests with ⟨_, _, _, slot, _, _, _, rfl⟩ | rests
    · cases slot with
      | keep => rfl
      | take node | free node => exact OrderedMap.keys_modify ..
    · rw [rests.nodes]

/-- The nodes that can be decided for are those of the cluster. -/
theorem nodes_keys_after (labels : List Label) : (Engine.after hashAction labels).nodes.keys = cluster.keys := by
  refine Engine.invariant_after (motive := fun _ engine => engine.nodes.keys = cluster.keys) rfl ?_ labels
  intro before label next move same
  cases move with
  | still quiet store settled => exact same
  | run quiet found segment moves => exact moves.nodes_keys.trans same
  | start call turn moves => exact moves.nodes_keys.trans same

/-- What a turn that the engine takes does to the run. -/
structure Taken (hashAction : HashedAction → String) (engine next : Engine) (index : Nat) (run : BuildRun) :
    Prop where
  turn : ∃ later, next.created[index]? = some later ∧ later.turnsLeft < run.turnsLeft ∧
    later.actions.keys = run.actions.keys ∧ later.retries = run.retries ∧ later.paused = run.paused

theorem Engine.taken {engine next : Engine} (sound : engine.Sound hashAction) {index : Nat} {run : BuildRun}
    {label : Label} (found : engine.created[index]? = some run) (own : label.turnOf? = some index)
    (enabled : engine.step? hashAction label = some next) : Taken hashAction engine next index run := by
  have valid := sound index run found
  cases label with
  | resume now place name decision =>
    obtain rfl : place = index := Option.some.inj own
    simp only [step?, Option.bind_eq_bind, found, Option.bind_some, Option.bind_eq_some_iff,
      Option.some.injEq] at enabled
    obtain ⟨action, present, context, resumed, rfl⟩ := enabled
    obtain rfl := valid.named name action present
    have turn := @executeAction_turn _ _ _ (engine.context run) _ _ valid present resumed
    refine ⟨context.run, ?_, turn.turnsLeft_lt fun running => turn.state.symm.trans running, turn.keys,
      turn.retries, turn.paused⟩
    rw [getElem?_update found, if_pos rfl]
  | nextWave now place =>
    obtain rfl : place = index := Option.some.inj own
    simp only [step?, Option.bind_eq_bind, found, Option.bind_some] at enabled
    split at enabled
    · rename_i complete
      obtain rfl := Option.some.inj enabled
      simp only [Bool.and_eq_true, decide_eq_true_eq, List.all_eq_true] at complete
      have turn := @executeRun_turn _ (engine.context run) valid now complete.1 complete.2
      refine ⟨_, ?_, turn.1, turn.2.2.1, turn.2.1, turn.2.2.2⟩
      rw [getElem?_update found, if_pos rfl]
    · cases enabled
  | _ => cases own

/-- A label of the engine takes a turn of the run, or leaves it as it is; a command wakes its coroutines. -/
theorem Engine.step_turns {engine : Engine} (sound : engine.Sound hashAction) {index : Nat} {run : BuildRun}
    (found : engine.created[index]? = some run) (label : Label) :
    ∃ later, (engine.step hashAction label).created[index]? = some later ∧
      later.actions.keys = run.actions.keys ∧
      (if engine.takes hashAction index label then 1 else 0) + later.turnsLeft ≤
        run.turnsLeft + if label.command then run.actions.size else 0 := by
  by_cases taking : engine.takes hashAction index label = true
  · obtain ⟨own, enabled⟩ := Bool.and_eq_true_iff.mp taking
    obtain ⟨next, enabled⟩ := Option.isSome_iff_exists.mp enabled
    obtain ⟨later, present, less, keys, _⟩ := (taken sound found (of_decide_eq_true own) enabled).turn
    rw [step, enabled, Option.getD_some, if_pos taking]
    exact ⟨later, present, keys, by omega⟩
  · rw [if_neg taking]
    have move := engine.step_cases sound label
    generalize engine.step hashAction label = result at move ⊢
    cases move with
    | still quiet store same => exact ⟨run, found, rfl, by omega⟩
    | start call turn moves =>
      subst call
      exact ⟨run, getElem?_concat_of_eq_some found _, rfl, by simp [Label.command]⟩
    | @run _ place before next present segment moves =>
      rw [getElem?_update present]
      by_cases here : index = place
      · subst here
        obtain rfl := Option.some.inj (found.symm.trans present)
        refine ⟨next.run, if_pos rfl, moves.frame.keys, ?_⟩
        have valid := sound index run found
        cases segment with
        | resume inside resumed =>
          have turn := @executeAction_turn _ _ _ (engine.context run) _ _ valid inside resumed
          have less := turn.turnsLeft_lt fun running => turn.state.symm.trans running
          exact (Nat.zero_add _).le.trans (less.le.trans (Nat.le_add_right _ _))
        | @wave now running halted =>
          have turn := @executeRun_turn _ (engine.context run) valid now running halted
          exact (Nat.zero_add _).le.trans (turn.1.le.trans (Nat.le_add_right _ _))
        | cancel named running calm =>
          have more := cancelRun_turnsLeft run
          simpa [Label.command] using more
        | command named calm reply =>
          have more := debugRun_turnsLeft reply
          simpa [Label.command] using more
      · exact ⟨run, by rw [if_neg here, found], rfl, by omega⟩

theorem Engine.turns_le {engine : Engine} (sound : engine.Sound hashAction) {index : Nat} {run : BuildRun}
    (found : engine.created[index]? = some run) (labels : List Label) :
    engine.turns hashAction index labels ≤
      run.turnsLeft + labels.countP Label.command * run.actions.size := by
  induction labels generalizing engine run with
  | nil => exact Nat.zero_le _
  | cons label rest ih =>
    obtain ⟨later, present, keys, fewer⟩ := engine.step_turns sound found label
    have more := ih (sound.step label) present
    have size : later.actions.size = run.actions.size := by
      have length := congrArg List.length keys
      simpa [OrderedMap.keys, OrderedMap.size] using length
    rw [size] at more
    rw [turns, List.countP_cons]
    by_cases command : label.command = true
    · rw [if_pos command] at fewer ⊢
      rw [Nat.add_mul, Nat.one_mul]
      omega
    · rw [if_neg command] at fewer ⊢
      rw [Nat.add_zero]
      omega

theorem BuildRun.turnsLeft_le (run : BuildRun) :
    run.turnsLeft ≤ (6 * run.maxAttempts + 5) * run.actions.size + 1 := by
  have each : ∀ name, run.turnsOf name ≤ 6 * run.maxAttempts + 5 := by
    intro name
    unfold turnsOf
    cases run.actions.find? name with
    | none => exact Nat.zero_le _
    | some action =>
      simp only [Option.map_some, Option.getD_some]
      unfold ActionNode.turnsLeft
      split <;> (try split) <;> omega
  have total : (run.actions.keys.map run.turnsOf).sum ≤
      (run.actions.keys.map fun _ => 6 * run.maxAttempts + 5).sum :=
    List.sum_le_sum fun name _ => each name
  rw [List.map_const', List.sum_replicate_nat, OrderedMap.keys, List.length_map] at total
  rw [turnsLeft, OrderedMap.size, OrderedMap.keys, Nat.mul_comm]
  split <;> omega

/-- Whatever the other runs and the scheduler do, a run takes a bounded number of turns: so many for each
attempt of each of its actions, and one more for each action that a command may wake. -/
theorem turns_bounded (hashAction : HashedAction → String) (labels more : List Label) {index : Nat}
    {run : BuildRun} (found : (Engine.after hashAction labels).created[index]? = some run) :
    (Engine.after hashAction labels).turns hashAction index more ≤
      (6 * run.maxAttempts + 5) * run.actions.size + 1 +
        more.countP Label.command * run.actions.size := by
  have bounded := Engine.turns_le (Engine.sound_after labels) found more
  have left := run.turnsLeft_le
  omega

theorem turns_bounded_backoff : ∃ run,
    (Engine.after HashedAction.name cancelledBackoff).created[0]? = some run ∧
      (Engine.after HashedAction.name cancelledBackoff).turns HashedAction.name 0
        [.debuggerCommand 4 "nginx-0" "pause", .resume 5 0 "nginx:main:fetch" ⟨"ryzen-1", 10, "free"⟩] ≤
      (6 * run.maxAttempts + 5) * run.actions.size + 1 + 1 * run.actions.size := by
  obtain ⟨run, found⟩ := Option.isSome_iff_exists.mp
    (show ((Engine.after HashedAction.name cancelledBackoff).created[0]?).isSome = true by decide)
  exact ⟨run, found, turns_bounded _ _ _ found⟩

/-! ### What a run waits for -/

/-- The run has no turn to take. -/
def Engine.Blocked (hashAction : HashedAction → String) (engine : Engine) (index : Nat) : Prop :=
  ∀ label : Label, label.turnOf? = some index → engine.step? hashAction label = none

/-- The coroutine has no turn to take: it is outside executeAction, or it waits for the debugger. -/
def Point.resting : Point → Bool
  | .idle | .parked _ | .returned => true
  | _ => false

theorem executeAction_rests {now : Nat} {decision : ScheduleDecision} {context : Context} {action : ActionNode}
    (resting : action.point.resting = true) :
    executeAction hashAction now decision context action = none := by
  unfold executeAction
  cases point : action.point with
  | idle | parked place | returned => rfl
  | _ => simp [point, Point.resting] at resting

/-- A coroutine that does not rest goes on, where the scheduler decides for a node of the cluster. -/
theorem executeAction_goes (now : Nat) {context : Context} {action : ActionNode}
    (nodes : context.nodes.keys = cluster.keys) (moving : action.point.resting = false) :
    ∃ next, executeAction hashAction now ⟨"localhost", 0, ""⟩ context action = some next := by
  have known : "localhost" ∈ context.nodes.keys := by
    rw [nodes]
    decide
  unfold executeAction
  cases point : action.point with
  | idle | parked place | returned => simp [point, Point.resting] at moving
  | passed place =>
    cases place with
    | schedule => exact ⟨_, if_pos known⟩
    | run attempt => exact ⟨_, rfl⟩
  | _ => exact ⟨_, rfl⟩

theorem resting_of_blocked {labels : List Label} {index : Nat} {run : BuildRun}
    (found : (Engine.after hashAction labels).created[index]? = some run) (running : run.state = .running)
    (blocked : (Engine.after hashAction labels).Blocked hashAction index) :
    run.gateWaiters ≠ [] ∧ ∀ action ∈ run.actions.values, action.point.resting = true := by
  have gated := (gated_after labels found).2
  have resting : ∀ action ∈ run.actions.values, action.point.resting = true := by
    intro action member
    obtain ⟨name, present⟩ := OrderedMap.mem_values_iff.mp member
    by_contra moving
    obtain ⟨next, goes⟩ := @executeAction_goes hashAction 0 ((Engine.after hashAction labels).context run) action
      (nodes_keys_after labels) (Bool.eq_false_iff.mpr moving)
    have stopped := blocked (.resume 0 index name ⟨"localhost", 0, ""⟩) rfl
    simp only [Engine.step?, found, present, goes, Option.bind_eq_bind, Option.bind_some, reduceCtorEq] at stopped
  refine ⟨fun none => ?_, resting⟩
  have halted : run.actions.values.all (·.point.settled) = true := by
    refine List.all_eq_true.mpr fun action member => ?_
    obtain ⟨name, present⟩ := OrderedMap.mem_values_iff.mp member
    have rests := resting action member
    cases point : action.point with
    | idle | returned => rfl
    | parked place =>
      have waiting := gated.waits name action place present point
      rw [none] at waiting
      cases waiting
    | _ => simp [point, Point.resting] at rests
  have stopped := blocked (.nextWave 0 index) rfl
  simp only [Engine.step?, found, Option.bind_eq_bind, Option.bind_some, running, halted, decide_true,
    Bool.and_self, if_true, reduceCtorEq] at stopped

/-- A running run has no turn to take exactly when every coroutine rests and one of them waits in gate()
for the debugger: nothing else stops a run, in any reachable state. -/
theorem blocked_iff (hashAction : HashedAction → String) (labels : List Label) {index : Nat} {run : BuildRun}
    (found : (Engine.after hashAction labels).created[index]? = some run) (running : run.state = .running) :
    (Engine.after hashAction labels).Blocked hashAction index ↔
      run.gateWaiters ≠ [] ∧ ∀ action ∈ run.actions.values, action.point.resting = true := by
  constructor
  · exact resting_of_blocked found running
  · rintro ⟨waiting, resting⟩ label own
    have gated := (gated_after labels found).2
    cases label with
    | resume now place name decision =>
      obtain rfl : place = index := Option.some.inj own
      simp only [Engine.step?, found, Option.bind_eq_bind, Option.bind_some]
      cases present : run.actions.find? name with
      | none => rfl
      | some action =>
        rw [Option.bind_some, executeAction_rests (resting action (OrderedMap.mem_values present))]
        rfl
    | nextWave now place =>
      obtain rfl : place = index := Option.some.inj own
      obtain ⟨head, rest, waiters⟩ := List.exists_cons_of_ne_nil waiting
      obtain ⟨action, gate, present, point, -⟩ := gated.parked head (waiters ▸ List.mem_cons_self)
      simp only [Engine.step?, found, Option.bind_eq_bind, Option.bind_some]
      rw [if_neg]
      intro complete
      have settled := List.all_eq_true.mp (Bool.and_eq_true_iff.mp complete).2 action (OrderedMap.mem_values present)
      rw [point] at settled
      cases settled
    | _ => cases own

/-- A build cancelled and paused in the backoff of its first action. -/
def parkedBackoff : List Label :=
  cancelledBackoff ++ [.cancelBuild "nginx-0", .debuggerCommand 4 "nginx-0" "pause",
    .resume 5 0 "nginx:main:fetch" ⟨"ryzen-1", 10, "free"⟩]

/-- The retry waits for the debugger, so the run has no turn to take. -/
theorem blocked_parked : ∃ run, (Engine.after HashedAction.name parkedBackoff).created[0]? = some run ∧
    run.state = .running ∧ (Engine.after HashedAction.name parkedBackoff).Blocked HashedAction.name 0 := by
  have waits : ((Engine.after HashedAction.name parkedBackoff).created[0]?).any (fun run =>
      run.state = .running && run.gateWaiters ≠ [] && run.actions.values.all (·.point.resting)) = true := by
    decide
  obtain ⟨run, found, waits⟩ := (Option.any_eq_true _ _).mp waits
  simp only [Bool.and_eq_true, decide_eq_true_eq] at waits
  exact ⟨run, found, waits.1.1, (blocked_iff HashedAction.name parkedBackoff found waits.1.1).mpr
    ⟨waits.1.2, List.all_eq_true.mp waits.2⟩⟩

/-- A run that is not paused can be brought to its end by turns of its own, from any reachable state, and
every action has ended there. -/
theorem run_completes (hashAction : HashedAction → String) (labels : List Label) {index : Nat} {run : BuildRun}
    (found : (Engine.after hashAction labels).created[index]? = some run) (unpaused : run.paused = false) :
    ∃ more, (∀ label ∈ more, label.turnOf? = some index) ∧
      ∃ final, (Engine.after hashAction (labels ++ more)).created[index]? = some final ∧
        final.state ≠ .running ∧ ∀ action ∈ final.actions.values, action.state.terminal = true := by
  induction left : run.turnsLeft using Nat.strong_induction_on generalizing labels run with
  | h turns ih =>
    by_cases running : run.state = .running
    · have free : run.gateWaiters = [] := ((gated_after labels found).2.opened unpaused).1
      obtain ⟨label, own, next, enabled⟩ : ∃ label : Label, label.turnOf? = some index ∧
          ∃ next, (Engine.after hashAction labels).step? hashAction label = some next := by
        by_contra none
        refine (resting_of_blocked found running fun label own => ?_).1 free
        by_contra goes
        exact none ⟨label, own, Option.ne_none_iff_exists'.mp goes⟩
      obtain ⟨later, present, less, keys, retries, paused⟩ :=
        (Engine.taken (Engine.sound_after labels) found own enabled).turn
      have reached : Engine.after hashAction (labels ++ [label]) = next := by
        rw [Engine.after_append, Execution.run_cons, Execution.run_nil, Engine.step, enabled, Option.getD_some]
      obtain ⟨more, owned, final, ended⟩ :=
        ih later.turnsLeft (left ▸ less) (labels ++ [label]) (reached ▸ present) (paused.trans unpaused) rfl
      refine ⟨label :: more, List.forall_mem_cons.mpr ⟨own, owned⟩, final, ?_⟩
      rw [← List.append_cons] at ended
      exact ended
    · refine ⟨[], List.forall_mem_nil _, run, by rw [List.append_nil]; exact found, running, ?_⟩
      intro action member
      obtain ⟨name, entry⟩ := OrderedMap.mem_values_iff.mp member
      obtain ⟨_, _, closed⟩ := protocol_after labels found
      exact closed (.inl running) name action entry

theorem run_completes_backoff : ∃ more : List Label, (∀ label ∈ more, label.turnOf? = some 0) ∧
    ∃ final, (Engine.after HashedAction.name (cancelledBackoff ++ more)).created[0]? = some final ∧
      final.state ≠ .running ∧ ∀ action ∈ final.actions.values, action.state.terminal = true := by
  have begun : ((Engine.after HashedAction.name cancelledBackoff).created[0]?).any
      (fun run => run.paused = false) = true := by decide
  obtain ⟨run, found, unpaused⟩ := (Option.any_eq_true _ _).mp begun
  exact run_completes HashedAction.name cancelledBackoff found (of_decide_eq_true unpaused)

end SysDeck.Fester
