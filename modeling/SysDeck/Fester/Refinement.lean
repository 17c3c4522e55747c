import SysDeck.Fester.RunInvariant

/-! The engine's code refines the moves: each stretch of code between two
suspension points is a sequence of moves of its run. -/

namespace SysDeck.Fester

variable {hashAction : HashedAction → String}

theorem BuildRun.move_eq_put {run : BuildRun} {action : ActionNode}
    (found : run.actions.find? action.name = some action) (point : Point) :
    run.move action.name point = run.put { action with point } := by
  simp only [put, move]
  rw [OrderedMap.modify_congr found]
  rfl

theorem BuildRun.find?_put {run : BuildRun} {action changed : ActionNode}
    (found : run.actions.find? action.name = some action) (same : changed.name = action.name) :
    (run.put changed).actions.find? changed.name = some changed := by
  rw [same, put, same, OrderedMap.find?_modify_self, found]
  rfl

/-- Calling gate() right after writing an action's fields. -/
theorem callGate_put (run : BuildRun) (action : ActionNode) (event : FesterEvent) (place : Gate) :
    callGate ((run.put action).emit event) action.name place =
      gate ((run.put { action with point := .entering place }).emitAll [event]) action.name place := by
  unfold callGate
  congr 1
  simp only [BuildRun.put, BuildRun.move, BuildRun.emit, BuildRun.emitAll,
    OrderedMap.modify_modify]
  rfl

/-- An action's step that ends in a call of gate(). -/
theorem Moves.enterGate {context : Context} {action changed : ActionNode} {slot : Slot}
    {key : Option String} {place : Gate} {events : List FesterEvent}
    (found : context.run.actions.find? action.name = some action)
    (step : ActionStep hashAction context action events slot key changed)
    (point : changed.point = .entering place) :
    Moves hashAction context
      { run := gate ((context.run.put changed).emitAll events) changed.name place,
        nodes := slot.apply context.nodes, cas := filled context key, store := context.store } := by
  have present := BuildRun.find?_put found step.name_eq
  exact (Relation.ReflTransGen.single (.act found step)).tail (Micro.gate present point)

theorem scheduleAction_moves {now : Nat} {decision : ScheduleDecision} {context : Context}
    {action : ActionNode} (found : context.run.actions.find? action.name = some action)
    (point : action.point = .passed .schedule) (registered : decision.node ∈ context.nodes.keys) :
    Moves hashAction context (scheduleAction hashAction now decision context action) := by
  unfold scheduleAction
  by_cases cancelled : context.run.cancelRequested = true
  · simp only [cancelled, ↓reduceIte]
    simpa [BuildRun.emitAll, Slot.apply, filled] using
      Relation.ReflTransGen.single (Micro.act found (.abandon point cancelled))
  · have live : context.run.cancelRequested = false := by simpa using cancelled
    simp only [live, Bool.false_eq_true, ↓reduceIte]
    by_cases hit : context.run.noCache = false ∧
        context.cas.contains (hashAction action.hashed) = true
    · simp only [hit.1, hit.2, Bool.not_false, Bool.and_self, ↓reduceIte]
      exact .single (Micro.act found
        (.schedule now decision _ point live registered (.inl ⟨rfl, hit⟩)))
    · have missed : context.run.noCache = true ∨
          context.cas.contains (hashAction action.hashed) = false := by
        cases stored : context.run.noCache with
        | true => exact .inl rfl
        | false => exact .inr (by simpa [stored] using hit)
      have branch : (!context.run.noCache && context.cas.contains (hashAction action.hashed)) =
          false := by
        rcases missed with stored | absent
        · simp [stored]
        · simp [absent]
      have moves := Moves.enterGate found
        (.schedule now decision _ point live registered (.inr ⟨rfl, missed⟩)) rfl
      simp only [branch, Bool.false_eq_true, ↓reduceIte]
      rw [show action.name = (action.assigned decision).name from rfl, callGate_put]
      exact moves

/-- Both cancelled exits and the completed one of a sleep are single steps. -/
theorem cancelAction_moves {now : Nat} {decision : ScheduleDecision} {context : Context}
    {action : ActionNode} (found : context.run.actions.find? action.name = some action)
    (leaves : Leaves action.point decision) (cancelled : context.run.cancelRequested = true) :
    Moves hashAction context (cancelAction now context action decision) :=
  .single (Micro.act found (.cancel now decision leaves cancelled))

theorem finishCached_moves {now : Nat} {decision : ScheduleDecision} {key : String}
    {context : Context} {action : ActionNode}
    (found : context.run.actions.find? action.name = some action)
    (point : action.point = .cacheWait decision key) :
    Moves hashAction context (finishCached now context action decision key) := by
  unfold finishCached
  split
  · rename_i cancelled
    exact cancelAction_moves found (point ▸ .cacheWait decision key) cancelled
  · rename_i live
    simpa [BuildRun.emit, BuildRun.emitAll, Slot.apply, filled] using
      Relation.ReflTransGen.single
        (Micro.act found (.cached now decision key point (by simpa using live)))

theorem startAttempt_moves {now : Nat} {context : Context} {action : ActionNode}
    {attempt : Attempt} (found : context.run.actions.find? action.name = some action)
    (point : action.point = .passed (.run attempt)) :
    Moves hashAction context (startAttempt now context action attempt) := by
  unfold startAttempt
  split
  · rename_i cancelled
    exact cancelAction_moves found (point ▸ .gate attempt) cancelled
  · rename_i live
    exact .single (Micro.act found (.start now attempt point (by simpa using live)))

theorem finishAttempt_moves {now : Nat} {context : Context} {action : ActionNode}
    {attempt : Attempt} (found : context.run.actions.find? action.name = some action)
    (point : action.point = .work attempt) :
    Moves hashAction context (finishAttempt now context action attempt) := by
  unfold finishAttempt
  split
  · rename_i cancelled
    exact cancelAction_moves found (point ▸ .work attempt) cancelled
  · rename_i notCancelled
    have live : context.run.cancelRequested = false := by simpa using notCancelled
    split
    · rename_i budget
      simp only [Bool.and_eq_true, decide_eq_true_eq] at budget
      exact .single (Micro.act found (.retry now attempt point live budget.1 budget.2))
    · rename_i spent
      split
      · rename_i fails
        have exhausted : context.run.maxAttempts ≤ attempt.number := by simpa [fails] using spent
        exact .single (Micro.act found (.fail now attempt point live fails exhausted))
      · rename_i succeeds
        exact .single (Micro.act found (.done now attempt point live (by simpa using succeeds)))

/-- Resuming executeAction at any suspension point is a sequence of moves. -/
theorem executeAction_moves {now : Nat} {decision : ScheduleDecision} {context next : Context}
    {action : ActionNode} (found : context.run.actions.find? action.name = some action)
    (resumed : executeAction hashAction now decision context action = some next) :
    Moves hashAction context next := by
  unfold executeAction at resumed
  cases point : action.point with
  | idle | parked place | returned => simp [point] at resumed
  | entering place =>
    simp only [point, Option.some.injEq] at resumed
    subst resumed
    exact .single (Micro.gate found point)
  | passed place =>
    cases place with
    | schedule =>
      simp only [point] at resumed
      split at resumed
      · rename_i registered
        obtain rfl := Option.some.inj resumed
        exact scheduleAction_moves found point registered
      · cases resumed
    | run attempt =>
      simp only [point, Option.some.injEq] at resumed
      subst resumed
      exact startAttempt_moves found point
  | cacheWait decision key =>
    simp only [point, Option.some.injEq] at resumed
    subst resumed
    exact finishCached_moves found point
  | work attempt =>
    simp only [point, Option.some.injEq] at resumed
    subst resumed
    exact finishAttempt_moves found point
  | backoff attempt =>
    simp only [point, Option.some.injEq] at resumed
    subst resumed
    have step : ActionStep hashAction context action [] .keep none
        { action with point := .entering (.run { attempt with number := attempt.number + 1 }) } :=
      .again attempt point
    have moves := Moves.enterGate found step rfl
    simpa [callGate, BuildRun.move_eq_put found, BuildRun.emitAll, Slot.apply, filled] using moves
  | stampWait decision =>
    simp only [point, Option.some.injEq] at resumed
    subst resumed
    exact .single (Micro.act found (.stamp now decision point))

theorem BuildRun.dependency_iff {run : BuildRun} {name : String} {test : ActionState → Bool} :
    run.dependency name test = true ↔
      ∃ action, run.actions.find? name = some action ∧ test action.state = true := by
  cases found : run.actions.find? name <;> simp [dependency, found]

/-- A pending action between two waves of a live run has not been entered. -/
theorem RunInvariant.idle {run : BuildRun} (valid : RunInvariant hashAction run)
    (live : run.cancelRequested = false) (halted : run.settled) {name : String}
    {action : ActionNode} (found : run.actions.find? name = some action)
    (pending : action.state = .pending) : action.point = .idle := by
  have placed := (valid.coherent name action found).1
  have stopped := halted action (OrderedMap.mem_values found)
  cases point : action.point with
  | idle => rfl
  | returned => simp [StateAt, point, pending, live] at placed
  | _ => simp [point, Point.settled] at stopped

/-- Between two waves an action is pending or has ended. -/
theorem RunInvariant.between_waves {run : BuildRun} (valid : RunInvariant hashAction run)
    (halted : run.settled) {name : String} {action : ActionNode}
    (found : run.actions.find? name = some action) :
    action.state = .pending ∨ action.state.terminal = true := by
  have placed := (valid.coherent name action found).1
  have stopped := halted action (OrderedMap.mem_values found)
  cases point : action.point with
  | idle =>
    simp only [StateAt, point] at placed
    rcases placed with pending | skipped | cancelled
    · exact .inl pending
    · exact .inr (by rw [skipped]; rfl)
    · exact .inr (by rw [cancelled]; rfl)
  | returned =>
    simp only [StateAt, point] at placed
    rcases placed with done | failed | cancelled | ⟨pending, _⟩
    · exact .inr (by rw [done]; rfl)
    · exact .inr (by rw [failed]; rfl)
    · exact .inr (by rw [cancelled]; rfl)
    · exact .inl pending
  | _ => simp [point, Point.settled] at stopped

/-- Writing an action that stays where it is keeps a settled run settled. -/
theorem BuildRun.settled_put {run : BuildRun} (halted : run.settled) {action changed : ActionNode}
    (found : run.actions.find? action.name = some action) (same : changed.name = action.name)
    (point : changed.point = action.point) : (run.put changed).settled := by
  intro other member
  obtain ⟨name, present⟩ := OrderedMap.mem_values_iff.mp member
  rw [put, same] at present
  rcases OrderedMap.find?_modify_eq_some present with ⟨_, _, _, rfl⟩ | ⟨_, old⟩
  · rw [point]
    exact halted action (OrderedMap.mem_values found)
  · exact halted other (OrderedMap.mem_values old)

theorem BuildRun.dependency_put (run : BuildRun) (changed : ActionNode) {dep : String}
    (other : dep ≠ changed.name) (test : ActionState → Bool) :
    (run.put changed).dependency dep test = run.dependency dep test := by
  simp only [dependency, put]
  rw [OrderedMap.find?_modify_ne _ _ other]

/-- What readyActions has established after scanning some of the names. -/
structure Scanned (hashAction : HashedAction → String) (context : Context)
    (visited : List String) (scan : BuildRun × List String) : Prop where
  moves : Moves hashAction context { context with run := scan.1 }
  running : scan.1.state = .running
  live : scan.1.cancelRequested = false
  halted : scan.1.settled
  sublist : scan.2.Sublist visited
  ready : ∀ name ∈ scan.2, ∃ action, scan.1.actions.find? name = some action ∧
    action.state = .pending ∧ scan.1.depsDone action
  waiting : ∀ name ∈ visited, name ∉ scan.2 → ∀ action,
    scan.1.actions.find? name = some action → action.state = .pending →
      ∃ dep ∈ action.deps, scan.1.dependency dep (· == .pending) = true

theorem Moves.frame {context next : Context} (moves : Moves hashAction context next) :
    Frame context.run next.run := by
  induction moves with
  | refl => exact ⟨rfl, rfl, rfl, rfl, rfl, rfl, id⟩
  | tail _ step ih =>
    have last := step.frame
    exact ⟨last.buildId.trans ih.buildId, last.project.trans ih.project,
      last.targets.trans ih.targets, last.retries.trans ih.retries, last.noCache.trans ih.noCache,
      last.keys.trans ih.keys, last.cancelled ∘ ih.cancelled⟩

/-- The next name adds nothing: it is not pending, or one of its deps is. -/
theorem Scanned.keep {context : Context} {visited : List String} {name : String}
    {scan : BuildRun × List String} (scanned : Scanned hashAction context visited scan)
    (blocked : ∀ action, scan.1.actions.find? name = some action → action.state = .pending →
      ∃ dep ∈ action.deps, scan.1.dependency dep (· == .pending) = true) :
    Scanned hashAction context (visited ++ [name]) scan where
  moves := scanned.moves
  running := scanned.running
  live := scanned.live
  halted := scanned.halted
  sublist := scanned.sublist.trans (List.sublist_append_left ..)
  ready := scanned.ready
  waiting := by
    intro other member absent action present pending
    rcases List.mem_append.mp member with before | last
    · exact scanned.waiting other before absent action present pending
    · obtain rfl := List.mem_singleton.mp last
      exact blocked action present pending

/-- The next name is ready and joins the wave. -/
theorem Scanned.collect {context : Context} {visited : List String} {action : ActionNode}
    {run : BuildRun} {out : List String} (scanned : Scanned hashAction context visited (run, out))
    (found : run.actions.find? action.name = some action) (pending : action.state = .pending)
    (done : run.depsDone action) :
    Scanned hashAction context (visited ++ [action.name]) (run, out ++ [action.name]) where
  moves := scanned.moves
  running := scanned.running
  live := scanned.live
  halted := scanned.halted
  sublist := scanned.sublist.append (List.Sublist.refl _)
  ready := by
    intro other member
    rcases List.mem_append.mp member with before | last
    · exact scanned.ready other before
    · obtain rfl := List.mem_singleton.mp last
      exact ⟨action, found, pending, done⟩
  waiting := by
    intro other member absent waiter present waits
    have unlisted : other ∉ out ∧ other ≠ action.name := by simpa using absent
    rcases List.mem_append.mp member with before | last
    · exact scanned.waiting other before unlisted.1 waiter present waits
    · exact absurd (List.mem_singleton.mp last) unlisted.2

/-- The next name lies downstream of a failure and is skipped. -/
theorem Scanned.skip {context : Context} {visited rest : List String} {action : ActionNode}
    {run : BuildRun} {out : List String} (scanned : Scanned hashAction context visited (run, out))
    (valid : RunInvariant hashAction run)
    (keys : run.actions.keys = visited ++ action.name :: rest) (now : Nat)
    (found : run.actions.find? action.name = some action) (pending : action.state = .pending)
    {dep : String} (needed : dep ∈ action.deps)
    (blocked : run.dependency dep ActionState.blocking = true) :
    Scanned hashAction context (visited ++ [action.name])
      ((run.put { action with state := .skipped }).emit (run.skippedEvent now action), out) := by
  obtain ⟨moves, running, live, halted, sublist, ready, waiting⟩ := scanned
  have idle := valid.idle live halted found pending
  have elsewhere : ∀ other ∈ visited, other ≠ action.name := by
    have nodup : (visited ++ action.name :: rest).Nodup := keys ▸ run.actions.nodup
    intro other member
    exact (List.nodup_append.mp nodup).2.2 other member action.name (by simp)
  have untouched : ∀ other, other ≠ action.name →
      (run.put { action with state := .skipped }).actions.find? other = run.actions.find? other :=
    fun other differ => OrderedMap.find?_modify_ne _ _ differ
  refine ⟨moves.tail (Micro.act found (.skip now live pending idle needed blocked)), running, live,
    BuildRun.settled_put halted found rfl rfl, sublist.trans (List.sublist_append_left ..), ?_, ?_⟩
  · intro other member
    obtain ⟨waiter, present, waits, done⟩ := ready other member
    refine ⟨waiter, (untouched other (elsewhere other (sublist.subset member))).trans present,
      waits, ?_⟩
    intro dep needed
    have finished := done dep needed
    have apart : dep ≠ action.name := by
      rintro rfl
      obtain ⟨same, again, state⟩ := BuildRun.dependency_iff.mp finished
      rw [found] at again
      cases again
      simp [pending] at state
    have same : (run.put { action with state := .skipped }).dependency dep (· == .done) =
        run.dependency dep (· == .done) :=
        BuildRun.dependency_put run { action with state := .skipped } apart _
    exact same.trans finished
  · intro other member absent waiter present waits
    rcases List.mem_append.mp member with before | last
    · have old := (untouched other (elsewhere other before)).symm.trans present
      obtain ⟨dep, needed, unfinished⟩ := waiting other before absent waiter old waits
      -- a dependency of a scanned name was scanned before it, so it is not the skipped one
      have listed : dep ∈ visited := by
        obtain ⟨front, back, cut⟩ := List.append_of_mem before
        have order := valid.ordered front other (back ++ action.name :: rest)
          (by rw [keys, cut]; simp) dep (by rw [BuildRun.depsOf_of_find? old]; exact needed)
        rw [cut]
        exact List.mem_append_left _ order
      have same : (run.put { action with state := .skipped }).dependency dep (· == .pending) =
          run.dependency dep (· == .pending) :=
        BuildRun.dependency_put run { action with state := .skipped } (elsewhere dep listed) _
      exact ⟨dep, needed, same.trans unfinished⟩
    · obtain rfl := List.mem_singleton.mp last
      have skipped : (run.put { action with state := .skipped }).actions.find? action.name =
          some { action with state := .skipped } := BuildRun.find?_put found rfl
      obtain rfl := Option.some.inj (skipped.symm.trans present)
      cases waits

theorem Scanned.step {context : Context} (valid : RunInvariant hashAction context.run) (now : Nat)
    {visited rest : List String} {name : String} {scan : BuildRun × List String}
    (split : context.run.actions.keys = visited ++ name :: rest)
    (scanned : Scanned hashAction context visited scan) :
    Scanned hashAction context (visited ++ [name]) (readyAction now scan name) := by
  obtain ⟨run, out⟩ := scan
  have current : RunInvariant hashAction run := valid.moves scanned.moves
  have keys : run.actions.keys = visited ++ name :: rest := scanned.moves.frame.keys.trans split
  unfold readyAction
  cases found : run.actions.find? name with
  | none => exact scanned.keep (by simp [found])
  | some action =>
    obtain rfl := current.named name action found
    dsimp only
    by_cases pending : action.state = .pending
    · rw [if_neg (not_not.mpr pending)]
      split
      · rename_i blocked
        obtain ⟨dep, needed, blocking⟩ := List.any_eq_true.mp blocked
        exact scanned.skip current keys now found pending needed blocking
      · rename_i unblocked
        split
        · rename_i done
          exact scanned.collect found pending (by simpa [BuildRun.depsDone] using done)
        · rename_i unready
          refine scanned.keep fun other present _ => ?_
          obtain rfl := Option.some.inj (found.symm.trans present)
          simp only [List.all_eq_true, not_forall] at unready
          obtain ⟨dep, needed, unfinished⟩ := unready
          refine ⟨dep, needed, ?_⟩
          have earlier : dep ∈ run.actions.keys :=
            current.ordered.closed (OrderedMap.mem_keys_iff.mpr ⟨action, found⟩)
              (by rw [BuildRun.depsOf_of_find? found]; exact needed)
          obtain ⟨upstream, present⟩ := OrderedMap.mem_keys_iff.mp earlier
          have allowed : run.dependency dep ActionState.blocking ≠ true := fun blocking =>
            unblocked (List.any_eq_true.mpr ⟨dep, needed, blocking⟩)
          rcases current.between_waves scanned.halted present with waits | ended
          · exact BuildRun.dependency_iff.mpr ⟨upstream, present, by simp [waits]⟩
          · exfalso
            cases state : upstream.state <;>
              simp_all [BuildRun.dependency, ActionState.blocking, ActionState.terminal]
    · rw [if_pos pending]
      refine scanned.keep fun other present waits => ?_
      obtain rfl := Option.some.inj (found.symm.trans present)
      exact absurd waits pending

/-- readyActions skips along moves and returns exactly the actions that can start. -/
theorem readyActions_scanned {context : Context} (valid : RunInvariant hashAction context.run)
    (now : Nat) (running : context.run.state = .running)
    (live : context.run.cancelRequested = false) (halted : context.run.settled) :
    Scanned hashAction context context.run.actions.keys (readyActions now context.run) := by
  have scan : ∀ (rest visited : List String) (result : BuildRun × List String),
      context.run.actions.keys = visited ++ rest → Scanned hashAction context visited result →
      Scanned hashAction context (visited ++ rest) (rest.foldl (readyAction now) result) := by
    intro rest
    induction rest with
    | nil =>
      intro visited result _ scanned
      simpa using scanned
    | cons name rest ih =>
      intro visited result split scanned
      have next := ih (visited ++ [name]) _ (by simpa using split) (scanned.step valid now split)
      simpa using next
  refine scan context.run.actions.keys [] (context.run, []) rfl ?_
  exact ⟨.refl, running, live, halted, List.Sublist.refl _, by simp, by simp⟩

/-- A ready action that executeAction has not been called on. -/
def Startable (run : BuildRun) (name : String) : Prop :=
  ∃ action, run.actions.find? name = some action ∧ action.name = name ∧
    action.state = .pending ∧ action.point = .idle ∧ run.depsDone action

theorem callGate_dependency (run : BuildRun) (name : String) (place : Gate) (dep : String)
    (test : ActionState → Bool) :
    (callGate run name place).dependency dep test = run.dependency dep test := by
  obtain ⟨point, waiters, tickets, passes, _, same⟩ :=
    gate_eq (run.move name (.entering place)) name place
  rw [callGate, same]
  simp only [BuildRun.dependency, BuildRun.move, OrderedMap.modify_modify, OrderedMap.find?_modify]
  split
  · cases run.actions.find? dep <;> rfl
  · rfl

theorem Startable.callGate {run : BuildRun} {name other : String} (differ : other ≠ name)
    {place : Gate} (startable : Startable run other) :
    Startable (callGate run name place) other := by
  obtain ⟨action, found, named, pending, idle, ready⟩ := startable
  refine ⟨action, ?_, named, pending, idle, ?_⟩
  · obtain ⟨point, waiters, tickets, passes, _, same⟩ :=
      gate_eq (run.move name (.entering place)) name place
    rw [SysDeck.Fester.callGate, same]
    simp only [BuildRun.move, OrderedMap.modify_modify]
    rw [OrderedMap.find?_modify_ne _ _ differ, found]
  · intro dep needed
    rw [callGate_dependency]
    exact ready dep needed

theorem callGate_frame (run : BuildRun) (name : String) (place : Gate) :
    (callGate run name place).state = run.state ∧
      (callGate run name place).cancelRequested = run.cancelRequested ∧
      (callGate run name place).wave = run.wave := by
  obtain ⟨point, waiters, tickets, passes, _, same⟩ :=
    gate_eq (run.move name (.entering place)) name place
  rw [callGate, same]
  exact ⟨rfl, rfl, rfl⟩

private theorem startWave_fold (wave : List String) {context : Context}
    (running : context.run.state = .running) (live : context.run.cancelRequested = false)
    (listed : ∀ name ∈ wave, name ∈ context.run.wave) (nodup : wave.Nodup)
    (startable : ∀ name ∈ wave, Startable context.run name) :
    Moves hashAction context
      { context with run := wave.foldl (fun run name => callGate run name .schedule) context.run } := by
  induction wave generalizing context with
  | nil => exact .refl
  | cons name rest ih =>
    obtain ⟨action, found, rfl, pending, idle, ready⟩ := startable name (by simp)
    rw [List.nodup_cons] at nodup
    have step : ActionStep hashAction context action [] .keep none
        { action with point := .entering .schedule } :=
      .enter running live (listed action.name (by simp)) pending idle ready
    have first := Moves.enterGate found step rfl
    have called : gate ((context.run.put { action with point := .entering .schedule }).emitAll [])
        action.name .schedule = callGate context.run action.name .schedule := by
      simp [callGate, BuildRun.move_eq_put found, BuildRun.emitAll]
    rw [called] at first
    have kept := callGate_frame context.run action.name .schedule
    refine first.trans (ih (kept.1.trans running) (kept.2.1.trans live) ?_ nodup.2 ?_)
    · intro other member
      rw [kept.2.2]
      exact listed other (List.mem_cons_of_mem _ member)
    · intro other member
      have differ : other ≠ action.name := by
        rintro rfl
        exact nodup.1 member
      exact (startable other (List.mem_cons_of_mem _ member)).callGate differ

/-- What the wind-down has established after visiting some of the names. -/
structure WoundDown (hashAction : HashedAction → String) (context : Context)
    (visited : List String) (run : BuildRun) : Prop where
  moves : Moves hashAction context { context with run }
  running : run.state = .running
  cancelled : run.cancelRequested = true
  halted : run.settled
  ended : ∀ name ∈ visited, ∀ action, run.actions.find? name = some action →
    action.state.terminal = true

theorem WoundDown.step {context : Context} (valid : RunInvariant hashAction context.run) (now : Nat)
    {visited : List String} {name : String} {run : BuildRun}
    (down : WoundDown hashAction context visited run) :
    WoundDown hashAction context (visited ++ [name]) (windDownAction now run name) := by
  obtain ⟨moves, running, cancelled, halted, ended⟩ := down
  have current : RunInvariant hashAction run := valid.moves moves
  unfold windDownAction
  cases found : run.actions.find? name with
  | none =>
    refine ⟨moves, running, cancelled, halted, ?_⟩
    intro other member action present
    rcases List.mem_append.mp member with before | last
    · exact ended other before action present
    · obtain rfl := List.mem_singleton.mp last
      rw [found] at present
      cases present
  | some action =>
    obtain rfl := current.named name action found
    dsimp only
    by_cases pending : action.state = .pending
    · rw [if_pos pending]
      have stopped := halted action (OrderedMap.mem_values found)
      refine ⟨moves.tail (Micro.act found (.windDown now cancelled pending stopped)), running,
        cancelled, BuildRun.settled_put halted found rfl rfl, ?_⟩
      intro other member changed present
      rcases OrderedMap.find?_modify_eq_some present with ⟨_, _, _, rfl⟩ | ⟨differ, old⟩
      · rfl
      · rcases List.mem_append.mp member with before | last
        · exact ended other before changed old
        · exact absurd (List.mem_singleton.mp last) differ
    · have finished : action.state.terminal = true :=
        (current.between_waves halted found).resolve_left pending
      have skipped : ¬ (action.state = .scheduled ∨ action.state = .running) := by
        rintro (scheduled | executing)
        · simp [scheduled, ActionState.terminal] at finished
        · simp [executing, ActionState.terminal] at finished
      rw [if_neg pending, if_neg skipped]
      refine ⟨moves, running, cancelled, halted, ?_⟩
      intro other member changed present
      rcases List.mem_append.mp member with before | last
      · exact ended other before changed present
      · obtain rfl := List.mem_singleton.mp last
        rw [found] at present
        cases present
        exact finished

/-- The wind-down cancels along moves and leaves nothing unfinished. -/
theorem windDown_down {context : Context} (valid : RunInvariant hashAction context.run) (now : Nat)
    (running : context.run.state = .running) (cancelled : context.run.cancelRequested = true)
    (halted : context.run.settled) :
    WoundDown hashAction context context.run.actions.keys (windDown now context.run) := by
  have visit : ∀ (rest visited : List String) (run : BuildRun),
      WoundDown hashAction context visited run →
      WoundDown hashAction context (visited ++ rest) (rest.foldl (windDownAction now) run) := by
    intro rest
    induction rest with
    | nil =>
      intro visited run down
      simpa using down
    | cons name rest ih =>
      intro visited run down
      simpa using ih (visited ++ [name]) _ (down.step valid now)
  rw [windDown, if_pos cancelled]
  exact visit _ [] context.run ⟨.refl, running, cancelled, halted, by simp⟩

/-- With an empty wave nothing is pending: a first pending action would be ready
or blocked by an earlier one. -/
theorem Scanned.exhausted {context : Context} (valid : RunInvariant hashAction context.run)
    {run : BuildRun} (scanned : Scanned hashAction context context.run.actions.keys (run, [])) :
    ∀ action ∈ run.actions.values, action.state.terminal = true := by
  have current : RunInvariant hashAction run := valid.moves scanned.moves
  have keys : run.actions.keys = context.run.actions.keys := scanned.moves.frame.keys
  have none : ∀ name ∈ run.actions.keys, run.dependency name (· == .pending) = false := by
    refine current.ordered.induction
      (motive := fun name => run.dependency name (· == .pending) = false) ?_
    intro name listed earlier
    obtain ⟨action, found⟩ := OrderedMap.mem_keys_iff.mp listed
    rw [BuildRun.depsOf_of_find? found] at earlier
    by_contra waits
    have pending : action.state = .pending := by
      simpa [BuildRun.dependency, found] using waits
    obtain ⟨dep, needed, unfinished⟩ :=
      scanned.waiting name (keys ▸ listed) (by simp) action found pending
    rw [earlier dep needed] at unfinished
    cases unfinished
  intro action member
  obtain ⟨name, found⟩ := OrderedMap.mem_values_iff.mp member
  rcases current.between_waves scanned.halted found with pending | ended
  · have absent := none name (OrderedMap.mem_keys_iff.mpr ⟨action, found⟩)
    simp [BuildRun.dependency, found, pending] at absent
  · exact ended

/-- One turn of the wave loop is a sequence of moves. -/
theorem executeRun_moves {context : Context} (valid : RunInvariant hashAction context.run)
    (now : Nat) (running : context.run.state = .running) (halted : context.run.settled) :
    Moves hashAction context (executeRun now context) := by
  unfold executeRun
  split
  · rename_i cancelled
    obtain ⟨moves, stillRunning, _, stopped, ended⟩ :=
      windDown_down valid now running cancelled halted
    refine moves.tail (Micro.finish now stillRunning stopped ?_)
    intro action member
    obtain ⟨name, found⟩ := OrderedMap.mem_values_iff.mp member
    have listed : name ∈ context.run.actions.keys := by
      rw [← moves.frame.keys]
      exact OrderedMap.mem_keys_iff.mpr ⟨action, found⟩
    exact ended name listed action found
  · rename_i notCancelled
    have live : context.run.cancelRequested = false := by simpa using notCancelled
    have scanned := readyActions_scanned valid now running live halted
    generalize readyActions now context.run = result at scanned ⊢
    obtain ⟨run, wave⟩ := result
    dsimp only
    split
    · rename_i empty
      subst empty
      have stillLive : run.cancelRequested = false := scanned.live
      have idle : windDown now run = run := by simp [windDown, stillLive]
      rw [idle]
      exact scanned.moves.tail (Micro.finish now scanned.running scanned.halted
        (scanned.exhausted valid))
    · have nodup : wave.Nodup := scanned.sublist.nodup context.run.actions.nodup
      have current : RunInvariant hashAction run := valid.moves scanned.moves
      have launched := scanned.moves.tail
        (Micro.launch wave scanned.running scanned.live scanned.halted)
      refine launched.trans (startWave_fold wave scanned.running scanned.live
        (fun name member => member) nodup ?_)
      intro name member
      obtain ⟨action, found, pending, done⟩ := scanned.ready name member
      exact ⟨action, found, current.named name action found, pending,
        current.idle scanned.live scanned.halted found pending, done⟩

end SysDeck.Fester
