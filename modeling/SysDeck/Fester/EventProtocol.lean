import SysDeck.Fester.Dependency

/-! The event protocol: the task events of each action spell a word of a small
grammar, and a finished run has exactly one terminal event for each action. -/

namespace SysDeck.Fester

variable {hashAction : HashedAction → String}

/-- The letters of the protocol; `hit` is the cache_update before a cached `done`. -/
inductive TaskToken where
  | scheduled | hit | running | retry | done | failed | skipped | cancelled
  deriving DecidableEq, Repr

def TaskToken.terminal : TaskToken → Bool
  | done | failed | skipped | cancelled => true
  | scheduled | hit | running | retry => false

/-- The letter of an event; stamps and events of other kinds have none. -/
def FesterEvent.token (event : FesterEvent) : Option TaskToken :=
  match event.type with
  | .taskUpdate =>
    match event.state with
    | some "scheduled" => some .scheduled
    | some "running" => some .running
    | some "retry" => some .retry
    | some "done" => some .done
    | some "skipped" => some .skipped
    | some "cancelled" => some .cancelled
    | _ => none
  | .cacheUpdate => some .hit
  | .failure => some .failed
  | _ => none

/-- The letters an action has emitted, oldest first. -/
def BuildRun.word (run : BuildRun) (name : String) : List TaskToken :=
  (run.eventsOf name).filterMap FesterEvent.token

/-- An attempt and `k` more, a retry before each of them. -/
def attempts (k : Nat) : List TaskToken :=
  .running :: (List.replicate k [TaskToken.retry, TaskToken.running]).flatten

theorem attempts_succ (k : Nat) : attempts (k + 1) = attempts k ++ [.retry, .running] := by
  simp [attempts, List.replicate_succ']

/-- The complete words of an action in a run with this retry budget. -/
inductive TaskWord (retries : Nat) : List TaskToken → Prop where
  | skipped : TaskWord retries [.skipped]
  | cancelled : TaskWord retries [.cancelled]
  | cached : TaskWord retries [.scheduled, .hit, .done]
  | unstarted : TaskWord retries [.scheduled, .cancelled]
  | attempted (k : Nat) (budget : k ≤ retries) (last : TaskToken)
      (ends : last = .done ∨ last = .failed ∨ last = .cancelled) :
      TaskWord retries (.scheduled :: (attempts k ++ [last]))
  | retried (k : Nat) (budget : k ≤ retries) :
      TaskWord retries (.scheduled :: (attempts k ++ [.retry, .cancelled]))

theorem countP_terminal_attempts (k : Nat) : (attempts k).countP TaskToken.terminal = 0 := by
  induction k with
  | zero => rfl
  | succ k ih => rw [attempts_succ, List.countP_append, ih]; rfl

theorem count_running_attempts (k : Nat) : (attempts k).count .running = k + 1 := by
  induction k with
  | zero => rfl
  | succ k ih => rw [attempts_succ, List.count_append, ih]; rfl

/-- A complete word has one terminal letter. -/
theorem TaskWord.terminal {retries : Nat} {word : List TaskToken} (complete : TaskWord retries word) :
    word.countP TaskToken.terminal = 1 := by
  cases complete with
  | skipped | cancelled | cached | unstarted => rfl
  | attempted k budget last ends =>
    have closing : [last].countP TaskToken.terminal = 1 := by
      rcases ends with rfl | rfl | rfl <;> rfl
    rw [List.countP_cons, List.countP_append, countP_terminal_attempts, closing]
    rfl
  | retried k budget =>
    simp [List.countP_cons, List.countP_append, countP_terminal_attempts, TaskToken.terminal]

/-- A complete word runs no more attempts than the budget allows. -/
theorem TaskWord.running {retries : Nat} {word : List TaskToken} (complete : TaskWord retries word) :
    word.count .running ≤ 1 + retries := by
  cases complete with
  | skipped | cancelled | cached | unstarted => simp
  | attempted k budget last ends =>
    have other : [last].count TaskToken.running = 0 := by rcases ends with rfl | rfl | rfl <;> rfl
    simp only [List.count_cons, List.count_append, count_running_attempts, other]
    simp
    omega
  | retried k budget =>
    simp only [List.count_cons, List.count_append, count_running_attempts]
    simp
    omega

/-- The word before attempt `number` runs. -/
def opened : Nat → List TaskToken
  | 0 | 1 => [.scheduled]
  | k + 2 => .scheduled :: (attempts k ++ [.retry])

/-- The word while attempt `number` runs. -/
def tried (number : Nat) : List TaskToken := .scheduled :: attempts (number - 1)

theorem opened_running {number : Nat} (positive : 1 ≤ number) :
    opened number ++ [.running] = tried number := by
  match number, positive with
  | 1, _ => rfl
  | k + 2, _ => simp [opened, tried, attempts_succ]

theorem tried_retry {number : Nat} (positive : 1 ≤ number) :
    tried number ++ [.retry] = opened (number + 1) := by
  obtain ⟨k, rfl⟩ : ∃ k, number = k + 1 := ⟨number - 1, by omega⟩
  simp [opened, tried]

theorem tried_last {retries number : Nat} (budget : number ≤ 1 + retries) {last : TaskToken}
    (ends : last = .done ∨ last = .failed ∨ last = .cancelled) :
    TaskWord retries (tried number ++ [last]) :=
  .attempted (number - 1) (by omega) last ends

theorem opened_cancelled {retries number : Nat} (budget : number ≤ 1 + retries) :
    TaskWord retries (opened number ++ [.cancelled]) := by
  match number, budget with
  | 0, _ | 1, _ => exact .unstarted
  | k + 2, budget =>
    have word : TaskWord retries _ := .retried k (by omega)
    simpa [opened] using word

/-- The word an action has spelt at each suspension point. -/
def WordAt (run : BuildRun) (action : ActionNode) (word : List TaskToken) : Prop :=
  match action.point with
  | .idle =>
    (action.state = .pending ∧ word = []) ∨ (action.state = .skipped ∧ word = [.skipped]) ∨
      (action.state = .cancelled ∧ word = [.cancelled])
  | .entering .schedule | .parked .schedule | .passed .schedule => word = []
  | .entering (.run attempt) | .parked (.run attempt) | .passed (.run attempt) =>
    word = opened attempt.number
  | .cacheWait _ _ => word = [.scheduled]
  | .work attempt => word = tried attempt.number
  | .backoff attempt => word = tried attempt.number ++ [.retry]
  | .stampWait _ => TaskWord run.retries word
  | .returned =>
    (action.state = .pending ∧ word = []) ∨
      (action.state.terminal = true ∧ TaskWord run.retries word)

theorem WordAt.gated {run : BuildRun} {action changed : ActionNode} {word : List TaskToken}
    (move : GateMove action changed) (spelt : WordAt run action word) :
    WordAt run changed word := by
  cases move with
  | pass place point | park place point | wake place point =>
    cases place <;> simpa [WordAt, point] using spelt

/-- The word at a point from which a cancelled run leaves a scheduled action. -/
theorem WordAt.leaving {run : BuildRun} {action : ActionNode} {word : List TaskToken}
    {decision : ScheduleDecision} (spelt : WordAt run action word)
    (valid : StateAt hashAction run action) (leaves : Leaves action.point decision) :
    TaskWord run.retries (word ++ [.cancelled]) := by
  unfold WordAt at spelt
  unfold StateAt at valid
  generalize action.point = point at leaves valid spelt
  cases leaves with
  | cacheWait decision key =>
    rw [spelt]
    exact .unstarted
  | gate attempt =>
    rw [spelt]
    exact opened_cancelled valid.1.2.2
  | work attempt =>
    rw [spelt]
    exact tried_last valid.1.2.2 (.inr (.inr rfl))

/-- Each step of an action extends its word to the word of its next point. -/
theorem WordAt.act {context : Context} {action changed : ActionNode}
    {events : List FesterEvent} {slot : Slot} {key : Option String} {word : List TaskToken}
    (step : ActionStep hashAction context action events slot key changed)
    (valid : StateAt hashAction context.run action) (spelt : WordAt context.run action word) :
    WordAt context.run changed (word ++ events.filterMap FesterEvent.token) := by
  cases step with
  | enter running live member pending idle ready =>
    simp only [WordAt, idle, pending] at spelt
    simpa [WordAt] using spelt
  | abandon point cancelled =>
    simp only [WordAt, point] at spelt
    simp only [StateAt, point] at valid
    exact .inl ⟨valid, by simpa using spelt⟩
  | schedule now decision next point live registered onward =>
    simp only [WordAt, point] at spelt
    subst spelt
    rcases onward with ⟨rfl, _⟩ | ⟨rfl, _⟩ <;> rfl
  | cancel now decision leaves cancelled =>
    exact .inr ⟨rfl, spelt.leaving valid leaves⟩
  | cached now decision key point live =>
    simp only [WordAt, point] at spelt
    subst spelt
    exact .inr ⟨rfl, .cached⟩
  | start now attempt point live =>
    simp only [WordAt, point] at spelt
    simp only [StateAt, point] at valid
    subst spelt
    exact opened_running valid.1.2.1
  | retry now attempt point live fails budget =>
    simp only [WordAt, point] at spelt
    subst spelt
    rfl
  | fail now attempt point live fails spent =>
    simp only [WordAt, point] at spelt
    simp only [StateAt, point] at valid
    subst spelt
    exact .inr ⟨rfl, tried_last valid.1.2.2 (.inr (.inl rfl))⟩
  | done now attempt point live succeeds =>
    simp only [WordAt, point] at spelt
    simp only [StateAt, point] at valid
    subst spelt
    exact tried_last valid.1.2.2 (.inl rfl)
  | again attempt point =>
    simp only [WordAt, point] at spelt
    simp only [StateAt, point] at valid
    subst spelt
    simpa [WordAt] using tried_retry valid.1.2.1
  | stamp now decision point =>
    simp only [WordAt, point] at spelt
    simp only [StateAt, point] at valid
    refine .inr ⟨by simp [valid, ActionState.terminal], ?_⟩
    have silent : [context.run.stampEvent now action decision].filterMap FesterEvent.token = [] := rfl
    rw [silent, List.append_nil]
    exact spelt
  | skip now live pending idle needed blocked =>
    simp only [WordAt, idle, pending] at spelt
    have empty : word = [] := by simpa using spelt
    subst empty
    simp only [WordAt, idle]
    exact .inr (.inl ⟨trivial, rfl⟩)
  | windDown now cancelled pending halted =>
    cases point : action.point with
    | idle =>
      simp only [WordAt, point, pending] at spelt
      have empty : word = [] := by simpa using spelt
      subst empty
      simp only [WordAt]
      exact .inr (.inr ⟨trivial, rfl⟩)
    | returned =>
      simp only [WordAt, point, pending] at spelt
      have empty : word = [] := by simpa [ActionState.terminal] using spelt
      subst empty
      exact .inr ⟨rfl, .cancelled⟩
    | _ => simp [point, Point.settled] at halted

theorem WordAt.frame {before after : BuildRun} (frame : Frame before after) {action : ActionNode}
    {word : List TaskToken} (spelt : WordAt before action word) : WordAt after action word := by
  unfold WordAt at *
  rw [frame.retries]
  exact spelt

/-- Every action of a run has spelt the word of its point. -/
def Spelling (run : BuildRun) : Prop :=
  ∀ name action, run.actions.find? name = some action → WordAt run action (run.word name)

theorem Spelling.micro {before after : Context} (valid : RunInvariant hashAction before.run)
    (step : Micro hashAction before after) (spelling : Spelling before.run) :
    Spelling after.run := by
  intro name changed found
  obtain ⟨action, events, present, appended, view⟩ := step.before valid.named found
  have spelt := spelling name action present
  have extended : after.run.word name =
      before.run.word name ++ events.filterMap FesterEvent.token := by
    simp [BuildRun.word, appended]
  rw [extended]
  cases view with
  | still => simpa using spelt.frame step.frame
  | gated move => simpa using (spelt.gated move).frame step.frame
  | acted acted =>
    exact (spelt.act acted (valid.coherent name action present).1).frame step.frame

theorem newRun_spelling (now : Nat) (project : String) (targets : List String)
    (opts : BuildOptions) : Spelling (newRun now project targets opts) := by
  intro name action found
  obtain ⟨_, _, step, _, _, rfl⟩ := newRun_origin found
  exact .inl ⟨rfl, by simp [BuildRun.word, newRun, BuildRun.eventsOf, BuildRun.emit,
    BuildRun.pipelineUpdate]⟩

theorem opened_counts (number : Nat) : (opened number).countP TaskToken.terminal = 0 ∧
    (opened number).count .running ≤ number - 1 := by
  match number with
  | 0 | 1 => exact ⟨rfl, by simp [opened]⟩
  | k + 2 =>
    constructor
    · rw [opened, List.countP_cons, List.countP_append, countP_terminal_attempts]
      rfl
    · simp [opened, count_running_attempts]

theorem tried_counts (number : Nat) : (tried number).countP TaskToken.terminal = 0 ∧
    (tried number).count .running = number - 1 + 1 := by
  constructor
  · rw [tried, List.countP_cons, countP_terminal_attempts]
    rfl
  · simp [tried, count_running_attempts]

/-- At every point an action has ended at most once and kept its budget. -/
theorem WordAt.bounds {run : BuildRun} {action : ActionNode} {word : List TaskToken}
    (spelt : WordAt run action word) (valid : StateAt hashAction run action) :
    word.countP TaskToken.terminal ≤ 1 ∧ word.count .running ≤ 1 + run.retries := by
  unfold WordAt at spelt
  unfold StateAt Attempting BuildRun.maxAttempts at valid
  split at spelt
  · rcases spelt with ⟨_, rfl⟩ | ⟨_, rfl⟩ | ⟨_, rfl⟩ <;> exact ⟨by decide, by simp⟩
  iterate 3
    · subst spelt
      exact ⟨by decide, by simp⟩
  iterate 3
    · rename_i attempt point
      subst spelt
      simp only [point] at valid
      obtain ⟨none, few⟩ := opened_counts attempt.number
      omega
  · subst spelt
    exact ⟨by decide, by simp⟩
  · rename_i attempt point
    subst spelt
    simp only [point] at valid
    obtain ⟨none, few⟩ := tried_counts attempt.number
    omega
  · rename_i attempt point
    subst spelt
    simp only [point] at valid
    obtain ⟨none, few⟩ := tried_counts attempt.number
    rw [List.countP_append, List.count_append, none, few]
    simp [TaskToken.terminal]
    omega
  · exact ⟨spelt.terminal.le, spelt.running⟩
  · rcases spelt with ⟨_, rfl⟩ | ⟨_, complete⟩
    · exact ⟨by decide, by simp⟩
    · exact ⟨complete.terminal.le, complete.running⟩

/-- An action that has ended has spelt a complete word. -/
theorem WordAt.complete {run : BuildRun} {action : ActionNode} {word : List TaskToken}
    (spelt : WordAt run action word) (valid : StateAt hashAction run action)
    (ended : action.state.terminal = true) : TaskWord run.retries word := by
  unfold WordAt at spelt
  unfold StateAt at valid
  cases point : action.point with
  | idle =>
    simp only [point] at spelt
    rcases spelt with ⟨pending, _⟩ | ⟨_, rfl⟩ | ⟨_, rfl⟩
    · simp [pending, ActionState.terminal] at ended
    · exact .skipped
    · exact .cancelled
  | stampWait decision => simpa [point] using spelt
  | returned =>
    simp only [point] at spelt
    rcases spelt with ⟨pending, _⟩ | ⟨_, complete⟩
    · simp [pending, ActionState.terminal] at ended
    · exact complete
  | entering place | parked place | passed place =>
    exfalso
    cases place <;> simp only [point] at valid
    · simp [valid, ActionState.terminal] at ended
    · rcases valid.2 with ⟨_, state⟩ | ⟨_, state⟩ <;> simp [state, ActionState.terminal] at ended
  | cacheWait | work | backoff =>
    simp only [point] at valid
    simp [valid, ActionState.terminal] at ended

/-- The final pipeline_update of a run. -/
def FesterEvent.closing (event : FesterEvent) : Bool :=
  event.type = .pipelineUpdate && (event.state = some BuildState.succeeded.text ||
    event.state = some BuildState.failed.text || event.state = some BuildState.cancelled.text)

/-- Once a run has left 'running' or its final pipeline_update is out, every
action has ended. -/
def Closed (run : BuildRun) : Prop :=
  (run.state ≠ .running ∨ ∃ event ∈ run.events, event.closing = true) → ∀ name action,
    run.actions.find? name = some action → action.state.terminal = true

theorem Closed.micro {before after : Context} (valid : RunInvariant hashAction before.run)
    (step : Micro hashAction before after) (closed : Closed before.run) : Closed after.run := by
  intro reason name changed found
  obtain ⟨action, events, present, _, view⟩ := step.before valid.named found
  have ended : action.state.terminal = true := by
    rcases step.log with ⟨logged, appended, others, same, _⟩ | ⟨now, _, _, ended⟩
    · refine closed ?_ name action present
      rcases reason with stopped | ⟨event, member, closing⟩
      · exact .inl (same ▸ stopped)
      · rw [appended] at member
        rcases List.mem_append.mp member with old | new
        · exact .inr ⟨event, old, closing⟩
        · simp [FesterEvent.closing, others event new] at closing
    · exact ended action (OrderedMap.mem_values present)
  rw [view.ended (valid.coherent name action present).1 ended]
  exact ended

/-- A new run has announced 'queued' and 'running' only. -/
theorem newRun_open (now : Nat) (project : String) (targets : List String) (opts : BuildOptions) :
    ∀ event ∈ (newRun now project targets opts).events, event.closing = false := by
  intro event member
  simp only [newRun, BuildRun.emit, List.nil_append, List.mem_append, List.mem_singleton] at member
  rcases member with rfl | rfl <;> rfl

theorem newRun_closed (now : Nat) (project : String) (targets : List String)
    (opts : BuildOptions) : Closed (newRun now project targets opts) := by
  rintro (stopped | ⟨event, member, closing⟩)
  · exact absurd rfl stopped
  · rw [newRun_open now project targets opts event member] at closing
    cases closing

theorem protocol_after (labels : List Label) {index : Nat} {run : BuildRun}
    (found : (Engine.after hashAction labels).created[index]? = some run) :
    RunInvariant hashAction run ∧ Spelling run ∧ Closed run := by
  refine Engine.runs_invariant (motive := fun run => Spelling run ∧ Closed run) ?_ ?_ labels found
  · exact fun now project targets opts => ⟨newRun_spelling now project targets opts,
      newRun_closed now project targets opts⟩
  · intro before after valid step ⟨spelling, closed⟩
    exact ⟨spelling.micro valid step, closed.micro valid step⟩

/-- Over every interleaving an action ends at most once and within its budget of
attempts; with the final pipeline_update every action has ended, its events
spell a complete word, and exactly one of them is terminal. -/
theorem event_protocol (hashAction : HashedAction → String) (labels : List Label) {index : Nat}
    {run : BuildRun} (found : (Engine.after hashAction labels).created[index]? = some run)
    {name : String} {action : ActionNode} (present : run.actions.find? name = some action) :
    (run.word name).countP TaskToken.terminal ≤ 1 ∧
      (run.word name).count .running ≤ 1 + run.retries ∧
      ((∃ event ∈ run.events, event.closing = true) →
        action.state.terminal = true ∧ TaskWord run.retries (run.word name) ∧
          (run.word name).countP TaskToken.terminal = 1) := by
  obtain ⟨valid, spelling, closed⟩ := protocol_after labels found
  have placed := (valid.coherent name action present).1
  have spelt := spelling name action present
  obtain ⟨once, few⟩ := spelt.bounds placed
  refine ⟨once, few, ?_⟩
  intro closing
  have ended := closed (.inr closing) name action present
  have complete := spelt.complete placed ended
  exact ⟨ended, complete, complete.terminal⟩

/-- A build that retries its first action once, fails and is closed. -/
def retriedBuild : List Label :=
  let decision : ScheduleDecision := ⟨"ryzen-1", 10, "free"⟩
  let resume (now : Nat) : Label := .resume now 0 "nginx:main:fetch" decision
  [.startBuild 0 "nginx" ["main"] { failAction := some "nginx:main:fetch", retries := some 1 },
    resume 1, resume 2, resume 3, resume 4, resume 5, resume 6, .nextWave 7 0]

theorem event_protocol_retried :
    ∃ run, (Engine.after HashedAction.name retriedBuild).created[0]? = some run ∧
      run.word "nginx:main:fetch" = [.scheduled, .running, .retry, .running, .failed] ∧
      TaskWord run.retries (run.word "nginx:main:fetch") ∧
      (run.word "nginx:main:fetch").countP TaskToken.terminal = 1 := by
  obtain ⟨run, found⟩ := Option.isSome_iff_exists.mp
    (show ((Engine.after HashedAction.name retriedBuild).created[0]?).isSome = true by decide)
  have seen : ((Engine.after HashedAction.name retriedBuild).created[0]?).all (fun run =>
      (run.actions.find? "nginx:main:fetch").isSome && run.events.any FesterEvent.closing &&
        run.word "nginx:main:fetch" = [.scheduled, .running, .retry, .running, .failed]) = true := by
    decide
  simp only [found, Option.all_some, Bool.and_eq_true, decide_eq_true_eq, List.any_eq_true] at seen
  obtain ⟨⟨listed, closing⟩, word⟩ := seen
  obtain ⟨action, present⟩ := Option.isSome_iff_exists.mp listed
  obtain ⟨_, complete, once⟩ :=
    (event_protocol HashedAction.name retriedBuild found present).2.2 closing
  exact ⟨run, found, word, complete, once⟩

end SysDeck.Fester
