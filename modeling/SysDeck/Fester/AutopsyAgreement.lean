import SysDeck.Fester.Autopsy
import SysDeck.Fester.EventProtocol

/-! The autopsy over the engine's actions against the autopsy over the journal.
The events of an action record its state, and its deps once it was scheduled; the
deps of an action that never was come back only from a name that can be read. -/

namespace SysDeck.Fester

variable {hashAction : HashedAction → String}

/-- The journal's entry of an action after one more of its events. -/
def recordEntry (name : String) (entry : Option ActionInfo) (event : FesterEvent) :
    Option ActionInfo :=
  let cur := entry.getD { name, deps := [], state := "", node := event.node }
  match event.type with
  | .taskUpdate => some (cur.taskUpdate event)
  | .failure => some (cur.failure event)
  | _ => entry

theorem find?_recordEvent (graph : ActionGraph) (event : FesterEvent) (name : String) :
    (recordEvent graph event).find? name =
      if truthy event.action = some name then recordEntry name (graph.find? name) event
      else graph.find? name := by
  unfold recordEvent recordEntry
  cases truthy event.action with
  | none => rfl
  | some other =>
    by_cases same : other = name
    · subst same
      cases event.type <;> simp [OrderedMap.getD]
    · have differ : name ≠ other := Ne.symm same
      cases event.type <;> simp [OrderedMap.find?_set, same, differ]

/-- An entry of the journal's graph depends on the events of its action alone. -/
theorem find?_recordEvents (events : List FesterEvent) (graph : ActionGraph) (name : String) :
    (events.foldl recordEvent graph).find? name =
      (events.filter fun event => truthy event.action = some name).foldl (recordEntry name)
        (graph.find? name) := by
  induction events generalizing graph with
  | nil => rfl
  | cons event rest ih =>
    rw [List.foldl_cons, ih, find?_recordEvent]
    by_cases own : truthy event.action = some name
    · rw [if_pos own, List.filter_cons_of_pos (by simpa using own), List.foldl_cons]
    · rw [if_neg own, List.filter_cons_of_neg (by simpa using own)]

/-- The deps of an action its events carry. -/
def ActionNode.journaledDeps (action : ActionNode) : List String :=
  if action.node = none then [] else action.deps

/-- What the events of an action tell about it. -/
structure Journaled (events : List FesterEvent) (action : ActionNode) : Prop where
  unplaced : action.state = .pending → action.node = none
  entry : (events.foldl (recordEntry action.name) none).map ActionInfo.facts =
    if action.state = .pending then none
    else some (action.name, action.journaledDeps, action.state.text)

/-- The entry the next event starts from. -/
theorem Journaled.cur {events : List FesterEvent} {action : ActionNode}
    (journaled : Journaled events action) (node : Option String) :
    ∃ cur, (events.foldl (recordEntry action.name) none).getD ⟨action.name, [], "", node⟩ = cur ∧
      cur.name = action.name ∧ cur.deps = action.journaledDeps := by
  refine ⟨_, rfl, ?_⟩
  have entry := journaled.entry
  cases recorded : events.foldl (recordEntry action.name) none with
  | none =>
    rw [recorded] at entry
    have pending : action.state = .pending := by
      by_contra moved
      rw [if_neg moved] at entry
      cases entry
    exact ⟨rfl, by simp [ActionNode.journaledDeps, journaled.unplaced pending]⟩
  | some info =>
    rw [recorded] at entry
    split at entry
    · cases entry
    · have facts := Option.some.inj entry
      exact ⟨congrArg Prod.fst facts, congrArg (·.2.1) facts⟩

theorem ActionInfo.facts_taskUpdate (cur : ActionInfo) (event : FesterEvent) :
    (cur.taskUpdate event).facts =
      (cur.name,
        if event.state = some "scheduled" then (event.metaNames "deps").getD cur.deps else cur.deps,
        (truthy event.state).getD cur.state) := by
  unfold ActionInfo.taskUpdate
  split
  · cases event.metaNames "deps" <;> rfl
  · rfl

/-- A task_update event records the state it reports, and the deps it carries. -/
theorem Journaled.update {events : List FesterEvent} {action changed : ActionNode}
    (journaled : Journaled events action) {event : FesterEvent} (kind : event.type = .taskUpdate)
    (state : event.state = some changed.state.text) (moved : changed.state ≠ .pending)
    (name : changed.name = action.name)
    (deps : (if event.state = some "scheduled" then
        (event.metaNames "deps").getD action.journaledDeps else action.journaledDeps) =
      changed.journaledDeps) : Journaled (events ++ [event]) changed := by
  refine ⟨fun pending => absurd pending moved, ?_⟩
  obtain ⟨cur, start, named, known⟩ := journaled.cur event.node
  have told : truthy event.state = some changed.state.text := by
    rw [state]
    cases changed.state <;> rfl
  rw [List.foldl_append, List.foldl_cons, List.foldl_nil, if_neg moved, name, recordEntry]
  simp only [kind, start, Option.map_some, ActionInfo.facts_taskUpdate, named, known, deps, told,
    Option.getD_some]

/-- A failure event records 'failed'. -/
theorem Journaled.fail {events : List FesterEvent} {action changed : ActionNode}
    (journaled : Journaled events action) {event : FesterEvent} (kind : event.type = .failure)
    (state : changed.state = .failed) (name : changed.name = action.name)
    (deps : changed.journaledDeps = action.journaledDeps) :
    Journaled (events ++ [event]) changed := by
  have moved : changed.state ≠ .pending := by simp [state]
  refine ⟨fun pending => absurd pending moved, ?_⟩
  obtain ⟨cur, start, named, known⟩ := journaled.cur event.node
  rw [List.foldl_append, List.foldl_cons, List.foldl_nil, if_neg moved, name, recordEntry]
  simp only [kind, start, Option.map_some, ActionInfo.facts, ActionInfo.failure, named, known, deps,
    state, ActionState.text]

/-- Events of other types record nothing. -/
theorem Journaled.ignore {events : List FesterEvent} {action : ActionNode}
    (journaled : Journaled events action) {event : FesterEvent} (kind : event.type ≠ .taskUpdate)
    (kind' : event.type ≠ .failure) : Journaled (events ++ [event]) action := by
  refine ⟨journaled.unplaced, ?_⟩
  rw [List.foldl_append, ← journaled.entry, List.foldl_cons, List.foldl_nil, recordEntry]
  cases type : event.type <;> simp_all

theorem Journaled.act {context : Context} {action changed : ActionNode}
    {events : List FesterEvent} {slot : Slot} {key : Option String}
    (step : ActionStep hashAction context action events slot key changed)
    {before : List FesterEvent} (journaled : Journaled before action) :
    Journaled (before ++ events) changed := by
  cases step with
  | enter | abandon | again =>
    rw [List.append_nil]
    exact ⟨journaled.unplaced, journaled.entry⟩
  | schedule now decision next point live registered onward =>
    exact journaled.update rfl rfl (by simp [ActionNode.assigned]) rfl rfl
  | cancel now decision leaves cancelled => exact journaled.update rfl rfl (by simp) rfl rfl
  | cached now decision key point live =>
    have hit : Journaled (before ++ [context.run.hitEvent now action decision key
        (context.cas.getD key "")]) action :=
      journaled.ignore (by simp [BuildRun.hitEvent]) (by simp [BuildRun.hitEvent])
    rw [List.append_cons]
    exact hit.update rfl rfl (by simp) rfl rfl
  | start now attempt point live => exact journaled.update rfl rfl (by simp) rfl rfl
  | retry now attempt point live fails budget => exact journaled.update rfl rfl (by simp) rfl rfl
  | fail now attempt point live fails spent => exact journaled.fail rfl rfl rfl rfl
  | done now attempt point live succeeds => exact journaled.update rfl rfl (by simp) rfl rfl
  | stamp now decision point =>
    have stamped : Journaled (before ++ [context.run.stampEvent now action decision]) action :=
      journaled.ignore (by simp [BuildRun.stampEvent]) (by simp [BuildRun.stampEvent])
    exact ⟨stamped.unplaced, stamped.entry⟩
  | skip now live pending idle needed blocked => exact journaled.update rfl rfl (by simp) rfl rfl
  | windDown now cancelled pending halted => exact journaled.update rfl rfl (by simp) rfl rfl

theorem Journaled.view {context : Context} {action changed : ActionNode}
    {events : List FesterEvent} (view : View hashAction context action events changed)
    {before : List FesterEvent} (journaled : Journaled before action) :
    Journaled (before ++ events) changed := by
  cases view with
  | still =>
    rw [List.append_nil]
    exact journaled
  | acted step => exact journaled.act step
  | gated move =>
    rw [List.append_nil]
    cases move <;> exact ⟨journaled.unplaced, journaled.entry⟩

/-- The event log of a run records each of its actions and names no other. -/
structure Chronicle (run : BuildRun) : Prop where
  cataloged : ∀ name action, run.actions.find? name = some action →
    ∃ target ∈ run.targets, ∃ step ∈ stepsFor run.project target,
      step.name = name ∧ action.deps = step.deps
  journaled : ∀ name action, run.actions.find? name = some action →
    Journaled (run.eventsOf name) action
  foreign : ∀ name, run.actions.find? name = none → run.eventsOf name = []

theorem newRun_chronicle (now : Nat) (project : String) (targets : List String)
    (opts : BuildOptions) : Chronicle (newRun now project targets opts) where
  cataloged := by
    intro name action found
    obtain ⟨target, listed, step, inside, named, rfl⟩ := newRun_origin found
    exact ⟨target, listed, step, inside, named, rfl⟩
  journaled := by
    intro name action found
    obtain ⟨_, _, step, _, _, rfl⟩ := newRun_origin found
    exact ⟨fun _ => rfl, rfl⟩
  foreign := fun _ _ => rfl

theorem Chronicle.micro {context next : Context} (valid : RunInvariant hashAction context.run)
    (step : Micro hashAction context next) (chronicle : Chronicle context.run) :
    Chronicle next.run where
  cataloged := by
    intro name changed found
    obtain ⟨action, _, present, _, view⟩ := step.before valid.named found
    obtain ⟨target, listed, built, inside, named, deps⟩ := chronicle.cataloged name action present
    rw [step.frame.targets, step.frame.project]
    exact ⟨target, listed, built, inside, named, view.identity.2.trans deps⟩
  journaled := by
    intro name changed found
    obtain ⟨action, events, present, appended, view⟩ := step.before valid.named found
    rw [appended]
    exact (chronicle.journaled name action present).view view
  foreign := by
    intro name missing
    rw [OrderedMap.find?_eq_none_iff, step.frame.keys, ← OrderedMap.find?_eq_none_iff] at missing
    rw [← chronicle.foreign name missing]
    rcases step.acts_or_rests with ⟨actor, changed, events, slot, key, present, own, rfl⟩ | rests
    · refine (own.acted_other ?_).2
      rintro rfl
      rw [present] at missing
      cases missing
    · exact rests.events name

theorem chronicle_after (labels : List Label) {index : Nat} {run : BuildRun}
    (found : (Engine.after hashAction labels).created[index]? = some run) :
    RunInvariant hashAction run ∧ Closed run ∧ Chronicle run := by
  refine Engine.runs_invariant (motive := fun run => Closed run ∧ Chronicle run) ?_ ?_ labels found
  · intro now project targets opts
    exact ⟨newRun_closed now project targets opts, newRun_chronicle now project targets opts⟩
  · intro before after valid step ⟨closed, chronicle⟩
    exact ⟨closed.micro valid step, chronicle.micro valid step⟩

/-- The engine's graph of a run. -/
theorem liveActions_values {run : BuildRun}
    (named : ∀ name action, run.actions.find? name = some action → action.name = name) :
    liveActions run.actions.values = run.actions.mapValues ActionNode.info := by
  rw [liveActions, ← OrderedMap.ofList_entries (run.actions.mapValues ActionNode.info)]
  congr 1
  rw [OrderedMap.values, OrderedMap.mapValues, List.map_map]
  apply List.map_congr_left
  intro entry member
  simp [named entry.1 entry.2 (OrderedMap.find?_eq_some_iff.mpr member)]

/-- The journal's entry of an action of a run, before its deps are filled in. -/
theorem Chronicle.recorded {run : BuildRun} (chronicle : Chronicle run)
    (named : ∀ name action, run.actions.find? name = some action → action.name = name)
    (name : String) :
    ((run.events.foldl recordEvent OrderedMap.empty).find? name).map ActionInfo.facts =
      (run.actions.find? name).bind fun action =>
        if action.state = .pending then none
        else some (name, action.journaledDeps, action.state.text) := by
  rw [find?_recordEvents]
  cases found : run.actions.find? name with
  | none =>
    have quiet : (run.events.filter fun event => truthy event.action = some name) = [] := by
      have foreign := List.filter_eq_nil_iff.mp (chronicle.foreign name found)
      apply List.filter_eq_nil_iff.mpr
      intro event member own
      exact foreign event member (by simpa using (truthy_eq_some_iff.mp (of_decide_eq_true own)).1)
    rw [quiet]
    rfl
  | some action =>
    obtain ⟨target, _, step, inside, stepNamed, _⟩ := chronicle.cataloged name action found
    obtain ⟨stage, _, spelled⟩ := mem_stepsFor inside
    have nonempty : name ≠ "" := by
      rw [← stepNamed, spelled]
      exact stepName_ne_empty _ _ _
    have own : (run.events.filter fun event => truthy event.action = some name) =
        run.eventsOf name := by
      apply List.filter_congr
      intro event _
      simp [truthy_eq_some_iff, nonempty]
    have entry := (chronicle.journaled name action found).entry
    rw [named name action found] at entry
    rw [own]
    exact entry

/-- The deps fillDeps leaves on an action of a finished run. -/
def ActionNode.rebuiltDeps (action : ActionNode) (name : String) : List String :=
  if action.journaledDeps = [] then (canonicalDeps name).getD [] else action.journaledDeps

theorem facts_fillDeps (info : ActionInfo) :
    (fillDeps info).facts =
      (info.name, if info.deps = [] then (canonicalDeps info.name).getD [] else info.deps,
        info.state) := by
  unfold fillDeps
  by_cases free : info.deps = []
  · rw [if_neg (by simp [free]), if_pos free]
    cases canonicalDeps info.name with
    | none => simp [ActionInfo.facts, free]
    | some deps => rfl
  · rw [if_pos (List.length_pos_iff.mpr free), if_neg free]
    rfl

/-- The graph rebuilt from the journal of a finished run. -/
theorem Chronicle.rebuilt {run : BuildRun} (chronicle : Chronicle run)
    (named : ∀ name action, run.actions.find? name = some action → action.name = name)
    (closed : ∀ name action, run.actions.find? name = some action → action.state.terminal = true)
    (name : String) :
    ((reconstructActions run.events).find? name).map ActionInfo.facts =
      (run.actions.find? name).map fun action =>
        (name, action.rebuiltDeps name, action.state.text) := by
  rw [reconstructActions, OrderedMap.find?_mapValues]
  have recorded := chronicle.recorded named name
  cases found : run.actions.find? name with
  | none =>
    rw [found, Option.bind_none, Option.map_eq_none_iff] at recorded
    rw [recorded]
    rfl
  | some action =>
    have moved : action.state ≠ .pending := by
      intro pending
      have finished := closed name action found
      rw [pending] at finished
      cases finished
    rw [found, Option.bind_some, if_neg moved, Option.map_eq_some_iff] at recorded
    obtain ⟨info, present, facts⟩ := recorded
    rw [present, Option.map_some, Option.map_some, Option.map_some, facts_fillDeps]
    obtain ⟨rfl, deps, state⟩ : info.name = name ∧ info.deps = action.journaledDeps ∧
        info.state = action.state.text :=
      ⟨congrArg Prod.fst facts, congrArg (·.2.1) facts, congrArg (·.2.2) facts⟩
    rw [deps, state]
    rfl

/-- The deps come back unless they were never recorded and the name cannot be read. -/
theorem ActionNode.rebuiltDeps_eq {project target : String} {step : BuildStep}
    (inside : step ∈ stepsFor project target) {action : ActionNode} (deps : action.deps = step.deps)
    (recoverable : action.node = none → action.deps ≠ [] → Spelled project target) :
    action.rebuiltDeps step.name = action.deps := by
  have kept : action.journaledDeps ≠ [] → action.journaledDeps = action.deps := by
    unfold journaledDeps
    split
    · exact fun some => absurd rfl some
    · exact fun _ => rfl
  unfold rebuiltDeps
  split
  · rename_i lost
    by_cases spelled : Spelled project target
    · rw [canonicalDeps_spelled spelled inside, deps]
      rfl
    · obtain ⟨stage, member, named⟩ := mem_stepsFor inside
      rw [named, canonicalDeps_unspelled member spelled]
      by_contra waits
      have unplaced : action.node = none := by
        by_contra placed
        rw [journaledDeps, if_neg placed] at lost
        exact waits lost.symm
      exact spelled (recoverable unplaced fun none => waits none.symm)
  · rename_i some
    exact kept some

/-- The autopsy of one action of a run, from the engine and from the journal. -/
def AutopsiesAgree (run : BuildRun) (name : String) : Prop :=
  ∃ live journal,
    failureAutopsy run.buildId name run.events (some run.actions.values) = some live ∧
    failureAutopsy run.buildId name run.events none = some journal ∧ live.Agrees journal

/-- Every action that waits for another one was scheduled at some time, or its
project and target can be read back from its name. -/
def Recoverable (run : BuildRun) : Prop :=
  ∀ target ∈ run.targets, ∀ stage ∈ stages, ∀ action,
    run.actions.find? (stepName run.project target stage) = some action →
    action.node = none → action.deps ≠ [] → Spelled run.project target

theorem autopsyGraph_live (events : List FesterEvent) {run : BuildRun} {name : String}
    {action : ActionNode}
    (named : ∀ name action, run.actions.find? name = some action → action.name = name)
    (found : run.actions.find? name = some action) :
    (autopsyGraph events (some run.actions.values)).2 = run.actions.mapValues ActionNode.info := by
  rw [← liveActions_values named]
  have member := OrderedMap.mem_values found
  cases values : run.actions.values with
  | nil =>
    rw [values] at member
    cases member
  | cons first rest => rfl

/-- The engine's chain of an action that waits for another one is not empty. -/
theorem chain_live {hashAction : HashedAction → String} {run : BuildRun} {name : String}
    {action : ActionNode} {autopsy : Autopsy} {events : List FesterEvent}
    (valid : RunInvariant hashAction run)
    (present : run.actions.find? name = some action) (waits : action.deps ≠ [])
    (returned : failureAutopsy run.buildId name events (some run.actions.values) = some autopsy) :
    autopsy.dependencyChain ≠ [] := by
  obtain ⟨dep, needed⟩ := List.exists_mem_of_ne_nil _ waits
  have required : dep ∈ run.depsOf name := by
    rw [BuildRun.depsOf_of_find? present]
    exact needed
  have here := OrderedMap.mem_keys_iff.mpr ⟨action, present⟩
  obtain ⟨upstream, stored⟩ := OrderedMap.mem_keys_iff.mp (valid.ordered.closed here required)
  have graph := autopsyGraph_live events valid.named present
  have waiting : (autopsyGraph events (some run.actions.values)).2.nextDeps name =
      some action.deps := by
    rw [graph, ActionGraph.nextDeps, OrderedMap.find?_mapValues, present]
    rfl
  have link : (autopsyGraph events (some run.actions.values)).2.link dep =
      some ⟨upstream.name, upstream.state.text, upstream.node⟩ := by
    rw [graph, ActionGraph.link, OrderedMap.find?_mapValues, stored]
    rfl
  exact List.ne_nil_of_mem
    (chain_mem returned waiting needed (valid.ordered.ne run.actions.nodup here required) link)

/-- The journal's chain of a never-scheduled action whose name cannot be read is empty. -/
theorem Chronicle.chain_lost {run : BuildRun} (chronicle : Chronicle run)
    (named : ∀ name action, run.actions.find? name = some action → action.name = name)
    (closed : ∀ name action, run.actions.find? name = some action → action.state.terminal = true)
    {target stage : String} (member : stage ∈ stages)
    (unspelled : ¬ Spelled run.project target) {action : ActionNode}
    (present : run.actions.find? (stepName run.project target stage) = some action)
    (unplaced : action.node = none) {autopsy : Autopsy}
    (returned : failureAutopsy run.buildId (stepName run.project target stage) run.events none =
      some autopsy) :
    autopsy.dependencyChain = [] := by
  have lost : action.rebuiltDeps (stepName run.project target stage) = [] := by
    rw [ActionNode.rebuiltDeps, ActionNode.journaledDeps, if_pos unplaced, if_pos rfl,
      canonicalDeps_unspelled member unspelled]
    rfl
  apply chain_nil returned
  change ((reconstructActions run.events).nextDeps _).getD [] = []
  rw [ActionGraph.nextDeps_eq, chronicle.rebuilt named closed, present, Option.map_some,
    Option.map_some, lost]
  rfl

/-- The two graphs of a finished run whose lost deps can be recovered. -/
theorem Chronicle.alike {run : BuildRun} (chronicle : Chronicle run)
    (named : ∀ name action, run.actions.find? name = some action → action.name = name)
    (closed : ∀ name action, run.actions.find? name = some action → action.state.terminal = true)
    (recoverable : Recoverable run) :
    ActionGraph.Alike (run.actions.mapValues ActionNode.info) (reconstructActions run.events) := by
  intro name
  rw [OrderedMap.find?_mapValues, chronicle.rebuilt named closed name, Option.map_map]
  cases stored : run.actions.find? name with
  | none => rfl
  | some action =>
    obtain ⟨target, listed, step, inside, rfl, deps⟩ := chronicle.cataloged name action stored
    have same := ActionNode.rebuiltDeps_eq inside deps (by
      obtain ⟨stage, member, spelled⟩ := mem_stepsFor inside
      rw [spelled] at stored
      exact recoverable target listed stage member action stored)
    rw [Option.map_some, Option.map_some, same]
    simp [ActionInfo.facts, ActionNode.info, named _ action stored]

/-- A build whose first action fails: everything else is skipped, never scheduled. -/
def failedFetch (project : String) : List Label :=
  let resume : Label := .resume 1 0 (stepName project "main" "fetch") ⟨"ryzen-1", 10, "free"⟩
  [.startBuild 0 project ["main"] { failAction := some (stepName project "main" "fetch") },
    resume, resume, resume, .nextWave 2 0]

end SysDeck.Fester
