import SysDeck.Fester.AutopsyAgreement
import SysDeck.Library.PostOrder

/-! The autopsy against the dependency graph of a finished run. The chain of an action is its upstream
in dependency order; its blast radius holds its dependents and every skipped action of the build. -/

namespace SysDeck.Fester

open DependencyOrder (Dependent Topological)

variable {hashAction : HashedAction → String}

/-- The task_update of an action that is skipped because of a failure. -/
def FesterEvent.skips (event : FesterEvent) : Bool :=
  event.type = .taskUpdate && event.state = some "skipped" && event.reason = some "upstream failed"

/-- A state that makes the wave loop skip a dependent while nothing is cancelled. -/
def ActionState.broken : ActionState → Bool
  | failed | skipped => true
  | pending | scheduled | running | retry | done | cancelled => false

/-! ### What the events of a run tell of its failures -/

/-- What the events of an action tell of skips and failures, and why it was skipped. -/
structure Recounted (run : BuildRun) (action : ActionNode) : Prop where
  skipped : (∃ event ∈ run.eventsOf action.name, event.skips = true) ↔ action.state = .skipped
  downstream : ∀ event ∈ run.eventsOf action.name, event.state = some "failed" →
    ∀ name ∈ (event.metaNames "downstream").getD [], action.name ∈ run.depsOf name
  cancelled : action.state = .cancelled → run.cancelRequested = true
  blamed : action.state = .skipped →
    ∃ dep ∈ action.deps, run.dependency dep ActionState.broken = true

theorem View.skips {context : Context} {action changed : ActionNode} {events : List FesterEvent}
    (view : View hashAction context action events changed)
    (valid : StateAt hashAction context.run action) :
    changed.state = .skipped ↔ action.state = .skipped ∨ ∃ event ∈ events, event.skips = true := by
  have kept : action.state = .skipped → changed.state = .skipped := fun skipped =>
    (view.ended valid (by rw [skipped]; rfl)).trans skipped
  cases view with
  | still => simp
  | gated move => simp [move.frame.2.2]
  | acted step =>
    cases step with
    | enter | abandon | again => simp
    | stamp => simp [FesterEvent.skips, BuildRun.stampEvent]
    | skip =>
      exact iff_of_true rfl (.inr ⟨_, List.mem_singleton_self _, rfl⟩)
    | schedule | cancel | cached | start | retry | fail | done | windDown =>
      have other : ¬ action.state = .skipped := by
        intro skipped
        cases kept skipped
      simp [other, FesterEvent.skips, ActionNode.assigned,
        BuildRun.scheduledEvent, BuildRun.cancelledEvent, BuildRun.hitEvent, BuildRun.cachedEvent,
        BuildRun.runningEvent, BuildRun.retryEvent, BuildRun.failureEvent, BuildRun.doneEvent,
        BuildRun.windDownEvent, BuildRun.taskUpdate, ActionState.text]

theorem BuildRun.mem_downstreamOf {run : BuildRun}
    (named : ∀ name action, run.actions.find? name = some action → action.name = name)
    {name child : String} (member : child ∈ run.downstreamOf name) : name ∈ run.depsOf child := by
  obtain ⟨action, kept, rfl⟩ := List.mem_map.mp member
  obtain ⟨stored, needs⟩ := List.mem_filter.mp kept
  obtain ⟨key, found⟩ := OrderedMap.mem_values_iff.mp stored
  rw [named key action found, BuildRun.depsOf_of_find? found]
  exact List.contains_iff_mem.mp needs

/-- A failure event records the dependents of its action. -/
theorem View.failure {context : Context} {action changed : ActionNode} {events : List FesterEvent}
    (view : View hashAction context action events changed) {event : FesterEvent}
    (member : event ∈ events) (failed : event.state = some "failed") :
    event.metaNames "downstream" = some (context.run.downstreamOf action.name) := by
  cases view with
  | still | gated => cases member
  | acted step =>
    cases step with
    | enter | abandon | again => cases member
    | fail =>
      obtain rfl := List.mem_singleton.mp member
      simp [FesterEvent.metaNames, BuildRun.failureEvent, List.lookup_cons]
    | cached =>
      simp only [List.mem_cons, List.not_mem_nil, or_false] at member
      rcases member with rfl | rfl
      · simp [BuildRun.hitEvent] at failed
      · simp [BuildRun.cachedEvent, BuildRun.taskUpdate, ActionState.text] at failed
    | schedule | cancel | start | retry | done | stamp | skip | windDown =>
      obtain rfl := List.mem_singleton.mp member
      simp [BuildRun.scheduledEvent, BuildRun.cancelledEvent, BuildRun.runningEvent,
        BuildRun.retryEvent, BuildRun.doneEvent, BuildRun.stampEvent, BuildRun.skippedEvent,
        BuildRun.windDownEvent, BuildRun.taskUpdate, ActionState.text] at failed

/-- Only a cancelled run cancels an action. -/
theorem View.cancels {context : Context} {action changed : ActionNode} {events : List FesterEvent}
    (view : View hashAction context action events changed) (cancelled : changed.state = .cancelled) :
    action.state = .cancelled ∨ context.run.cancelRequested = true := by
  cases view with
  | still => exact .inl cancelled
  | gated move => exact .inl (move.frame.2.2 ▸ cancelled)
  | acted step =>
    cases step with
    | enter | abandon | again | stamp => exact .inl cancelled
    | cancel _ _ _ requested | windDown _ requested => exact .inr requested
    | schedule | cached | start | retry | fail | done | skip => cases cancelled

/-- Only a broken dependency makes an action skipped. -/
theorem View.blame {context : Context} {action changed : ActionNode} {events : List FesterEvent}
    (view : View hashAction context action events changed)
    (recounted : ∀ name other, context.run.actions.find? name = some other →
      Recounted context.run other)
    (skipped : changed.state = .skipped) :
    action.state = .skipped ∨
      ∃ dep ∈ action.deps, context.run.dependency dep ActionState.broken = true := by
  cases view with
  | still => exact .inl skipped
  | gated move => exact .inl (move.frame.2.2 ▸ skipped)
  | acted step =>
    cases step with
    | enter | abandon | again | stamp => exact .inl skipped
    | schedule | cancel | cached | start | retry | fail | done | windDown => cases skipped
    | skip now live pending idle needed blocked =>
      obtain ⟨upstream, found, blocks⟩ := BuildRun.dependency_iff.mp blocked
      refine .inr ⟨_, needed, BuildRun.dependency_iff.mpr ⟨upstream, found, ?_⟩⟩
      cases state : upstream.state with
      | failed | skipped => rfl
      | cancelled =>
        have requested := (recounted _ upstream found).cancelled state
        cases live.symm.trans requested
      | pending | scheduled | running | retry | done =>
        rw [state] at blocks
        cases blocks

theorem Recounted.micro {before after : Context} (valid : RunInvariant hashAction before.run)
    (step : Micro hashAction before after)
    (recounted : ∀ name action, before.run.actions.find? name = some action →
      Recounted before.run action) :
    ∀ name action, after.run.actions.find? name = some action → Recounted after.run action := by
  intro name changed found
  obtain ⟨action, events, present, appended, view⟩ := step.before valid.named found
  have own := recounted name action present
  have owner : action.name = name := valid.named name action present
  obtain ⟨sameName, sameDeps⟩ := view.identity
  have log : after.run.eventsOf changed.name = before.run.eventsOf action.name ++ events := by
    rw [sameName, owner, appended]
  have carried : (∃ dep ∈ action.deps, before.run.dependency dep ActionState.broken = true) →
      ∃ dep ∈ action.deps, after.run.dependency dep ActionState.broken = true := by
    rintro ⟨dep, needed, holds⟩
    exact ⟨dep, needed, step.dependency valid (fun state => by cases state <;> decide) holds⟩
  refine ⟨?_, ?_, ?_, ?_⟩
  · rw [view.skips (valid.coherent name action present).1, ← own.skipped, log]
    simp only [List.mem_append, or_and_right, exists_or]
  · intro event member failed child listed
    rw [log] at member
    rw [step.depsOf_eq valid.named, sameName]
    rcases List.mem_append.mp member with old | new
    · exact own.downstream event old failed child listed
    · rw [view.failure new failed] at listed
      exact BuildRun.mem_downstreamOf valid.named listed
  · intro cancelled
    rcases view.cancels cancelled with old | requested
    · exact step.frame.cancelled (own.cancelled old)
    · exact step.frame.cancelled requested
  · intro skipped
    rw [sameDeps]
    rcases view.blame recounted skipped with old | new
    · exact carried (own.blamed old)
    · exact carried new

/-- The log of every run recounts its skips and failures. -/
theorem recounted_after (labels : List Label) {index : Nat} {run : BuildRun}
    (found : (Engine.after hashAction labels).created[index]? = some run) :
    ∀ name action, run.actions.find? name = some action → Recounted run action := by
  refine (Engine.runs_invariant (motive := fun run => ∀ name action,
    run.actions.find? name = some action → Recounted run action) ?_
    (fun _ _ valid step => Recounted.micro valid step) labels found).2
  intro now project targets opts name action present
  obtain ⟨_, _, step, _, _, rfl⟩ := newRun_origin present
  refine ⟨?_, ?_, fun cancelled => ?_, fun skipped => ?_⟩
  · simp [newRun, newAction, BuildRun.eventsOf, BuildRun.emit, BuildRun.pipelineUpdate]
  · simp [newRun, BuildRun.eventsOf, BuildRun.emit, BuildRun.pipelineUpdate]
  · cases cancelled
  · cases skipped

theorem Chronicle.ne_empty {run : BuildRun} (chronicle : Chronicle run) {name : String}
    {action : ActionNode} (found : run.actions.find? name = some action) : name ≠ "" := by
  obtain ⟨target, _, step, inside, named, _⟩ := chronicle.cataloged name action found
  obtain ⟨stage, _, spelled⟩ := mem_stepsFor inside
  rw [← named, spelled]
  exact stepName_ne_empty _ _ _

/-- The skipped actions an autopsy finds in the log are those that ended skipped. -/
theorem mem_skippedActions {run : BuildRun} (chronicle : Chronicle run)
    (named : ∀ name action, run.actions.find? name = some action → action.name = name)
    (recounted : ∀ name action, run.actions.find? name = some action → Recounted run action)
    {name : String} : name ∈ skippedActions run.events ↔
      ∃ action, run.actions.find? name = some action ∧ action.state = .skipped := by
  have listed : name ∈ skippedActions run.events ↔
      name ≠ "" ∧ ∃ event ∈ run.eventsOf name, event.skips = true := by
    rw [skippedActions, List.mem_filterMap]
    constructor
    · rintro ⟨event, member, here⟩
      split at here
      · rename_i skips
        obtain ⟨own, nonempty⟩ := truthy_eq_some_iff.mp here
        exact ⟨nonempty, event, List.mem_filter.mpr ⟨member, decide_eq_true own⟩, skips⟩
      · cases here
    · rintro ⟨nonempty, event, member, skips⟩
      obtain ⟨inside, own⟩ := List.mem_filter.mp member
      refine ⟨event, inside, (if_pos skips).trans ?_⟩
      exact truthy_eq_some_iff.mpr ⟨of_decide_eq_true own, nonempty⟩
  rw [listed]
  constructor
  · rintro ⟨nonempty, told⟩
    cases found : run.actions.find? name with
    | none =>
      obtain ⟨event, member, _⟩ := told
      rw [chronicle.foreign name found] at member
      cases member
    | some action =>
      rw [← named name action found] at told
      exact ⟨action, rfl, (recounted name action found).skipped.mp told⟩
  · rintro ⟨action, found, skipped⟩
    have told := (recounted name action found).skipped.mpr skipped
    rw [named name action found] at told
    exact ⟨chronicle.ne_empty found, told⟩

/-- The downstream of the failure event are dependents of its action. -/
theorem mem_evDownstream {run : BuildRun}
    (named : ∀ name action, run.actions.find? name = some action → action.name = name)
    (recounted : ∀ name action, run.actions.find? name = some action → Recounted run action)
    {name : String} {action : ActionNode} (found : run.actions.find? name = some action)
    {child : String} (member : child ∈ evDownstream run.buildId name run.events) :
    name ∈ run.depsOf child := by
  have owner := named name action found
  rw [evDownstream] at member
  cases failure : (taskEvents run.buildId name run.events).find? (·.state = some "failed") with
  | none =>
    rw [failure] at member
    cases member
  | some event =>
    rw [failure, Option.bind_some] at member
    have failed : event.state = some "failed" := by simpa using List.find?_some failure
    obtain ⟨inside, own⟩ := List.mem_filter.mp (List.mem_of_find?_eq_some failure)
    simp only [Bool.and_eq_true, decide_eq_true_eq] at own
    have logged : event ∈ run.eventsOf action.name := by
      rw [owner]
      exact List.mem_filter.mpr ⟨List.mem_of_mem_filter inside, decide_eq_true own.2⟩
    rw [← owner]
    exact (recounted name action found).downstream event logged failed child member

/-! ### The graph of a run -/

/-- The engine's graph of a run, as an autopsy reads it. -/
abbrev BuildRun.graph (run : BuildRun) : ActionGraph := run.actions.mapValues ActionNode.info

theorem nextDeps_graph (run : BuildRun) (name : String) :
    run.graph.nextDeps name = (run.actions.find? name).map (·.deps) := by
  rw [ActionGraph.nextDeps, OrderedMap.find?_mapValues, Option.map_map]
  rfl

theorem getD_nextDeps (run : BuildRun) (name : String) :
    (run.graph.nextDeps name).getD [] = run.depsOf name := by
  rw [nextDeps_graph, BuildRun.depsOf]

section

variable {run : BuildRun} (valid : RunInvariant hashAction run)
include valid

/-- Every dependency is an action of the run. -/
theorem dep_present {name dep : String} (needed : dep ∈ run.depsOf name) :
    (run.graph.nextDeps dep).isSome = true := by
  obtain ⟨action, found⟩ := BuildRun.find?_of_dependent (.single needed)
  obtain ⟨upstream, present⟩ := OrderedMap.mem_keys_iff.mp
    (valid.ordered.closed (OrderedMap.mem_keys_iff.mpr ⟨action, found⟩) needed)
  rw [nextDeps_graph, present]
  rfl

theorem children_graph : DepthFirst.children run.graph.nextDeps = run.depsOf := by
  funext name
  rw [DepthFirst.children, getD_nextDeps]
  exact List.filter_eq_self.mpr fun dep needed => dep_present valid needed

theorem edge_graph {name dep : String} :
    DepthFirst.Edge run.graph.nextDeps name dep ↔ dep ∈ run.depsOf name := by
  rw [← DepthFirst.mem_children_iff, children_graph valid]

theorem acyclic (name : String) : ¬ Dependent run.depsOf name name := by
  intro waits
  obtain ⟨action, found⟩ := BuildRun.find?_of_dependent waits
  exact valid.ordered.acyclic name (OrderedMap.mem_keys_iff.mpr ⟨action, found⟩) waits

theorem transGen_edge_iff {name dep : String} :
    Relation.TransGen (DepthFirst.Edge run.graph.nextDeps) name dep ↔ Dependent run.depsOf dep name := by
  rw [Dependent, ← Relation.transGen_swap]
  have same : DepthFirst.Edge run.graph.nextDeps =
      Function.swap fun dep name => dep ∈ run.depsOf name := by
    funext name dep
    exact propext (edge_graph valid)
  rw [same]

theorem mem_waiting_graph {name child : String} :
    child ∈ run.graph.waiting name ↔ name ∈ run.depsOf child := by
  rw [ActionGraph.mem_waiting_iff]
  constructor
  · rintro ⟨key, facts, present, needs, rfl⟩
    rw [OrderedMap.find?_mapValues, Option.map_map] at present
    obtain ⟨action, found, rfl⟩ := Option.map_eq_some_iff.mp present
    have owner := valid.named key action found
    change name ∈ run.depsOf action.name
    rw [owner, BuildRun.depsOf_of_find? found]
    exact needs
  · intro needed
    obtain ⟨action, found⟩ := BuildRun.find?_of_dependent (.single needed)
    refine ⟨child, action.info.facts, ?_, ?_, valid.named child action found⟩
    · rw [OrderedMap.find?_mapValues, found]
      rfl
    · rw [BuildRun.depsOf_of_find? found] at needed
      exact needed

/-- The search along the reverse edges marks the dependents. -/
theorem downstream_exact {name : String} {downstream : DepthFirst.Trail String}
    (spread : DepthFirst.Explores (some ∘ run.graph.waiting) ⟨[], []⟩ (run.graph.waiting name)
      downstream) (other : String) : other ∈ downstream.seen ↔ Dependent run.depsOf name other := by
  have edges : DepthFirst.Edge (some ∘ run.graph.waiting) = fun dep name => dep ∈ run.depsOf name := by
    funext dep child
    simp [DepthFirst.Edge, mem_waiting_graph valid]
  rw [spread.mem_seen_iff, edges, Dependent, Relation.TransGen.head'_iff]
  simp [mem_waiting_graph valid]

/-- The search along the deps finishes the upstream, each once and in dependency order. -/
theorem upstream_exact {name : String} {upstream : DepthFirst.Trail String}
    (search : DepthFirst.Explores run.graph.nextDeps ⟨[name], []⟩ (run.depsOf name) upstream) :
    upstream.finished.Nodup ∧ (∀ dep, dep ∈ upstream.finished ↔ Dependent run.depsOf dep name) ∧
      Topological upstream.finished run.depsOf := by
  have loopless : ∀ key, ¬ Relation.TransGen (DepthFirst.Edge run.graph.nextDeps) key key :=
    fun key cycle => acyclic valid key ((transGen_edge_iff valid).mp cycle)
  obtain ⟨once, marked⟩ := search.finished_nodup List.nodup_nil (List.nil_subset _)
  have apart : ∀ root ∈ run.depsOf name, ∀ key ∈ [name],
      ¬ Relation.ReflTransGen (DepthFirst.Edge run.graph.nextDeps) root key := by
    intro root needed key single path
    obtain rfl := List.mem_singleton.mp single
    exact loopless key (Relation.TransGen.head' ((edge_graph valid).mpr needed) path)
  have reached : ∀ dep, (∃ root ∈ run.depsOf name, (run.graph.nextDeps root).isSome = true ∧
      Relation.ReflTransGen (DepthFirst.Edge run.graph.nextDeps) root dep) ↔
        Dependent run.depsOf dep name := by
    intro dep
    rw [← transGen_edge_iff valid, Relation.TransGen.head'_iff]
    refine exists_congr fun root => ?_
    rw [edge_graph valid]
    exact ⟨fun ⟨needed, _, path⟩ => ⟨needed, path⟩,
      fun ⟨needed, path⟩ => ⟨needed, dep_present valid needed, path⟩⟩
  refine ⟨once, ?_, ?_⟩
  · intro dep
    rw [← reached]
    constructor
    · intro finished
      refine ((search.mem_seen_iff_of_apart apart).mp (marked finished)).resolve_left ?_
      exact (search.finished_fresh finished).resolve_left List.not_mem_nil
    · intro path
      refine search.finishes ((search.mem_seen_iff_of_apart apart).mpr (.inr path)) ?_
      intro single
      obtain rfl := List.mem_singleton.mp single
      exact acyclic valid dep ((reached dep).mp path)
  · have ordered := search.topological loopless (fun key single => ?_)
      (DependencyOrder.topological_nil _)
    · rwa [children_graph valid] at ordered
    · right
      intro root needed _
      obtain rfl := List.mem_singleton.mp single
      exact .single ((edge_graph valid).mpr needed)

/-- The links of actions of the run name them. -/
theorem links_names {names : List String} (present : ∀ name ∈ names,
    ∃ action, run.actions.find? name = some action) :
    (names.filterMap run.graph.link).map (·.action) = names := by
  induction names with
  | nil => rfl
  | cons name names ih =>
    obtain ⟨action, found⟩ := present name List.mem_cons_self
    have linked : run.graph.link name = some ⟨action.name, action.state.text, action.node⟩ := by
      rw [ActionGraph.link, OrderedMap.find?_mapValues, found]
      rfl
    rw [List.filterMap_cons_some linked, List.map_cons,
      ih fun other member => present other (List.mem_cons_of_mem _ member)]
    exact congrArg (· :: names) (valid.named name action found)

end

/-- The chain of an autopsy is the upstream of the action: each dependency once, behind its own. -/
structure ChainExact (run : BuildRun) (name : String) (autopsy : Autopsy) : Prop where
  once : (autopsy.dependencyChain.map (·.action)).Nodup
  upstream : ∀ dep, dep ∈ autopsy.dependencyChain.map (·.action) ↔ Dependent run.depsOf dep name
  ordered : Topological (autopsy.dependencyChain.map (·.action)) run.depsOf

/-- The blast radius of an autopsy is the downstream of the action. -/
def RadiusExact (run : BuildRun) (name : String) (autopsy : Autopsy) : Prop :=
  ∀ other, other ∈ autopsy.blastRadius ↔ Dependent run.depsOf name other

/-- Every other skipped action of the run waits for this one. -/
def Confined (run : BuildRun) (name : String) : Prop :=
  ∀ other action, run.actions.find? other = some action → action.state = .skipped → other ≠ name →
    Dependent run.depsOf name other

/-- Every skipped action waits for a failed one. -/
theorem failed_upstream {run : BuildRun} (valid : RunInvariant hashAction run)
    (recounted : ∀ name action, run.actions.find? name = some action → Recounted run action) :
    ∀ name ∈ run.actions.keys, ∀ action, run.actions.find? name = some action →
      action.state = .skipped → ∃ culprit cause, run.actions.find? culprit = some cause ∧
        cause.state = .failed ∧ Dependent run.depsOf culprit name := by
  refine valid.ordered.induction ?_
  intro name _ earlier action found skipped
  obtain ⟨dep, needed, holds⟩ := (recounted name action found).blamed skipped
  obtain ⟨upstream, present, broken⟩ := BuildRun.dependency_iff.mp holds
  have waits : dep ∈ run.depsOf name := by
    rw [BuildRun.depsOf_of_find? found]
    exact needed
  cases state : upstream.state with
  | failed => exact ⟨dep, upstream, present, state, .single waits⟩
  | skipped =>
    obtain ⟨culprit, cause, stored, failed, path⟩ := earlier dep waits upstream present state
    exact ⟨culprit, cause, stored, failed, path.tail waits⟩
  | pending | scheduled | running | retry | done | cancelled =>
    rw [state] at broken
    cases broken

/-- All that was skipped waits for the only failed action, and for whatever that one waits for. -/
theorem confined_of_sole_failure {run : BuildRun} (valid : RunInvariant hashAction run)
    (recounted : ∀ name action, run.actions.find? name = some action → Recounted run action)
    {failed name : String}
    (sole : ∀ other action, run.actions.find? other = some action → action.state = .failed →
      other = failed)
    (upstream : name = failed ∨ Dependent run.depsOf name failed) : Confined run name := by
  intro other action found skipped _
  obtain ⟨culprit, cause, stored, state, path⟩ := failed_upstream valid recounted other
    (OrderedMap.mem_keys_iff.mpr ⟨action, found⟩) action found skipped
  obtain rfl := sole culprit cause stored state
  rcases upstream with rfl | before
  · exact path
  · exact before.trans path

/-- The autopsy over the engine's actions against the graph of the run. -/
theorem live_exact {run : BuildRun} (valid : RunInvariant hashAction run) (chronicle : Chronicle run)
    (recounted : ∀ name action, run.actions.find? name = some action → Recounted run action)
    {name : String} {action : ActionNode} (present : run.actions.find? name = some action) :
    ∃ autopsy, failureAutopsy run.buildId name run.events (some run.actions.values) = some autopsy ∧
      ChainExact run name autopsy ∧ (RadiusExact run name autopsy ↔ Confined run name) := by
  obtain ⟨autopsy, upstream, downstream, returned, search, chain, spread, blast⟩ :=
    failureAutopsy_spec run.buildId name run.events (some run.actions.values) run.graph
      (autopsyGraph_live run.events valid.named present)
  rw [getD_nextDeps] at search
  obtain ⟨once, reached, ordered⟩ := upstream_exact valid search
  have names : autopsy.dependencyChain.map (·.action) = upstream.finished := by
    rw [chain]
    refine links_names valid fun dep listed => ?_
    obtain ⟨child, needed⟩ : ∃ child, dep ∈ run.depsOf child := by
      obtain ⟨child, needed, _⟩ := Relation.TransGen.head'_iff.mp ((reached dep).mp listed)
      exact ⟨child, needed⟩
    have some := dep_present valid needed
    rw [nextDeps_graph, Option.isSome_map] at some
    exact Option.isSome_iff_exists.mp some
  refine ⟨autopsy, returned, ⟨names ▸ once, names ▸ reached, names ▸ ordered⟩, ?_⟩
  have radius : ∀ other, other ∈ autopsy.blastRadius ↔ other ≠ name ∧
      (Dependent run.depsOf name other ∨
        ∃ action, run.actions.find? other = some action ∧ action.state = .skipped) := by
    intro other
    rw [blast, downstream_exact valid spread, mem_skippedActions chronicle valid.named recounted]
    refine and_congr_right fun _ => ⟨?_, ?_⟩
    · rintro (waits | recorded | skipped)
      · exact .inl waits
      · exact .inl (.single (mem_evDownstream valid.named recounted present recorded))
      · exact .inr skipped
    · rintro (waits | skipped)
      · exact .inl waits
      · exact .inr (.inr skipped)
  constructor
  · intro exact other waiter stored skipped differ
    exact (exact other).mp ((radius other).mpr ⟨differ, .inr ⟨waiter, stored, skipped⟩⟩)
  · intro confined other
    rw [radius]
    constructor
    · rintro ⟨differ, waits | ⟨waiter, stored, skipped⟩⟩
      · exact waits
      · exact confined other waiter stored skipped differ
    · intro waits
      refine ⟨?_, .inl waits⟩
      rintro rfl
      exact acyclic valid other waits

/-- An autopsy over the journal is as exact as the one over the engine's actions. -/
theorem rebuilt_exact (hashAction : HashedAction → String) (labels : List Label)
    {index : Nat} {run : BuildRun}
    (found : (Engine.after hashAction labels).created[index]? = some run)
    (finished : run.state ≠ .running) (recoverable : Recoverable run) :
    ∀ name ∈ run.actions.keys, ∃ autopsy,
      failureAutopsy run.buildId name run.events none = some autopsy ∧
        ChainExact run name autopsy ∧ (RadiusExact run name autopsy ↔ Confined run name) := by
  intro name member
  obtain ⟨action, present⟩ := OrderedMap.mem_keys_iff.mp member
  obtain ⟨valid, closed, chronicle⟩ := chronicle_after labels found
  obtain ⟨live, returned, chain, radius⟩ :=
    live_exact valid chronicle (recounted_after labels found) present
  have alike := chronicle.alike valid.named (closed (.inl finished)) recoverable
  rw [← autopsyGraph_live run.events valid.named present] at alike
  obtain ⟨first, journal, again, rebuilt, chains, same⟩ :=
    @failureAutopsy_alike run.buildId name run.events (some run.actions.values) none alike
  obtain rfl := Option.some.inj (returned.symm.trans again)
  have names : live.dependencyChain.map (·.action) = journal.dependencyChain.map (·.action) := by
    have firsts := congrArg (List.map Prod.fst) chains
    rw [List.map_map, List.map_map] at firsts
    exact firsts
  refine ⟨journal, rebuilt, ⟨names ▸ chain.once, names ▸ chain.upstream, names ▸ chain.ordered⟩, ?_⟩
  rw [← radius]
  exact forall_congr' fun other => iff_congr (same other).symm Iff.rfl

end SysDeck.Fester
