import SysDeck.Fester.Build
import SysDeck.Fester.Targets
import SysDeck.Library.DepthFirst

/-! The failure autopsy: the upstream chain and the blast radius of one action,
over the engine's own actions or over a graph rebuilt from the journal. Both
walks are depth-first searches, so they always complete and depend on the graph
only through the deps and the state of each action. -/

namespace SysDeck.Fester

structure ActionInfo where
  name : String
  deps : List String
  state : String
  node : Option String
  deriving DecidableEq, Repr

abbrev ActionGraph := OrderedMap String ActionInfo

/-- What `.` does not match in a pattern. -/
def lineTerminator (letter : Char) : Bool :=
  letter = '\n' || letter = '\r' || letter = '\u2028' || letter = '\u2029'

/-- The two groups of `/^([^:]+):([^:]+):(.+)$/` that canonicalDeps reads. -/
def matchStepName (name : String) : Option (String × String) :=
  let project := name.toList.takeWhile (· ≠ ':')
  match name.toList.dropWhile (· ≠ ':') with
  | [] => none
  | _ :: rest =>
    let target := rest.takeWhile (· ≠ ':')
    match rest.dropWhile (· ≠ ':') with
    | [] => none
    | _ :: step =>
      if project ≠ [] ∧ target ≠ [] ∧ step ≠ [] ∧ step.all (!lineTerminator ·) then
        some (String.ofList project, String.ofList target)
      else none

def canonicalDeps (actionName : String) : Option (List String) := do
  let (project, target) ← matchStepName actionName
  let step ← (stepsFor project target).find? (·.name = actionName)
  some step.deps

/-- The pattern of canonicalDeps can read a project and a target back. -/
def Spelled (project target : String) : Prop :=
  (project ≠ "" ∧ ':' ∉ project.toList) ∧ target ≠ "" ∧ ':' ∉ target.toList

instance (project target : String) : Decidable (Spelled project target) :=
  inferInstanceAs (Decidable (_ ∧ _))

theorem toList_stepName (project target step : String) :
    (stepName project target step).toList =
      project.toList ++ ':' :: (target.toList ++ ':' :: step.toList) := by
  simp [stepName]

theorem stepName_ne_empty (project target step : String) : stepName project target step ≠ "" := by
  intro none
  have letters := congrArg String.toList none
  rw [toList_stepName] at letters
  simp at letters

theorem stage_readable {stage : String} (member : stage ∈ stages) :
    stage.toList ≠ [] ∧ stage.toList.all (!lineTerminator ·) = true := by
  revert stage
  decide

theorem matchStepName_spelled {project target stage : String} (spelled : Spelled project target)
    (member : stage ∈ stages) :
    matchStepName (stepName project target stage) = some (project, target) := by
  obtain ⟨⟨named, free⟩, aimed, free'⟩ := spelled
  obtain ⟨nonempty, readable⟩ := stage_readable member
  have named' : project.toList ≠ [] := fun none => named (String.toList_eq_nil_iff.mp none)
  have aimed' : target.toList ≠ [] := fun none => aimed (String.toList_eq_nil_iff.mp none)
  obtain ⟨taken, dropped⟩ := Separator.takeWhile_join free (target.toList ++ ':' :: stage.toList)
  obtain ⟨taken', dropped'⟩ := Separator.takeWhile_join free' stage.toList
  unfold matchStepName
  rw [toList_stepName, taken, dropped]
  dsimp only
  rw [taken', dropped']
  dsimp only
  rw [if_pos ⟨named', aimed', nonempty, readable⟩, String.ofList_toList, String.ofList_toList]

theorem spelled_of_match {name project target : String}
    (matched : matchStepName name = some (project, target)) :
    Spelled project target ∧ ∃ step, name = stepName project target step := by
  unfold matchStepName at matched
  dsimp only at matched
  split at matched
  · cases matched
  · rename_i found rest tail
    split at matched
    · cases matched
    · rename_i found' step tail'
      split at matched
      · rename_i nonempty
        obtain ⟨split, free⟩ := Separator.split_first tail
        obtain ⟨split', free'⟩ := Separator.split_first tail'
        obtain ⟨rfl, rfl⟩ := Prod.mk.inj (Option.some.inj matched)
        refine ⟨⟨⟨?_, by simpa using free⟩, ?_, by simpa using free'⟩, String.ofList step, ?_⟩
        · simpa using nonempty.1
        · simpa using nonempty.2.1
        · apply String.toList_inj.mp
          rw [toList_stepName, String.toList_ofList, String.toList_ofList, String.toList_ofList,
            ← split', ← split]
      · cases matched

/-- canonicalDeps finds the deps of every generated step it can read. -/
theorem canonicalDeps_spelled {project target : String} (spelled : Spelled project target)
    {step : BuildStep} (member : step ∈ stepsFor project target) :
    canonicalDeps step.name = some step.deps := by
  obtain ⟨stage, listed, named⟩ := mem_stepsFor member
  have matched : matchStepName step.name = some (project, target) := by
    rw [named]
    exact matchStepName_spelled spelled listed
  cases found : (stepsFor project target).find? (·.name = step.name) with
  | none =>
    have missing := List.find?_eq_none.mp found step member
    simp at missing
  | some other =>
    have same : other.name = step.name := by simpa using List.find?_some found
    obtain rfl := stepsFor_unique (List.mem_of_find?_eq_some found) member same
    simp only [canonicalDeps, matched, Option.bind_eq_bind, Option.bind_some, found]

/-- canonicalDeps finds nothing for a generated step it cannot read. -/
theorem canonicalDeps_unspelled {project target stage : String} (member : stage ∈ stages)
    (unspelled : ¬ Spelled project target) :
    canonicalDeps (stepName project target stage) = none := by
  cases found : canonicalDeps (stepName project target stage) with
  | none => rfl
  | some deps =>
    simp only [canonicalDeps, Option.bind_eq_bind, Option.bind_eq_some_iff] at found
    obtain ⟨⟨project', target'⟩, matched, step, listed, _⟩ := found
    obtain ⟨spelled, _⟩ := spelled_of_match matched
    obtain ⟨stage', member', named⟩ := mem_stepsFor (List.mem_of_find?_eq_some listed)
    have hit : step.name = stepName project target stage := by
      simpa using List.find?_some listed
    have same : stepName project target stage = stepName project' target' stage' :=
      hit.symm.trans named
    obtain ⟨stems, _⟩ := Separator.join_last_inj ':' rfl (stage_colonFree member)
      (stage_colonFree member') same
    have lists : project.toList ++ ':' :: target.toList =
        project'.toList ++ ':' :: target'.toList := by
      simpa using congrArg String.toList stems
    obtain ⟨projects, targets⟩ := Separator.single_inj spelled.1.2 spelled.2.2 lists
    rw [String.toList_inj] at projects targets
    exact absurd (projects ▸ targets ▸ spelled) unspelled

/-- The entry of an action after one of its task_update events. -/
def ActionInfo.taskUpdate (cur : ActionInfo) (event : FesterEvent) : ActionInfo :=
  let cur :=
    if event.state = some "scheduled" then
      match event.metaNames "deps" with
      | some deps => { cur with deps, node := event.node.or cur.node }
      | none => cur
    else cur
  { cur with
    state := (truthy event.state).getD cur.state, node := (truthy event.node).or cur.node }

/-- The entry of an action after its failure event. -/
def ActionInfo.failure (cur : ActionInfo) (event : FesterEvent) : ActionInfo :=
  { cur with state := "failed", node := (truthy event.node).or cur.node }

/-- One iteration of the event loop of reconstructActions. -/
def recordEvent (graph : ActionGraph) (event : FesterEvent) : ActionGraph :=
  match truthy event.action with
  | none => graph
  | some name =>
    let cur := graph.getD name { name, deps := [], state := "", node := event.node }
    match event.type with
    | .taskUpdate => graph.set name (cur.taskUpdate event)
    | .failure => graph.set name (cur.failure event)
    | _ => graph

/-- Deps of a never-scheduled action come from the canonical step list. -/
def fillDeps (info : ActionInfo) : ActionInfo :=
  if 0 < info.deps.length then info
  else
    match canonicalDeps info.name with
    | some deps => { info with deps }
    | none => info

def reconstructActions (events : List FesterEvent) : ActionGraph :=
  (events.foldl recordEvent OrderedMap.empty).mapValues fillDeps

def ActionNode.info (action : ActionNode) : ActionInfo :=
  ⟨action.name, action.deps, action.state.text, action.node⟩

/-- `new Map(build.actions.map((a) => [a.name, …]))`. -/
def liveActions (actions : List ActionNode) : ActionGraph :=
  OrderedMap.ofList (actions.map fun action => (action.name, action.info))

inductive AutopsySource where
  | engine | events
  deriving DecidableEq, Repr

structure ChainLink where
  action : String
  state : String
  node : Option String
  deriving DecidableEq, Repr

structure Autopsy where
  action : String
  buildId : String
  failed : Bool
  source : AutopsySource
  lastSchedulerDecision : Option ScheduleDecision
  dependencyChain : List ChainLink
  blastRadius : List String
  lastEvents : List FesterEvent
  deriving DecidableEq

/-- The variables walk() writes. -/
structure Walk where
  seen : List String
  chain : List ChainLink

/-- walk(): mark the action, walk its deps, append it. The fuel bounds the
recursion depth. -/
def walk (graph : ActionGraph) : Nat → Walk → String → Option Walk
  | 0, _, _ => none
  | fuel + 1, walked, name =>
    match graph.find? name with
    | none => some walked
    | some info =>
      if name ∈ walked.seen then some walked
      else
        (info.deps.foldlM (walk graph fuel)
          { walked with seen := walked.seen ++ [name] }).map fun below =>
            { below with chain := below.chain ++ [⟨info.name, info.state, info.node⟩] }

/-- addDownstream(): add every action that waits for the name, each with its own
downstream. The fuel bounds the recursion depth. -/
def addDownstream (graph : ActionGraph) : Nat → List String → String → Option (List String)
  | 0, _, _ => none
  | fuel + 1, blast, name =>
    graph.values.foldlM (fun blast info =>
      if info.name ∈ blast then some blast
      else if name ∈ info.deps then addDownstream graph fuel (blast ++ [info.name]) info.name
      else some blast) blast

/-- `Set.prototype.add`. -/
def addName (names : List String) (name : String) : List String :=
  if name ∈ names then names else names ++ [name]

def relevantEvents (buildId action : String) (events : List FesterEvent) : List FesterEvent :=
  events.filter fun event => event.action = some action || event.buildId = some buildId

/-- The task_update and failure events of the action. -/
def taskEvents (buildId action : String) (events : List FesterEvent) : List FesterEvent :=
  (relevantEvents buildId action events).filter fun event =>
    (event.type = .taskUpdate || event.type = .failure) && event.action = some action

/-- The downstream the engine recorded on the failure event. -/
def evDownstream (buildId action : String) (events : List FesterEvent) : List String :=
  (((taskEvents buildId action events).find? (·.state = some "failed")).bind
    (·.metaNames "downstream")).getD []

/-- The actions skipped because of a failure. -/
def skippedActions (events : List FesterEvent) : List String :=
  events.filterMap fun event =>
    if event.type = .taskUpdate && event.state = some "skipped" &&
        event.reason = some "upstream failed" then truthy event.action
    else none

/-- The graph of the engine when it has the build's actions, else the rebuilt one. -/
def autopsyGraph (events : List FesterEvent) : Option (List ActionNode) → AutopsySource × ActionGraph
  | some (first :: rest) => (.engine, liveActions (first :: rest))
  | _ => (.events, reconstructActions events)

def failureAutopsy (buildId action : String) (events : List FesterEvent)
    (build : Option (List ActionNode)) : Option Autopsy := do
  let taskEvents := taskEvents buildId action events
  let graph := (autopsyGraph events build).2
  let fuel := graph.size + 2
  let walked ← (((graph.find? action).map (·.deps)).getD []).foldlM (walk graph fuel) ⟨[action], []⟩
  let downstream ← addDownstream graph fuel [] action
  let blast := (evDownstream buildId action events ++ skippedActions events).foldl addName downstream
  let relevant := relevantEvents buildId action events
  some {
    action, buildId
    source := (autopsyGraph events build).1
    failed := taskEvents.any (·.state = some "failed")
    lastSchedulerDecision := (taskEvents.find? (·.state = some "scheduled")).map fun scheduled =>
      ⟨scheduled.node.getD "unknown", scheduled.score.getD 0, scheduled.reason.getD ""⟩
    dependencyChain := walked.chain
    blastRadius := blast.filter (· ≠ action)
    lastEvents := relevant.drop (relevant.length - 12) }

namespace ActionGraph

/-- The deps of an action of the graph. -/
def nextDeps (graph : ActionGraph) (name : String) : Option (List String) :=
  (graph.find? name).map (·.deps)

/-- The actions that wait for the name, in graph order. -/
def waiting (graph : ActionGraph) (name : String) : List String :=
  (graph.values.filter (name ∈ ·.deps)).map (·.name)

def link (graph : ActionGraph) (name : String) : Option ChainLink :=
  (graph.find? name).map fun info => ⟨info.name, info.state, info.node⟩

/-- What walk() has written at a stage of the search. -/
def walked (graph : ActionGraph) (trail : DepthFirst.Trail String) : Walk :=
  ⟨trail.seen, trail.finished.filterMap graph.link⟩

end ActionGraph

/-- walk() is a depth-first search along the deps. -/
theorem walk_eq (graph : ActionGraph) (fuel : Nat) (trail : DepthFirst.Trail String)
    (name : String) :
    walk graph fuel (graph.walked trail) name =
      (DepthFirst.visit graph.nextDeps fuel trail name).map graph.walked := by
  induction fuel generalizing trail name with
  | zero => rfl
  | succ fuel deeper =>
    rw [walk, DepthFirst.visit, ActionGraph.nextDeps]
    cases found : graph.find? name with
    | none => rfl
    | some info =>
      dsimp only [Option.map_some]
      have seen : (graph.walked trail).seen = trail.seen := rfl
      rw [seen]
      by_cases marked : name ∈ trail.seen
      · rw [if_pos marked, if_pos marked]
        rfl
      · have inside := DepthFirst.foldlM_simulates deeper info.deps (trail.mark name)
        have entered : graph.walked (trail.mark name) =
            { seen := trail.seen ++ [name], chain := (graph.walked trail).chain } := rfl
        rw [entered] at inside
        rw [if_neg marked, if_neg marked, inside, Option.map_map, Option.map_map]
        congr 1
        funext below
        simp [ActionGraph.walked, ActionGraph.link, DepthFirst.Trail.finish, found]

private theorem addDownstream_fold {graph : ActionGraph} {fuel : Nat} {name : String}
    (deeper : ∀ blast finished child below,
      DepthFirst.visit (some ∘ graph.waiting) fuel ⟨blast, finished⟩ child = some below →
      child ∉ blast → addDownstream graph fuel (blast ++ [child]) child = some below.seen)
    (infos : List ActionInfo) {blast finished : List String} {trail : DepthFirst.Trail String}
    (done : DepthFirst.explore (some ∘ graph.waiting) fuel ⟨blast, finished⟩
      ((infos.filter (name ∈ ·.deps)).map (·.name)) = some trail) :
    infos.foldlM (fun blast info =>
      if info.name ∈ blast then some blast
      else if name ∈ info.deps then addDownstream graph fuel (blast ++ [info.name]) info.name
      else some blast) blast = some trail.seen := by
  induction infos generalizing blast finished with
  | nil =>
    obtain rfl := Option.some.inj done
    rfl
  | cons info rest ih =>
    rw [List.foldlM_cons]
    by_cases needs : name ∈ info.deps
    · rw [List.filter_cons_of_pos (by simpa using needs), List.map_cons, DepthFirst.explore_cons,
        Option.bind_eq_some_iff] at done
      obtain ⟨below, first, done⟩ := done
      by_cases marked : info.name ∈ blast
      · obtain rfl := DepthFirst.visit_passed (.inr marked) first
        rw [if_pos marked]
        exact ih done
      · rw [if_neg marked, if_pos needs, deeper _ _ _ _ first marked]
        exact ih done
    · rw [List.filter_cons_of_neg (by simpa using needs)] at done
      rw [if_neg needs, ite_self]
      exact ih done

/-- addDownstream() is a depth-first search along the reverse edges. -/
theorem addDownstream_eq {graph : ActionGraph} {fuel : Nat} {blast finished : List String}
    {name : String} {trail : DepthFirst.Trail String}
    (done : DepthFirst.explore (some ∘ graph.waiting) fuel ⟨blast, finished⟩
      (graph.waiting name) = some trail) :
    addDownstream graph (fuel + 1) blast name = some trail.seen := by
  induction fuel using Nat.strong_induction_on generalizing blast finished name trail with
  | _ fuel ih =>
    rw [addDownstream]
    refine addDownstream_fold ?_ graph.values done
    intro blast finished child below first fresh
    obtain ⟨deeper, inner, rfl, inside, rfl⟩ := DepthFirst.visit_entered rfl fresh first
    have marked : DepthFirst.explore (some ∘ graph.waiting) deeper ⟨blast ++ [child], finished⟩
        (graph.waiting child) = some inner := inside
    have grown : addDownstream graph (deeper + 1) (blast ++ [child]) child = some inner.seen :=
      ih deeper (Nat.lt_succ_self deeper) marked
    exact grown

theorem mem_foldl_addName (added names : List String) (name : String) :
    name ∈ added.foldl addName names ↔ name ∈ names ∨ name ∈ added := by
  induction added generalizing names with
  | nil => simp
  | cons first rest ih =>
    rw [List.foldl_cons, ih, addName]
    split
    · rename_i present
      rw [List.mem_cons]
      constructor
      · rintro (old | later)
        · exact .inl old
        · exact .inr (.inr later)
      · rintro (old | rfl | later)
        · exact .inl old
        · exact .inl present
        · exact .inr later
    · rw [List.mem_append, List.mem_singleton, List.mem_cons, or_assoc]

/-- The autopsy completes on every graph. Its chain lists what the search along
the deps finished; its blast radius is the downstream search, the recorded
downstream and the skipped actions. -/
theorem failureAutopsy_spec (buildId action : String) (events : List FesterEvent)
    (build : Option (List ActionNode)) (graph : ActionGraph)
    (chosen : (autopsyGraph events build).2 = graph) :
    ∃ autopsy upstream downstream, failureAutopsy buildId action events build = some autopsy ∧
      DepthFirst.Explores graph.nextDeps ⟨[action], []⟩ ((graph.nextDeps action).getD []) upstream ∧
      autopsy.dependencyChain = upstream.finished.filterMap graph.link ∧
      DepthFirst.Explores (some ∘ graph.waiting) ⟨[], []⟩ (graph.waiting action) downstream ∧
      ∀ name, name ∈ autopsy.blastRadius ↔ name ≠ action ∧ (name ∈ downstream.seen ∨
        name ∈ evDownstream buildId action events ∨ name ∈ skippedActions events) := by
  have listed : ∀ name, (graph.nextDeps name).isSome = true → name ∈ graph.keys.toFinset := by
    intro name present
    rw [ActionGraph.nextDeps, Option.isSome_map] at present
    exact List.mem_toFinset.mpr (OrderedMap.find?_isSome_iff.mp present)
  have small : graph.keys.toFinset.card ≤ graph.size := by
    simpa [OrderedMap.keys, OrderedMap.size] using graph.keys.toFinset_card_le
  obtain ⟨upstream, first⟩ : ∃ upstream, DepthFirst.explore graph.nextDeps (graph.size + 2)
      ⟨[action], []⟩ ((graph.nextDeps action).getD []) = some upstream :=
    DepthFirst.explore_total (fun _ _ _ child _ present => listed child present)
      (fun child _ present => listed child present)
      (Nat.lt_of_le_of_lt ((Finset.card_filter_le _ _).trans small) (by omega))
  have named : ∀ name child, child ∈ graph.waiting name →
      child ∈ (graph.values.map (·.name)).toFinset := by
    intro name child member
    obtain ⟨info, found, same⟩ := List.mem_map.mp member
    exact List.mem_toFinset.mpr (List.mem_map.mpr ⟨info, List.mem_of_mem_filter found, same⟩)
  have small' : (graph.values.map (·.name)).toFinset.card ≤ graph.size := by
    simpa [OrderedMap.values, OrderedMap.size] using (graph.values.map (·.name)).toFinset_card_le
  have inside : ∀ key successors, (some ∘ graph.waiting) key = some successors →
      ∀ child ∈ successors, ((some ∘ graph.waiting) child).isSome = true →
        child ∈ (graph.values.map (·.name)).toFinset := by
    intro key successors here child member _
    obtain rfl := Option.some.inj here
    exact named key child member
  obtain ⟨downstream, second⟩ : ∃ downstream, DepthFirst.explore (some ∘ graph.waiting)
      (graph.size + 1) ⟨[], []⟩ (graph.waiting action) = some downstream :=
    DepthFirst.explore_total inside (fun child member _ => named action child member)
      (Nat.lt_of_le_of_lt ((Finset.card_filter_le _ _).trans small') (by omega))
  have walked : ((graph.nextDeps action).getD []).foldlM (walk graph (graph.size + 2))
      ⟨[action], []⟩ = some (graph.walked upstream) := by
    have simulated := DepthFirst.foldlM_simulates (walk_eq graph (graph.size + 2))
      ((graph.nextDeps action).getD []) ⟨[action], []⟩
    rw [DepthFirst.explore] at first
    rw [first] at simulated
    exact simulated
  have added := addDownstream_eq second
  rw [ActionGraph.nextDeps] at walked
  obtain ⟨autopsy, run, chain, blast⟩ : ∃ autopsy,
      failureAutopsy buildId action events build = some autopsy ∧
        autopsy.dependencyChain = (graph.walked upstream).chain ∧
        autopsy.blastRadius = ((evDownstream buildId action events ++
          skippedActions events).foldl addName downstream.seen).filter (· ≠ action) := by
    simp only [failureAutopsy, chosen, walked, added, Option.bind_eq_bind, Option.bind_some]
    exact ⟨_, rfl, rfl, rfl⟩
  refine ⟨autopsy, upstream, downstream, run, DepthFirst.explores_of_explore first, chain,
    DepthFirst.explores_of_explore second, ?_⟩
  intro name
  rw [blast, List.mem_filter, mem_foldl_addName, List.mem_append, decide_eq_true_iff]
  exact And.comm

/-- What an autopsy reads of an action. -/
def ActionInfo.facts (info : ActionInfo) : String × List String × String :=
  (info.name, info.deps, info.state)

/-- Two graphs an autopsy cannot tell apart. -/
def ActionGraph.Alike (first second : ActionGraph) : Prop :=
  ∀ name, (first.find? name).map ActionInfo.facts = (second.find? name).map ActionInfo.facts

def ChainLink.finding (link : ChainLink) : String × String := (link.action, link.state)

/-- The same chain, with the same states in the same order, and the same blast radius. -/
def Autopsy.Agrees (first second : Autopsy) : Prop :=
  first.dependencyChain.map ChainLink.finding = second.dependencyChain.map ChainLink.finding ∧
    ∀ name, name ∈ first.blastRadius ↔ name ∈ second.blastRadius

namespace ActionGraph

theorem nextDeps_eq (graph : ActionGraph) (name : String) :
    graph.nextDeps name = ((graph.find? name).map ActionInfo.facts).map (·.2.1) := by
  rw [nextDeps, Option.map_map]
  rfl

theorem finding_link (graph : ActionGraph) (name : String) :
    (graph.link name).map ChainLink.finding =
      ((graph.find? name).map ActionInfo.facts).map fun facts => (facts.1, facts.2.2) := by
  rw [link, Option.map_map, Option.map_map]
  rfl

theorem mem_waiting_iff {graph : ActionGraph} {name child : String} :
    child ∈ graph.waiting name ↔
      ∃ key facts, (graph.find? key).map ActionInfo.facts = some facts ∧ name ∈ facts.2.1 ∧
        facts.1 = child := by
  constructor
  · intro member
    obtain ⟨info, kept, rfl⟩ := List.mem_map.mp member
    obtain ⟨stored, needs⟩ := List.mem_filter.mp kept
    obtain ⟨key, found⟩ := OrderedMap.mem_values_iff.mp stored
    exact ⟨key, info.facts, by rw [found]; rfl, of_decide_eq_true needs, rfl⟩
  · rintro ⟨key, facts, present, needs, rfl⟩
    obtain ⟨info, found, rfl⟩ := Option.map_eq_some_iff.mp present
    exact List.mem_map.mpr ⟨info, List.mem_filter.mpr ⟨OrderedMap.mem_values found,
      decide_eq_true needs⟩, rfl⟩

end ActionGraph

/-- Autopsies over two graphs they cannot tell apart agree. -/
theorem failureAutopsy_alike (buildId action : String) (events : List FesterEvent)
    {build other : Option (List ActionNode)}
    (alike : (autopsyGraph events build).2.Alike (autopsyGraph events other).2) :
    ∃ first second, failureAutopsy buildId action events build = some first ∧
      failureAutopsy buildId action events other = some second ∧ first.Agrees second := by
  generalize chosen : (autopsyGraph events build).2 = graph at alike
  generalize chosen' : (autopsyGraph events other).2 = graph' at alike
  obtain ⟨first, upstream, downstream, run, search, chain, spread, blast⟩ :=
    failureAutopsy_spec buildId action events build graph chosen
  obtain ⟨second, upstream', downstream', run', search', chain', spread', blast'⟩ :=
    failureAutopsy_spec buildId action events other graph' chosen'
  have deps : graph'.nextDeps = graph.nextDeps := by
    funext name
    rw [ActionGraph.nextDeps_eq, ActionGraph.nextDeps_eq, alike name]
  refine ⟨first, second, run, run', ?_, ?_⟩
  · rw [deps] at search'
    rw [chain, chain', search.unique search', List.map_filterMap, List.map_filterMap]
    congr 1
    funext name
    rw [ActionGraph.finding_link, ActionGraph.finding_link, alike name]
  · have waits : ∀ name child, child ∈ graph.waiting name ↔ child ∈ graph'.waiting name := by
      intro name child
      rw [ActionGraph.mem_waiting_iff, ActionGraph.mem_waiting_iff]
      refine exists_congr fun key => ?_
      rw [alike key]
    have edges : DepthFirst.Edge (some ∘ graph.waiting) = DepthFirst.Edge (some ∘ graph'.waiting) := by
      funext name child
      simp [DepthFirst.Edge, waits]
    intro name
    rw [blast, blast', spread.mem_seen_iff, spread'.mem_seen_iff, edges]
    simp only [waits, Function.comp_apply, Option.isSome_some]

/-- The chain of an action that waits for another one names it. -/
theorem chain_mem {buildId action : String} {events : List FesterEvent}
    {build : Option (List ActionNode)} {autopsy : Autopsy}
    (run : failureAutopsy buildId action events build = some autopsy) {deps : List String}
    (waits : (autopsyGraph events build).2.nextDeps action = some deps) {dep : String}
    (needed : dep ∈ deps) (differ : dep ≠ action) {link : ChainLink}
    (present : (autopsyGraph events build).2.link dep = some link) :
    link ∈ autopsy.dependencyChain := by
  obtain ⟨other, upstream, _, run', search, chain, _, _⟩ :=
    failureAutopsy_spec buildId action events build _ rfl
  obtain rfl := Option.some.inj (run.symm.trans run')
  rw [waits, Option.getD_some] at search
  have node : ((autopsyGraph events build).2.nextDeps dep).isSome = true := by
    obtain ⟨info, found, _⟩ := Option.map_eq_some_iff.mp present
    rw [ActionGraph.nextDeps, found]
    rfl
  have finished : dep ∈ upstream.finished :=
    search.finishes (search.listed needed node) (by simpa using differ)
  rw [chain]
  exact List.mem_filterMap.mpr ⟨dep, finished, present⟩

/-- The chain of an action without deps is empty. -/
theorem chain_nil {buildId action : String} {events : List FesterEvent}
    {build : Option (List ActionNode)} {autopsy : Autopsy}
    (run : failureAutopsy buildId action events build = some autopsy)
    (free : ((autopsyGraph events build).2.nextDeps action).getD [] = []) :
    autopsy.dependencyChain = [] := by
  obtain ⟨other, upstream, _, run', search, chain, _, _⟩ :=
    failureAutopsy_spec buildId action events build _ rfl
  obtain rfl := Option.some.inj (run.symm.trans run')
  rw [free] at search
  rw [chain, search.unique (.nil _)]
  rfl

end SysDeck.Fester
