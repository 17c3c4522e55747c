import SysDeck.Fester.Events
import SysDeck.Library.OrderedMap

/-! The cause graph of a list of events. Only a task_update adds the node of a task, and the edges of
cache hits, failures and stamps lead to that node whether it was added or not. -/

namespace SysDeck.Fester

inductive CauseKind where
  | decision | task | failure | cache | policy | stamp
  deriving DecidableEq, Repr

structure CauseNode where
  id : String
  kind : CauseKind
  label : String
  detail : Option String
  deriving DecidableEq, Repr

/-- An edge of the graph, by the ids of its ends. -/
structure CauseEdge where
  fromId : String
  toId : String
  label : Option String
  deriving DecidableEq, Repr

structure CauseGraph where
  nodes : List CauseNode
  edges : List CauseEdge

/-- The last two parts of a name. -/
def short (name : String) : String :=
  let parts := name.toList.splitOn ':'
  String.ofList ([':'].intercalate (parts.drop (parts.length - 2)))

/-- A score, which is kept in tenths, as text. -/
def scoreText (score : Int) : String :=
  let tenths := score.natAbs
  (if score < 0 then "-" else "") ++ toString (tenths / 10) ++
    (if tenths % 10 = 0 then "" else "." ++ toString (tenths % 10))

/-- `String(event.meta?.[key] ?? fallback)` -/
def FesterEvent.metaText (event : FesterEvent) (key fallback : String) : String :=
  match event.metadata.lookup key with
  | none => fallback
  | some (.number value) => toString value
  | some (.text value) => value
  | some (.names values) => ",".intercalate values

def taskId (action : String) : String := "task:" ++ action

def decisionId (action : String) : String := "decision:" ++ action

def nodeId (node : String) : String := "node:" ++ node

def cacheId (action : String) : String := "cache:" ++ action

def failureId (action : String) : String := "failure:" ++ action

def stampId (action : String) : String := "stamp:" ++ action

/-- The nodes and the edges so far. -/
structure Causes where
  nodes : OrderedMap String CauseNode
  edges : List CauseEdge

namespace Causes

def addNode (causes : Causes) (node : CauseNode) : Causes :=
  if causes.nodes.contains node.id then causes
  else { causes with nodes := causes.nodes.set node.id node }

def addEdge (causes : Causes) (edge : CauseEdge) : Causes :=
  { causes with edges := causes.edges ++ [edge] }

def addTask (causes : Causes) (event : FesterEvent) (action : String) : Causes :=
  causes.addNode ⟨taskId action, .task, short action,
    some (event.state.getD "undefined" ++ ((truthy event.node).map (" @ " ++ ·)).getD "")⟩

/-- The decision that led to the task, and the state of the node that led to the decision. -/
def addDecision (causes : Causes) (event : FesterEvent) (action : String) : Causes :=
  match truthy event.node with
  | none => causes
  | some node =>
    if event.state = some "scheduled" then
      let label := "score " ++ (event.score.map scoreText).getD "?" ++ " → " ++ node
      (((causes.addNode ⟨decisionId action, .decision, label, event.reason⟩).addEdge
        ⟨decisionId action, taskId action, some "scheduled"⟩).addNode
          ⟨nodeId node, .policy, node, some "node state"⟩).addEdge
            ⟨nodeId node, decisionId action, some "load/temp"⟩
    else causes

/-- The dependency, where the parent is known. -/
def addParent (causes : Causes) (events : List FesterEvent) (event : FesterEvent) (action : String) :
    Causes :=
  match truthy event.parent with
  | none => causes
  | some parent =>
    if causes.nodes.contains (taskId parent) || events.any (·.action = some parent) then
      (causes.addNode ⟨taskId parent, .task, short parent, some "upstream"⟩).addEdge
        ⟨taskId parent, taskId action, some "depends"⟩
    else causes

/-- One iteration of the loop of buildCauseGraph. -/
def record (events : List FesterEvent) (causes : Causes) (event : FesterEvent) : Causes :=
  match truthy event.action with
  | none => causes
  | some action =>
    match event.type with
    | .taskUpdate => ((causes.addTask event action).addDecision event action).addParent events event action
    | .cacheUpdate =>
      (causes.addNode ⟨cacheId action, .cache, "CAS hit " ++ short action,
        some (event.metaText "key" "")⟩).addEdge ⟨cacheId action, taskId action, some "skipped exec"⟩
    | .failure =>
      (causes.addNode ⟨failureId action, .failure, "✗ " ++ short action, event.reason⟩).addEdge
        ⟨taskId action, failureId action, some "rc≠0"⟩
    | .btcStamp =>
      (causes.addNode ⟨stampId action, .stamp, "stamp " ++ short action,
        some (event.metaText "toolchain" "BTC")⟩).addEdge ⟨taskId action, stampId action, some "verified"⟩
    | _ => causes

end Causes

def buildCauseGraph (events : List FesterEvent) : CauseGraph :=
  let causes := events.foldl (Causes.record events) ⟨OrderedMap.empty, []⟩
  ⟨causes.nodes.values, causes.edges⟩

def CauseGraph.ids (graph : CauseGraph) : List String := graph.nodes.map (·.id)

/-- Both ends of every edge are nodes. -/
def CauseGraph.Closed (graph : CauseGraph) : Prop :=
  ∀ edge ∈ graph.edges, edge.fromId ∈ graph.ids ∧ edge.toId ∈ graph.ids

/-- A task_update of the task, or of one that names it as its parent. -/
def FesterEvent.Tells (event : FesterEvent) (name : String) : Prop :=
  event.type = .taskUpdate ∧ ∃ action, truthy event.action = some action ∧
    (action = name ∨ truthy event.parent = some name)

/-- A cache hit, a failure or a stamp of the task. -/
def FesterEvent.Refers (event : FesterEvent) (name : String) : Prop :=
  (event.type = .cacheUpdate ∨ event.type = .failure ∨ event.type = .btcStamp) ∧
    truthy event.action = some name

/-! ### The ids -/

theorem taskId_injective {first second : String} (same : taskId first = taskId second) :
    first = second :=
  String.append_right_inj "task:" |>.mp same

/-- The ids of other kinds are no ids of tasks. -/
theorem taskId_ne {kind : String} {letter : Char} {rest : List Char}
    (spelled : kind.toList = letter :: rest) (differ : letter ≠ 't') (name other : String) :
    taskId name ≠ kind ++ other := by
  intro same
  have heads := congrArg (fun text => text.toList.head?) same
  simp only [taskId, String.toList_append, spelled] at heads
  exact differ (Option.some.inj heads).symm

namespace Causes

/-- What a stretch of code adds: the ids of nodes, some of which may be there, and the edges. -/
structure Adds (before after : Causes) (ids : List String) (edges : List CauseEdge) : Prop where
  keys : ∀ id, id ∈ after.nodes.keys ↔ id ∈ before.nodes.keys ∨ id ∈ ids
  edges : after.edges = before.edges ++ edges

theorem Adds.nothing (causes : Causes) : Adds causes causes [] [] :=
  ⟨fun id => by simp, (List.append_nil _).symm⟩

theorem Adds.trans {before middle after : Causes} {ids more : List String}
    {edges later : List CauseEdge} (first : Adds before middle ids edges)
    (second : Adds middle after more later) : Adds before after (ids ++ more) (edges ++ later) := by
  refine ⟨fun id => ?_, ?_⟩
  · rw [second.keys, first.keys, List.mem_append, or_assoc]
  · rw [second.edges, first.edges, List.append_assoc]

theorem addNode_adds (causes : Causes) (node : CauseNode) :
    Adds causes (causes.addNode node) [node.id] [] := by
  refine ⟨fun id => ?_, ?_⟩
  · rw [List.mem_singleton]
    unfold addNode
    split
    · rename_i present
      have listed := OrderedMap.find?_isSome_iff.mp present
      exact ⟨.inl, fun either => either.elim (fun here => here) (fun same => same ▸ listed)⟩
    · rename_i absent
      have missing : causes.nodes.find? node.id = none := by simpa [OrderedMap.contains] using absent
      rw [OrderedMap.keys_set_of_absent _ missing, List.mem_append, List.mem_singleton]
  · rw [List.append_nil]
    unfold addNode
    split <;> rfl

theorem addEdge_adds (causes : Causes) (edge : CauseEdge) :
    Adds causes (causes.addEdge edge) [] [edge] :=
  ⟨fun id => by simp [addEdge], rfl⟩

theorem addDecision_adds (causes : Causes) (event : FesterEvent) (action : String) :
    ∃ ids edges, Adds causes (causes.addDecision event action) ids edges ∧
      (∀ name, taskId name ∉ ids) ∧
      ∀ edge ∈ edges, edge.fromId ∈ taskId action :: ids ∧ edge.toId ∈ taskId action :: ids := by
  unfold addDecision
  split
  · exact ⟨[], [], .nothing causes, by simp, by simp⟩
  · rename_i node _
    split
    · refine ⟨_, _, (((addNode_adds _ _).trans (addEdge_adds _ _)).trans (addNode_adds _ _)).trans
        (addEdge_adds _ _), ?_, ?_⟩
      · intro name
        have decision : taskId name ≠ decisionId action :=
          taskId_ne (show "decision:".toList = 'd' :: _ from rfl) (by decide) name action
        have state : taskId name ≠ nodeId node :=
          taskId_ne (show "node:".toList = 'n' :: _ from rfl) (by decide) name node
        simp [decision, state]
      · simp
    · exact ⟨[], [], .nothing causes, by simp, by simp⟩

theorem addParent_adds (causes : Causes) (events : List FesterEvent) (event : FesterEvent)
    (action : String) :
    ∃ ids edges, Adds causes (causes.addParent events event action) ids edges ∧
      (∀ name, taskId name ∈ ids → truthy event.parent = some name) ∧
      (∀ name, truthy event.parent = some name → (∃ other ∈ events, other.action = some name) →
        taskId name ∈ ids) ∧
      ∀ edge ∈ edges, edge.fromId ∈ taskId action :: ids ∧ edge.toId ∈ taskId action :: ids := by
  unfold addParent
  split
  · rename_i absent
    exact ⟨[], [], .nothing causes, by simp, by simp [absent], by simp⟩
  · rename_i parent present
    split
    · refine ⟨_, _, (addNode_adds _ _).trans (addEdge_adds _ _), ?_, ?_, ?_⟩
      · intro name member
        simp only [List.append_nil, List.mem_singleton] at member
        rw [taskId_injective member]
        exact present
      · rintro name same -
        obtain rfl := Option.some.inj (present.symm.trans same)
        simp
      · simp
    · rename_i unknown
      refine ⟨[], [], .nothing causes, by simp, ?_, by simp⟩
      rintro name same ⟨other, member, named⟩
      obtain rfl := Option.some.inj (present.symm.trans same)
      refine absurd ?_ unknown
      rw [Bool.or_eq_true, List.any_eq_true]
      exact .inr ⟨other, member, decide_eq_true named⟩

end Causes

/-- What some of the events add: a task where one of them tells of it, and edges whose ends are added
or are tasks that one of them refers to. -/
structure Contributes (all events : List FesterEvent) (ids : List String) (edges : List CauseEdge) :
    Prop where
  tells : ∀ name, taskId name ∈ ids → ∃ event ∈ events, event.Tells name
  listed : ∀ event ∈ events, ∀ name, event.Tells name →
    (∃ other ∈ all, other.action = some name) → taskId name ∈ ids
  ends : ∀ edge ∈ edges, ∀ id, id = edge.fromId ∨ id = edge.toId →
    id ∈ ids ∨ ∃ event ∈ events, ∃ name, event.Refers name ∧ id = taskId name
  refers : ∀ event ∈ events, ∀ name, event.Refers name →
    ∃ edge ∈ edges, taskId name = edge.fromId ∨ taskId name = edge.toId

theorem Contributes.append {all first second : List FesterEvent} {ids more : List String}
    {edges later : List CauseEdge} (one : Contributes all first ids edges)
    (two : Contributes all second more later) :
    Contributes all (first ++ second) (ids ++ more) (edges ++ later) where
  tells := by
    intro name member
    rcases List.mem_append.mp member with inside | inside
    · obtain ⟨event, here, tells⟩ := one.tells name inside
      exact ⟨event, List.mem_append_left _ here, tells⟩
    · obtain ⟨event, here, tells⟩ := two.tells name inside
      exact ⟨event, List.mem_append_right _ here, tells⟩
  listed := by
    intro event member name tells known
    rcases List.mem_append.mp member with here | here
    · exact List.mem_append_left _ (one.listed event here name tells known)
    · exact List.mem_append_right _ (two.listed event here name tells known)
  ends := by
    intro edge member id finish
    rcases List.mem_append.mp member with inside | inside
    · rcases one.ends edge inside id finish with known | ⟨event, here, refers⟩
      · exact .inl (List.mem_append_left _ known)
      · exact .inr ⟨event, List.mem_append_left _ here, refers⟩
    · rcases two.ends edge inside id finish with known | ⟨event, here, refers⟩
      · exact .inl (List.mem_append_right _ known)
      · exact .inr ⟨event, List.mem_append_right _ here, refers⟩
  refers := by
    intro event member name refers
    rcases List.mem_append.mp member with here | here
    · obtain ⟨edge, inside, finish⟩ := one.refers event here name refers
      exact ⟨edge, List.mem_append_left _ inside, finish⟩
    · obtain ⟨edge, inside, finish⟩ := two.refers event here name refers
      exact ⟨edge, List.mem_append_right _ inside, finish⟩

/-- An event that adds one node beside an edge between that node and its task. -/
theorem Contributes.single {all : List FesterEvent} {event : FesterEvent} {action id : String}
    {edge : CauseEdge} (kind : event.type ≠ .taskUpdate) (refers : event.Refers action)
    (other : ∀ name, taskId name ≠ id)
    (joins : (edge.fromId = id ∧ edge.toId = taskId action) ∨
      (edge.fromId = taskId action ∧ edge.toId = id)) :
    Contributes all [event] [id] [edge] where
  tells := fun name member => absurd (List.mem_singleton.mp member) (other name)
  listed := by
    intro other member name tells
    obtain rfl := List.mem_singleton.mp member
    exact absurd tells.1 kind
  ends := by
    intro line member tip finish
    obtain rfl := List.mem_singleton.mp member
    have either : tip = id ∨ tip = taskId action := by
      rcases joins with ⟨one, two⟩ | ⟨one, two⟩ <;> rw [one, two] at finish
      · exact finish
      · exact finish.symm
    rcases either with rfl | rfl
    · exact .inl (List.mem_singleton_self _)
    · exact .inr ⟨event, List.mem_singleton_self _, action, refers, rfl⟩
  refers := by
    intro other member name same
    obtain rfl := List.mem_singleton.mp member
    obtain rfl := Option.some.inj (refers.2.symm.trans same.2)
    refine ⟨edge, List.mem_singleton_self _, ?_⟩
    rcases joins with ⟨_, last⟩ | ⟨first, _⟩
    · exact .inr last.symm
    · exact .inl first.symm

theorem Contributes.quiet {all : List FesterEvent} {event : FesterEvent}
    (tells : ∀ name, ¬ event.Tells name) (refers : ∀ name, ¬ event.Refers name) :
    Contributes all [event] [] [] where
  tells := fun name member => absurd member List.not_mem_nil
  listed := by
    intro other member name told
    obtain rfl := List.mem_singleton.mp member
    exact absurd told (tells name)
  ends := fun edge member => absurd member List.not_mem_nil
  refers := by
    intro other member name referred
    obtain rfl := List.mem_singleton.mp member
    exact absurd referred (refers name)

namespace Causes

theorem taskUpdate_contributes (all : List FesterEvent) (causes : Causes) {event : FesterEvent}
    {action : String} (kind : event.type = .taskUpdate) (named : truthy event.action = some action) :
    ∃ ids edges,
      Adds causes (((causes.addTask event action).addDecision event action).addParent all event action)
        ids edges ∧ Contributes all [event] ids edges := by
  have task : Adds causes (causes.addTask event action) [taskId action] [] := addNode_adds _ _
  obtain ⟨ids, edges, decided, others, decisions⟩ :=
    addDecision_adds (causes.addTask event action) event action
  obtain ⟨more, later, joined, parent, known, dependencies⟩ :=
    addParent_adds ((causes.addTask event action).addDecision event action) all event action
  have noRefers : ∀ name, ¬ event.Refers name := by
    rintro name ⟨kinds, -⟩
    rw [kind] at kinds
    simp at kinds
  refine ⟨_, _, (task.trans decided).trans joined, ?_, ?_, ?_, ?_⟩
  · intro name member
    refine ⟨event, List.mem_singleton_self _, kind, action, named, ?_⟩
    rcases List.mem_append.mp member with member | member
    · rcases List.mem_append.mp member with single | decision
      · exact .inl (taskId_injective (List.mem_singleton.mp single)).symm
      · exact absurd decision (others name)
    · exact .inr (parent name member)
  · intro other member name tells present
    obtain rfl := List.mem_singleton.mp member
    obtain ⟨_, action', same, told⟩ := tells
    obtain rfl := Option.some.inj (named.symm.trans same)
    rcases told with rfl | upstream
    · simp
    · exact List.mem_append_right _ (known name upstream present)
  · intro edge member id finish
    left
    have inside : id ∈ taskId action :: ids ∨ id ∈ taskId action :: more := by
      rcases List.mem_append.mp member with decision | dependency
      · rw [List.nil_append] at decision
        rcases finish with rfl | rfl
        · exact .inl (decisions edge decision).1
        · exact .inl (decisions edge decision).2
      · rcases finish with rfl | rfl
        · exact .inr (dependencies edge dependency).1
        · exact .inr (dependencies edge dependency).2
    simp only [List.mem_append, List.mem_cons, List.not_mem_nil, or_false] at inside ⊢
    rcases inside with (here | decision) | (here | upstream)
    · exact .inl (.inl here)
    · exact .inl (.inr decision)
    · exact .inl (.inl here)
    · exact .inr upstream
  · intro other member name refers
    obtain rfl := List.mem_singleton.mp member
    exact absurd refers (noRefers name)

theorem record_contributes (all : List FesterEvent) (causes : Causes) (event : FesterEvent) :
    ∃ ids edges, Adds causes (causes.record all event) ids edges ∧ Contributes all [event] ids edges := by
  cases named : truthy event.action with
  | none =>
    refine ⟨[], [], ?_, .quiet ?_ ?_⟩
    · rw [record, named]
      exact .nothing causes
    · rintro name ⟨_, action, same, _⟩
      cases named.symm.trans same
    · rintro name ⟨_, same⟩
      cases named.symm.trans same
  | some action =>
    rw [record, named]
    dsimp only
    cases kind : event.type with
    | taskUpdate => exact taskUpdate_contributes all causes kind named
    | cacheUpdate =>
      exact ⟨_, _, (addNode_adds _ _).trans (addEdge_adds _ _), .single (by simp [kind])
        ⟨.inl kind, named⟩ (fun name =>
          taskId_ne (show "cache:".toList = 'c' :: _ from rfl) (by decide) name action)
        (.inl ⟨rfl, rfl⟩)⟩
    | failure =>
      exact ⟨_, _, (addNode_adds _ _).trans (addEdge_adds _ _), .single (by simp [kind])
        ⟨.inr (.inl kind), named⟩ (fun name =>
          taskId_ne (show "failure:".toList = 'f' :: _ from rfl) (by decide) name action)
        (.inr ⟨rfl, rfl⟩)⟩
    | btcStamp =>
      exact ⟨_, _, (addNode_adds _ _).trans (addEdge_adds _ _), .single (by simp [kind])
        ⟨.inr (.inr kind), named⟩ (fun name =>
          taskId_ne (show "stamp:".toList = 's' :: _ from rfl) (by decide) name action)
        (.inr ⟨rfl, rfl⟩)⟩
    | nodeUpdate | pipelineUpdate | debug | replay =>
      refine ⟨[], [], .nothing causes, .quiet ?_ ?_⟩
      · rintro name ⟨same, -⟩
        cases kind.symm.trans same
      · rintro name ⟨kinds, -⟩
        rw [kind] at kinds
        simp at kinds

theorem foldl_contributes (all events : List FesterEvent) (causes : Causes) :
    ∃ ids edges, Adds causes (events.foldl (record all) causes) ids edges ∧
      Contributes all events ids edges := by
  induction events generalizing causes with
  | nil =>
    exact ⟨[], [], .nothing causes, by simp, by simp, by simp, by simp⟩
  | cons event events ih =>
    obtain ⟨ids, edges, first, one⟩ := record_contributes all causes event
    obtain ⟨more, later, second, rest⟩ := ih (causes.record all event)
    exact ⟨_, _, first.trans second, one.append rest⟩

/-- Every node is kept under its id. -/
def Keyed (causes : Causes) : Prop := ∀ entry ∈ causes.nodes.entries, entry.2.id = entry.1

theorem Keyed.addNode {causes : Causes} (keyed : causes.Keyed) (node : CauseNode) :
    (causes.addNode node).Keyed := by
  unfold Causes.addNode
  split
  · exact keyed
  · rename_i absent
    have missing : causes.nodes.find? node.id = none := by simpa [OrderedMap.contains] using absent
    intro entry member
    rw [OrderedMap.entries_set_of_absent _ missing] at member
    rcases List.mem_append.mp member with old | new
    · exact keyed entry old
    · rw [List.mem_singleton.mp new]

theorem Keyed.addEdge {causes : Causes} (keyed : causes.Keyed) (edge : CauseEdge) :
    (causes.addEdge edge).Keyed := keyed

theorem Keyed.addDecision {causes : Causes} (keyed : causes.Keyed) (event : FesterEvent)
    (action : String) : (causes.addDecision event action).Keyed := by
  unfold Causes.addDecision
  split
  · exact keyed
  · split
    · exact (((keyed.addNode _).addEdge _).addNode _).addEdge _
    · exact keyed

theorem Keyed.addParent {causes : Causes} (keyed : causes.Keyed) (events : List FesterEvent)
    (event : FesterEvent) (action : String) : (causes.addParent events event action).Keyed := by
  unfold Causes.addParent
  split
  · exact keyed
  · split
    · exact (keyed.addNode _).addEdge _
    · exact keyed

theorem Keyed.record {causes : Causes} (keyed : causes.Keyed) (events : List FesterEvent)
    (event : FesterEvent) : (causes.record events event).Keyed := by
  unfold Causes.record
  split
  · exact keyed
  · split
    · exact ((keyed.addNode _).addDecision event _).addParent events event _
    · exact (keyed.addNode _).addEdge _
    · exact (keyed.addNode _).addEdge _
    · exact (keyed.addNode _).addEdge _
    · exact keyed

theorem Keyed.foldl {causes : Causes} (keyed : causes.Keyed) (all events : List FesterEvent) :
    (events.foldl (Causes.record all) causes).Keyed := by
  induction events generalizing causes with
  | nil => exact keyed
  | cons event events ih => exact ih (keyed.record all event)

end Causes

theorem ids_buildCauseGraph (events : List FesterEvent) :
    (buildCauseGraph events).ids =
      (events.foldl (Causes.record events) ⟨OrderedMap.empty, []⟩).nodes.keys := by
  have empty : Causes.Keyed ⟨OrderedMap.empty, []⟩ := fun entry member => nomatch member
  have keyed := empty.foldl events events
  rw [CauseGraph.ids, buildCauseGraph, OrderedMap.values, OrderedMap.keys, List.map_map]
  exact List.map_congr_left keyed

/-- The ids of the nodes are unique over every list of events, and both ends of every edge are nodes
exactly where some task_update tells of every task that a cache hit, a failure or a stamp refers to. -/
theorem cause_graph_iff (events : List FesterEvent) :
    (buildCauseGraph events).ids.Nodup ∧
      ((buildCauseGraph events).Closed ↔ ∀ event ∈ events, ∀ name, event.Refers name →
        ∃ other ∈ events, other.Tells name) := by
  obtain ⟨ids, edges, adds, recorded⟩ :=
    Causes.foldl_contributes events events ⟨OrderedMap.empty, []⟩
  have mem_ids : ∀ id, id ∈ (buildCauseGraph events).ids ↔ id ∈ ids := by
    intro id
    rw [ids_buildCauseGraph, adds.keys]
    exact or_iff_right List.not_mem_nil
  have all : (buildCauseGraph events).edges = edges := adds.edges
  refine ⟨?_, ?_⟩
  · rw [ids_buildCauseGraph]
    exact OrderedMap.nodup _
  · constructor
    · intro closed event member name refers
      obtain ⟨edge, inside, finish⟩ := recorded.refers event member name refers
      rw [← all] at inside
      have node : taskId name ∈ ids := by
        rw [← mem_ids]
        rcases finish with here | here <;> rw [here]
        · exact (closed edge inside).1
        · exact (closed edge inside).2
      exact recorded.tells name node
    · intro told edge member
      rw [all] at member
      have node : ∀ id, id = edge.fromId ∨ id = edge.toId → id ∈ (buildCauseGraph events).ids := by
        intro id finish
        rw [mem_ids]
        rcases recorded.ends edge member id finish with known | ⟨event, here, name, refers, rfl⟩
        · exact known
        · obtain ⟨other, inside, tells⟩ := told event here name refers
          have present := (truthy_eq_some_iff.mp refers.2).1
          exact recorded.listed other inside name tells ⟨event, here, present⟩
      exact ⟨node _ (.inl rfl), node _ (.inr rfl)⟩

instance (graph : CauseGraph) : Decidable graph.Closed :=
  inferInstanceAs (Decidable (∀ edge ∈ graph.edges, _))

/-- The tail of a journal that begins with the failure of an action. -/
def trimmed : List FesterEvent :=
  [{ type := .failure, timestamp := 5000, action := some "nginx:main:fetch", node := some "ryzen-1",
     state := some "failed", reason := some "non-zero exit code from git clone --depth 1",
     buildId := some "nginx-0" }]

/-- Its edge comes from a task that is no node. -/
theorem cause_graph_trimmed : ¬ (buildCauseGraph trimmed).Closed := by
  decide

end SysDeck.Fester
