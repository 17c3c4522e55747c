import Mathlib.Algebra.Order.BigOperators.Group.List
import SysDeck.Fester.EventProtocol

/-! Job-slot accounting: a node's job count is the number of actions, over all
runs ever started, that were assigned to it and have not ended. -/

namespace SysDeck.Fester

variable {hashAction : HashedAction → String}

/-- The action occupies a job slot of the node. -/
def ActionNode.holds (node : String) (action : ActionNode) : Bool :=
  action.node = some node && action.state.occupying

/-- The slots of a node that one run occupies. -/
def BuildRun.holding (run : BuildRun) (node : String) : Nat :=
  run.actions.values.countP (ActionNode.holds node)

/-- The slots of a node that all runs ever started occupy. -/
def Engine.holding (engine : Engine) (node : String) : Nat :=
  (engine.created.map fun run => run.holding node).sum

def Slot.delta (node : String) : Slot → Int
  | keep => 0
  | take taken => if node = taken then 1 else 0
  | free freed => if node = freed then -1 else 0

theorem Slot.activeJobs_apply {nodes : NodeRegistry} {slot : Slot}
    (known : ∀ taken, slot = .take taken → taken ∈ nodes.keys)
    (held : ∀ freed, slot = .free freed → 0 < activeJobs nodes freed) (node : String) :
    activeJobs (slot.apply nodes) node = activeJobs nodes node + slot.delta node := by
  cases slot with
  | keep => simp [apply, delta]
  | take taken => exact activeJobs_occupy (known taken rfl) node
  | free freed =>
    rw [apply, activeJobs_release (held freed rfl) node, delta]
    split <;> omega

/-- 1 for an action that occupies a slot of the node. -/
def ActionNode.weight (node : String) (action : ActionNode) : Int :=
  if action.holds node then 1 else 0

theorem ActionNode.weight_free {action : ActionNode} (free : action.state.occupying = false)
    (node : String) : action.weight node = 0 := by
  simp [weight, holds, free]

theorem ActionNode.weight_held {action : ActionNode} (occupying : action.state.occupying = true)
    {holder : String} (assigned : action.node = some holder) (node : String) :
    action.weight node = if node = holder then 1 else 0 := by
  simp [weight, holds, occupying, assigned, eq_comm]

theorem Slot.delta_free (node freed : String) :
    (if node = freed then 1 else 0) + Slot.delta node (.free freed) = 0 := by
  simp only [delta]
  split <;> rfl

/-- A step moves an action in or out of a slot exactly as it moves the count. -/
theorem ActionStep.slots {context : Context} {action changed : ActionNode}
    {events : List FesterEvent} {slot : Slot} {key : Option String}
    (step : ActionStep hashAction context action events slot key changed)
    (valid : StateAt hashAction context.run action) (node : String) :
    changed.weight node = action.weight node + slot.delta node := by
  cases step with
  | enter | abandon | again | stamp => exact (Int.add_zero _).symm
  | schedule now decision next point =>
    simp only [StateAt, point] at valid
    have free : action.weight node = 0 := ActionNode.weight_free (by rw [valid]; rfl) node
    rw [free, Int.zero_add]
    exact ActionNode.weight_held rfl rfl node
  | cancel now decision leaves =>
    obtain ⟨occupying, assigned⟩ := valid.leaving leaves
    rw [ActionNode.weight_free rfl, ActionNode.weight_held occupying assigned, Slot.delta_free]
  | skip now live pending | windDown now cancelled pending =>
    rw [ActionNode.weight_free rfl, ActionNode.weight_free (by rw [pending]; rfl)]
    rfl
  | start now attempt point =>
    simp only [StateAt, point] at valid
    obtain ⟨⟨⟨assigned, _⟩, _⟩, states⟩ := valid
    have occupying : action.state.occupying = true := by
      rcases states with ⟨_, state⟩ | ⟨_, state⟩ <;> rw [state] <;> rfl
    rw [ActionNode.weight_held occupying assigned, Slot.delta, Int.add_zero]
    exact ActionNode.weight_held rfl (by exact assigned) node
  | retry now attempt point =>
    simp only [StateAt, point] at valid
    obtain ⟨⟨⟨assigned, _⟩, _⟩, state⟩ := valid
    rw [ActionNode.weight_held (by rw [state]; rfl) assigned, Slot.delta, Int.add_zero]
    exact ActionNode.weight_held rfl (by exact assigned) node
  | cached now decision key point =>
    simp only [StateAt, point] at valid
    obtain ⟨⟨assigned, _⟩, state⟩ := valid
    rw [ActionNode.weight_free rfl, ActionNode.weight_held (by rw [state]; rfl) assigned,
      Slot.delta_free]
  | fail now attempt point | done now attempt point =>
    simp only [StateAt, point] at valid
    obtain ⟨⟨⟨assigned, _⟩, _⟩, state⟩ := valid
    rw [ActionNode.weight_free rfl, ActionNode.weight_held (by rw [state]; rfl) assigned,
      Slot.delta_free]

theorem ActionStep.take_known {context : Context} {action changed : ActionNode}
    {events : List FesterEvent} {slot : Slot} {key : Option String}
    (step : ActionStep hashAction context action events slot key changed) :
    ∀ taken, slot = .take taken → taken ∈ context.nodes.keys := by
  intro taken same
  cases step with
  | schedule now decision next point live registered =>
    cases same
    exact registered
  | _ => cases same

theorem BuildRun.holding_put {run : BuildRun} {action changed : ActionNode}
    (found : run.actions.find? action.name = some action) (same : changed.name = action.name)
    (node : String) :
    ((run.put changed).holding node : Int) =
      run.holding node + (changed.weight node - action.weight node) := by
  have count := OrderedMap.countP_values_modify found (fun _ => changed) (ActionNode.holds node)
  simp only [holding, put, same, ActionNode.weight]
  split at count <;> split at count <;> simp [*] <;> omega

/-- One move keeps the job counts balanced against what the run holds. -/
theorem Micro.balanced {context next : Context} (step : Micro hashAction context next)
    (valid : RunInvariant hashAction context.run) (others : String → Nat)
    (balanced : ∀ node, activeJobs context.nodes node = context.run.holding node + others node) :
    ∀ node, activeJobs next.nodes node = next.run.holding node + others node := by
  rcases step.acts_or_rests with ⟨action, changed, events, slot, key, found, own, rfl⟩ | rests
  · have placed := (valid.coherent action.name action found).1
    have held : ∀ freed, slot = .free freed → 0 < activeJobs context.nodes freed := by
      rintro freed rfl
      have moved := own.slots placed freed
      have occupied : action.weight freed = 1 := by
        simp only [Slot.delta, ↓reduceIte, ActionNode.weight] at moved ⊢
        split at moved <;> split at moved <;> simp_all
      have counted := BuildRun.holding_put found own.name_eq freed
      have left := balanced freed
      simp only [Slot.delta, ↓reduceIte] at moved
      omega
    intro node
    have applied := Slot.activeJobs_apply own.take_known held node
    have counted := BuildRun.holding_put found own.name_eq node
    have moved := own.slots placed node
    have before := balanced node
    change activeJobs (slot.apply context.nodes) node = (context.run.put changed).holding node + _
    omega
  · intro node
    have same : next.run.holding node = context.run.holding node := by
      refine OrderedMap.countP_values_congr step.frame.keys ?_
      intro name action found
      obtain ⟨changed, present, rfl | move⟩ := rests.actions name action found
      · exact ⟨changed, present, rfl⟩
      · exact ⟨changed, present, by cases move <;> rfl⟩
    rw [rests.nodes, same]
    exact balanced node

theorem Moves.balanced {context next : Context} (moves : Moves hashAction context next)
    (valid : RunInvariant hashAction context.run) (others : String → Nat)
    (balanced : ∀ node, activeJobs context.nodes node = context.run.holding node + others node) :
    ∀ node, activeJobs next.nodes node = next.run.holding node + others node := by
  induction moves with
  | refl => exact balanced
  | tail before step ih => exact step.balanced (valid.moves before) others ih

/-- A sum over a list after one of its entries changed. -/
theorem sum_map_set {Entry : Type} (measure : Entry → Nat) {entries : List Entry} {index : Nat}
    {old : Entry} (found : entries[index]? = some old) (new : Entry) :
    ((entries.set index new).map measure).sum + measure old =
      (entries.map measure).sum + measure new := by
  induction entries generalizing index with
  | nil => simp at found
  | cons head rest ih =>
    cases index with
    | zero =>
      obtain rfl : head = old := by simpa using found
      simp only [List.set_cons_zero, List.map_cons, List.sum_cons]
      omega
    | succ index =>
      have inside : rest[index]? = some old := by simpa using found
      have later := ih inside
      simp only [List.set_cons_succ, List.map_cons, List.sum_cons]
      omega

theorem newRun_holding (now : Nat) (project : String) (targets : List String)
    (opts : BuildOptions) (node : String) : (newRun now project targets opts).holding node = 0 := by
  apply List.countP_eq_zero.mpr
  intro action member
  obtain ⟨name, found⟩ := OrderedMap.mem_values_iff.mp member
  obtain ⟨_, _, step, _, _, rfl⟩ := newRun_origin found
  simp [ActionNode.holds, newAction]

/-- Every job count is what the runs hold. -/
def Engine.Balanced (engine : Engine) : Prop :=
  ∀ node, activeJobs engine.nodes node = engine.holding node

theorem EngineStep.balanced {engine next : Engine} {label : Label}
    (move : EngineStep hashAction engine label next) (sound : engine.Sound hashAction)
    (balanced : engine.Balanced) : next.Balanced := by
  cases move with
  | still quiet store same => exact balanced
  | @run _ index run next found _ moves =>
    intro node
    have split : ∀ node, run.holding node ≤ engine.holding node := by
      intro node
      exact List.single_le_sum (by simp) _ (List.mem_map.mpr ⟨run, List.mem_of_getElem? found, rfl⟩)
    have after := moves.balanced (sound index run found)
      (fun node => engine.holding node - run.holding node) (by
        intro node
        have whole := balanced node
        have part := split node
        simp only [Engine.context]
        omega) node
    have total := sum_map_set (fun run => run.holding node) found next.run
    have part := split node
    simp only [Engine.update, Engine.holding] at part after ⊢
    omega
  | @start now project targets opts next call _ moves =>
    intro node
    have after := moves.balanced (newRun_invariant now project targets opts)
      engine.holding (by
        intro node
        have fresh := newRun_holding now project targets opts node
        have whole := balanced node
        simp only [startContext, Engine.context]
        omega) node
    simp only [Engine.holding, List.map_append, List.map_singleton, List.sum_append,
      List.sum_singleton] at after ⊢
    omega

theorem balanced_after (hashAction : HashedAction → String) (labels : List Label) :
    (Engine.after hashAction labels).Balanced := by
  refine Engine.invariant_after (motive := fun _ engine => engine.Balanced) ?_
    (fun before _ _ move balanced => move.balanced (Engine.sound_after before) balanced) labels
  intro node
  have free : ∀ entry ∈ cluster.values, entry.activeJobs = 0 := by decide
  cases found : cluster.find? node with
  | none => simp [Engine.init, Engine.holding, activeJobs, found]
  | some entry =>
    simp [Engine.init, Engine.holding, activeJobs, found, free entry (OrderedMap.mem_values found)]

/-- In every reachable state the job count of a node is the number of actions, over
all runs ever started, that hold one of its slots; so it is never negative, and
it is zero once every run has finished. -/
theorem job_slots (hashAction : HashedAction → String) (labels : List Label) (node : String) :
    let engine := Engine.after hashAction labels
    activeJobs engine.nodes node = engine.holding node ∧ 0 ≤ activeJobs engine.nodes node ∧
      ((∀ run ∈ engine.created, run.state ≠ .running) → activeJobs engine.nodes node = 0) := by
  intro engine
  have balanced : activeJobs engine.nodes node = engine.holding node :=
    balanced_after hashAction labels node
  refine ⟨balanced, by omega, fun finished => ?_⟩
  have idle : engine.holding node = 0 := by
    refine List.sum_eq_zero fun count member => ?_
    obtain ⟨run, present, rfl⟩ := List.mem_map.mp member
    obtain ⟨index, bound, rfl⟩ := List.getElem_of_mem present
    have found : engine.created[index]? = some engine.created[index] :=
      List.getElem?_eq_getElem bound
    obtain ⟨_, _, closed⟩ := protocol_after labels found
    apply List.countP_eq_zero.mpr
    intro action listed
    obtain ⟨name, entry⟩ := OrderedMap.mem_values_iff.mp listed
    have ended := closed (.inl (finished _ present)) name action entry
    cases state : action.state <;>
      simp [ActionNode.holds, state, ActionState.occupying, ActionState.terminal] at ended ⊢
  rw [balanced, idle]
  rfl

end SysDeck.Fester
