import SysDeck.Fester.Runs

/-! The gate bookkeeping of a run: gateWaiters lists exactly the parked
coroutines, and the passes an action holds fit the gates still before it. -/

namespace SysDeck.Fester

variable {hashAction : HashedAction → String}

/-- `run.actionPasses.get(name) ?? 0`. -/
def BuildRun.passes (run : BuildRun) (name : String) : Nat := run.actionPasses.getD name 0

/-- The outcomes of one turn of gate(). -/
inductive GateTurn (run : BuildRun) (name : String) (place : Gate) : BuildRun → Prop where
  | through (unpaused : run.paused = false) :
      GateTurn run name place (run.move name (.passed place))
  | pass (paused : run.paused = true) (held : 0 < run.passes name) :
      GateTurn run name place
        ({ run with actionPasses := run.actionPasses.set name (run.passes name - 1) }.move name
          (.passed place))
  | ticket (paused : run.paused = true) (none : run.passes name = 0) (left : 0 < run.stepTickets) :
      GateTurn run name place
        ({ run with
           stepTickets := run.stepTickets - 1
           actionPasses := run.actionPasses.set name (totalGates - place.index) }.move name
          (.passed place))
  | park (paused : run.paused = true) (none : run.passes name = 0) (empty : run.stepTickets = 0) :
      GateTurn run name place
        ({ run with gateWaiters := run.gateWaiters ++ [(⟨name, place.index⟩ : Waiter)] }.move name
          (.parked place))

theorem gate_turn (run : BuildRun) (name : String) (place : Gate) :
    GateTurn run name place (gate run name place) := by
  unfold gate
  split
  · rename_i unpaused
    exact .through unpaused
  · rename_i stopped
    have paused : run.paused = true := by simpa using stopped
    split
    · rename_i held
      exact .pass paused held
    · rename_i spent
      have none : run.passes name = 0 := by simpa [BuildRun.passes] using spent
      split
      · rename_i left
        exact .ticket paused none left
      · rename_i empty
        exact .park paused none (by simpa using empty)

/-- The passes an action may hold at a point: the gates a step paid for and that it
has not gone through. -/
def Point.passBound : Point → Nat
  | .entering .schedule => 2
  | .passed .schedule | .entering (.run _) | .cacheWait .. | .returned => 1
  | .idle | .parked _ | .passed (.run _) | .work _ | .backoff _ | .stampWait _ => 0

theorem ActionStep.points {context : Context} {action changed : ActionNode}
    {events : List FesterEvent} {slot : Slot} {key : Option String}
    (step : ActionStep hashAction context action events slot key changed) :
    (∀ place, action.point ≠ .parked place) ∧ (∀ place, changed.point ≠ .parked place) ∧
      action.point.passBound ≤ changed.point.passBound := by
  cases step with
  | enter running live member pending idle => simp [idle, Point.passBound]
  | skip now live pending idle => simp [idle]
  | windDown now cancelled pending halted =>
    cases point : action.point <;> simp [point, Point.settled] at halted <;> simp
  | cancel now decision leaves =>
    generalize action.point = point at leaves
    cases leaves <;> simp [Point.passBound]
  | schedule now decision next point live registered onward =>
    rcases onward with ⟨rfl, _⟩ | ⟨rfl, _⟩ <;> simp [point, Point.passBound]
  | abandon point | cached now decision key point | start now attempt point
  | retry now attempt point | fail now attempt point | done now attempt point
  | again attempt point | stamp now decision point => simp [point, Point.passBound]

/-- The bookkeeping that every move of a run keeps. -/
structure Gated (run : BuildRun) : Prop where
  parked : ∀ waiter ∈ run.gateWaiters, ∃ action place,
    run.actions.find? waiter.action = some action ∧ action.point = .parked place ∧
      waiter.gate = place.index
  waits : ∀ name action place, run.actions.find? name = some action →
    action.point = .parked place → name ∈ run.gateWaiters.map (·.action)
  nodup : (run.gateWaiters.map (·.action)).Nodup
  opened : run.paused = false → run.gateWaiters = [] ∧ ∀ name, run.passes name = 0
  spent : run.gateWaiters ≠ [] → run.stepTickets = 0
  bounded : ∀ name action, run.actions.find? name = some action →
    run.passes name ≤ action.point.passBound

theorem Gated.not_waiting {run : BuildRun} (gated : Gated run) {name : String}
    {action : ActionNode} (found : run.actions.find? name = some action)
    (moving : ∀ place, action.point ≠ .parked place) : name ∉ run.gateWaiters.map (·.action) := by
  intro member
  obtain ⟨waiter, listed, rfl⟩ := List.mem_map.mp member
  obtain ⟨other, place, present, point, _⟩ := gated.parked waiter listed
  obtain rfl := Option.some.inj (found.symm.trans present)
  exact moving place point

theorem Gated.act {context : Context} {action changed : ActionNode}
    {events : List FesterEvent} {slot : Slot} {key : Option String}
    (gated : Gated context.run) (found : context.run.actions.find? action.name = some action)
    (step : ActionStep hashAction context action events slot key changed) :
    Gated ((context.run.put changed).emitAll events) := by
  obtain ⟨before, after, bound⟩ := step.points
  have absent := gated.not_waiting found before
  refine ⟨?_, ?_, gated.nodup, gated.opened, gated.spent, ?_⟩
  · intro waiter listed
    have differ : waiter.action ≠ changed.name := by
      rw [step.name_eq]
      exact fun same => absent (same ▸ List.mem_map.mpr ⟨waiter, listed, rfl⟩)
    obtain ⟨other, place, present, rest⟩ := gated.parked waiter listed
    exact ⟨other, place, (OrderedMap.find?_modify_ne _ _ differ).trans present, rest⟩
  · intro name other place present point
    rcases OrderedMap.find?_modify_eq_some present with ⟨_, _, _, rfl⟩ | ⟨_, old⟩
    · exact absurd point (after place)
    · exact gated.waits name other place old point
  · intro name other present
    rcases OrderedMap.find?_modify_eq_some present with ⟨rfl, old, was, rfl⟩ | ⟨_, old⟩
    · rw [step.name_eq] at was ⊢
      exact (gated.bounded action.name action found).trans bound
    · exact gated.bounded name other old

/-- A coroutine leaves the head of the gate loop for the code behind the gate. -/
theorem Gated.enter {run : BuildRun} (gated : Gated run) {action : ActionNode} {place : Gate}
    (found : run.actions.find? action.name = some action) (point : action.point = .entering place)
    (tickets : Nat) (passes : OrderedMap String Nat)
    (others : ∀ name, name ≠ action.name → passes.getD name 0 = run.passes name)
    (held : passes.getD action.name 0 ≤ (Point.passed place).passBound)
    (opened : run.paused = false → passes.getD action.name 0 = 0)
    (spent : tickets ≤ run.stepTickets) :
    Gated ({ run with stepTickets := tickets, actionPasses := passes }.move action.name
      (.passed place)) := by
  have absent := gated.not_waiting found (by simp [point])
  refine ⟨?_, ?_, gated.nodup, ?_, ?_, ?_⟩
  · intro waiter listed
    have differ : waiter.action ≠ action.name :=
      fun same => absent (same ▸ List.mem_map.mpr ⟨waiter, listed, rfl⟩)
    obtain ⟨other, place, present, rest⟩ := gated.parked waiter listed
    exact ⟨other, place, (OrderedMap.find?_modify_ne _ _ differ).trans present, rest⟩
  · intro name other place present point
    rcases OrderedMap.find?_modify_eq_some present with ⟨_, _, _, rfl⟩ | ⟨_, old⟩
    · cases point
    · exact gated.waits name other place old point
  · intro unpaused
    obtain ⟨empty, none⟩ := gated.opened unpaused
    refine ⟨empty, fun name => ?_⟩
    by_cases own : name = action.name
    · rw [own]
      exact opened unpaused
    · exact (others name own).trans (none name)
  · intro waiting
    exact Nat.le_zero.mp (spent.trans (gated.spent waiting).le)
  · intro name other present
    rcases OrderedMap.find?_modify_eq_some present with ⟨rfl, _, _, rfl⟩ | ⟨differ, old⟩
    · exact held
    · exact (others name differ).le.trans (gated.bounded name other old)

theorem Gated.gate {run : BuildRun} (gated : Gated run) {action : ActionNode} {place : Gate}
    (found : run.actions.find? action.name = some action) (point : action.point = .entering place) :
    Gated (gate run action.name place) := by
  have bound := gated.bounded action.name action found
  rw [point] at bound
  have turn := gate_turn run action.name place
  generalize SysDeck.Fester.gate run action.name place = next at turn
  cases turn with
  | through unpaused =>
    have none : run.actionPasses.getD action.name 0 = 0 := (gated.opened unpaused).2 action.name
    exact gated.enter found point run.stepTickets run.actionPasses (fun _ _ => rfl) (by omega)
      (fun _ => none) (Nat.le_refl _)
  | pass paused held =>
    refine gated.enter found point run.stepTickets _ ?_ ?_ (by simp [paused]) (Nat.le_refl _)
    · intro name differ
      rw [OrderedMap.getD_set, if_neg differ]
      rfl
    · rw [OrderedMap.getD_set, if_pos rfl]
      cases place <;> simp only [Point.passBound] at bound ⊢ <;> omega
  | ticket paused none left =>
    refine gated.enter found point _ _ ?_ ?_ (by simp [paused]) (Nat.sub_le _ _)
    · intro name differ
      rw [OrderedMap.getD_set, if_neg differ]
      rfl
    · rw [OrderedMap.getD_set, if_pos rfl]
      cases place <;> simp [Point.passBound, totalGates, Gate.index]
  | park paused none empty =>
    have absent := gated.not_waiting found (by simp [point])
    refine ⟨?_, ?_, ?_, ?_, fun _ => empty, ?_⟩
    · intro waiter listed
      rcases List.mem_append.mp listed with old | new
      · have differ : waiter.action ≠ action.name :=
          fun same => absent (same ▸ List.mem_map.mpr ⟨waiter, old, rfl⟩)
        obtain ⟨other, place, present, rest⟩ := gated.parked waiter old
        exact ⟨other, place, (OrderedMap.find?_modify_ne _ _ differ).trans present, rest⟩
      · obtain rfl := List.mem_singleton.mp new
        refine ⟨{ action with point := .parked place }, place, ?_, rfl, rfl⟩
        change (run.actions.modify action.name _).find? action.name = _
        rw [OrderedMap.find?_modify_self, found]
        rfl
    · intro name other place' present parked
      change name ∈ (run.gateWaiters ++ [(⟨action.name, place.index⟩ : Waiter)]).map (·.action)
      rcases OrderedMap.find?_modify_eq_some present with ⟨rfl, _⟩ | ⟨_, old⟩
      · simp
      · rw [List.map_append]
        exact List.mem_append_left _ (gated.waits name other place' old parked)
    · change ((run.gateWaiters ++ [(⟨action.name, place.index⟩ : Waiter)]).map (·.action)).Nodup
      rw [List.map_append, List.map_singleton]
      refine List.nodup_append.mpr ⟨gated.nodup, List.nodup_singleton _, ?_⟩
      intro first member last single same
      have own : first = action.name := same.trans (List.mem_singleton.mp single)
      exact absent (own ▸ member)
    · intro unpaused
      exact absurd (unpaused.symm.trans paused) (by decide)
    · intro name other present
      rcases OrderedMap.find?_modify_eq_some present with ⟨rfl, _, _, rfl⟩ | ⟨_, old⟩
      · exact none.le
      · exact gated.bounded name other old

theorem ActionNode.wake_not_parked (action : ActionNode) (place : Gate) :
    action.wake.point ≠ .parked place := by
  cases point : action.point <;> simp [wake, point]

/-- Releasing everyone leaves no waiter, no parked coroutine and no pass. -/
theorem Gated.release {run : BuildRun} (gated : Gated run) : Gated (releaseGates run) := by
  obtain ⟨actions, same, _, woken⟩ := releaseGates_eq run
  rw [same]
  refine ⟨by simp, ?_, List.nodup_nil, fun _ => ⟨rfl, fun _ => rfl⟩, by simp, fun _ _ _ => Nat.zero_le _⟩
  intro name action place present point
  exfalso
  change actions.find? name = some action at present
  rw [woken name] at present
  split at present
  · obtain ⟨old, _, rfl⟩ := Option.map_eq_some_iff.mp present
    exact old.wake_not_parked place point
  · rename_i absent
    exact absent (gated.waits name action place present point)

theorem stepRun_waiting {run : BuildRun} (now : Nat) {head : Waiter} {rest : List Waiter}
    (waiting : run.gateWaiters = head :: rest) :
    stepRun now run = ({ run with
      stepMode := true, gateWaiters := rest,
      actionPasses := run.actionPasses.set head.action
        (run.passes head.action + (totalGates - head.gate + 1)) }.resolve head).emit
      (run.debugEvent now "step") := by
  unfold stepRun
  rw [waiting]
  rfl

theorem stepRun_ticket {run : BuildRun} (now : Nat) (empty : run.gateWaiters = []) :
    stepRun now run = { run with stepMode := true, stepTickets := run.stepTickets + 1 }.emit
      (run.debugEvent now "step") := by
  unfold stepRun
  rw [empty]

/-- A step with a waiter moves the head back into the gate with passes for the
gates it has left; the others stay parked. -/
theorem Gated.step {run : BuildRun} (gated : Gated run) (now : Nat) : Gated (stepRun now run) := by
  unfold stepRun
  split
  · rename_i head rest waiting
    have listed : head ∈ run.gateWaiters := by simp [waiting]
    obtain ⟨action, place, found, point, index⟩ := gated.parked head listed
    have none : run.passes head.action = 0 := by
      have bound := gated.bounded head.action action found
      rw [point] at bound
      exact Nat.le_zero.mp bound
    have nodup := gated.nodup
    rw [waiting, List.map_cons, List.nodup_cons] at nodup
    refine ⟨?_, ?_, nodup.2, ?_, ?_, ?_⟩
    · intro waiter later
      have differ : waiter.action ≠ head.action := fun same =>
        nodup.1 (same ▸ List.mem_map.mpr ⟨waiter, later, rfl⟩)
      obtain ⟨other, place, present, more⟩ :=
        gated.parked waiter (by rw [waiting]; exact List.mem_cons_of_mem _ later)
      exact ⟨other, place, (OrderedMap.find?_modify_ne _ _ differ).trans present, more⟩
    · intro name other place' present parked
      rcases OrderedMap.find?_modify_eq_some present with ⟨_, old, _, rfl⟩ | ⟨differ, old⟩
      · exact absurd parked (old.wake_not_parked place')
      · have member := gated.waits name other place' old parked
        rw [waiting, List.map_cons, List.mem_cons] at member
        exact member.resolve_left differ
    · intro unpaused
      have empty := (gated.opened unpaused).1
      rw [waiting] at empty
      cases empty
    · intro _
      exact gated.spent (by simp [waiting])
    · intro name other present
      change (run.actionPasses.set head.action _).getD name 0 ≤ _
      rw [OrderedMap.getD_set]
      rcases OrderedMap.find?_modify_eq_some present with ⟨rfl, old, was, rfl⟩ | ⟨differ, old⟩
      · obtain rfl := Option.some.inj (found.symm.trans was)
        rw [if_pos rfl, index, show run.actionPasses.getD head.action 0 = 0 from none]
        cases place <;> simp [ActionNode.wake, point, Point.passBound, totalGates, Gate.index]
      · rw [if_neg differ]
        exact gated.bounded name other old
  · rename_i empty
    exact ⟨gated.parked, gated.waits, gated.nodup, gated.opened, fun some => absurd empty some,
      gated.bounded⟩

theorem Gated.micro {context next : Context} (step : Micro hashAction context next)
    (gated : Gated context.run) : Gated next.run := by
  cases step with
  | act found own => exact gated.act found own
  | gate found point => exact gated.gate found point
  | launch wave running live halted =>
    exact ⟨gated.parked, gated.waits, gated.nodup, gated.opened, gated.spent, gated.bounded⟩
  | finish now running halted ended =>
    exact ⟨gated.parked, gated.waits, gated.nodup, gated.opened, gated.spent, gated.bounded⟩
  | cancel running calm =>
    have same : Gated { context.run with cancelRequested := true } :=
      ⟨gated.parked, gated.waits, gated.nodup, gated.opened, gated.spent, gated.bounded⟩
    exact same.release
  | pause now calm =>
    exact ⟨gated.parked, gated.waits, gated.nodup, nofun,
      fun _ => rfl, fun _ _ _ => Nat.zero_le _⟩
  | resume now calm =>
    have released := gated.release
    exact ⟨released.parked, released.waits, released.nodup, released.opened, released.spent,
      released.bounded⟩
  | step now calm => exact gated.step now

theorem newRun_gated (now : Nat) (project : String) (targets : List String)
    (opts : BuildOptions) : Gated (newRun now project targets opts) := by
  refine ⟨by simp [newRun, BuildRun.emit], ?_, List.nodup_nil, fun _ => ⟨rfl, fun _ => rfl⟩,
    by simp [newRun, BuildRun.emit], fun _ _ _ => Nat.zero_le _⟩
  intro name action place present point
  obtain ⟨_, _, step, _, _, rfl⟩ := newRun_origin present
  cases point

theorem gated_after (labels : List Label) {index : Nat} {run : BuildRun}
    (found : (Engine.after hashAction labels).created[index]? = some run) :
    RunInvariant hashAction run ∧ Gated run :=
  Engine.runs_invariant (motive := Gated) newRun_gated (fun _ _ _ step gated => gated.micro step)
    labels found

end SysDeck.Fester
