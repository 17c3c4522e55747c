import SysDeck.Fester.Runs

/-! Build identity: an id is the project and the millisecond clock, so ids are
distinct exactly when no project is built twice within one millisecond. -/

namespace SysDeck.Fester

variable {hashAction : HashedAction → String}

/-- The letters of toString(36). -/
def letters36 : List Char := "0123456789abcdefghijklmnopqrstuvwxyz".toList

/-- The values of the digits toString(36) writes, the leading one first. -/
def values36 (n : Nat) : List Nat := if n = 0 then [0] else (Nat.digits 36 n).reverse

theorem toList_base36 (n : Nat) :
    (base36 n).toList = (values36 n).map fun value => letters36.getD value '0' := by
  by_cases zero : n = 0
  · subst zero
    exact of_decide_eq_true rfl
  · simp only [base36, values36, zero, ↓reduceIte, String.toList_ofList]
    rfl

theorem values36_lt {n value : Nat} (member : value ∈ values36 n) : value < 36 := by
  unfold values36 at member
  split at member
  · rw [List.mem_singleton.mp member]
    decide
  · exact Nat.digits_lt_base (by decide) (List.mem_reverse.mp member)

theorem letters36_dashFree (value : Fin 36) : letters36.getD value '0' ≠ '-' := by
  revert value
  exact of_decide_eq_true rfl

theorem letters36_idxOf (value : Fin 36) :
    letters36.idxOf (letters36.getD value '0') = value.val := by
  revert value
  exact of_decide_eq_true rfl

theorem base36_dashFree (n : Nat) : '-' ∉ (base36 n).toList := by
  rw [toList_base36]
  intro member
  obtain ⟨value, listed, dash⟩ := List.mem_map.mp member
  exact letters36_dashFree ⟨value, values36_lt listed⟩ dash

/-- The written digits determine the number. -/
theorem base36_injective : Function.Injective base36 := by
  have read : ∀ n, Nat.ofDigits 36
      ((base36 n).toList.map fun letter => letters36.idxOf letter).reverse = n := by
    intro n
    have values : ((base36 n).toList.map fun letter => letters36.idxOf letter) = values36 n := by
      rw [toList_base36, List.map_map]
      conv_rhs => rw [← List.map_id (values36 n)]
      apply List.map_congr_left
      intro value member
      exact letters36_idxOf ⟨value, values36_lt member⟩
    rw [values, values36]
    split
    · rename_i zero
      rw [zero]
      rfl
    · rw [List.reverse_reverse, Nat.ofDigits_digits]
  intro first second same
  rw [← read first, ← read second, same]

/-- An id determines the project and the clock reading, dashes in the project or not. -/
theorem newBuildId_inj {project project' : String} {now now' : Nat}
    (same : newBuildId project now = newBuildId project' now') : project = project' ∧ now = now' := by
  obtain ⟨projects, clocks⟩ :=
    Separator.join_last_inj '-' rfl (base36_dashFree now) (base36_dashFree now') same
  exact ⟨projects, base36_injective clocks⟩

/-- The project and the clock reading of every startBuild call, in order. -/
def buildCalls (labels : List Label) : List (String × Nat) := labels.filterMap Label.call?

/-- The id startBuild returns for a call. -/
def callId (call : String × Nat) : String := newBuildId call.1 call.2

theorem callId_injective : Function.Injective callId := by
  rintro ⟨project, now⟩ ⟨project', now'⟩ same
  obtain ⟨rfl, rfl⟩ := newBuildId_inj same
  rfl

/-- The ids of the runs ever created, in order. -/
def Engine.buildIds (engine : Engine) : List String := engine.created.map (·.buildId)

/-- The final update of a run finds or misses its row, and adds none. -/
theorem Micro.settled_keys {context next : Context} (step : Micro hashAction context next) :
    next.store.settled.keys = context.store.settled.keys := by
  rcases step.log with ⟨_, _, _, _, same⟩ | ⟨now, rfl, _⟩
  · rw [same]
  · simp [finishRun, Store.updateBuild, BuildWrite.apply]

theorem Moves.settled_keys {context next : Context} (moves : Moves hashAction context next) :
    next.store.settled.keys = context.store.settled.keys := by
  induction moves with
  | refl => rfl
  | tail _ step ih => rw [step.settled_keys, ih]

/-- While no id repeats, the id map and the builds table hold every run. -/
structure Engine.Kept (engine : Engine) : Prop where
  mapped : ∀ (index : Nat) (run : BuildRun), engine.created[index]? = some run →
    engine.runs.find? run.buildId = some index
  rows : engine.store.settled.keys = engine.buildIds

/-- The ids follow the calls, and are kept while they do not repeat. -/
structure Recorded (labels : List Label) (engine : Engine) : Prop where
  ids : engine.buildIds = (buildCalls labels).map callId
  kept : engine.buildIds.Nodup → engine.Kept

theorem Engine.buildIds_update {engine : Engine} {index : Nat} {run : BuildRun}
    (found : engine.created[index]? = some run) {next : Context}
    (same : next.run.buildId = run.buildId) :
    (engine.update index next).buildIds = engine.buildIds := by
  apply List.ext_getElem?
  intro other
  simp only [buildIds, List.getElem?_map, Engine.getElem?_update found]
  split
  · rename_i here
    subst here
    simp [found, same]
  · rfl

theorem EngineStep.recorded {labels : List Label} {label : Label} {next : Engine}
    (move : EngineStep hashAction (Engine.after hashAction labels) label next)
    (recorded : Recorded labels (Engine.after hashAction labels)) :
    Recorded (labels ++ [label]) next := by
  generalize Engine.after hashAction labels = engine at move recorded
  have calls : buildCalls (labels ++ [label]) = buildCalls labels ++ label.call?.toList := by
    cases call : label.call? <;> simp [buildCalls, call]
  cases move with
  | still quiet store same =>
    refine ⟨?_, fun nodup => ?_⟩
    · rw [calls, quiet, Option.toList_none, List.append_nil]
      exact recorded.ids
    · obtain ⟨mapped, rows⟩ := recorded.kept nodup
      exact ⟨mapped, by rw [same]; exact rows⟩
  | @run quiet index run next found _ moves =>
    have ids := Engine.buildIds_update found moves.frame.buildId
    refine ⟨?_, fun nodup => ?_⟩
    · rw [calls, quiet, ids]
      simpa using recorded.ids
    · rw [ids] at nodup
      obtain ⟨mapped, rows⟩ := recorded.kept nodup
      refine ⟨?_, ?_⟩
      · intro other result present
        rw [Engine.getElem?_update found] at present
        split at present
        · rename_i here
          obtain rfl := Option.some.inj present
          rw [here, moves.frame.buildId]
          exact mapped index run found
        · exact mapped other result present
      · rw [ids]
        exact moves.settled_keys.trans rows
  | @start now project targets opts next call _ moves =>
    have named : next.run.buildId = newBuildId project now := moves.frame.buildId
    have ids : engine.buildIds ++ [newBuildId project now] =
        (engine.created ++ [next.run]).map (·.buildId) := by
      simp [Engine.buildIds, named]
    refine ⟨?_, fun nodup => ?_⟩
    · rw [calls, call]
      simp only [Engine.buildIds, ← ids, Label.call?, Option.toList_some, List.map_append,
        List.map_singleton]
      rw [← recorded.ids]
      rfl
    · simp only [Engine.buildIds, ← ids] at nodup
      obtain ⟨old, _, apart⟩ := List.nodup_append.mp nodup
      have fresh : newBuildId project now ∉ engine.buildIds := fun member =>
        apart _ member _ (by simp) rfl
      obtain ⟨mapped, rows⟩ := recorded.kept old
      refine ⟨?_, ?_⟩
      · intro other result present
        change (engine.runs.set (newBuildId project now) engine.created.length).find? _ = _
        rcases getElem?_concat_cases present with before | ⟨rfl, rfl⟩
        · have differ : result.buildId ≠ newBuildId project now := by
            intro same
            exact fresh (same ▸ List.mem_map.mpr ⟨result, List.mem_of_getElem? before, rfl⟩)
          rw [OrderedMap.find?_set_ne _ _ differ]
          exact mapped other result before
        · rw [named, OrderedMap.find?_set_self]
      · have absent : engine.store.settled.find? (newBuildId project now) = none := by
          rw [OrderedMap.find?_eq_none_iff, rows]
          exact fresh
        rw [Engine.buildIds, ← ids, moves.settled_keys, ← rows]
        simp only [startContext, Engine.context, Store.updateBuild, Store.createBuild,
          Store.settled_write, BuildWrite.apply, OrderedMap.keys_modify]
        exact OrderedMap.keys_set_of_absent _ absent

theorem recorded_after (hashAction : HashedAction → String) (labels : List Label) :
    Recorded labels (Engine.after hashAction labels) :=
  Engine.invariant_after (motive := Recorded)
    ⟨rfl, fun _ => ⟨fun index run found => by simp [Engine.init] at found, rfl⟩⟩
    (fun _ _ _ move recorded => move.recorded recorded) labels

/-- Ids are distinct, every run is the one its id names, and every run has its own
row in the builds table. -/
structure Engine.Identified (engine : Engine) : Prop where
  distinct : engine.buildIds.Nodup
  reachable : ∀ (index : Nat) (run : BuildRun), engine.created[index]? = some run →
    engine.lookup run.buildId = some (index, run)
  rows : engine.store.settled.keys = engine.buildIds

/-- The returned ids are those of the calls, and builds keep their identity exactly
when no two calls name the same project in the same millisecond. -/
theorem build_identity (hashAction : HashedAction → String) (labels : List Label) :
    (Engine.after hashAction labels).buildIds = (buildCalls labels).map callId ∧
      ((Engine.after hashAction labels).Identified ↔ (buildCalls labels).Nodup) := by
  obtain ⟨ids, kept⟩ := recorded_after hashAction labels
  refine ⟨ids, ?_, ?_⟩
  · rintro ⟨distinct, _, _⟩
    rw [ids] at distinct
    exact distinct.of_map callId
  · intro nodup
    have distinct : (Engine.after hashAction labels).buildIds.Nodup := by
      rw [ids]
      exact nodup.map callId_injective
    obtain ⟨mapped, rows⟩ := kept distinct
    refine ⟨distinct, ?_, rows⟩
    intro index run found
    simp [Engine.lookup, mapped index run found, found]

/-- Two builds of one project in one millisecond. -/
def collidingBuilds : List Label :=
  [.startBuild 1700000000000 "nginx" ["main"] {}, .startBuild 1700000000000 "nginx" ["main"] {}]

/-- They share an id: the first run is still running, but cancelBuild and the
debugger reach the second one, and the builds table holds one row for both. -/
theorem build_identity_collision :
    let engine := Engine.after HashedAction.name collidingBuilds
    ¬ engine.buildIds.Nodup ∧
      (engine.created[0]?).any (fun run => run.state = .running &&
        (engine.lookup run.buildId).any fun entry => entry.1 = 1) = true ∧
      engine.store.settled.size = 1 := by
  decide

end SysDeck.Fester
