import SysDeck.Fester.Build
import SysDeck.Library.LongestChain

/-! The critical path of a build: the memoised recursion finds the longest chain of durations, over
every map of actions without a cycle. -/

namespace SysDeck.Fester.CriticalPath

open DependencyOrder (Dependent)
open LongestChain (Chain totals upstream)

def depsOf (actions : OrderedMap String ActionNode) (name : String) : List String :=
  ((actions.find? name).map (·.deps)).getD []

/-- The duration of an action; one that never ran counts nothing. -/
def duration (actions : OrderedMap String ActionNode) (name : String) : Rat :=
  ((actions.find? name).bind (·.durationMs)).getD 0

/-- The longest chain from one of the names takes this time. -/
def Longest (actions : OrderedMap String ActionNode) (heads : List String) (value : Rat) : Prop :=
  IsGreatest (totals (depsOf actions) actions.keys (duration actions) heads) value

/-- What the memo holds is right. -/
def Memoised (actions : OrderedMap String ActionNode) (memo : OrderedMap String Rat) : Prop :=
  ∀ name value, memo.find? name = some value → Longest actions [name] value

/-- One item of a maximum over names, with the memo passed on. -/
def visit (actions : OrderedMap String ActionNode) (fuel : Nat)
    (state : Rat × OrderedMap String Rat) (name : String) : Option (Rat × OrderedMap String Rat) :=
  (path actions fuel name state.2).bind fun found => some (max state.1 found.1, found.2)

variable {actions : OrderedMap String ActionNode}

theorem path_of_memo {memo : OrderedMap String Rat} {name : String} {value : Rat}
    (hit : memo.find? name = some value) (fuel : Nat) :
    path actions (fuel + 1) name memo = some (value, memo) := by
  rw [path, hit]

theorem path_of_absent {memo : OrderedMap String Rat} {name : String}
    (miss : memo.find? name = none) (absent : actions.find? name = none) (fuel : Nat) :
    path actions (fuel + 1) name memo = some (0, memo) := by
  rw [path, miss, absent]

theorem path_of_action {memo : OrderedMap String Rat} {name : String} {action : ActionNode}
    (miss : memo.find? name = none) (found : actions.find? name = some action) (fuel : Nat) :
    path actions (fuel + 1) name memo =
      (action.deps.foldlM (visit actions fuel) (0, memo)).bind fun state =>
        some (state.1 + action.durationMs.getD 0,
          state.2.set name (state.1 + action.durationMs.getD 0)) := by
  rw [path, miss, found]
  rfl

theorem computeCriticalPath_eq (actions : OrderedMap String ActionNode) :
    computeCriticalPath actions =
      ((actions.values.map (·.name)).foldlM (visit actions (actions.size + 1))
        (0, OrderedMap.empty)).bind fun state => some ⌊state.1 + 1 / 2⌋ := by
  rw [List.foldlM_map]
  rfl

theorem memoised_empty (actions : OrderedMap String ActionNode) :
    Memoised actions OrderedMap.empty := by
  intro name value stored
  cases stored

/-- A maximum over names, when each of them is found. -/
theorem foldlM_visit (fuel : Nat) (names : List String)
    (each : ∀ name ∈ names, ∀ memo, Memoised actions memo → ∃ value found,
      path actions fuel name memo = some (value, found) ∧ Memoised actions found ∧
        Longest actions [name] value)
    {heads : List String} {best : Rat} {memo : OrderedMap String Rat}
    (longest : Longest actions heads best) (memoised : Memoised actions memo) :
    ∃ value found, names.foldlM (visit actions fuel) (best, memo) = some (value, found) ∧
      Memoised actions found ∧ Longest actions (heads ++ names) value := by
  induction names generalizing heads best memo with
  | nil => exact ⟨best, memo, rfl, memoised, by rwa [List.append_nil]⟩
  | cons name names ih =>
    obtain ⟨value, found, returned, right, single⟩ := each name List.mem_cons_self memo memoised
    obtain ⟨final, last, rest, kept, whole⟩ :=
      ih (fun other member => each other (List.mem_cons_of_mem _ member))
        (LongestChain.isGreatest_concat longest single) right
    refine ⟨final, last, ?_, kept, ?_⟩
    · have step : visit actions fuel (best, memo) name = some (max best value, found) := by
        rw [visit, returned]
        rfl
      rw [List.foldlM_cons, step]
      exact rest
    · rwa [List.append_assoc, List.singleton_append] at whole

/-- path() finds the longest chain from a name. Its depth is bounded by the actions upstream. -/
theorem path_spec (acyclic : ∀ name, ¬ Dependent (depsOf actions) name name)
    (positive : ∀ name, 0 ≤ duration actions name) (fuel : Nat) (name : String)
    (enough : name ∈ actions.keys →
      (upstream (depsOf actions) actions.keys name).card + 1 < fuel)
    (nonzero : 0 < fuel) (memo : OrderedMap String Rat) (memoised : Memoised actions memo) :
    ∃ value found, path actions fuel name memo = some (value, found) ∧ Memoised actions found ∧
      Longest actions [name] value := by
  induction fuel generalizing name memo with
  | zero => exact absurd nonzero (Nat.lt_irrefl 0)
  | succ fuel ih =>
    cases recorded : memo.find? name with
    | some value =>
      exact ⟨value, memo, path_of_memo recorded fuel, memoised, memoised name value recorded⟩
    | none =>
      cases present : actions.find? name with
      | none =>
        refine ⟨0, memo, path_of_absent recorded present fuel, memoised, ?_⟩
        exact LongestChain.isGreatest_absent (OrderedMap.find?_eq_none_iff.mp present)
      | some action =>
        have node : name ∈ actions.keys := OrderedMap.mem_keys_iff.mpr ⟨action, present⟩
        have bound := enough node
        have deps : depsOf actions name = action.deps := by rw [depsOf, present]; rfl
        have takes : duration actions name = action.durationMs.getD 0 := by
          rw [duration, present, Option.bind_some]
        obtain ⟨best, found, folded, right, longest⟩ :=
          foldlM_visit fuel action.deps (by
            intro dep needed memo right
            rw [← deps] at needed
            refine ih dep (fun inside => ?_) (by omega) memo right
            have fewer := LongestChain.upstream_lt acyclic needed inside
            omega) LongestChain.isGreatest_nil memoised
        rw [List.nil_append, ← deps] at longest
        have total := LongestChain.isGreatest_node node (positive name) longest
        rw [takes] at total
        refine ⟨_, _, by rw [path_of_action recorded present, folded]; rfl, ?_, total⟩
        intro other value stored
        by_cases same : other = name
        · subst same
          rw [OrderedMap.find?_set_self] at stored
          obtain rfl := Option.some.inj stored
          exact total
        · rw [OrderedMap.find?_set_ne _ _ same] at stored
          exact right other value stored

/-- Two actions that wait for a third one, and one of them for a name that is no action. -/
def fork : OrderedMap String ActionNode :=
  OrderedMap.ofList [
    ("fetch", { name := "fetch", command := "", deps := [], durationMs := some 100 }),
    ("docs", { name := "docs", command := "", deps := ["fetch"], durationMs := some 30 }),
    ("compile", { name := "compile", command := "", deps := ["fetch", "sdk"], durationMs := some (801 / 2) }),
    ("stamp", { name := "stamp", command := "", deps := ["docs", "compile"] })]

end SysDeck.Fester.CriticalPath
