/-! The event record every state change of the build service flows through. -/

namespace SysDeck.Fester

inductive EventType where
  | nodeUpdate | taskUpdate | pipelineUpdate | cacheUpdate | failure | debug | replay | btcStamp
  deriving DecidableEq, Repr

/-- The JSON values the service puts under `meta`. -/
inductive MetaValue where
  | number (value : Int)
  | text (value : String)
  | names (values : List String)
  deriving DecidableEq, Repr

/-- An event; `none` is an absent property and `metadata` is the source's `meta`.
Timestamps are the clock reading in milliseconds, scores are in tenths. -/
structure FesterEvent where
  type : EventType
  timestamp : Nat
  node : Option String := none
  action : Option String := none
  state : Option String := none
  score : Option Int := none
  reason : Option String := none
  parent : Option String := none
  target : Option String := none
  buildId : Option String := none
  metadata : List (String × MetaValue) := []
  deriving DecidableEq, Repr

/-- `event.meta?.[key]` when it holds an array of strings. -/
def FesterEvent.metaNames (event : FesterEvent) (key : String) : Option (List String) :=
  match event.metadata.lookup key with
  | some (.names values) => some values
  | _ => none

/-- A string used as a condition: the absent and the empty one do not count. -/
def truthy (text : Option String) : Option String := text.filter (· ≠ "")

theorem truthy_eq_some_iff {text : Option String} {value : String} :
    truthy text = some value ↔ text = some value ∧ value ≠ "" := by
  simp [truthy, Option.filter_eq_some_iff]

end SysDeck.Fester
