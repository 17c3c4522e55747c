import SysDeck.Library.OrderedMap

/-! The cluster registry, reduced to the job slots the engine keeps, and the
scheduler's selection loop. Loads, temperatures and scores are double
arithmetic, so the selection takes the score and its order as parameters. -/

namespace SysDeck.Fester

structure NodeState where
  name : String
  offline : Bool := false
  activeJobs : Int := 0
  maxJobs : Nat
  deriving DecidableEq, Repr

abbrev NodeRegistry := OrderedMap String NodeState

/-- The configured cluster, every slot free. -/
def cluster : NodeRegistry where
  entries :=
    [ ("localhost", { name := "localhost", maxJobs := 4 }),
      ("x99-v3", { name := "x99-v3", maxJobs := 24 }),
      ("x99-v4", { name := "x99-v4", maxJobs := 30 }),
      ("rpi-1", { name := "rpi-1", maxJobs := 4 }),
      ("ryzen-1", { name := "ryzen-1", maxJobs := 16 }) ]
  nodup := by decide

/-- `active_jobs: (get(node)?.active_jobs ?? 0) + 1`. -/
def occupy (nodes : NodeRegistry) (node : String) : NodeRegistry :=
  nodes.modify node fun entry => { entry with activeJobs := entry.activeJobs + 1 }

/-- `active_jobs: Math.max(0, (get(node)?.active_jobs ?? 1) - 1)`. -/
def release (nodes : NodeRegistry) (node : String) : NodeRegistry :=
  nodes.modify node fun entry => { entry with activeJobs := max 0 (entry.activeJobs - 1) }

/-- The job count a reader of the registry sees; an unknown node has none. -/
def activeJobs (nodes : NodeRegistry) (node : String) : Int :=
  ((nodes.find? node).map (·.activeJobs)).getD 0

structure ScheduleDecision where
  node : String
  score : Int
  reason : String
  deriving DecidableEq, Repr

theorem activeJobs_occupy {nodes : NodeRegistry} {node : String} (known : node ∈ nodes.keys)
    (other : String) :
    activeJobs (occupy nodes node) other = activeJobs nodes other + if other = node then 1 else 0 := by
  obtain ⟨entry, found⟩ := OrderedMap.mem_keys_iff.mp known
  by_cases same : other = node
  · subst same
    simp [activeJobs, occupy, OrderedMap.find?_modify_self, found]
  · simp [activeJobs, occupy, OrderedMap.find?_modify_ne _ _ same, same]

/-- Below a positive count the clamp of a release never acts. -/
theorem activeJobs_release {nodes : NodeRegistry} {node : String}
    (held : 0 < activeJobs nodes node) (other : String) :
    activeJobs (release nodes node) other = activeJobs nodes other - if other = node then 1 else 0 := by
  by_cases same : other = node
  · subst same
    cases found : nodes.find? other with
    | none => simp [activeJobs, found] at held
    | some entry =>
      simp only [activeJobs, found, Option.map_some, Option.getD_some] at held
      simp only [activeJobs, release, OrderedMap.find?_modify_self, found, Option.map_some,
        Option.getD_some, ↓reduceIte]
      omega
  · simp [activeJobs, release, OrderedMap.find?_modify_ne _ _ same, same]

end SysDeck.Fester
