import Mathlib.Data.List.Nodup
import SysDeck.Library.Separator

/-! The build steps of one target of a project. Every build the engine runs is
assembled from these lists, so its action graph is known from the names. -/

namespace SysDeck.Fester

/-- One generated step: its action name, its command and the names it waits for. -/
structure BuildStep where
  name : String
  command : String
  deps : List String
  deriving DecidableEq, Repr

/-- `${project}:${targetName}:${step}`. -/
def stepName (project targetName step : String) : String :=
  project ++ ":" ++ targetName ++ ":" ++ step

/-- fetch → toolchain → configure → compile → test → package → stamp. -/
def stepsFor (project targetName : String) : List BuildStep :=
  let named := stepName project targetName
  [ { name := named "fetch", command := "git clone --depth 1", deps := [] },
    { name := named "toolchain", command := "btc --verify golden-image", deps := [named "fetch"] },
    { name := named "configure", command := "./configure --prefix=/usr", deps := [named "toolchain"] },
    { name := named "compile", command := "make -j$(nproc)", deps := [named "configure"] },
    { name := named "test", command := "make check", deps := [named "compile"] },
    { name := named "package", command := "make package", deps := [named "compile", named "test"] },
    { name := named "stamp", command := "btc --stamp outputs", deps := [named "package"] } ]

/-- The last component of the generated names, in build order. -/
def stages : List String :=
  ["fetch", "toolchain", "configure", "compile", "test", "package", "stamp"]

theorem names_stepsFor (project targetName : String) :
    (stepsFor project targetName).map (·.name) = stages.map (stepName project targetName) := rfl

theorem stage_colonFree {stage : String} (member : stage ∈ stages) : ':' ∉ stage.toList := by
  revert stage
  decide

/-- A generated name determines its target and its stage. -/
theorem stepName_inj {project target target' stage stage' : String} (member : stage ∈ stages)
    (member' : stage' ∈ stages) (same : stepName project target stage = stepName project target' stage') :
    target = target' ∧ stage = stage' := by
  obtain ⟨stems, stagesEq⟩ := Separator.join_last_inj ':' rfl (stage_colonFree member)
    (stage_colonFree member') same
  exact ⟨by simpa using stems, stagesEq⟩

theorem mem_stepsFor {project target : String} {step : BuildStep}
    (member : step ∈ stepsFor project target) :
    ∃ stage ∈ stages, step.name = stepName project target stage := by
  have named : step.name ∈ (stepsFor project target).map (·.name) :=
    List.mem_map.mpr ⟨step, member, rfl⟩
  rw [names_stepsFor] at named
  obtain ⟨stage, listed, same⟩ := List.mem_map.mp named
  exact ⟨stage, listed, same.symm⟩

theorem nodup_names_stepsFor (project target : String) :
    ((stepsFor project target).map (·.name)).Nodup := by
  rw [names_stepsFor]
  refine List.Nodup.map_on ?_ (by decide)
  intro stage member stage' member' same
  exact (stepName_inj member member' same).2

/-- Over all targets of a project, a step is determined by its name. -/
theorem stepsFor_unique {project target target' : String} {step step' : BuildStep}
    (member : step ∈ stepsFor project target) (member' : step' ∈ stepsFor project target')
    (same : step.name = step'.name) : step = step' := by
  obtain ⟨stage, listed, named⟩ := mem_stepsFor member
  obtain ⟨stage', listed', named'⟩ := mem_stepsFor member'
  obtain ⟨targets, _⟩ := stepName_inj listed listed' (named.symm.trans (same.trans named'))
  subst target'
  exact List.inj_on_of_nodup_map (nodup_names_stepsFor project target) member member' same

/-- Each step finds its dependencies among the known names or the steps before it. -/
def Grounded : List String → List BuildStep → Prop
  | _, [] => True
  | known, step :: rest =>
    (∀ dep ∈ step.deps, dep ∈ known) ∧ Grounded (known ++ [step.name]) rest

theorem Grounded.append {known : List String} {first second : List BuildStep}
    (grounded : Grounded known first) (later : Grounded (known ++ first.map (·.name)) second) :
    Grounded known (first ++ second) := by
  induction first generalizing known with
  | nil => simpa using later
  | cons step rest ih => exact ⟨grounded.1, ih grounded.2 (by simpa using later)⟩

theorem grounded_stepsFor (known : List String) (project target : String) :
    Grounded known (stepsFor project target) := by
  simp [stepsFor, Grounded]

theorem grounded_targets (known : List String) (project : String) (targets : List String) :
    Grounded known (targets.flatMap (stepsFor project)) := by
  induction targets generalizing known with
  | nil => trivial
  | cons target rest ih =>
    rw [List.flatMap_cons]
    exact (grounded_stepsFor known project target).append (ih _)

end SysDeck.Fester
