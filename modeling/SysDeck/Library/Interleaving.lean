import Mathlib.Data.Nat.Notation
import SysDeck.Library.Execution

/-! Requests that run at the same time on one thread. A request runs by itself up to the next await,
and any of those that wait may go on next. -/

universe u v w x

namespace Interleaving

/-- What the requests share, and what each of them waits for, in the order in which they came. -/
structure Server (Shared : Type u) (Phase : Type v) where
  shared : Shared
  phases : List Phase
  deriving DecidableEq

/-- A request comes, or the one at a place goes on, with what the outside has answered it. -/
inductive Event (Request : Type w) (Input : Type x) where
  | arrive (request : Request)
  | resume (place : ℕ) (input : Input)

/-- How a request begins, up to its first await, and how it goes on from one await to the next. -/
structure Program (Shared : Type u) (Phase : Type v) (Request : Type w) (Input : Type x) where
  start : Shared → Request → Shared × Phase
  resume : Input → Shared → Phase → Shared × Phase

variable {Shared : Type u} {Phase : Type v} {Request : Type w} {Input : Type x}

namespace Program

def step (program : Program Shared Phase Request Input) (server : Server Shared Phase) :
    Event Request Input → Server Shared Phase
  | .arrive request =>
    let (shared, phase) := program.start server.shared request
    ⟨shared, server.phases ++ [phase]⟩
  | .resume place input =>
    match server.phases[place]? with
    | none => server
    | some phase =>
      let (shared, next) := program.resume input server.shared phase
      ⟨shared, server.phases.set place next⟩

variable {program : Program Shared Phase Request Input} {server : Server Shared Phase}

theorem step_missing {place : ℕ} (missing : server.phases[place]? = none) (input : Input) :
    program.step server (.resume place input) = server := by
  rw [step, missing]

theorem step_resume {place : ℕ} {phase : Phase} (found : server.phases[place]? = some phase)
    (input : Input) : program.step server (.resume place input) =
      ⟨(program.resume input server.shared phase).1,
        server.phases.set place (program.resume input server.shared phase).2⟩ := by
  rw [step, found]

end Program

/-- What is asked of a request that goes on. -/
def Resuming (Allowed : Input → Shared → Phase → Prop) (server : Server Shared Phase) :
    Event Request Input → Prop
  | .arrive _ => True
  | .resume place input => ∀ phase ∈ server.phases[place]?, Allowed input server.shared phase

instance decidableResuming {Allowed : Input → Shared → Phase → Prop}
    [decidable : ∀ input shared phase, Decidable (Allowed input shared phase)]
    (server : Server Shared Phase) :
    ∀ event : Event Request Input, Decidable (Resuming Allowed server event)
  | .arrive _ => .isTrue trivial
  | .resume place input =>
    inferInstanceAs (Decidable (∀ phase ∈ server.phases[place]?, Allowed input server.shared phase))

section Resuming

variable {Allowed : Input → Shared → Phase → Prop} {server : Server Shared Phase} {place : ℕ}

theorem resuming_iff {phase : Phase} (found : server.phases[place]? = some phase) (input : Input) :
    Resuming Allowed server (.resume place input : Event Request Input) ↔
      Allowed input server.shared phase := by
  refine ⟨fun allowed => allowed phase found, fun allowed other found' => ?_⟩
  rw [found, Option.mem_def, Option.some.injEq] at found'
  exact found' ▸ allowed

theorem resuming_missing (missing : server.phases[place]? = none) (input : Input) :
    Resuming Allowed server (.resume place input : Event Request Input) := by
  intro phase found
  rw [missing] at found
  cases found

theorem resuming_of_forall (all : ∀ input shared phase, Allowed input shared phase) :
    ∀ event : Event Request Input, Resuming Allowed server event
  | .arrive _ => trivial
  | .resume _ input => fun phase _ => all input server.shared phase

end Resuming

/-- The invariant of what is shared, and what holds of a request as long as it waits. -/
def Holds (Inv : Shared → Prop) (Local : Shared → Phase → Prop) (server : Server Shared Phase) : Prop :=
  Inv server.shared ∧ ∀ phase ∈ server.phases, Local server.shared phase

/-- Each request keeps the invariant and what holds of itself, and does not disturb the others. -/
structure Keeps (program : Program Shared Phase Request Input) (Inv : Shared → Prop)
    (Local : Shared → Phase → Prop) (Allowed : Input → Shared → Phase → Prop) : Prop where
  start : ∀ {shared request}, Inv shared → Inv (program.start shared request).1 ∧
    Local (program.start shared request).1 (program.start shared request).2
  spared : ∀ {shared request other}, Inv shared → Local shared other →
    Local (program.start shared request).1 other
  resume : ∀ {input shared phase}, Allowed input shared phase → Inv shared → Local shared phase →
    Inv (program.resume input shared phase).1 ∧
      Local (program.resume input shared phase).1 (program.resume input shared phase).2
  stable : ∀ {input shared phase other}, Allowed input shared phase → Inv shared → Local shared phase →
    Local shared other → Local (program.resume input shared phase).1 other

namespace Keeps

variable {program : Program Shared Phase Request Input} {Inv : Shared → Prop}
  {Local : Shared → Phase → Prop} {Allowed : Input → Shared → Phase → Prop}

theorem step (keeps : Keeps program Inv Local Allowed) {server : Server Shared Phase}
    {event : Event Request Input} (allowed : Resuming Allowed server event)
    (holds : Holds Inv Local server) : Holds Inv Local (program.step server event) := by
  obtain ⟨inv, waits⟩ := holds
  cases event with
  | arrive request =>
    obtain ⟨kept, own⟩ : Inv (program.start server.shared request).1 ∧
        Local (program.start server.shared request).1 (program.start server.shared request).2 :=
      keeps.start inv
    refine ⟨kept, fun phase member => ?_⟩
    rcases List.mem_append.mp member with old | new
    · exact keeps.spared inv (waits phase old)
    · rw [List.mem_singleton.mp new]
      exact own
  | resume place input =>
    cases found : server.phases[place]? with
    | none =>
      rw [Program.step_missing found]
      exact ⟨inv, waits⟩
    | some phase =>
      have fits := allowed phase found
      have own := waits phase (List.mem_of_getElem? found)
      obtain ⟨kept, goesOn⟩ := keeps.resume fits inv own
      rw [Program.step_resume found]
      refine ⟨kept, fun other member => ?_⟩
      rcases List.mem_or_eq_of_mem_set member with old | rfl
      · exact keeps.stable fits inv own (waits other old)
      · exact goesOn

end Keeps

end Interleaving
