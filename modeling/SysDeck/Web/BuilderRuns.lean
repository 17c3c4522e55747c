import SysDeck.Library.Execution
import SysDeck.Library.OrderedMap
import SysDeck.Web.Firewall

/-! The runs of the builder bridge: builds with their child processes, while builds are cancelled and
profiles deleted. Every await is a point where another request may go on. -/

namespace SysDeck.Web.BuilderRuns

open Firewall (trim)

inductive RunState where
  | running
  | succeeded
  | failed
  deriving DecidableEq

/-- A row of `SdBuild`, without its id. -/
structure Row where
  profile : String
  state : RunState
  rc : Option ℤ
  deriving DecidableEq

/-- The child of a build. An exit without a code is one by a signal. -/
inductive Child where
  | none
  | running
  | exited (code : Option ℕ)
  | unspawned (errno : ℕ)
  deriving DecidableEq

/-- `proc.exitCode`; the number of an error of spawn is negative. -/
def Child.exitCode : Child → Option ℤ
  | .exited code => code.map Int.ofNat
  | .unspawned errno => some (Int.negSucc errno)
  | .none | .running => Option.none

def Child.isOver : Child → Bool
  | .exited _ | .unspawned _ => true
  | .none | .running => false

/-- What a build awaits, with its id once it has one. -/
inductive Phase where
  | findUnique
  | which
  | create (buildId : String)
  | prepare (buildId : String)
  | spawned (buildId : String)
  | waiting (buildId : String)
  | settled (buildId : String)
  | scan (buildId : String)
  | artifacts (buildId : String)
  | update (buildId : String)
  | audit (buildId : String)
  | returned (buildId : String) (row : Option Row)
  | refused
  | thrown (buildId : String)
  deriving DecidableEq

def Phase.buildId? : Phase → Option String
  | .findUnique | .which | .refused => none
  | .create buildId | .prepare buildId | .spawned buildId | .waiting buildId | .settled buildId | .scan buildId
  | .artifacts buildId | .update buildId | .audit buildId | .returned buildId _ | .thrown buildId => some buildId

/-- The row is there, and its update is to come. -/
def Phase.rowed : Phase → Bool
  | .prepare _ | .spawned _ | .waiting _ | .settled _ | .scan _ | .artifacts _ | .update _ => true
  | _ => false

/-- A build, with what happened to it: a cancel signalled its child, and answered; its row was deleted before
its update, or after; what it stored. -/
structure Build where
  profile : String
  phase : Phase
  child : Child := .none
  rc : ℤ := 1
  cancelled : Bool := false
  signalled : Bool := false
  answered : Bool := false
  deletedEarly : Bool := false
  deletedLate : Bool := false
  stored : Option (RunState × ℤ) := none
  deriving DecidableEq

inductive Cancel where
  | audit (place : ℕ)
  | done

inductive Delete where
  | findUnique (name : String)
  | findMany (name : String)
  | artifacts (name : String) (builds : List String)
  | builds (name : String)
  | profile (name : String)
  | audit
  | done

/-- The process and its tables. `artifacts` has the build of each artifact, `liveProcs` the place of the build
whose child it is. -/
structure State where
  profiles : List String
  rows : OrderedMap String Row
  artifacts : List String
  liveProcs : OrderedMap String ℕ
  builds : List Build
  cancels : List Cancel
  deletes : List Delete

/-- What a build finds when it goes on: the backend on the host, the text of the time, whether the directories
are made, the error of spawn, and whether the scan finds artifacts. -/
structure Input where
  installed : Bool
  ts : String
  prepared : Bool
  spawnError : Option ℕ
  produced : Bool

inductive Event where
  | build (profile : String)
  | cancel (buildId : String)
  | delete (name : String)
  | goOn (place : ℕ) (input : Input)
  | goOnCancel (place : ℕ)
  | goOnDelete (place : ℕ)
  | exit (place : ℕ) (code : Option ℕ)
  | error (place : ℕ)
  | close (place : ℕ)
  | watchdog (place : ℕ)

namespace State

/-! ### Builds -/

def stateOf (cancelled : Bool) (rc : ℤ) : RunState :=
  if cancelled then .failed else if rc = 0 then .succeeded else .failed

/-- A build from one await to the next. -/
def advance (state : State) (place : ℕ) (input : Input) (build : Build) : State × Build :=
  match build.phase with
  | .findUnique =>
    (state, { build with phase := if build.profile ∈ state.profiles then .which else .refused })
  | .which =>
    (state, { build with phase := if input.installed then .create (build.profile ++ "-" ++ input.ts) else .refused })
  | .create buildId =>
    -- The id of a build is unique.
    if (state.rows.find? buildId).isSome then (state, { build with phase := .thrown buildId })
    else
      ({ state with rows := state.rows.set buildId ⟨build.profile, .running, none⟩ },
        { build with phase := .prepare buildId })
  | .prepare buildId =>
    if input.prepared then
      (state,
        { build with
          phase := .spawned buildId
          child := match input.spawnError with
            | none => .running
            | some errno => .unspawned errno })
    else (state, { build with phase := .thrown buildId })
  | .spawned buildId =>
    ({ state with liveProcs := state.liveProcs.set buildId place }, { build with phase := .waiting buildId })
  | .settled buildId =>
    ({ state with liveProcs := state.liveProcs.erase buildId }, { build with phase := .scan buildId })
  | .scan buildId =>
    (state, { build with phase := if input.produced then .artifacts buildId else .update buildId })
  | .artifacts buildId =>
    -- An artifact refers to the row of its build.
    if (state.rows.find? buildId).isSome then
      ({ state with artifacts := state.artifacts ++ [buildId] }, { build with phase := .update buildId })
    else (state, { build with phase := .thrown buildId })
  | .update buildId =>
    if (state.rows.find? buildId).isSome then
      ({ state with
          rows := state.rows.modify buildId fun row =>
            { row with state := stateOf build.cancelled build.rc, rc := some build.rc } },
        { build with
          phase := .audit buildId
          stored := some (stateOf build.cancelled build.rc, build.rc) })
    else (state, { build with phase := .thrown buildId })
  | .audit buildId => (state, { build with phase := .returned buildId (state.rows.find? buildId) })
  | .waiting _ | .returned _ _ | .refused | .thrown _ => (state, build)

def goOn (state : State) (place : ℕ) (input : Input) : State :=
  match state.builds[place]? with
  | none => state
  | some build =>
    let (next, after) := state.advance place input build
    { next with builds := next.builds.set place after }

end State

/-! ### Children -/

/-- The promise of the child settles, once. -/
def Phase.settle : Phase → Phase
  | .waiting buildId => .settled buildId
  | phase => phase

/-- Whether the handlers of the child are there. -/
def Phase.listens : Phase → Bool
  | .waiting _ | .settled _ | .scan _ | .artifacts _ | .update _ | .audit _ | .returned _ _ | .thrown _ => true
  | _ => false

namespace Build

/-- The host ends the child. -/
def exit (code : Option ℕ) (build : Build) : Build :=
  if build.child = .running then { build with child := .exited code } else build

/-- `proc.on('error', …)`, of a child that could not be spawned. -/
def error (build : Build) : Build :=
  match build.child with
  | .unspawned _ =>
    if build.phase.listens then { build with rc := 127, phase := build.phase.settle } else build
  | _ => build

/-- `proc.on('close', …)`, of a child that is over. -/
def close (build : Build) : Build :=
  if build.child.isOver && build.phase.listens then
    { build with rc := build.child.exitCode.getD 1, phase := build.phase.settle }
  else build

/-- The timer, which is cleared when the child settles. -/
def watchdog (build : Build) : Build :=
  match build.phase with
  | .waiting _ => if build.child.exitCode = none then { build with cancelled := true } else build
  | _ => build

/-- The rows of a profile are deleted. -/
def markDeleted (name : String) (build : Build) : Build :=
  if build.profile = name then
    { build with
      deletedEarly := build.deletedEarly || build.phase.rowed
      deletedLate := build.deletedLate || match build.phase with
        | .audit _ => true
        | _ => false }
  else build

end Build

namespace State

/-! ### Cancels and deletes -/

/-- `cancel` up to its first await, past the signal. -/
def cancel (state : State) (buildId : String) : State :=
  let buildId := trim buildId
  if buildId = "" then { state with cancels := state.cancels ++ [.done] }
  else
    match state.liveProcs.find? buildId with
    | none => { state with cancels := state.cancels ++ [.done] }
    | some place =>
      { state with
        builds := state.builds.modify place fun build => { build with signalled := true }
        cancels := state.cancels ++ [.audit place] }

/-- The answer with rc 130. -/
def goOnCancel (state : State) (place : ℕ) : State :=
  match state.cancels[place]? with
  | some (.audit build) =>
    { state with
      builds := state.builds.modify build fun build => { build with answered := true }
      cancels := state.cancels.set place .done }
  | some .done | none => state

def delete (name : String) : Delete := if trim name = "" then .done else .findUnique (trim name)

/-- The loop over the builds of a profile. -/
def loop (name : String) : List String → Delete
  | [] => .builds name
  | build :: rest => .artifacts name (build :: rest)

def buildsOf (state : State) (name : String) : List String :=
  (state.rows.entries.filter fun entry => entry.2.profile = name).map Prod.fst

/-- A delete from one await to the next. -/
def advanceDelete (state : State) : Delete → State × Delete
  | .findUnique name => (state, if name ∈ state.profiles then .findMany name else .done)
  | .findMany name => (state, loop name (state.buildsOf name))
  | .artifacts name builds =>
    ({ state with artifacts := state.artifacts.filter fun build => builds.head? ≠ some build }, loop name builds.tail)
  | .builds name =>
    -- A row that an artifact refers to is not deleted, and with it none is.
    if (state.buildsOf name).any (· ∈ state.artifacts) then (state, .done)
    else
      ({ state with
          rows := state.rows.filter fun _ row => row.profile ≠ name
          builds := state.builds.map (·.markDeleted name) }, .profile name)
  | .profile name =>
    if name ∈ state.profiles then
      ({ state with profiles := state.profiles.filter (· ≠ name) }, .audit)
    else (state, .done)
  | .audit | .done => (state, .done)

def goOnDelete (state : State) (place : ℕ) : State :=
  match state.deletes[place]? with
  | none => state
  | some delete =>
    let (next, after) := state.advanceDelete delete
    { next with deletes := next.deletes.set place after }

/-- `build` up to its first await. -/
def build (profile : String) : Build where
  profile := trim profile
  phase := if trim profile = "" then .refused else .findUnique

def step (state : State) : Event → State
  | .build profile => { state with builds := state.builds ++ [build profile] }
  | .cancel buildId => state.cancel buildId
  | .delete name => { state with deletes := state.deletes ++ [delete name] }
  | .goOn place input => state.goOn place input
  | .goOnCancel place => state.goOnCancel place
  | .goOnDelete place => state.goOnDelete place
  | .exit place code => { state with builds := state.builds.modify place (·.exit code) }
  | .error place => { state with builds := state.builds.modify place (·.error) }
  | .close place => { state with builds := state.builds.modify place (·.close) }
  | .watchdog place => { state with builds := state.builds.modify place (·.watchdog) }

/-- The process as it starts, on its tables. -/
def start (profiles : List String) (rows : OrderedMap String Row) (artifacts : List String) : State where
  profiles := profiles
  rows := rows
  artifacts := artifacts
  liveProcs := .empty
  builds := []
  cancels := []
  deletes := []

end State

/-! ### What the books are to say -/

def Phase.ended : Phase → Bool
  | .returned _ _ | .thrown _ => true
  | _ => false

structure Booked (state : State) : Prop where
  live : ∀ buildId, (state.liveProcs.find? buildId).isSome ↔
    ∃ build ∈ state.builds, build.phase.buildId? = some buildId ∧ build.child = .running
  returned : ∀ build ∈ state.builds, ∀ buildId found, build.phase = .returned buildId found →
    ∃ row, found = some row ∧
      (row.state = .succeeded ↔ build.child = .exited (some 0) ∧ ¬ build.cancelled ∧ ¬ build.signalled)
  cancelled : ∀ build ∈ state.builds, build.answered → build.phase.ended → build.stored = some (.failed, 130)

/-! ### When they do -/

def Phase.registered : Phase → Bool
  | .waiting _ | .settled _ => true
  | _ => false

/-- No build is at a hand-over: its child runs and is not registered yet, or is over and still registered. No
row was deleted between the update of its build and the answer; no child that a cancel signalled exited with
code 0, unless the time was over; and where a cancel has answered, the row was there for the update and the
child exited with code 130. -/
structure Fits (state : State) : Prop where
  settled : ∀ build ∈ state.builds, build.child = .running ↔ build.phase.registered
  returned : ∀ build ∈ state.builds, ∀ buildId found, build.phase = .returned buildId found →
    build.deletedLate = false ∧ (build.child = .exited (some 0) → build.signalled → build.cancelled)
  cancelled : ∀ build ∈ state.builds, build.answered → build.phase.ended →
    build.deletedEarly = false ∧ build.child = .exited (some 130)

/-- A build does not take the id of another: no two builds of a profile come to their ids in one second. -/
def State.Fresh (state : State) : Event → Prop
  | .goOn place input =>
    ∀ build ∈ state.builds[place]?, build.phase = .which →
      ∀ other ∈ state.builds, other.phase.buildId? ≠ some (build.profile ++ "-" ++ input.ts)
  | _ => True

end SysDeck.Web.BuilderRuns
