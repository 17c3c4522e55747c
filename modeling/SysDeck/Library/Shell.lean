import Mathlib.Data.Nat.Notation

/-! Commands of a shell that runs with `errexit` and `pipefail`. A command is told whether a failure
ends the script where it stands. -/

universe u

namespace Shell

/-- How a command ends: it is done, it returns from the function, or it ends the script. -/
inductive Result (State : Type u) where
  | done (status : ℕ) (state : State)
  | returned (status : ℕ) (state : State)
  | exited (status : ℕ) (state : State)
  deriving DecidableEq

abbrev Command (State : Type u) := Bool → State → Result State

variable {State : Type u}

def Result.state : Result State → State
  | .done _ state => state
  | .returned _ state => state
  | .exited _ state => state

/-- A simple command that ended with a status: a failure ends the script where it counts. -/
def settle (strict : Bool) (status : ℕ) (state : State) : Result State :=
  if strict && status != 0 then .exited status state else .done status state

def simple (run : State → ℕ × State) : Command State := fun strict state =>
  let (status, after) := run state
  settle strict status after

/-- A test on the variables. -/
def test (holds : State → Bool) : Command State := simple fun state => (if holds state then 0 else 1, state)

/-- A command that cannot fail. -/
def update (change : State → State) : Command State := simple fun state => (0, change state)

def exit (status : ℕ) : Command State := fun _ state => .exited status state

/-- `return`, after a command with the status. -/
def ret (status : ℕ) : Command State := fun _ state => .returned status state

/-- One command after the other; the status is that of the last. -/
def block : List (Command State) → Command State
  | [] => fun _ state => .done 0 state
  | [last] => last
  | first :: rest => fun strict state =>
    match first strict state with
    | .done _ after => block rest strict after
    | ended => ended

/-- `first && second`: a failure of the first does not count. -/
def both (first second : Command State) : Command State := fun strict state =>
  match first false state with
  | .done 0 after => second strict after
  | ended => ended

/-- `first || second` -/
def either (first second : Command State) : Command State := fun strict state =>
  match first false state with
  | .done 0 after => .done 0 after
  | .done _ after => second strict after
  | ended => ended

/-- `if`, whose condition does not count, and which is done where no branch is taken. -/
def branch (condition yes no : Command State) : Command State := fun strict state =>
  match condition false state with
  | .done 0 after => yes strict after
  | .done _ after => no strict after
  | ended => ended

/-- The call of a function is a simple command. -/
def call (body : Command State) : Command State := fun strict state =>
  match body strict state with
  | .done status after => settle strict status after
  | .returned status after => settle strict status after
  | .exited status after => .exited status after

/-- The status of a pipeline: that of its last command that failed. -/
def pipefail (statuses : List ℕ) : ℕ := (statuses.reverse.find? (· != 0)).getD 0

/-! ### Which commands end the script -/

variable {strict : Bool} {state after : State} {status : ℕ}

theorem settle_failed (failed : status ≠ 0) : settle true status state = .exited status state := by
  simp [settle, failed]

@[simp] theorem settle_zero : settle strict 0 state = .done 0 state := by simp [settle]

@[simp] theorem settle_false : settle false status state = .done status state := by simp [settle]

@[simp] theorem update_run (change : State → State) :
    update change strict state = .done 0 (change state) := settle_zero

theorem block_done {first : Command State} (second : Command State) (rest : List (Command State))
    (done : first strict state = .done status after) :
    block (first :: second :: rest) strict state = block (second :: rest) strict after := by
  simp only [block, done]

theorem block_exited {first : Command State} (rest : List (Command State))
    (ended : first strict state = .exited status after) :
    block (first :: rest) strict state = .exited status after := by
  cases rest with
  | nil => exact ended
  | cons second rest =>
    simp only [block, ended]

/-- A false test at the end of a function fails the call, though not the list it stands in. -/
theorem call_both_false (second : Command State) {holds : State → Bool} (false_ : holds state = false) :
    call (both (test holds) second) true state = .exited 1 state := by
  have list : both (test holds) second true state = .done 1 state := by
    simp [both, test, simple, false_]
  rw [call, list]
  exact settle_failed Nat.one_ne_zero

/-- A pipeline succeeds where all of it does. -/
theorem pipefail_eq_zero_iff {statuses : List ℕ} : pipefail statuses = 0 ↔ ∀ status ∈ statuses, status = 0 := by
  unfold pipefail
  cases found : statuses.reverse.find? (· != 0) with
  | none =>
    simp only [Option.getD_none, true_iff]
    simpa using found
  | some status =>
    have failed : status ≠ 0 := by simpa using List.find?_some found
    have member : status ∈ statuses := by simpa using List.mem_of_find?_eq_some found
    exact iff_of_false failed fun all => failed (all status member)

end Shell
