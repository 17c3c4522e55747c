import Mathlib.Data.Int.Notation
import SysDeck.Library.Text

/-! `dumpToGzip`: what it makes of the events of the dump tool, of gzip and of its timer. -/

namespace SysDeck.Web.DumpPipe

abbrev Bytes := List UInt8

/-- What its listeners are told; an exit code is none where the process was killed. -/
inductive Event where
  | dumpOutput (chunk : Bytes)
  | dumpStderr (text : List Char)
  | dumpError
  | dumpClose (rc : Option ℤ)
  | gzipError
  | gzipClose (rc : Option ℤ)
  | timeout

structure Pipe where
  stderr : List Char
  done : Bool
  /-- The timer has not been cleared. -/
  armed : Bool
  /-- What gzip has been given on its input, and whether that has ended. -/
  written : Bytes
  ended : Bool
  /-- The listener of gzip's end, with the exit code of the dump. -/
  listener : Option (Option ℤ)
  /-- The calls of `resolve` that count. -/
  settled : List (ℤ × List Char)

def Pipe.spawned : Pipe := ⟨[], false, true, [], false, none, []⟩

/-- The file could not be created. -/
def Pipe.unopened (error : List Char) : Pipe := ⟨[], true, false, [], false, none, [(1, error)]⟩

def acc (stderr text : List Char) : List Char :=
  if 16384 < Text.utf16Length (stderr ++ text) then Text.lastUnits 16384 (stderr ++ text) else stderr ++ text

def Pipe.finish (pipe : Pipe) (rc : ℤ) : Pipe :=
  if pipe.done then pipe
  else { pipe with done := true, armed := false, settled := pipe.settled ++ [(rc, pipe.stderr)] }

/-- The exit code of both: the dump's, where it is not zero. -/
def bothCodes (rc grc : Option ℤ) : ℤ := if rc.getD 1 ≠ 0 then rc.getD 1 else grc.getD 1

def Pipe.handle (pipe : Pipe) : Event → Pipe
  | .dumpOutput chunk => if pipe.ended then pipe else { pipe with written := pipe.written ++ chunk }
  | .dumpStderr text => { pipe with stderr := acc pipe.stderr text }
  | .dumpError => Pipe.finish { pipe with ended := true } 127
  | .dumpClose rc => { pipe with ended := true, listener := some rc }
  | .gzipError => pipe.finish 127
  | .gzipClose grc =>
    match pipe.listener with
    | none => pipe
    | some rc => pipe.finish (bothCodes rc grc)
  | .timeout => if pipe.armed then pipe.finish 124 else pipe

/-- It settles once: not again, and while it has not settled its timer runs. -/
structure Pipe.Once (pipe : Pipe) : Prop where
  settled : pipe.settled.length = if pipe.done then 1 else 0
  armed : pipe.armed = !pipe.done

theorem Pipe.Once.spawned : Pipe.spawned.Once := ⟨rfl, rfl⟩

theorem Pipe.Once.unopened (error : List Char) : (Pipe.unopened error).Once := ⟨rfl, rfl⟩

theorem Pipe.Once.finish {pipe : Pipe} (once : pipe.Once) (rc : ℤ) : (pipe.finish rc).Once := by
  rw [Pipe.finish]
  split
  · exact once
  · next running =>
    have none := once.settled
    rw [if_neg running] at none
    exact ⟨by simp [none], rfl⟩

theorem Pipe.Once.handle {pipe : Pipe} (once : pipe.Once) (event : Event) : (pipe.handle event).Once := by
  cases event with
  | dumpOutput chunk =>
    rw [Pipe.handle]
    split
    · exact once
    · exact ⟨once.settled, once.armed⟩
  | dumpStderr text => exact ⟨once.settled, once.armed⟩
  | dumpError =>
    have ended : Pipe.Once { pipe with ended := true } := ⟨once.settled, once.armed⟩
    exact ended.finish 127
  | dumpClose rc => exact ⟨once.settled, once.armed⟩
  | gzipError => exact once.finish 127
  | gzipClose grc =>
    rw [Pipe.handle]
    split
    · exact once
    · exact once.finish _
  | timeout =>
    rw [Pipe.handle]
    split
    · exact once.finish 124
    · exact once

theorem Pipe.Once.settled_le {pipe : Pipe} (once : pipe.Once) : pipe.settled.length ≤ 1 := by
  rw [once.settled]
  split <;> decide

theorem Pipe.done_finish (pipe : Pipe) (rc : ℤ) : (pipe.finish rc).done = true := by
  rw [Pipe.finish]
  split
  · assumption
  · rfl

@[simp] theorem Pipe.listener_finish (pipe : Pipe) (rc : ℤ) : (pipe.finish rc).listener = pipe.listener := by
  rw [Pipe.finish]
  split <;> rfl

theorem Pipe.settled_finish (pipe : Pipe) (rc : ℤ) :
    (pipe.finish rc).settled = pipe.settled ∨ (pipe.finish rc).settled = pipe.settled ++ [(rc, pipe.stderr)] := by
  rw [Pipe.finish]
  split
  · exact .inl rfl
  · exact .inr rfl

/-- The timer settles what nothing else has. -/
theorem Pipe.Once.timeout {pipe : Pipe} (once : pipe.Once) : (pipe.handle .timeout).settled.length = 1 := by
  have done : (pipe.handle .timeout).done = true := by
    rw [Pipe.handle]
    split
    · exact pipe.done_finish 124
    · next cleared =>
      have armed := once.armed
      rw [Bool.eq_false_iff.mpr cleared] at armed
      simpa using armed.symm
  rw [(once.handle .timeout).settled, done]
  rfl

theorem bothCodes_eq_zero {rc grc : Option ℤ} (zero : bothCodes rc grc = 0) : rc = some 0 ∧ grc = some 0 := by
  have code {code : Option ℤ} (zero : code.getD 1 = 0) : code = some 0 := by
    cases code with
    | none => cases zero
    | some code => exact congrArg some zero
  rw [bothCodes] at zero
  split at zero
  · next failed => exact absurd zero failed
  · next succeeded => exact ⟨code (not_not.mp succeeded), code zero⟩

end SysDeck.Web.DumpPipe
