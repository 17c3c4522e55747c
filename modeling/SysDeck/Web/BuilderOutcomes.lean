import SysDeck.Web.BuilderBooks

/-! When the builder's books are right: its map of live children, and what it stores of a build. -/

namespace SysDeck.Web.BuilderRuns

open Execution (Along run)

/-! ### Codes and states -/

theorem Child.Notes.zero_iff {child : Child} {rc : ℤ} (notes : child.Notes rc) :
    rc = 0 ↔ child = .exited (some 0) := by
  cases child with
  | none | running => exact notes.elim
  | exited code =>
    obtain rfl : rc = _ := notes
    cases code <;> simp
  | unspawned errno => rcases notes with rfl | rfl <;> simp

theorem Child.Notes.interrupted_iff {child : Child} {rc : ℤ} (notes : child.Notes rc) :
    rc = 130 ↔ child = .exited (some 130) := by
  cases child with
  | none | running => exact notes.elim
  | exited code =>
    obtain rfl : rc = _ := notes
    cases code with
    | none => simp
    | some code =>
      simp only [Option.map_some, Option.getD_some, Int.ofNat_eq_natCast, Child.exited.injEq, Option.some.injEq]
      omega
  | unspawned errno => rcases notes with rfl | rfl <;> simp

theorem State.stateOf_succeeded_iff (cancelled : Bool) (rc : ℤ) :
    State.stateOf cancelled rc = .succeeded ↔ ¬ cancelled ∧ rc = 0 := by
  cases cancelled <;> by_cases zero : rc = 0 <;> simp [State.stateOf, zero]

theorem State.stateOf_of_ne_zero (cancelled : Bool) {rc : ℤ} (nonzero : rc ≠ 0) :
    State.stateOf cancelled rc = .failed := by
  cases cancelled <;> simp [State.stateOf, nonzero]

/-! ### The three books -/

variable {state : State} {build : Build}

theorem Inv.live_iff (inv : Inv state) :
    (∀ buildId, (state.liveProcs.find? buildId).isSome ↔
      ∃ build ∈ state.builds, build.phase.buildId? = some buildId ∧ build.child = .running) ↔
      ∀ build ∈ state.builds, build.child = .running ↔ build.phase.registered := by
  -- The entry of a build says whether it is registered.
  have entry {place : ℕ} {build : Build} {buildId : String} (found : state.builds[place]? = some build)
      (own : build.phase.buildId? = some buildId) :
      (state.liveProcs.find? buildId).isSome ↔ build.phase.registered := by
    rw [(inv.holds place build found).entry buildId own]
    split
    next registered => exact iff_of_true rfl registered
    next out => exact iff_of_false nofun out
  have named {build : Build} (registered : build.phase.registered) : ∃ buildId, build.phase.buildId? = some buildId := by
    cases phase : build.phase with
    | waiting buildId | settled buildId => exact ⟨buildId, rfl⟩
    | _ =>
      rw [phase] at registered
      cases registered
  constructor
  · intro live build member
    obtain ⟨place, found⟩ := List.mem_iff_getElem?.mp member
    constructor
    · intro running
      obtain ⟨buildId, phase⟩ := (inv.holds place build found).running running
      have own : build.phase.buildId? = some buildId := by rcases phase with phase | phase <;> rw [phase] <;> rfl
      exact (entry found own).mp ((live buildId).mpr ⟨build, member, own, running⟩)
    · intro registered
      obtain ⟨buildId, own⟩ := named registered
      obtain ⟨other, there, own', running⟩ := (live buildId).mp ((entry found own).mpr registered)
      obtain ⟨second, found'⟩ := List.mem_iff_getElem?.mp there
      obtain rfl := inv.distinct place second build other buildId found found' own own'
      obtain rfl := Option.some.inj (found.symm.trans found')
      exact running
  · intro settled buildId
    constructor
    · intro listed
      obtain ⟨place, listed⟩ := Option.isSome_iff_exists.mp listed
      obtain ⟨build, found, registered, own⟩ := inv.owners buildId place listed
      have member := List.mem_of_getElem? found
      exact ⟨build, member, own, (settled build member).mpr registered⟩
    · rintro ⟨build, member, own, running⟩
      obtain ⟨place, found⟩ := List.mem_iff_getElem?.mp member
      exact (entry found own).mpr ((settled build member).mp running)

theorem Inv.stored (inv : Inv state) (member : build ∈ state.builds) {buildId : String} {found : Option Row}
    (phase : build.phase = .returned buildId found) : ∃ rc, build.Stored found rc := by
  obtain ⟨place, here⟩ := List.mem_iff_getElem?.mp member
  have proceeds := (inv.holds place build here).proceeds
  rw [Build.Proceeds, phase] at proceeds
  exact proceeds

theorem Inv.returned_iff (inv : Inv state) (member : build ∈ state.builds) {buildId : String} {found : Option Row}
    (phase : build.phase = .returned buildId found) :
    (∃ row, found = some row ∧
      (row.state = .succeeded ↔ build.child = .exited (some 0) ∧ ¬ build.cancelled ∧ ¬ build.signalled)) ↔
      build.deletedLate = false ∧ (build.child = .exited (some 0) → build.signalled → build.cancelled) := by
  obtain ⟨rc, stored⟩ := inv.stored member phase
  rw [stored.row]
  cases late : build.deletedLate with
  | true => simp
  | false =>
    simp only [Bool.false_eq_true, ite_false, Option.some.injEq, exists_eq_left', State.stateOf_succeeded_iff,
      stored.notes.zero_iff, true_and]
    tauto

theorem Inv.cancelled_iff (inv : Inv state) (member : build ∈ state.builds) (answered : build.answered)
    (ended : build.phase.ended) :
    build.stored = some (.failed, 130) ↔ build.deletedEarly = false ∧ build.child = .exited (some 130) := by
  cases phase : build.phase with
  | returned buildId found =>
    obtain ⟨rc, stored⟩ := inv.stored member phase
    rw [stored.stored, ← stored.notes.interrupted_iff]
    constructor
    · intro same
      exact ⟨stored.early, congrArg Prod.snd (Option.some.inj same)⟩
    · rintro ⟨-, rfl⟩
      rw [State.stateOf_of_ne_zero _ (by decide)]
  | thrown buildId =>
    obtain ⟨place, here⟩ := List.mem_iff_getElem?.mp member
    have proceeds := (inv.holds place build here).proceeds
    rw [Build.Proceeds, phase] at proceeds
    obtain ⟨-, deleted, stored⟩ := proceeds
    rw [stored, deleted (inv.answered build member answered)]
    exact iff_of_false (by simp) (by simp)
  | _ =>
    rw [phase] at ended
    cases ended

/-! ### Every run -/

/-- In every run where no build takes the id of another, the books are right in just the states that fit. -/
theorem booked_iff_fits (profiles : List String) (rows : OrderedMap String Row) (artifacts : List String)
    (events : List Event) (fresh : Along State.step State.Fresh (.start profiles rows artifacts) events) :
    Booked (run State.step (.start profiles rows artifacts) events) ↔
      Fits (run State.step (.start profiles rows artifacts) events) := by
  have inv := Inv.run profiles rows artifacts fresh
  constructor
  · intro booked
    refine ⟨inv.live_iff.mp booked.live, ?_, ?_⟩
    · intro build member buildId found phase
      exact (inv.returned_iff member phase).mp (booked.returned build member buildId found phase)
    · intro build member answered ended
      exact (inv.cancelled_iff member answered ended).mp (booked.cancelled build member answered ended)
  · intro fits
    refine ⟨inv.live_iff.mpr fits.settled, ?_, ?_⟩
    · intro build member buildId found phase
      exact (inv.returned_iff member phase).mpr (fits.returned build member buildId found phase)
    · intro build member answered ended
      exact (inv.cancelled_iff member answered ended).mpr (fits.cancelled build member answered ended)

instance decidableFresh (state : State) : ∀ event, Decidable (state.Fresh event)
  | .goOn place input =>
    inferInstanceAs (Decidable (∀ build ∈ state.builds[place]?, build.phase = .which →
      ∀ other ∈ state.builds, other.phase.buildId? ≠ some (build.profile ++ "-" ++ input.ts)))
  | .build _ | .cancel _ | .delete _ | .goOnCancel _ | .goOnDelete _ | .exit _ _ | .error _ | .close _
  | .watchdog _ => .isTrue trivial

/-- On a host that builds, at a second of one minute. -/
def atSecond (second : String) : Input := ⟨true, "2026-01-01-00-00-" ++ second, true, none, false⟩

/-- A build up to the wait for its child. -/
def spawns (place : ℕ) (second : String) : List Event :=
  .build "web" :: List.replicate 5 (.goOn place (atSecond second))

/-- The wait is over, and the build returns. -/
def returns (place : ℕ) (second : String) : List Event :=
  .close place :: List.replicate 4 (.goOn place (atSecond second))

/-- One build whose child exits with code 0, and one that is cancelled, and whose child exits with code 130. -/
def twoBuilds : List Event :=
  spawns 0 "00" ++ [.exit 0 (some 0)] ++ returns 0 "00" ++ spawns 1 "09" ++
    [.cancel "web-2026-01-01-00-00-09", .goOnCancel 0, .exit 1 (some 130)] ++ returns 1 "09"

theorem booked_iff_fits_twoBuilds :
    Along State.step State.Fresh (.start ["web"] .empty []) twoBuilds ∧
      Booked (run State.step (.start ["web"] .empty []) twoBuilds) := by
  have fresh : Along State.step State.Fresh (.start ["web"] .empty []) twoBuilds := by decide +kernel
  refine ⟨fresh, (booked_iff_fits ["web"] .empty [] twoBuilds fresh).mpr ?_⟩
  have builds : (run State.step (.start ["web"] .empty []) twoBuilds).builds =
      [⟨"web", .returned "web-2026-01-01-00-00-00" (some ⟨"web", .succeeded, some 0⟩), .exited (some 0), 0, false,
        false, false, false, false, some (.succeeded, 0)⟩,
      ⟨"web", .returned "web-2026-01-01-00-00-09" (some ⟨"web", .failed, some 130⟩), .exited (some 130), 130, false,
        true, true, false, false, some (.failed, 130)⟩] := by
    decide +kernel
  refine ⟨?_, ?_, ?_⟩
  · rw [builds]
    decide
  · rw [builds]
    intro build member buildId found phase
    clear phase buildId found
    revert build
    decide
  · rw [builds]
    decide

/-- The child of a cancelled build ends by the signal, and the build is stored with rc 1. -/
theorem cancelled_bySignal :
    ¬ Booked (run State.step (.start ["web"] .empty [])
      (spawns 0 "00" ++ [.cancel "web-2026-01-01-00-00-00", .goOnCancel 0, .exit 0 none] ++ returns 0 "00")) := by
  intro booked
  have stored : ⟨"web", .returned "web-2026-01-01-00-00-00" (some ⟨"web", .failed, some 1⟩), .exited none, 1, false,
      true, true, false, false, some (.failed, 1)⟩ ∈ (run State.step (.start ["web"] .empty [])
        (spawns 0 "00" ++ [.cancel "web-2026-01-01-00-00-00", .goOnCancel 0, .exit 0 none] ++
          returns 0 "00")).builds := by
    decide +kernel
  exact absurd (booked.cancelled _ stored rfl rfl) (by decide)

end SysDeck.Web.BuilderRuns
