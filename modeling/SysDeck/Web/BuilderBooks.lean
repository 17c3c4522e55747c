import SysDeck.Web.BuilderRuns

/-! What the builder's map of live children and its rows say in every run. -/

namespace SysDeck.Web.BuilderRuns

open Execution (Along run)

/-! ### The invariant -/

/-- What the handlers note of the end of a child. -/
def Child.Notes : Child → ℤ → Prop
  | .exited code, rc => rc = (code.map Int.ofNat).getD 1
  | .unspawned errno, rc => rc = 127 ∨ rc = Int.negSucc errno
  | .none, _ | .running, _ => False

namespace Build

/-- Nothing has happened to the child. -/
def Unstarted (build : Build) : Prop := build.child = .none ∧ build.signalled = false

/-- The row is there, unless the rows of the profile were deleted. -/
structure Rowed (rows : OrderedMap String Row) (buildId : String) (build : Build) : Prop where
  row : if build.deletedEarly then rows.find? buildId = none
    else ∃ row, rows.find? buildId = some row ∧ row.profile = build.profile
  stored : build.stored = none
  late : build.deletedLate = false

/-- What was stored, and the row since. -/
structure Stored (found : Option Row) (build : Build) (rc : ℤ) : Prop where
  notes : build.child.Notes rc
  stored : build.stored = some (State.stateOf build.cancelled rc, rc)
  early : build.deletedEarly = false
  row : found = if build.deletedLate then none
    else some ⟨build.profile, State.stateOf build.cancelled rc, some rc⟩

/-- What is known of the child, by what the build awaits. -/
def Proceeds (build : Build) : Prop :=
  match build.phase with
  | .findUnique | .which | .refused | .create _ =>
    build.Unstarted ∧ build.stored = none ∧ build.deletedEarly = false ∧ build.deletedLate = false
  | .prepare _ => build.Unstarted
  | .spawned _ => build.child ≠ .none ∧ build.signalled = false
  | .waiting _ => build.child ≠ .none
  | .settled _ | .scan _ | .artifacts _ | .update _ => build.child.Notes build.rc
  | .audit _ => True
  | .returned _ found => ∃ rc, build.Stored found rc
  | .thrown _ =>
    build.child ≠ .running ∧ (build.signalled → build.deletedEarly) ∧ build.stored = none

/-- What holds of a build at a place. -/
structure Holds (rows : OrderedMap String Row) (live : OrderedMap String ℕ) (place : ℕ) (build : Build) : Prop where
  proceeds : build.Proceeds
  entry : ∀ buildId, build.phase.buildId? = some buildId →
    live.find? buildId = if build.phase.registered then some place else none
  rowed : ∀ buildId, build.phase.buildId? = some buildId → build.phase.rowed → build.Rowed rows buildId
  audit : ∀ buildId, build.phase = .audit buildId → ∃ rc, build.Stored (rows.find? buildId) rc

end Build

structure Inv (state : State) : Prop where
  holds : ∀ (place : ℕ) (build : Build), state.builds[place]? = some build →
    build.Holds state.rows state.liveProcs place
  distinct : ∀ (place other : ℕ) (build build' : Build) (buildId : String), state.builds[place]? = some build →
    state.builds[other]? = some build' → build.phase.buildId? = some buildId →
    build'.phase.buildId? = some buildId → place = other
  owners : ∀ buildId place, state.liveProcs.find? buildId = some place →
    ∃ build, state.builds[place]? = some build ∧ build.phase.registered ∧ build.phase.buildId? = some buildId
  answered : ∀ build ∈ state.builds, build.answered → build.signalled
  cancels : ∀ place, .audit place ∈ state.cancels → ∃ build, state.builds[place]? = some build ∧ build.signalled

/-! ### What stays -/

variable {rows rows' : OrderedMap String Row} {live live' : OrderedMap String ℕ} {place : ℕ} {build after : Build}

/-- What holds of a build is about its own id. -/
theorem Build.Holds.congr (holds : build.Holds rows live place)
    (row : ∀ buildId, build.phase.buildId? = some buildId → rows'.find? buildId = rows.find? buildId)
    (entry : ∀ buildId, build.phase.buildId? = some buildId → live'.find? buildId = live.find? buildId) :
    build.Holds rows' live' place where
  proceeds := holds.proceeds
  entry := fun buildId own => (entry buildId own).trans (holds.entry buildId own)
  rowed := by
    intro buildId own rowed
    have old := holds.rowed buildId own rowed
    refine ⟨?_, old.stored, old.late⟩
    rw [row buildId own]
    exact old.row
  audit := by
    intro buildId phase
    have own : build.phase.buildId? = some buildId := by rw [phase]; rfl
    rw [row buildId own]
    exact holds.audit buildId phase

/-- A build goes on, and what changes in the tables and in the map is under its id. -/
theorem Inv.put {state next : State} (inv : Inv state) (found : state.builds[place]? = some build)
    (builds : next.builds = state.builds.set place after) (cancels : next.cancels = state.cancels)
    (holds : after.Holds next.rows next.liveProcs place)
    (fresh : ∀ buildId, after.phase.buildId? = some buildId → build.phase.buildId? = some buildId ∨
      ∀ other ∈ state.builds, other.phase.buildId? ≠ some buildId)
    (row : ∀ buildId, after.phase.buildId? ≠ some buildId → next.rows.find? buildId = state.rows.find? buildId)
    (entry : ∀ buildId, after.phase.buildId? ≠ some buildId →
      next.liveProcs.find? buildId = state.liveProcs.find? buildId)
    (kept : ∀ buildId, build.phase.buildId? = some buildId → after.phase.buildId? = some buildId)
    (signalled : build.signalled → after.signalled) (answered : after.answered → after.signalled) : Inv next := by
  have at_place {other : ℕ} {given : Build} (here : next.builds[other]? = some given) :
      place ≠ other ∧ state.builds[other]? = some given ∨ place = other ∧ given = after := by
    rw [builds, List.getElem?_set] at here
    by_cases same : place = other
    · subst same
      rw [if_pos rfl, if_pos (List.getElem?_eq_some_iff.mp found).1] at here
      exact .inr ⟨rfl, (Option.some.inj here).symm⟩
    · rw [if_neg same] at here
      exact .inl ⟨same, here⟩
  have put : next.builds[place]? = some after := by
    rw [builds, List.getElem?_set_self (List.getElem?_eq_some_iff.mp found).1]
  have stay {other : ℕ} (differ : place ≠ other) : next.builds[other]? = state.builds[other]? := by
    rw [builds, List.getElem?_set_ne differ]
  -- No other build has the id of this one.
  have alone {other : ℕ} {given : Build} (differ : place ≠ other) (there : state.builds[other]? = some given)
      {buildId : String} (own : given.phase.buildId? = some buildId) : after.phase.buildId? ≠ some buildId := by
    intro same
    rcases fresh buildId same with old | new
    · exact differ (inv.distinct _ _ _ _ _ found there old own)
    · exact new given (List.mem_of_getElem? there) own
  refine ⟨?_, ?_, ?_, ?_, ?_⟩
  · intro other given here
    rcases at_place here with ⟨differ, there⟩ | ⟨rfl, rfl⟩
    · refine (inv.holds other given there).congr ?_ ?_
      · exact fun buildId own => row buildId (alone differ there own)
      · exact fun buildId own => entry buildId (alone differ there own)
    · exact holds
  · intro one two first second buildId here there own own'
    rcases at_place here with ⟨differ, here⟩ | ⟨rfl, rfl⟩
    · rcases at_place there with ⟨differ', there⟩ | ⟨rfl, rfl⟩
      · exact inv.distinct _ _ _ _ _ here there own own'
      · exact absurd own' (alone differ here own)
    · rcases at_place there with ⟨differ', there⟩ | ⟨rfl, rfl⟩
      · exact absurd own (alone differ' there own')
      · rfl
  · intro buildId other listed
    by_cases own : after.phase.buildId? = some buildId
    · have entered := holds.entry buildId own
      rw [listed] at entered
      split at entered
      next registered =>
        obtain rfl := Option.some.inj entered
        exact ⟨after, put, registered, own⟩
      next => cases entered
    · rw [entry buildId own] at listed
      obtain ⟨given, there, registered, id⟩ := inv.owners buildId other listed
      by_cases same : place = other
      · subst same
        obtain rfl := Option.some.inj (found.symm.trans there)
        exact absurd (kept buildId id) own
      · exact ⟨given, (stay same).trans there, registered, id⟩
  · intro given member
    rw [builds] at member
    rcases List.mem_or_eq_of_mem_set member with old | rfl
    · exact inv.answered given old
    · exact answered
  · intro other member
    rw [cancels] at member
    obtain ⟨given, there, marked⟩ := inv.cancels other member
    by_cases same : place = other
    · subst same
      obtain rfl := Option.some.inj (found.symm.trans there)
      exact ⟨after, put, signalled marked⟩
    · exact ⟨given, (stay same).trans there, marked⟩

/-- A build with the same id as before. -/
theorem Inv.own {state next : State} {id? : Option String} (inv : Inv state)
    (found : state.builds[place]? = some build) (own : build.phase.buildId? = id?)
    (own' : after.phase.buildId? = id?) (builds : next.builds = state.builds.set place after)
    (cancels : next.cancels = state.cancels) (holds : after.Holds next.rows next.liveProcs place)
    (row : ∀ buildId, id? ≠ some buildId → next.rows.find? buildId = state.rows.find? buildId)
    (entry : ∀ buildId, id? ≠ some buildId → next.liveProcs.find? buildId = state.liveProcs.find? buildId)
    (signalled : build.signalled → after.signalled) (answered : after.answered → build.answered) : Inv next := by
  subst own
  refine inv.put found builds cancels holds ?_ ?_ ?_ ?_ signalled ?_
  · exact fun buildId id => .inl (own' ▸ id)
  · exact fun buildId other => row buildId (own' ▸ other)
  · exact fun buildId other => entry buildId (own' ▸ other)
  · exact fun buildId id => own'.trans id
  · exact fun replied => signalled (inv.answered build (List.mem_of_getElem? found) (answered replied))

/-- A build that leaves the rows and the map alone. -/
theorem Inv.moves {state next : State} {id? : Option String} (inv : Inv state)
    (found : state.builds[place]? = some build) (own : build.phase.buildId? = id?)
    (own' : after.phase.buildId? = id?) (builds : next.builds = state.builds.set place after)
    (cancels : next.cancels = state.cancels) (rows : next.rows = state.rows)
    (live : next.liveProcs = state.liveProcs) (holds : after.Holds state.rows state.liveProcs place)
    (signalled : build.signalled → after.signalled) (answered : after.answered → build.answered) : Inv next := by
  refine inv.own found own own' builds cancels ?_ ?_ ?_ signalled answered
  · rw [rows, live]
    exact holds
  · exact fun buildId _ => by rw [rows]
  · exact fun buildId _ => by rw [live]

/-! ### Builds go on -/

theorem Child.Notes.not_running {child : Child} {rc : ℤ} (notes : child.Notes rc) : child ≠ .running := by
  rintro rfl
  exact notes

/-- A row that is missing was deleted. -/
theorem Build.Rowed.deleted {buildId : String} (rowed : build.Rowed rows buildId)
    (missing : ¬ (rows.find? buildId).isSome) : build.deletedEarly := by
  have row := rowed.row
  split at row
  next deleted => exact deleted
  next =>
    obtain ⟨row, present, -⟩ := row
    rw [present] at missing
    exact absurd rfl missing

theorem Build.Rowed.kept {buildId : String} (rowed : build.Rowed rows buildId)
    (present : (rows.find? buildId).isSome) :
    build.deletedEarly = false ∧ ∃ row, rows.find? buildId = some row ∧ row.profile = build.profile := by
  have row := rowed.row
  split at row
  next =>
    rw [row] at present
    cases present
  next kept => exact ⟨Bool.eq_false_iff.mpr kept, row⟩

/-- A build that goes on with its row there, as it was. -/
theorem Build.Holds.next {buildId : String} (holds : build.Holds rows live place) (phase : Phase) (child : Child)
    (rc : ℤ) (own : build.phase.buildId? = some buildId) (own' : phase.buildId? = some buildId) (rowed : build.phase.rowed)
    (rowed' : phase.rowed) (registered : phase.registered = build.phase.registered)
    (proceeds : Build.Proceeds { build with phase, child, rc }) :
    Build.Holds rows live place { build with phase, child, rc } where
  proceeds := proceeds
  entry := by
    intro other id
    obtain rfl := Option.some.inj (own'.symm.trans id)
    rw [registered]
    exact holds.entry buildId own
  rowed := by
    intro other id _
    obtain rfl := Option.some.inj (own'.symm.trans id)
    have old := holds.rowed buildId own rowed
    exact ⟨old.row, old.stored, old.late⟩
  audit := by
    rintro other rfl
    cases rowed'

/-- A build that ends by an exception, out of the map. -/
theorem Build.Holds.throws {buildId : String} (holds : build.Holds rows live place)
    (own : build.phase.buildId? = some buildId) (out : build.phase.registered = false)
    (proceeds : Build.Proceeds { build with phase := .thrown buildId }) :
    Build.Holds rows live place { build with phase := .thrown buildId } where
  proceeds := proceeds
  entry := by
    rintro other id
    obtain rfl := Option.some.inj id
    rw [holds.entry _ own, out]
    rfl
  rowed := nofun
  audit := nofun

/-- A build that has no id yet. -/
theorem Build.Holds.unnamed (proceeds : build.Proceeds) (unnamed : build.phase.buildId? = none) :
    build.Holds rows live place where
  proceeds := proceeds
  entry := by simp [unnamed]
  rowed := by simp [unnamed]
  audit := by
    intro buildId phase
    rw [phase] at unnamed
    cases unnamed

theorem Inv.goOn {state : State} (inv : Inv state) {place : ℕ} {input : Input}
    (fresh : state.Fresh (.goOn place input)) : Inv (state.goOn place input) := by
  unfold State.goOn
  cases found : state.builds[place]? with
  | none => exact inv
  | some build =>
    have holds := inv.holds place build found
    have proceeds := holds.proceeds
    have same {marked : Bool} : marked → marked := id
    have stays : Inv { state with builds := state.builds.set place build } := by
      exact inv.moves found rfl (by rfl) rfl rfl rfl rfl holds same same
    dsimp only [State.advance]
    cases phase : build.phase with
    | findUnique =>
      rw [Build.Proceeds, phase] at proceeds
      have own : build.phase.buildId? = none := by rw [phase]; rfl
      dsimp only
      split
      · exact inv.moves found own (by rfl) rfl rfl rfl rfl (.unnamed proceeds rfl) same same
      · exact inv.moves found own (by rfl) rfl rfl rfl rfl (.unnamed proceeds rfl) same same
    | which =>
      rw [Build.Proceeds, phase] at proceeds
      have own : build.phase.buildId? = none := by rw [phase]; rfl
      dsimp only
      split
      next =>
        have new := fresh build found phase
        refine inv.put found rfl rfl ⟨proceeds, ?_, by simp [Phase.rowed], by simp⟩ ?_ (fun _ _ => rfl) (fun _ _ => rfl) ?_ same
          (inv.answered build (List.mem_of_getElem? found))
        · intro buildId own
          obtain rfl := Option.some.inj own
          cases listed : state.liveProcs.find? (build.profile ++ "-" ++ input.ts) with
          | none => rfl
          | some other =>
            obtain ⟨given, there, -, id⟩ := inv.owners _ other listed
            exact absurd id (new given (List.mem_of_getElem? there))
        · intro buildId own
          obtain rfl := Option.some.inj own
          exact .inr new
        · intro buildId own
          rw [phase] at own
          cases own
      next => exact inv.moves found own (by rfl) rfl rfl rfl rfl (.unnamed proceeds rfl) same same
    | create buildId =>
      rw [Build.Proceeds, phase] at proceeds
      obtain ⟨⟨child, signalled⟩, stored, early, late⟩ := proceeds
      have own : build.phase.buildId? = some buildId := by rw [phase]; rfl
      dsimp only
      split
      next =>
        refine inv.moves found own (by rfl) rfl rfl rfl rfl (holds.throws own (by rw [phase]; rfl) ?_) same same
        refine ⟨?_, ?_, stored⟩
        · show build.child ≠ .running
          simp [child]
        · show build.signalled = true → _
          simp [signalled]
      next =>
        refine inv.own found own (by rfl) rfl rfl ⟨⟨child, signalled⟩, ?_, ?_, by simp⟩ ?_ (fun _ _ => rfl) same same
        · intro other id
          obtain rfl := Option.some.inj id
          rw [holds.entry _ own, phase]
          rfl
        · intro other id _
          obtain rfl := Option.some.inj id
          refine ⟨?_, stored, late⟩
          rw [if_neg (by simp [early])]
          exact ⟨_, OrderedMap.find?_set_self _ _ _, rfl⟩
        · intro other differ
          refine OrderedMap.find?_set_ne _ _ ?_
          rintro rfl
          exact differ rfl
    | prepare buildId =>
      rw [Build.Proceeds, phase] at proceeds
      obtain ⟨child, signalled⟩ := proceeds
      have own : build.phase.buildId? = some buildId := by rw [phase]; rfl
      dsimp only
      split
      next =>
        refine inv.moves found own (by rfl) rfl rfl rfl rfl ?_ same same
        refine holds.next (.spawned buildId) _ build.rc own rfl (by rw [phase]; rfl) rfl (by rw [phase]; rfl) ⟨?_, signalled⟩
        cases input.spawnError <;> simp
      next =>
        have stored := (holds.rowed buildId own (by rw [phase]; rfl)).stored
        refine inv.moves found own (by rfl) rfl rfl rfl rfl (holds.throws own (by rw [phase]; rfl) ?_) same same
        refine ⟨?_, ?_, stored⟩
        · show build.child ≠ .running
          simp [child]
        · show build.signalled = true → _
          simp [signalled]
    | spawned buildId =>
      rw [Build.Proceeds, phase] at proceeds
      have own : build.phase.buildId? = some buildId := by rw [phase]; rfl
      have old := holds.rowed buildId own (by rw [phase]; rfl)
      refine inv.own found own (by rfl) rfl rfl ⟨proceeds.1, ?_, ?_, by simp⟩ (fun _ _ => rfl) ?_ same same
      · intro other id
        obtain rfl := Option.some.inj id
        exact OrderedMap.find?_set_self _ _ _
      · intro other id _
        obtain rfl := Option.some.inj id
        exact ⟨old.row, old.stored, old.late⟩
      · intro other differ
        refine OrderedMap.find?_set_ne _ _ ?_
        rintro rfl
        exact differ rfl
    | settled buildId =>
      rw [Build.Proceeds, phase] at proceeds
      have own : build.phase.buildId? = some buildId := by rw [phase]; rfl
      have old := holds.rowed buildId own (by rw [phase]; rfl)
      refine inv.own found own (by rfl) rfl rfl ⟨proceeds, ?_, ?_, by simp⟩ (fun _ _ => rfl) ?_ same same
      · intro other id
        obtain rfl := Option.some.inj id
        exact (OrderedMap.find?_erase _ _ _).trans (if_pos rfl)
      · intro other id _
        obtain rfl := Option.some.inj id
        exact ⟨old.row, old.stored, old.late⟩
      · intro other differ
        refine (OrderedMap.find?_erase _ _ _).trans (if_neg ?_)
        rintro rfl
        exact differ rfl
    | scan buildId =>
      rw [Build.Proceeds, phase] at proceeds
      have own : build.phase.buildId? = some buildId := by rw [phase]; rfl
      dsimp only
      split
      · refine inv.moves found own (by rfl) rfl rfl rfl rfl ?_ same same
        exact holds.next _ build.child build.rc own rfl (by rw [phase]; rfl) rfl (by rw [phase]; rfl) proceeds
      · refine inv.moves found own (by rfl) rfl rfl rfl rfl ?_ same same
        exact holds.next _ build.child build.rc own rfl (by rw [phase]; rfl) rfl (by rw [phase]; rfl) proceeds
    | artifacts buildId =>
      rw [Build.Proceeds, phase] at proceeds
      have own : build.phase.buildId? = some buildId := by rw [phase]; rfl
      have old := holds.rowed buildId own (by rw [phase]; rfl)
      dsimp only
      split
      next =>
        refine inv.moves found own (by rfl) rfl rfl rfl rfl ?_ same same
        exact holds.next _ build.child build.rc own rfl (by rw [phase]; rfl) rfl (by rw [phase]; rfl) proceeds
      next missing =>
        refine inv.moves found own (by rfl) rfl rfl rfl rfl (holds.throws own (by rw [phase]; rfl) ?_) same same
        exact ⟨proceeds.not_running, fun _ => old.deleted missing, old.stored⟩
    | update buildId =>
      rw [Build.Proceeds, phase] at proceeds
      have own : build.phase.buildId? = some buildId := by rw [phase]; rfl
      have old := holds.rowed buildId own (by rw [phase]; rfl)
      dsimp only
      split
      next present =>
        obtain ⟨early, row, listed, profile⟩ := old.kept present
        refine inv.own found own (by rfl) rfl rfl ⟨trivial, ?_, by simp [Phase.rowed], ?_⟩ ?_ (fun _ _ => rfl) same same
        · intro other id
          obtain rfl := Option.some.inj id
          rw [holds.entry _ own, phase]
          rfl
        · rintro other id
          cases id
          refine ⟨build.rc, proceeds, rfl, early, ?_⟩
          rw [OrderedMap.find?_modify_self, listed, if_neg (by simp [old.late])]
          exact congrArg (fun name => some (Row.mk name _ _)) profile
        · intro other differ
          refine OrderedMap.find?_modify_ne _ _ ?_
          rintro rfl
          exact differ rfl
      next missing =>
        refine inv.moves found own (by rfl) rfl rfl rfl rfl (holds.throws own (by rw [phase]; rfl) ?_) same same
        exact ⟨proceeds.not_running, fun _ => old.deleted missing, old.stored⟩
    | audit buildId =>
      have own : build.phase.buildId? = some buildId := by rw [phase]; rfl
      obtain ⟨rc, stored⟩ := holds.audit buildId phase
      refine inv.moves found own (by rfl) rfl rfl rfl rfl ⟨⟨rc, ?_⟩, ?_, by simp [Phase.rowed], by simp⟩ same same
      · exact ⟨stored.notes, stored.stored, stored.early, stored.row⟩
      · intro other id
        obtain rfl := Option.some.inj id
        rw [holds.entry _ own, phase]
        rfl
    | waiting buildId => exact stays
    | returned buildId row => exact stays
    | refused => exact stays
    | thrown buildId => exact stays

/-! ### Children -/

/-- A child runs only while its build has it registered, or is about to. -/
theorem Build.Holds.running (holds : build.Holds rows live place) (running : build.child = .running) :
    ∃ buildId, build.phase = .spawned buildId ∨ build.phase = .waiting buildId := by
  have proceeds := holds.proceeds
  unfold Build.Proceeds at proceeds
  split at proceeds
  case h_1 | h_2 | h_3 | h_4 | h_5 => simp [Build.Unstarted, running] at proceeds
  case h_6 buildId phase => exact ⟨buildId, .inl phase⟩
  case h_7 buildId phase => exact ⟨buildId, .inr phase⟩
  case h_8 | h_9 | h_10 | h_11 => exact absurd running proceeds.not_running
  case h_12 buildId phase =>
    obtain ⟨rc, stored⟩ := holds.audit buildId phase
    exact absurd running stored.notes.not_running
  case h_13 =>
    obtain ⟨rc, stored⟩ := proceeds
    exact absurd running stored.notes.not_running
  case h_14 => exact absurd running proceeds.1

/-- A change of the build at a place that keeps its id and what was known of it. -/
theorem Inv.changes {state : State} (inv : Inv state) (place : ℕ) (change : Build → Build)
    (own : ∀ build, (change build).phase.buildId? = build.phase.buildId?)
    (holds : ∀ build, state.builds[place]? = some build → build.Holds state.rows state.liveProcs place →
      (change build).Holds state.rows state.liveProcs place)
    (signalled : ∀ build, build.signalled → (change build).signalled)
    (answered : ∀ build, (change build).answered → build.answered) :
    Inv { state with builds := state.builds.modify place change } := by
  cases found : state.builds[place]? with
  | none =>
    rw [List.modify_eq_self (List.getElem?_eq_none_iff.mp found)]
    exact inv
  | some build =>
    have inhabited : Inhabited Build := ⟨build⟩
    rw [List.modify_eq_set, found]
    exact inv.moves found rfl (own build) rfl rfl rfl rfl (holds build found (inv.holds place build found))
      (signalled build) (answered build)

/-- A build that keeps its phase and its row, and what was noted and stored, if it is. -/
theorem Build.Holds.marked (holds : build.Holds rows live place) (phase : after.phase = build.phase)
    (rowed : ∀ buildId, build.Rowed rows buildId → after.Rowed rows buildId)
    (stored : ∀ found rc, build.Stored found rc → after.Stored found rc) (proceeds : after.Proceeds) :
    after.Holds rows live place where
  proceeds := proceeds
  entry := by
    rw [phase]
    exact holds.entry
  rowed := by
    rw [phase]
    exact fun buildId own there => rowed buildId (holds.rowed buildId own there)
  audit := by
    intro buildId at_audit
    obtain ⟨rc, old⟩ := holds.audit buildId (phase ▸ at_audit)
    exact ⟨rc, stored _ rc old⟩

/-- The end of a child is noted, and its promise settles. -/
theorem Build.Holds.noted {rc : ℤ} (holds : build.Holds rows live place) (notes : build.child.Notes rc) :
    Build.Holds rows live place { build with rc, phase := build.phase.settle } := by
  by_cases waits : ∃ buildId, build.phase = .waiting buildId
  · obtain ⟨buildId, phase⟩ := waits
    have own : build.phase.buildId? = some buildId := by rw [phase]; rfl
    rw [phase]
    exact holds.next _ build.child _ own rfl (by rw [phase]; rfl) rfl (by rw [phase]; rfl) notes
  · have settle : build.phase.settle = build.phase := by
      cases phase : build.phase with
      | waiting buildId => exact absurd ⟨buildId, phase⟩ waits
      | _ => rfl
    have proceeds := holds.proceeds
    refine holds.marked settle ?_ ?_ ?_
    · exact fun _ old => ⟨old.row, old.stored, old.late⟩
    · exact fun _ _ old => ⟨old.notes, old.stored, old.early, old.row⟩
    rw [settle]
    unfold Build.Proceeds at proceeds ⊢
    cases phase : build.phase with
    | waiting buildId => exact absurd ⟨buildId, phase⟩ waits
    | settled buildId | scan buildId | artifacts buildId | update buildId => exact notes
    | returned buildId found =>
      rw [phase] at proceeds
      obtain ⟨rc, old⟩ := proceeds
      exact ⟨rc, old.notes, old.stored, old.early, old.row⟩
    | _ =>
      rw [phase] at proceeds
      exact proceeds

theorem Phase.buildId?_settle (phase : Phase) : phase.settle.buildId? = phase.buildId? := by
  cases phase <;> rfl

theorem Inv.exit {state : State} (inv : Inv state) (place : ℕ) (code : Option ℕ) :
    Inv (state.step (.exit place code)) := by
  refine inv.changes place _ ?_ ?_ ?_ ?_
  · intro build
    unfold Build.exit
    split <;> rfl
  · intro build _ holds
    unfold Build.exit
    split
    next runs =>
      refine holds.marked rfl ?_ ?_ ?_
      · exact fun _ old => ⟨old.row, old.stored, old.late⟩
      · exact fun _ _ old => absurd runs old.notes.not_running
      have proceeds := holds.proceeds
      obtain ⟨buildId, phase⟩ := holds.running runs
      unfold Build.Proceeds at proceeds ⊢
      rcases phase with phase | phase
      · rw [phase] at proceeds ⊢
        exact ⟨nofun, proceeds.2⟩
      · rw [phase] at proceeds ⊢
        nofun
    next => exact holds
  · intro build marked
    unfold Build.exit
    split <;> exact marked
  · intro build
    unfold Build.exit
    split <;> exact id

theorem Inv.error {state : State} (inv : Inv state) (place : ℕ) : Inv (state.step (.error place)) := by
  refine inv.changes place _ ?_ ?_ ?_ ?_
  · intro build
    unfold Build.error
    split
    next =>
      split
      next => exact build.phase.buildId?_settle
      next => rfl
    next => rfl
  · intro build _ holds
    unfold Build.error
    split
    next errno child =>
      split
      next => exact holds.noted (by rw [child]; exact .inl rfl)
      next => exact holds
    next => exact holds
  · intro build marked
    unfold Build.error
    repeat' split
    all_goals exact marked
  · intro build
    unfold Build.error
    repeat' split
    all_goals exact id

theorem Child.notes_exitCode {child : Child} (ends : child.isOver) : child.Notes (child.exitCode.getD 1) := by
  cases child with
  | none | running => cases ends
  | exited code => rfl
  | unspawned errno => exact .inr rfl

theorem Inv.close {state : State} (inv : Inv state) (place : ℕ) : Inv (state.step (.close place)) := by
  refine inv.changes place _ ?_ ?_ ?_ ?_
  · intro build
    unfold Build.close
    split
    next => exact build.phase.buildId?_settle
    next => rfl
  · intro build _ holds
    unfold Build.close
    split
    next ends => exact holds.noted (Child.notes_exitCode (Bool.and_eq_true_iff.mp ends).1)
    next => exact holds
  · intro build marked
    unfold Build.close
    split <;> exact marked
  · intro build
    unfold Build.close
    split <;> exact id

theorem Inv.watchdog {state : State} (inv : Inv state) (place : ℕ) : Inv (state.step (.watchdog place)) := by
  refine inv.changes place _ ?_ ?_ ?_ ?_
  · intro build
    unfold Build.watchdog
    repeat' split
    all_goals rfl
  · intro build _ holds
    unfold Build.watchdog
    split
    next buildId phase =>
      split
      next =>
        have own : build.phase.buildId? = some buildId := by rw [phase]; rfl
        have proceeds := holds.proceeds
        rw [Build.Proceeds, phase] at proceeds
        have old := holds.rowed buildId own (by rw [phase]; rfl)
        refine ⟨?_, holds.entry, ?_, ?_⟩
        · rw [Build.Proceeds, phase]
          exact proceeds
        · intro other id _
          obtain rfl := Option.some.inj (own.symm.trans id)
          exact ⟨old.row, old.stored, old.late⟩
        · intro other at_audit
          cases phase.symm.trans at_audit
      next => exact holds
    next => exact holds
  · intro build marked
    unfold Build.watchdog
    repeat' split
    all_goals exact marked
  · intro build
    unfold Build.watchdog
    repeat' split
    all_goals exact id

/-! ### Cancels -/

theorem Inv.cancel {state : State} (inv : Inv state) (buildId : String) : Inv (state.cancel buildId) := by
  have asked : Inv { state with cancels := state.cancels ++ [.done] } := by
    refine ⟨inv.holds, inv.distinct, inv.owners, inv.answered, ?_⟩
    intro place member
    rcases List.mem_append.mp member with old | new
    · exact inv.cancels place old
    · cases List.mem_singleton.mp new
  unfold State.cancel
  dsimp only
  split
  next => exact asked
  split
  next => exact asked
  next place listed =>
    obtain ⟨build, found, registered, -⟩ := inv.owners _ place listed
    have signals : Inv { state with builds := state.builds.modify place fun build => { build with signalled := true } } := by
      refine inv.changes place _ (fun _ => rfl) ?_ (fun _ _ => rfl) fun _ => id
      intro given here holds
      obtain rfl := Option.some.inj (found.symm.trans here)
      have proceeds := holds.proceeds
      refine holds.marked rfl ?_ ?_ ?_
      · exact fun _ old => ⟨old.row, old.stored, old.late⟩
      · exact fun _ _ old => ⟨old.notes, old.stored, old.early, old.row⟩
      unfold Build.Proceeds at proceeds ⊢
      cases phase : build.phase with
      | waiting buildId | settled buildId =>
        rw [phase] at proceeds
        exact proceeds
      | _ =>
        rw [phase] at registered
        cases registered
    refine ⟨signals.holds, signals.distinct, signals.owners, signals.answered, ?_⟩
    intro other member
    rcases List.mem_append.mp member with old | new
    · exact signals.cancels other old
    · obtain rfl := Cancel.audit.inj (List.mem_singleton.mp new)
      refine ⟨{ build with signalled := true }, ?_, rfl⟩
      rw [List.getElem?_modify_eq, found]
      rfl

theorem Inv.goOnCancel {state : State} (inv : Inv state) (place : ℕ) : Inv (state.goOnCancel place) := by
  unfold State.goOnCancel
  split
  next owner asked =>
    obtain ⟨build, found, signalled⟩ := inv.cancels owner (List.mem_of_getElem? asked)
    have inhabited : Inhabited Build := ⟨build⟩
    rw [List.modify_eq_set, found]
    have holds := inv.holds owner build found
    have answers : Inv { state with builds := state.builds.set owner { build with answered := true } } := by
      refine inv.put found rfl rfl ?_ (fun _ => .inl) (fun _ _ => rfl) (fun _ _ => rfl) (fun _ => id) id ?_
      · refine holds.marked rfl ?_ ?_ ?_
        · exact fun _ old => ⟨old.row, old.stored, old.late⟩
        · exact fun _ _ old => ⟨old.notes, old.stored, old.early, old.row⟩
        have proceeds := holds.proceeds
        unfold Build.Proceeds at proceeds ⊢
        cases phase : build.phase with
        | returned buildId found =>
          rw [phase] at proceeds
          obtain ⟨rc, old⟩ := proceeds
          exact ⟨rc, old.notes, old.stored, old.early, old.row⟩
        | _ =>
          rw [phase] at proceeds
          exact proceeds
      · exact fun _ => signalled
    refine ⟨answers.holds, answers.distinct, answers.owners, answers.answered, ?_⟩
    intro other member
    rcases List.mem_or_eq_of_mem_set member with old | new
    · exact answers.cancels other old
    · cases new
  next => exact inv
  next => exact inv

/-! ### Arrivals and deletes -/

theorem Inv.arrive {state : State} (inv : Inv state) (profile : String) : Inv (state.step (.build profile)) := by
  set new := State.build profile with arrives
  have id : new.phase.buildId? = none := by
    rw [arrives]
    unfold State.build
    dsimp only
    split <;> rfl
  have proceeds : new.Proceeds := by
    rw [arrives]
    unfold State.build
    by_cases named : Firewall.trim profile = ""
    · rw [if_pos named]
      exact ⟨⟨rfl, rfl⟩, rfl, rfl, rfl⟩
    · rw [if_neg named]
      exact ⟨⟨rfl, rfl⟩, rfl, rfl, rfl⟩
  have old_or_new {place : ℕ} {build : Build} (found : (state.builds ++ [new])[place]? = some build) :
      state.builds[place]? = some build ∨ build = new := by
    rcases Nat.lt_or_ge place state.builds.length with early | late
    · rw [List.getElem?_append_left early] at found
      exact .inl found
    · rw [List.getElem?_append_right late] at found
      exact .inr (List.mem_singleton.mp (List.mem_of_getElem? found))
  have kept {place : ℕ} {build : Build} (found : state.builds[place]? = some build) :
      (state.builds ++ [new])[place]? = some build := by
    rw [List.getElem?_append_left (List.getElem?_eq_some_iff.mp found).1]
    exact found
  refine ⟨?_, ?_, ?_, ?_, ?_⟩
  · intro place build found
    rcases old_or_new found with old | rfl
    · exact inv.holds place build old
    · refine ⟨proceeds, ?_, ?_, ?_⟩
      · intro buildId own
        cases id.symm.trans own
      · intro buildId own
        cases id.symm.trans own
      · intro buildId phase
        rw [phase] at id
        cases id
  · intro place other build build' buildId found found' own own'
    rcases old_or_new found with old | rfl
    · rcases old_or_new found' with old' | rfl
      · exact inv.distinct place other build build' buildId old old' own own'
      · cases id.symm.trans own'
    · cases id.symm.trans own
  · intro buildId place listed
    obtain ⟨build, found, registered⟩ := inv.owners buildId place listed
    exact ⟨build, kept found, registered⟩
  · intro build member
    rcases List.mem_append.mp member with old | last
    · exact inv.answered build old
    · rw [List.mem_singleton.mp last]
      nofun
  · intro place asked
    obtain ⟨build, found, signalled⟩ := inv.cancels place asked
    exact ⟨build, kept found, signalled⟩

/-- The rows of a profile go, and the builds of the profile have it marked. -/
theorem Build.Holds.deleted (holds : build.Holds rows live place) (name : String) :
    (build.markDeleted name).Holds (rows.filter fun _ row => row.profile ≠ name) live place := by
  have proceeds := holds.proceeds
  unfold Build.markDeleted
  split
  next named =>
    refine ⟨?_, holds.entry, ?_, ?_⟩
    · unfold Build.Proceeds at proceeds ⊢
      cases phase : build.phase with
      | findUnique | which | create buildId | refused =>
        rw [phase] at proceeds
        obtain ⟨unstarted, stored, early, late⟩ := proceeds
        exact ⟨unstarted, stored, by rw [early]; rfl, by rw [late]; rfl⟩
      | returned buildId found =>
        rw [phase] at proceeds
        obtain ⟨rc, old⟩ := proceeds
        refine ⟨rc, old.notes, old.stored, ?_, ?_⟩
        · rw [old.early]
          rfl
        · rw [Bool.or_false]
          exact old.row
      | thrown buildId =>
        rw [phase] at proceeds
        obtain ⟨stopped, deleted, stored⟩ := proceeds
        exact ⟨stopped, fun signalled => by rw [deleted signalled]; rfl, stored⟩
      | _ =>
        rw [phase] at proceeds
        exact proceeds
    · intro buildId own rowed
      have old := holds.rowed buildId own rowed
      refine ⟨?_, old.stored, ?_⟩
      · have marked : (build.deletedEarly || build.phase.rowed) = true := by rw [rowed, Bool.or_true]
        rw [if_pos marked, OrderedMap.find?_filter]
        have row := old.row
        split at row
        next =>
          rw [row]
          rfl
        next =>
          obtain ⟨row, listed, profile⟩ := row
          rw [listed]
          simp [Option.filter, profile, named]
      · show (build.deletedLate || _) = false
        rw [old.late]
        cases phase : build.phase with
        | audit => simp [phase, Phase.rowed] at rowed
        | _ => rfl
    · intro buildId phase
      obtain ⟨rc, old⟩ := holds.audit buildId phase
      refine ⟨rc, old.notes, old.stored, ?_, ?_⟩
      · show (build.deletedEarly || build.phase.rowed) = false
        rw [old.early, phase]
        rfl
      · rw [phase, Bool.or_true, if_pos rfl, OrderedMap.find?_filter, old.row]
        split
        next => rfl
        next => simp [Option.filter, named]
  next other =>
    refine ⟨proceeds, holds.entry, ?_, ?_⟩
    · intro buildId own rowed
      have old := holds.rowed buildId own rowed
      refine ⟨?_, old.stored, old.late⟩
      have row := old.row
      rw [OrderedMap.find?_filter]
      split at row
      next deleted =>
        rw [if_pos deleted, row]
        rfl
      next kept =>
        obtain ⟨row, listed, profile⟩ := row
        rw [if_neg kept, listed]
        exact ⟨row, by simp [Option.filter, profile, other], profile⟩
    · intro buildId phase
      obtain ⟨rc, old⟩ := holds.audit buildId phase
      refine ⟨rc, old.notes, old.stored, old.early, ?_⟩
      rw [OrderedMap.find?_filter, old.row]
      split
      next => rfl
      next => simp [Option.filter, other]

@[simp] theorem Build.markDeleted_phase (name : String) (build : Build) :
    (build.markDeleted name).phase = build.phase := by
  unfold Build.markDeleted
  split <;> rfl

@[simp] theorem Build.markDeleted_signalled (name : String) (build : Build) :
    (build.markDeleted name).signalled = build.signalled := by
  unfold Build.markDeleted
  split <;> rfl

@[simp] theorem Build.markDeleted_answered (name : String) (build : Build) :
    (build.markDeleted name).answered = build.answered := by
  unfold Build.markDeleted
  split <;> rfl

theorem Inv.deletes {state next : State} (inv : Inv state) (name : String)
    (builds : next.builds = state.builds.map (·.markDeleted name))
    (rows : next.rows = state.rows.filter fun _ row => row.profile ≠ name)
    (live : next.liveProcs = state.liveProcs) (cancels : next.cancels = state.cancels) : Inv next := by
  have marked {place : ℕ} {after : Build} (found : next.builds[place]? = some after) :
      ∃ build, state.builds[place]? = some build ∧ build.markDeleted name = after := by
    rw [builds, List.getElem?_map] at found
    exact Option.map_eq_some_iff.mp found
  have mark {place : ℕ} {build : Build} (found : state.builds[place]? = some build) :
      next.builds[place]? = some (build.markDeleted name) := by
    rw [builds, List.getElem?_map, found]
    rfl
  refine ⟨?_, ?_, ?_, ?_, ?_⟩
  · intro place after found
    obtain ⟨build, there, rfl⟩ := marked found
    rw [rows, live]
    exact (inv.holds place build there).deleted name
  · intro place other after after' buildId found found' own own'
    obtain ⟨build, there, rfl⟩ := marked found
    obtain ⟨build', there', rfl⟩ := marked found'
    rw [Build.markDeleted_phase] at own own'
    exact inv.distinct place other build build' buildId there there' own own'
  · intro buildId place listed
    rw [live] at listed
    obtain ⟨build, there, registered, own⟩ := inv.owners buildId place listed
    exact ⟨_, mark there, by simpa using registered, by simpa using own⟩
  · intro after member
    rw [builds] at member
    obtain ⟨build, there, rfl⟩ := List.mem_map.mp member
    simpa using inv.answered build there
  · intro place asked
    rw [cancels] at asked
    obtain ⟨build, there, signalled⟩ := inv.cancels place asked
    exact ⟨_, mark there, by simpa using signalled⟩

theorem Inv.goOnDelete {state : State} (inv : Inv state) (place : ℕ) : Inv (state.goOnDelete place) := by
  have same {next : State} (builds : next.builds = state.builds) (rows : next.rows = state.rows)
      (live : next.liveProcs = state.liveProcs) (cancels : next.cancels = state.cancels) : Inv next := by
    refine ⟨?_, ?_, ?_, ?_, ?_⟩
    · rw [builds, rows, live]
      exact inv.holds
    · rw [builds]
      exact inv.distinct
    · rw [builds, live]
      exact inv.owners
    · rw [builds]
      exact inv.answered
    · rw [builds, cancels]
      exact inv.cancels
  unfold State.goOnDelete
  split
  next => exact inv
  next delete asked =>
    cases delete with
    | findUnique name => exact same rfl rfl rfl rfl
    | findMany name => exact same rfl rfl rfl rfl
    | artifacts name builds => exact same rfl rfl rfl rfl
    | builds name =>
      dsimp only [State.advanceDelete]
      split
      next => exact same rfl rfl rfl rfl
      next => exact inv.deletes name rfl rfl rfl rfl
    | profile name =>
      dsimp only [State.advanceDelete]
      split <;> exact same rfl rfl rfl rfl
    | audit => exact same rfl rfl rfl rfl
    | done => exact same rfl rfl rfl rfl

/-! ### Runs -/

theorem Inv.step {state : State} (inv : Inv state) {event : Event} (fresh : state.Fresh event) :
    Inv (state.step event) := by
  cases event with
  | build profile => exact inv.arrive profile
  | cancel buildId => exact inv.cancel buildId
  | delete name => exact ⟨inv.holds, inv.distinct, inv.owners, inv.answered, inv.cancels⟩
  | goOn place input => exact inv.goOn fresh
  | goOnCancel place => exact inv.goOnCancel place
  | goOnDelete place => exact inv.goOnDelete place
  | exit place code => exact inv.exit place code
  | error place => exact inv.error place
  | close place => exact inv.close place
  | watchdog place => exact inv.watchdog place

theorem Inv.start (profiles : List String) (rows : OrderedMap String Row) (artifacts : List String) :
    Inv (.start profiles rows artifacts) := by
  refine ⟨?_, ?_, ?_, ?_, ?_⟩
  · intro place build found
    cases List.getElem?_nil.symm.trans found
  · intro place _ build _ _ found
    cases List.getElem?_nil.symm.trans found
  · intro buildId place listed
    cases (OrderedMap.find?_empty buildId).symm.trans listed
  · exact fun _ => nofun
  · exact fun _ => nofun

theorem Inv.run (profiles : List String) (rows : OrderedMap String Row) (artifacts : List String)
    {events : List Event} (fresh : Along State.step State.Fresh (.start profiles rows artifacts) events) :
    Inv (run State.step (.start profiles rows artifacts) events) :=
  Execution.invariant_along (fun _ _ fresh inv => inv.step fresh) (.start profiles rows artifacts) fresh

end SysDeck.Web.BuilderRuns
