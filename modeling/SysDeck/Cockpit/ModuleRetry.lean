import SysDeck.Cockpit.Modules

/-! A failed install is clean where nothing of it is left that the next install stops at. -/

namespace SysDeck.Cockpit.Modules

/-- The license is accepted, and every command succeeds. -/
structure Attempt.Succeeds (a : Attempt) : Prop where
  cockpitDir : a.cockpitDir
  destDir : a.destDir
  download : a.download
  unpack : a.unpack
  dataTar : a.dataTar
  finished : a.finished
  audited : a.audited

/-- The module is not installed, and after any calls for other modules an install whose commands
all succeed installs it. -/
structure Clean (host : Host) (entry : CatalogEntry) : Prop where
  missing : ¬ isInstalled host entry
  retry : ∀ calls : List Call, (∀ call ∈ calls, call.entry ∈ CATALOG ∧ call.entry.id ≠ entry.id) →
    ∀ a : Attempt, a.Succeeds →
      (install (Execution.run step host calls) entry true a).2 = .ok "installed"

/-- A destination that the installing function of the kind can begin with. -/
def Ready (kind : Kind) (dest : Node) : Prop :=
  dest = .absent ∨ kind = .tarball ∧ dest = .directory []

/-- The destination could be begun with, and the commands that ran have left it so: a clone that
left nothing, no directory made for a deb archive, and no file of a tarball. -/
def Restartable (kind : Kind) (dest : Node) (acceptLicense : Bool) (a : Attempt) : Prop :=
  Ready kind dest ∧
    match kind with
    | .pacman => True
    | .git => acceptLicense ∧ a.cockpitDir → a.cloned = .absent
    | .debTar => ¬ (acceptLicense ∧ a.cockpitDir ∧ a.destDir)
    | .tarball => acceptLicense ∧ a.cockpitDir ∧ a.destDir ∧ a.download → a.files = []

theorem not_installed_of_ready {host : Host} {entry : CatalogEntry} (other : entry.kind ≠ .pacman)
    (ready : Ready entry.kind (host.nodes (destPath entry))) : ¬ isInstalled host entry := by
  have nothing : host.nodes (destPath entry) = .absent ∨
      host.nodes (destPath entry) = .directory [] := ready.imp_right And.right
  cases kind : entry.kind with
  | pacman => exact absurd kind other
  | _ => rcases nothing with nothing | nothing <;> simp [isInstalled, kind, nothing]

theorem installGit_succeeds {a : Attempt} (ok : a.Succeeds) (dest : Node) :
    (installGit a dest).2 = none ↔ Ready .git dest := by
  by_cases absent : dest = .absent
  · simp [installGit, absent, lastCommand, ok.finished, Ready]
  · simp [installGit, absent, Ready]

theorem installDebTar_succeeds {a : Attempt} (ok : a.Succeeds) (dest : Node) :
    (installDebTar a dest).2 = none ↔ Ready .debTar dest := by
  by_cases absent : dest = .absent
  · simp [installDebTar, absent, lastCommand, ok.finished, ok.destDir, ok.download, ok.unpack,
      ok.dataTar, Ready]
  · simp [installDebTar, absent, Ready]

theorem installTarball_succeeds {a : Attempt} (ok : a.Succeeds) (dest : Node) :
    (installTarball a dest).2 = none ↔ Ready .tarball dest := by
  cases dest with
  | absent => simp [installTarball, lastCommand, ok.finished, ok.destDir, ok.download, Ready]
  | file => simp [installTarball, Ready]
  | directory entries =>
    cases entries with
    | nil => simp [installTarball, lastCommand, ok.finished, ok.destDir, ok.download, Ready]
    | cons entry entries => simp [installTarball, Ready]

theorem perform_succeeds {host : Host} {entry : CatalogEntry} (other : entry.kind ≠ .pacman)
    {a : Attempt} (ok : a.Succeeds) :
    (perform host entry a).2 = none ↔ Ready entry.kind (host.nodes (destPath entry)) := by
  cases kind : entry.kind with
  | pacman => exact absurd kind other
  | git => simpa [perform, ok.cockpitDir, kind] using installGit_succeeds ok _
  | debTar => simpa [perform, ok.cockpitDir, kind] using installDebTar_succeeds ok _
  | tarball => simpa [perform, ok.cockpitDir, kind] using installTarball_succeeds ok _

/-- An install that can write its record answers what the installing function did. -/
theorem install_result {host : Host} {entry : CatalogEntry} (missing : ¬ isInstalled host entry)
    {a : Attempt} (audited : a.audited) :
    (install host entry true a).2 =
      match (perform host entry a).2 with
      | some error => .failed error
      | none => .ok "installed" := by
  simp only [install, missing]
  cases performed : perform host entry a with
  | mk after failure => cases failure <;> simp [audit, audited]

theorem retry_iff {host : Host} {entry : CatalogEntry} (other : entry.kind ≠ .pacman)
    (missing : ¬ isInstalled host entry) {a : Attempt} (ok : a.Succeeds) :
    (install host entry true a).2 = .ok "installed" ↔
      Ready entry.kind (host.nodes (destPath entry)) := by
  rw [install_result missing ok.audited, ← perform_succeeds other ok]
  cases (perform host entry a).2 with
  | none => simp
  | some error => simp

theorem perform_frame (host : Host) (entry : CatalogEntry) (a : Attempt) {path : String}
    (other : path ≠ destPath entry) : (perform host entry a).1.nodes path = host.nodes path := by
  cases cockpit : a.cockpitDir with
  | false => simp [perform, cockpit]
  | true =>
    cases kind : entry.kind with
    | pacman => cases finished : a.finished <;> simp [perform, cockpit, kind, finished]
    | _ => simp [perform, cockpit, kind, other]

theorem install_nodes (host : Host) (entry : CatalogEntry) (acceptLicense : Bool) (a : Attempt) :
    (install host entry acceptLicense a).1.nodes =
      if isInstalled host entry ∨ !acceptLicense then host.nodes
      else (perform host entry a).1.nodes := by
  by_cases installed : isInstalled host entry
  · simp [install, installed]
  · cases acceptLicense with
    | false => simp [install, installed]
    | true =>
      cases performed : perform host entry a with
      | mk after failure =>
        cases failure <;> cases audited : a.audited <;>
          simp [install, installed, performed, audit, audited]

theorem uninstall_frame (host : Host) (entry : CatalogEntry) (removed : Bool) (left : Node)
    (audited : Bool) {path : String} (other : path ≠ destPath entry) :
    (uninstall host entry removed left audited).1.nodes path = host.nodes path := by
  by_cases installed : isInstalled host entry
  · cases kind : entry.kind with
    | pacman => cases removed <;> cases audited <;> simp [uninstall, installed, kind, audit]
    | _ => cases removed <;> cases audited <;> simp [uninstall, installed, kind, audit, other]
  · simp [uninstall, installed]

/-- A call writes at its own destination only. -/
theorem step_frame (host : Host) (call : Call) {path : String}
    (other : path ≠ destPath call.entry) : (step host call).nodes path = host.nodes path := by
  cases call with
  | install entry acceptLicense a =>
    simp only [step, install_nodes]
    split
    · rfl
    · exact perform_frame host entry a other
  | uninstall entry removed left audited => exact uninstall_frame host entry _ _ _ other

theorem run_frame {path : String} (calls : List Call)
    (others : ∀ call ∈ calls, path ≠ destPath call.entry) (host : Host) :
    (Execution.run step host calls).nodes path = host.nodes path := by
  induction calls generalizing host with
  | nil => rfl
  | cons call calls ih =>
    have here : path ≠ destPath call.entry := others call (by simp)
    have later := ih (fun call member => others call (by simp [member])) (step host call)
    rw [Execution.run_cons, later, step_frame host call here]

/-- Two entries of the catalog have two destinations. -/
theorem destPath_ne {entry other : CatalogEntry} (listed : entry ∈ CATALOG)
    (otherListed : other ∈ CATALOG) (ids : other.id ≠ entry.id) :
    destPath entry ≠ destPath other := by
  have targets : ∀ e ∈ CATALOG, ∀ e' ∈ CATALOG, e'.id ≠ e.id → e.target ≠ e'.target := by decide
  intro same
  simp only [destPath, String.append_right_inj] at same
  exact targets entry listed other otherListed ids same

theorem clean_iff {host : Host} {entry : CatalogEntry} (listed : entry ∈ CATALOG)
    (other : entry.kind ≠ .pacman) :
    Clean host entry ↔ Ready entry.kind (host.nodes (destPath entry)) := by
  constructor
  · intro clean
    have ok : (Attempt.mk true true true true true .absent [] true true).Succeeds := by
      constructor <;> rfl
    have again := clean.retry [] (by simp) _ ok
    exact (retry_iff other clean.missing ok).mp again
  · intro ready
    refine ⟨not_installed_of_ready other ready, fun calls others a ok => ?_⟩
    have kept : (Execution.run step host calls).nodes (destPath entry) =
        host.nodes (destPath entry) :=
      run_frame calls (fun call member =>
        destPath_ne listed (others call member).1 (others call member).2) host
    have still : Ready entry.kind ((Execution.run step host calls).nodes (destPath entry)) := by
      rwa [kept]
    exact (retry_iff other (not_installed_of_ready other still) ok).mpr still

theorem installGit_restartable (a : Attempt) (dest : Node) :
    Ready .git (installGit a dest).1 ↔ Ready .git dest ∧ a.cloned = .absent := by
  by_cases absent : dest = .absent
  · simp [installGit, absent, Ready]
  · simp [installGit, absent, Ready]

theorem installDebTar_restartable (a : Attempt) (dest : Node) :
    Ready .debTar (installDebTar a dest).1 ↔ Ready .debTar dest ∧ ¬ a.destDir := by
  by_cases absent : dest = .absent
  · cases destDir : a.destDir with
    | false => simp [installDebTar, absent, destDir, Ready]
    | true =>
      have made : ∃ entries, (installDebTar a dest).1 = .directory entries := by
        simp only [installDebTar, absent, destDir]
        cases a.download <;> cases a.unpack <;> cases a.dataTar <;> simp
      obtain ⟨entries, made⟩ := made
      simp [made, Ready]
  · simp [installDebTar, absent, Ready]

theorem installTarball_restartable (a : Attempt) (dest : Node) :
    Ready .tarball (installTarball a dest).1 ↔
      Ready .tarball dest ∧ (a.destDir ∧ a.download → a.files = []) := by
  by_cases ready : Ready .tarball dest
  · have nothing : dest = .absent ∨ dest = .directory [] := ready.imp_right And.right
    have begun : installTarball a dest =
        if !a.destDir then (dest, some .other)
        else if !a.download then (.directory [], some .command)
        else (.directory a.files, lastCommand a) := by
      rcases nothing with rfl | rfl <;> rfl
    cases destDir : a.destDir with
    | false => simp [begun, destDir, ready]
    | true => cases download : a.download <;> simp [begun, destDir, download, nothing, Ready]
  · have refused : (installTarball a dest).1 = dest := by
      rcases dest with _ | _ | _ | _ <;> simp_all [Ready, installTarball]
    simp [refused, ready]

/-- What the installing function leaves of a destination. -/
theorem perform_restartable {host : Host} {entry : CatalogEntry} (other : entry.kind ≠ .pacman)
    (a : Attempt) :
    Ready entry.kind ((perform host entry a).1.nodes (destPath entry)) ↔
      Restartable entry.kind (host.nodes (destPath entry)) true a := by
  cases cockpit : a.cockpitDir with
  | false => cases kind : entry.kind <;> simp [perform, cockpit, Restartable]
  | true =>
    cases kind : entry.kind with
    | pacman => exact absurd kind other
    | git => simpa [perform, cockpit, kind, Restartable] using installGit_restartable a _
    | debTar => simpa [perform, cockpit, kind, Restartable] using installDebTar_restartable a _
    | tarball => simpa [perform, cockpit, kind, Restartable] using installTarball_restartable a _

/-- A failed install of a module is clean just where its destination could be begun with and the
commands that ran have left it so. -/
theorem failed_clean_iff {host : Host} {entry : CatalogEntry} (listed : entry ∈ CATALOG)
    (other : entry.kind ≠ .pacman) {acceptLicense : Bool} {a : Attempt} {error : Failure}
    (failed : (install host entry acceptLicense a).2 = .failed error) :
    Clean (install host entry acceptLicense a).1 entry ↔
      Restartable entry.kind (host.nodes (destPath entry)) acceptLicense a := by
  rw [clean_iff listed other, install_nodes]
  cases acceptLicense with
  | false => cases kind : entry.kind <;> simp [Restartable]
  | true =>
    have missing : ¬ isInstalled host entry := by
      intro installed
      simp [install, installed] at failed
    simpa [missing] using perform_restartable other a

/-- The download of a tarball fails, and the next install goes through. -/
theorem failed_clean_sensors :
    Clean (install ⟨fun _ => .absent, [], []⟩ ⟨"cockpit-sensors", .tarball, "sensors"⟩ true
        ⟨true, true, false, true, true, .absent, [], true, true⟩).1
        ⟨"cockpit-sensors", .tarball, "sensors"⟩ ↔
      Restartable .tarball .absent true ⟨true, true, false, true, true, .absent, [], true, true⟩ :=
  @failed_clean_iff _ _ (by decide) (by decide) _ _ .command (by decide)

/-- The download of a deb archive fails: the destination it was made for stays, and the next
install stops at it. -/
theorem failed_navigator_stays :
    (install ⟨fun _ => .absent, [], []⟩ ⟨"cockpit-navigator", .debTar, "navigator"⟩ true
        ⟨true, true, false, true, true, .absent, [], true, true⟩).2 = .failed .command ∧
      ¬ Clean (install ⟨fun _ => .absent, [], []⟩ ⟨"cockpit-navigator", .debTar, "navigator"⟩ true
        ⟨true, true, false, true, true, .absent, [], true, true⟩).1
        ⟨"cockpit-navigator", .debTar, "navigator"⟩ := by
  refine ⟨by decide, fun clean => ?_⟩
  have again := clean.retry [] (by simp) ⟨true, true, true, true, true, .absent, [], true, true⟩
    (by constructor <;> rfl)
  exact absurd again (by decide)

end SysDeck.Cockpit.Modules
