import SysDeck.Cockpit.Packages

/-! The packages bridge of the cockpit: the actions that run a package manager, and the preview of what
they would run. -/

namespace SysDeck.Cockpit.Packages

inductive Manager where
  | pacman | emerge | lunar | sorcery | xbps | apk | zypper | dnf | yum | apt
  /-- No known package manager is installed. -/
  | unknown
  deriving DecidableEq

/-- A word of a command, or the place of the package. -/
inductive Slot where
  | word (text : String)
  | pkg
  deriving DecidableEq

def words (texts : List String) : List Slot := texts.map .word

def INSTALL_CMDS : Manager → List Slot
  | .pacman => words ["pacman", "-S", "--noconfirm"] ++ [.pkg]
  | .emerge => words ["emerge"] ++ [.pkg]
  | .lunar => words ["lin"] ++ [.pkg]
  | .sorcery => words ["cast"] ++ [.pkg]
  | .xbps => words ["xbps-install", "-y"] ++ [.pkg]
  | .apk => words ["apk", "add"] ++ [.pkg]
  | .zypper => words ["zypper", "--non-interactive", "install"] ++ [.pkg]
  | .dnf => words ["dnf", "install", "-y"] ++ [.pkg]
  | .yum => words ["yum", "install", "-y"] ++ [.pkg]
  | .apt => words ["apt", "install", "-y"] ++ [.pkg]
  | .unknown => []

def REMOVE_CMDS : Manager → List Slot
  | .pacman => words ["pacman", "-R", "--noconfirm"] ++ [.pkg]
  | .emerge => words ["emerge", "--unmerge"] ++ [.pkg]
  | .lunar => words ["lrm"] ++ [.pkg]
  | .sorcery => words ["dispel"] ++ [.pkg]
  | .xbps => words ["xbps-remove", "-y"] ++ [.pkg]
  | .apk => words ["apk", "del"] ++ [.pkg]
  | .zypper => words ["zypper", "--non-interactive", "remove"] ++ [.pkg]
  | .dnf => words ["dnf", "remove", "-y"] ++ [.pkg]
  | .yum => words ["yum", "remove", "-y"] ++ [.pkg]
  | .apt => words ["apt", "remove", "-y"] ++ [.pkg]
  | .unknown => []

def UPDATE_CMDS : Manager → List Slot
  | .pacman => words ["pacman", "-S", "--noconfirm"] ++ [.pkg]
  | .emerge => words ["emerge", "-u"] ++ [.pkg]
  | .lunar => []
  | .sorcery => words ["cast"] ++ [.pkg]
  | .xbps => words ["xbps-install", "-y"] ++ [.pkg]
  | .apk => words ["apk", "upgrade"] ++ [.pkg]
  | .zypper => words ["zypper", "--non-interactive", "update"] ++ [.pkg]
  | .dnf => words ["dnf", "upgrade", "-y"] ++ [.pkg]
  | .yum => words ["yum", "upgrade", "-y"] ++ [.pkg]
  | .apt => words ["apt", "upgrade", "-y"] ++ [.pkg]
  | .unknown => []

def UPDATE_ALL_CMDS : Manager → List Slot
  | .pacman => words ["pacman", "-Syu", "--noconfirm"]
  | .emerge => words ["emerge", "-u", "-D", "@world"]
  | .lunar => words ["lunar", "update"]
  | .sorcery => words ["sorcery", "update"]
  | .xbps => words ["xbps-install", "-Su", "-y"]
  | .apk => words ["apk", "upgrade"]
  | .zypper => words ["zypper", "--non-interactive", "update"]
  | .dnf => words ["dnf", "upgrade", "-y"]
  | .yum => words ["yum", "upgrade", "-y"]
  | .apt => words ["apt", "upgrade", "-y"]
  | .unknown => []

/-- `MUTATION_CMDS.get(action, {}).get(PKG_MANAGER, [])` -/
def MUTATION_CMDS (action : String) (manager : Manager) : List Slot :=
  if action = "install" then INSTALL_CMDS manager
  else if action = "remove" then REMOVE_CMDS manager
  else if action = "update" then UPDATE_CMDS manager
  else if action = "update-all" then UPDATE_ALL_CMDS manager
  else []

def Slot.fill (pkg : List Char) : Slot → List Char
  | .word text => text.toList
  | .pkg => pkg

/-- `_mutation_cmd` -/
def mutationCmd (manager : Manager) (action : String) (pkg : List Char) : List (List Char) :=
  (MUTATION_CMDS action manager).map (Slot.fill pkg)

/-- `_pkg_name_ok` -/
def pkgNameOk (pkg : List Char) : Bool :=
  decide (0 < pkg.length) && decide (pkg.length ≤ 256) && !List.isPrefixOf ['-'] pkg &&
    !decide ("://".toList <:+: pkg) && !pkg.any fun c => isSpace c || c = '\x00' || c = '\x1b'

/-- `_first_pkg_arg` -/
def firstPkgArg (args : List (List Char)) : Option (List Char) := args.find? (· ≠ "--".toList)

inductive Refusal where
  | noName
  | invalidName (pkg : List Char)
  /-- Lunar has no update of a single module. -/
  | noSingleUpdate (pkg : List Char)
  | noCommand (action : String) (manager : Manager)
  | unknownAction (action : String)

/-- The command that is run, or why none is. -/
abbrev Outcome := Except Refusal (List (List Char))

/-- What `install`, `remove` and `update` have in common. -/
def onPackage (manager : Manager) (action : String) (args : List (List Char))
    (extra : List Char → Option Refusal) : Outcome :=
  match firstPkgArg args with
  | none => .error .noName
  | some pkg =>
    if pkg = [] then .error .noName
    else if !pkgNameOk pkg then .error (.invalidName pkg)
    else match extra pkg with
      | some refusal => .error refusal
      | none =>
        match mutationCmd manager action pkg with
        | [] => .error (.noCommand action manager)
        | cmd => .ok cmd

def install (manager : Manager) (args : List (List Char)) : Outcome :=
  onPackage manager "install" args fun _ => none

def remove (manager : Manager) (args : List (List Char)) : Outcome :=
  onPackage manager "remove" args fun _ => none

def update (manager : Manager) (args : List (List Char)) : Outcome :=
  onPackage manager "update" args fun pkg => if manager = .lunar then some (.noSingleUpdate pkg) else none

def updateAll (manager : Manager) : Outcome :=
  match mutationCmd manager "update-all" [] with
  | [] => .error (.noCommand "update-all" manager)
  | cmd => .ok cmd

/-- The actions among the subcommands. -/
def perform (manager : Manager) (action : String) (args : List (List Char)) : Outcome :=
  if action = "install" then install manager args
  else if action = "remove" then remove manager args
  else if action = "update" then update manager args
  else if action = "update-all" then updateAll manager
  else .error (.unknownAction action)

def joined (cmd : List (List Char)) : List Char := [' '].intercalate cmd

structure Preview where
  action : String
  package : List Char
  manager : Manager
  command : List Char

/-- `dry_run` -/
def dryRun (manager : Manager) (args : List (List Char)) : Preview :=
  let action := String.ofList (args.headD "update-all".toList)
  let pkg := args.getD 1 []
  let cmd := mutationCmd manager action pkg
  { action := action, package := pkg, manager := manager,
    command := if cmd = [] then [] else joined cmd }

/-- The command line that an action runs, which is empty where it refuses. -/
def commandLine : Outcome → List Char
  | .ok cmd => joined cmd
  | .error _ => []

/-- The preview of an action with its arguments is what the action runs, and empty where it refuses. -/
structure Previews (manager : Manager) (action : String) (args : List (List Char)) : Prop where
  same : (dryRun manager (action.toList :: args)).command = commandLine (perform manager action args)
  empty : (dryRun manager (action.toList :: args)).command = [] ↔
    ∃ refusal, perform manager action args = .error refusal

/-! ### Commands -/

theorem mutation_cases (manager : Manager) (action : String) :
    MUTATION_CMDS action manager = [] ∨
      ∃ text rest, text.toList ≠ [] ∧ MUTATION_CMDS action manager = .word text :: rest := by
  unfold MUTATION_CMDS
  split_ifs
  · cases manager <;> first | exact .inl rfl | exact .inr ⟨_, _, by decide, rfl⟩
  · cases manager <;> first | exact .inl rfl | exact .inr ⟨_, _, by decide, rfl⟩
  · cases manager <;> first | exact .inl rfl | exact .inr ⟨_, _, by decide, rfl⟩
  · cases manager <;> first | exact .inl rfl | exact .inr ⟨_, _, by decide, rfl⟩
  · exact .inl rfl

def packageActions : List String := ["install", "remove", "update"]

/-- The commands for a package have it at their end. -/
theorem package_shape {manager : Manager} {action : String} (listed : action ∈ packageActions)
    (able : MUTATION_CMDS action manager ≠ []) :
    ∃ first rest, MUTATION_CMDS action manager = words (first :: rest) ++ [.pkg] := by
  simp only [packageActions, List.mem_cons, List.not_mem_nil, or_false] at listed
  rcases listed with rfl | rfl | rfl
  · cases manager <;> first | exact absurd rfl able | exact ⟨_, _, rfl⟩
  · cases manager <;> first | exact absurd rfl able | exact ⟨_, _, rfl⟩
  · cases manager <;> first | exact absurd rfl able | exact ⟨_, _, rfl⟩

theorem mutationCmd_eq_nil_iff {manager : Manager} {action : String} {pkg : List Char} :
    mutationCmd manager action pkg = [] ↔ MUTATION_CMDS action manager = [] := List.map_eq_nil_iff

theorem joined_concat {texts : List (List Char)} (begun : texts ≠ []) (last : List Char) :
    joined (texts ++ [last]) = joined texts ++ ' ' :: last := by
  induction texts with
  | nil => exact absurd rfl begun
  | cons first texts ih =>
    cases texts with
    | nil => simp [joined, List.intercalate]
    | cons second texts =>
      have later := ih (List.cons_ne_nil _ _)
      simp only [joined, List.cons_append, List.intercalate_cons_cons] at later ⊢
      rw [later]
      simp only [List.append_assoc]

theorem joined_mutationCmd_ne_nil {manager : Manager} {action : String} (able : MUTATION_CMDS action manager ≠ [])
    (pkg : List Char) : joined (mutationCmd manager action pkg) ≠ [] := by
  obtain ⟨text, rest, begun, same⟩ := (mutation_cases manager action).resolve_left able
  rw [mutationCmd, same, List.map_cons, joined]
  cases rest.map (Slot.fill pkg) with
  | nil => simpa [List.intercalate, Slot.fill] using begun
  | cons second others =>
    rw [List.intercalate_cons_cons, List.append_assoc]
    exact List.append_ne_nil_of_left_ne_nil begun _

/-- Two packages with one command line are one package. -/
theorem pkg_inj {manager : Manager} {action : String} (listed : action ∈ packageActions)
    (able : MUTATION_CMDS action manager ≠ []) {pkg other : List Char}
    (same : joined (mutationCmd manager action pkg) = joined (mutationCmd manager action other)) : pkg = other := by
  obtain ⟨first, rest, shape⟩ := package_shape listed able
  have filled (pkg : List Char) :
      mutationCmd manager action pkg = (first :: rest).map String.toList ++ [pkg] := by
    rw [mutationCmd, shape, List.map_append, words, List.map_map]
    rfl
  have begun : (first :: rest).map String.toList ≠ [] := by simp
  rw [filled, filled, joined_concat begun, joined_concat begun, List.append_cancel_left_eq] at same
  exact (List.cons.inj same).2

/-! ### Previews -/

theorem dryRun_command (manager : Manager) (action : String) (args : List (List Char)) :
    (dryRun manager (action.toList :: args)).command =
      if MUTATION_CMDS action manager = [] then [] else joined (mutationCmd manager action (args.headD [])) := by
  have given : (action.toList :: args).getD 1 [] = args.headD [] := by
    cases args with
    | nil => rfl
    | cons pkg args => rfl
  rw [dryRun, given]
  simp only [List.headD_cons, String.ofList_toList]
  exact if_congr mutationCmd_eq_nil_iff rfl rfl

theorem pkgNameOk_nil : pkgNameOk [] = false := rfl

theorem onPackage_eq {manager : Manager} {action : String} (able : MUTATION_CMDS action manager ≠ [])
    {extra : List Char → Option Refusal} (none : ∀ pkg, extra pkg = none) (args : List (List Char)) :
    (∃ pkg, firstPkgArg args = some pkg ∧ pkgNameOk pkg ∧
        onPackage manager action args extra = .ok (mutationCmd manager action pkg)) ∨
      (∀ pkg, firstPkgArg args = some pkg → pkgNameOk pkg = false) ∧
        ∃ refusal, onPackage manager action args extra = .error refusal := by
  unfold onPackage
  cases found : firstPkgArg args with
  | none => exact .inr ⟨nofun, _, rfl⟩
  | some pkg =>
    by_cases valid : pkgNameOk pkg
    · left
      have begun : pkg ≠ [] := by
        rintro rfl
        rw [pkgNameOk_nil] at valid
        cases valid
      refine ⟨pkg, rfl, valid, ?_⟩
      simp only [if_neg begun, valid, none pkg, Bool.not_true, Bool.false_eq_true, if_false]
      cases cmd : mutationCmd manager action pkg with
      | nil => exact absurd (mutationCmd_eq_nil_iff.mp cmd) able
      | cons first rest => rfl
    · right
      refine ⟨fun other same => ?_, ?_⟩
      · rw [← Option.some.inj same]
        exact Bool.eq_false_iff.mpr valid
      · dsimp only
        split
        · exact ⟨_, rfl⟩
        · rw [if_pos (by simpa using valid)]
          exact ⟨_, rfl⟩

theorem onPackage_of_unable {manager : Manager} {action : String} (unable : MUTATION_CMDS action manager = [])
    (args : List (List Char)) (extra : List Char → Option Refusal) :
    ∃ refusal, onPackage manager action args extra = .error refusal := by
  unfold onPackage
  cases firstPkgArg args with
  | none => exact ⟨_, rfl⟩
  | some pkg =>
    dsimp only
    rw [mutationCmd_eq_nil_iff.mpr unable]
    split
    · exact ⟨_, rfl⟩
    · split
      · exact ⟨_, rfl⟩
      · cases extra pkg with
        | none => exact ⟨_, rfl⟩
        | some refusal => exact ⟨_, rfl⟩

/-- Where there is a command for a package, nothing but its name is checked. -/
theorem perform_package {manager : Manager} {action : String} (listed : action ∈ packageActions)
    (args : List (List Char)) :
    ∃ extra, perform manager action args = onPackage manager action args extra ∧
      (MUTATION_CMDS action manager ≠ [] → ∀ pkg, extra pkg = none) := by
  simp only [packageActions, List.mem_cons, List.not_mem_nil, or_false] at listed
  rcases listed with rfl | rfl | rfl
  · exact ⟨_, rfl, fun _ _ => rfl⟩
  · exact ⟨_, rfl, fun _ _ => rfl⟩
  · refine ⟨_, rfl, fun able pkg => ?_⟩
    cases manager with
    | lunar => exact absurd rfl able
    | _ => rfl

theorem updateAll_fill (manager : Manager) (pkg : List Char) :
    mutationCmd manager "update-all" pkg = mutationCmd manager "update-all" [] := by
  cases manager <;> rfl

/-- The other actions take no package. -/
theorem previews_other {manager : Manager} {action : String} (other : action ∉ packageActions)
    (args : List (List Char)) : Previews manager action args := by
  simp only [packageActions, List.mem_cons, List.not_mem_nil, or_false, not_or] at other
  obtain ⟨notInstall, notRemove, notUpdate⟩ := other
  have performed : perform manager action args =
      if action = "update-all" then updateAll manager else .error (.unknownAction action) := by
    rw [perform, if_neg notInstall, if_neg notRemove, if_neg notUpdate]
  have command := dryRun_command manager action args
  by_cases all : action = "update-all"
  · subst all
    rw [if_pos rfl] at performed
    rw [updateAll_fill] at command
    by_cases able : MUTATION_CMDS "update-all" manager = []
    · rw [if_pos able] at command
      have refused : updateAll manager = .error (.noCommand "update-all" manager) := by
        rw [updateAll, mutationCmd_eq_nil_iff.mpr able]
      rw [refused] at performed
      exact ⟨by rw [command, performed]; rfl, iff_of_true command ⟨_, performed⟩⟩
    · rw [if_neg able] at command
      have runs : updateAll manager = .ok (mutationCmd manager "update-all" []) := by
        rw [updateAll]
        cases cmd : mutationCmd manager "update-all" [] with
        | nil => exact absurd (mutationCmd_eq_nil_iff.mp cmd) able
        | cons first rest => rfl
      rw [runs] at performed
      refine ⟨by rw [command, performed]; rfl, iff_of_false ?_ ?_⟩
      · rw [command]
        exact joined_mutationCmd_ne_nil able []
      · rintro ⟨refusal, refused⟩
        rw [performed] at refused
        cases refused
  · have unable : MUTATION_CMDS action manager = [] := by
      rw [MUTATION_CMDS, if_neg notInstall, if_neg notRemove, if_neg notUpdate, if_neg all]
    rw [if_neg all] at performed
    rw [if_pos unable] at command
    exact ⟨by rw [command, performed]; rfl, iff_of_true command ⟨_, performed⟩⟩

theorem firstPkgArg_of_head {args : List (List Char)} {pkg : List Char} (head : args.head? = some pkg)
    (name : pkg ≠ "--".toList) : firstPkgArg args = some pkg := by
  obtain ⟨rest, rfl⟩ := List.head?_eq_some_iff.mp head
  exact List.find?_cons_of_pos (decide_eq_true name)

/-- The preview is right just where the manager has no command for a package, or the package is the first
argument and has a valid name. -/
theorem previews_iff (manager : Manager) (action : String) (args : List (List Char)) :
    Previews manager action args ↔
      (action ∈ packageActions → MUTATION_CMDS action manager ≠ [] →
        ∃ pkg, args.head? = some pkg ∧ pkg ≠ "--".toList ∧ pkgNameOk pkg) := by
  by_cases listed : action ∈ packageActions
  · obtain ⟨extra, performed, none⟩ := perform_package listed args
    have command := dryRun_command manager action args
    by_cases able : MUTATION_CMDS action manager = []
    · rw [if_pos able] at command
      obtain ⟨refusal, refused⟩ := onPackage_of_unable able args extra
      rw [refused] at performed
      refine iff_of_true ⟨?_, iff_of_true command ⟨_, performed⟩⟩ fun _ able' => absurd able able'
      rw [command, performed]
      rfl
    · rw [if_neg able] at command
      rcases onPackage_eq able (none able) args with ⟨pkg, found, valid, runs⟩ | ⟨invalid, refusal, refused⟩
      · rw [runs] at performed
        constructor
        · intro previews _ _
          have same := previews.same
          rw [command, performed, commandLine] at same
          have first := pkg_inj listed able same
          have kept := List.find?_some found
          have name : pkg ≠ "--".toList := of_decide_eq_true kept
          cases args with
          | nil => cases found
          | cons head rest => exact ⟨pkg, congrArg some first, name, valid⟩
        · intro condition
          obtain ⟨head, first, name, -⟩ := condition listed able
          obtain rfl := Option.some.inj (found.symm.trans (firstPkgArg_of_head first name))
          have given : args.headD [] = pkg := by
            rw [List.headD_eq_head?_getD, first]
            rfl
          rw [given] at command
          refine ⟨by rw [command, performed]; rfl, iff_of_false ?_ ?_⟩
          · rw [command]
            exact joined_mutationCmd_ne_nil able pkg
          · rintro ⟨refusal, refused⟩
            rw [performed] at refused
            cases refused
      · rw [refused] at performed
        refine iff_of_false (fun previews => ?_) (fun condition => ?_)
        · have same := previews.same
          rw [command, performed] at same
          exact joined_mutationCmd_ne_nil able _ same
        · obtain ⟨pkg, first, name, valid⟩ := condition listed able
          rw [invalid pkg (firstPkgArg_of_head first name)] at valid
          cases valid
  · exact iff_of_true (previews_other listed args) fun inside => absurd inside listed

theorem a_separator_is_previewed :
    (dryRun .pacman ["install".toList, "--".toList, "vim".toList]).command =
        "pacman -S --noconfirm --".toList ∧
      commandLine (perform .pacman "install" ["--".toList, "vim".toList]) =
        "pacman -S --noconfirm vim".toList ∧
      ¬Previews .pacman "install" ["--".toList, "vim".toList] := by
  refine ⟨by decide, by decide, fun previews => ?_⟩
  exact absurd previews.same (by decide)

end SysDeck.Cockpit.Packages
