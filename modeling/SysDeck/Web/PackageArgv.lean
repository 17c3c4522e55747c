import SysDeck.Web.Packages

/-! The arguments of a package mutation: the manager and its command words, then the packages of
the request and no others. -/

namespace SysDeck.Web.Packages

/-- The subcommands of the binaries that the bridge starts. -/
def subcommands : String → List String
  | "apt" | "dnf" | "yum" => ["install", "remove", "upgrade"]
  | "zypper" => ["install", "remove", "update"]
  | "apk" => ["add", "del", "upgrade"]
  | "lunar" | "sorcery" => ["update"]
  | _ => []

/-- A word that names no package: an option, a subcommand, or a package set such as `@world`. -/
def commandWord (bin word : String) : Bool :=
  word.toList.head? = some '-' || word.toList.head? = some '@' || (subcommands bin).contains word

/-- Words after the binary that name no package; `n` is the answer to `--ask`. -/
def commandWords (bin : String) : List String → Bool
  | [] => true
  | "--ask" :: "n" :: rest => commandWords bin rest
  | word :: rest => commandWord bin word && commandWords bin rest

/-- The operands of the arguments are these names, each once and in this order. -/
def Operands (argv names : List String) : Prop :=
  ∃ bin words, argv = bin :: (words ++ names) ∧ commandWords bin words

/-- The names that the command of an action is about. -/
def requested (action : Action) (names : List String) : List String :=
  if action = .updateAll then [] else names

/-- Where the list of a backend does not fit the binary that is put before it: emerge with one
name, and the backends that name the binary themselves. -/
def Misplaced (m : Manager) (action : Action) (names : List String) : Prop :=
  (m = .emerge ∧ action = .install ∧ names.length = 1) ∨ (m = .xbps ∧ action = .remove) ∨
    (m = .sorcery ∧ action = .updateAll)

theorem operands_iff {bin : String} {words names : List String} :
    Operands (bin :: (words ++ names)) names ↔ commandWords bin words := by
  constructor
  · intro ⟨bin', words', split, ok⟩
    obtain ⟨rfl, same⟩ := List.cons.inj split
    rwa [List.append_cancel_right same]
  · intro ok
    exact ⟨bin, words, rfl, ok⟩

/-- A valid name is no option and no package set. -/
theorem commandWord_of_ok {bin name : String} (ok : pkgNameOk name) :
    commandWord bin name ↔ name ∈ subcommands bin := by
  obtain ⟨_, _, all, notOption⟩ := pkgNameOk_iff.mp ok
  have notSet : name.toList.head? ≠ some '@' := by
    intro first
    exact absurd (all '@' (List.mem_of_mem_head? first)) (by decide)
  simp [commandWord, notOption, notSet]

/-- What stands before the names in the command of a backend: its binary, and the words after. -/
def commandHead (names : List String) : Manager → Action → Option (String × List String)
  | .pacman, .install => some ("pacman", ["-S", "--noconfirm", "--needed"])
  | .pacman, .remove => some ("pacman", ["-R", "--noconfirm"])
  | .pacman, .update => some ("pacman", ["-S", "--noconfirm"])
  | .pacman, .updateAll => some ("pacman", ["-Syu", "--noconfirm"])
  | .emerge, .install =>
    some ("emerge", [if names.length = 1 then names.headD "" else "--ask", "n"])
  | .emerge, .remove => some ("emerge", ["--unmerge"])
  | .emerge, .update => some ("emerge", ["-u"])
  | .emerge, .updateAll => some ("emerge", ["-u", "-D", "@world"])
  | .lunar, .install => some ("lin", [])
  | .lunar, .remove => some ("lrm", [])
  | .lunar, .update => none
  | .lunar, .updateAll => some ("lunar", ["update"])
  | .sorcery, .install => some ("cast", [])
  | .sorcery, .remove => some ("dispel", [])
  | .sorcery, .update => some ("cast", [])
  | .sorcery, .updateAll => some ("sorcery", ["sorcery", "update"])
  | .xbps, .install => some ("xbps-install", ["-y"])
  | .xbps, .remove => some ("xbps-remove", ["xbps-remove", "-y"])
  | .xbps, .update => some ("xbps-install", ["-y"])
  | .xbps, .updateAll => some ("xbps-install", ["-Su", "-y"])
  | .apk, .install => some ("apk", ["add"])
  | .apk, .remove => some ("apk", ["del"])
  | .apk, _ => some ("apk", ["upgrade"])
  | .zypper, .install => some ("zypper", ["--non-interactive", "install"])
  | .zypper, .remove => some ("zypper", ["--non-interactive", "remove"])
  | .zypper, _ => some ("zypper", ["--non-interactive", "update"])
  | .dnf, .install => some ("dnf", ["install", "-y"])
  | .dnf, .remove => some ("dnf", ["remove", "-y"])
  | .dnf, _ => some ("dnf", ["upgrade", "-y"])
  | .yum, .install => some ("yum", ["install", "-y"])
  | .yum, .remove => some ("yum", ["remove", "-y"])
  | .yum, _ => some ("yum", ["upgrade", "-y"])
  | .apt, .install => some ("apt", ["install", "-y"])
  | .apt, .remove => some ("apt", ["remove", "-y"])
  | .apt, _ => some ("apt", ["upgrade", "-y"])

/-- Every backend puts the names last. -/
theorem mutationCommand_eq (m : Manager) (action : Action) (names : List String) :
    mutationCommand (BACKENDS m) action names =
      (commandHead names m action).map fun (bin, words) =>
        bin :: (words ++ requested action names) := by
  cases action with
  | install => cases m <;> rfl
  | remove => cases m <;> rfl
  | update => cases m <;> rfl
  | updateAll => cases m <;> rfl

/-- With one name, emerge has the name in the place of `--ask`. -/
theorem emerge_install_words {names : List String} (valid : ∀ name ∈ names, pkgNameOk name) :
    commandWords "emerge" [if names.length = 1 then names.headD "" else "--ask", "n"] ↔
      ¬ names.length = 1 := by
  by_cases single : names.length = 1
  · obtain ⟨name, rfl⟩ := List.length_eq_one_iff.mp single
    have ok := valid name List.mem_cons_self
    have notAsk : name ≠ "--ask" := by
      intro same
      subst same
      exact absurd ok (by decide)
    have operand : commandWord "emerge" name = false := by
      rw [Bool.eq_false_iff, ne_eq, commandWord_of_ok ok]
      exact List.not_mem_nil
    simp [commandWords, notAsk, operand]
  · simp [single, commandWords]

theorem commandHead_words {m : Manager} {action : Action} {names : List String}
    (valid : ∀ name ∈ names, pkgNameOk name) {bin : String} {words : List String}
    (head : commandHead names m action = some (bin, words)) :
    commandWords bin words ↔ ¬ Misplaced m action names := by
  by_cases install : m = .emerge ∧ action = .install
  · obtain ⟨rfl, rfl⟩ := install
    obtain ⟨rfl, rfl⟩ : "emerge" = bin ∧ _ = words := by simpa [commandHead] using head
    simpa [Misplaced] using emerge_install_words valid
  · cases m <;> cases action <;> simp_all [commandHead, Misplaced] <;>
      (obtain ⟨rfl, rfl⟩ := head; simp [commandWords, commandWord, subcommands])

theorem runMutation_of_valid {host : Host} {b : Backend} {action : Action} {names : List String}
    (nonempty : names ≠ []) (valid : ∀ name ∈ names, pkgNameOk name) :
    runMutation host b action ⟨some names, none⟩ =
      match mutationCommand b action (requested action names) with
      | none => .unsupported
      | some command => privilegedRun host command := by
  by_cases all : action = .updateAll
  · simp only [runMutation, requested, all]
    rfl
  · have chosen : ¬ (action ≠ .updateAll ∧ names = []) := fun empty => nonempty empty.2
    cases head : mutationCommand b action names with
    | none => simp only [runMutation, requested, if_neg all, cleanNames_of_ok valid, if_neg chosen, head]
    | some command =>
      simp only [runMutation, requested, if_neg all, cleanNames_of_ok valid, if_neg chosen, head]

theorem privilegedRun_of_privileged {host : Host}
    (privileged : host.root ∨ host.passwordlessSudo) (command : List String) :
    ∃ via, privilegedRun host command = .ran via command := by
  by_cases root : host.root
  · exact ⟨[], by simp [privilegedRun, root]⟩
  · have passwordless : host.passwordlessSudo := privileged.resolve_left root
    exact ⟨["sudo", "-n"], by simp [privilegedRun, root, passwordless]⟩

/-- A privileged console runs what the request says exactly where the list of the backend fits
its binary. -/
theorem runMutation_operands_iff {host : Host} (privileged : host.root ∨ host.passwordlessSudo)
    (m : Manager) (action : Action) {names : List String} (nonempty : names ≠ [])
    (valid : ∀ name ∈ names, pkgNameOk name) :
    (∀ via command, runMutation host (BACKENDS m) action ⟨some names, none⟩ = .ran via command →
      Operands command (requested action names)) ↔ ¬ Misplaced m action names := by
  have sameHead : commandHead (requested action names) m action = commandHead names m action := by
    by_cases all : action = .updateAll
    · subst all
      cases m <;> rfl
    · simp [requested, all]
  have twice : requested action (requested action names) = requested action names := by
    by_cases all : action = .updateAll
    · simp [requested, all]
    · simp [requested, all]
  rw [runMutation_of_valid nonempty valid, mutationCommand_eq, sameHead, twice]
  cases head : commandHead names m action with
  | none =>
    have lunar : m = .lunar ∧ action = .update := by
      cases m <;> cases action <;> simp_all [commandHead]
    simp [lunar, Misplaced]
  | some command =>
    obtain ⟨bin, words⟩ := command
    rw [← commandHead_words valid head, ← @operands_iff bin words (requested action names)]
    obtain ⟨via, ran⟩ := privilegedRun_of_privileged privileged
      (bin :: (words ++ requested action names))
    simp [ran]

/-- A host where the console is root. -/
def rootHost : Host where
  run _ := ⟨0, ""⟩
  readText _ := ""
  readdir _ := none
  root := true
  passwordlessSudo := false
  localeCompare a b := decide (a ≤ b)
  toLowerCase text := text
  lowerCase_empty := rfl

theorem runMutation_operands_zypper :
    (∀ via command, runMutation rootHost (BACKENDS .zypper) .install ⟨some ["vim", "git"], none⟩ =
      .ran via command → Operands command (requested .install ["vim", "git"])) ↔
    ¬ Misplaced .zypper .install ["vim", "git"] :=
  runMutation_operands_iff (.inl rfl) .zypper .install (by simp) (by decide)

/-- `emerge htop n htop`: the package `n` is installed as well. -/
theorem emerge_installs_n :
    runMutation rootHost (BACKENDS .emerge) .install ⟨some ["htop"], none⟩ =
        .ran [] ["emerge", "htop", "n", "htop"] ∧
      ¬ Operands ["emerge", "htop", "n", "htop"] ["htop"] := by
  constructor
  · rfl
  · intro ⟨bin, words, split, ok⟩
    have same : bin = "emerge" ∧ words = ["htop", "n"] := by
      obtain ⟨rfl, tail⟩ := List.cons.inj split
      have whole : ["htop", "n"] ++ ["htop"] = words ++ ["htop"] := tail
      exact ⟨rfl, (List.append_cancel_right whole).symm⟩
    rw [same.1, same.2] at ok
    exact absurd ok (by decide)

end SysDeck.Web.Packages
