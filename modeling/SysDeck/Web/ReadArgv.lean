import SysDeck.Web.Packages

/-! The read commands that put a text of the session into the arguments of a tool. -/

namespace SysDeck.Web.ReadArgv

open Firewall (trim)
open Packages (Manager)

/-- The commands `packages.search` of a backend, `mesh.describe` and `mesh.logs`. -/
inductive ReadCommand where
  | search (manager : Manager)
  | describe
  | logs

/-- The binary that a backend searches with, and the words before the term. -/
def searchWords : Manager → String × List String
  | .apt => ("apt-cache", ["search"])
  | .pacman => ("pacman", ["-Ss"])
  | .dnf => ("dnf", ["-q", "search"])
  | .yum => ("yum", ["-q", "search"])
  | .zypper => ("zypper", ["-q", "se"])
  | .apk => ("apk", ["search", "-v"])
  | .xbps => ("xbps-query", ["-Rs"])
  | .emerge => ("emerge", ["--search"])
  | .lunar => ("lvu", ["search"])
  | .sorcery => ("gaze", ["search"])

/-- The word that is made of the text: the term is trimmed, the name of a pod is not. -/
def ReadCommand.word : ReadCommand → String → String
  | .search _, text => trim text
  | .describe, text | .logs, text => text

def ReadCommand.bin : ReadCommand → String
  | .search manager => (searchWords manager).1
  | .describe | .logs => "kubectl"

def ReadCommand.args : ReadCommand → String → List String
  | .search manager, word => (searchWords manager).2 ++ [word]
  | .describe, word => ["describe", "pod", word, "-A"]
  | .logs, word => ["logs", word, "-A", "--tail=100"]

/-- The binary and its arguments; nothing is run for an empty word. -/
def ReadCommand.argv (read : ReadCommand) (text : String) : Option (String × List String) :=
  let word := read.word text
  if word = "" then none else some (read.bin, read.args word)

/-- `spawn` refuses an argument with a NUL. -/
def ReadCommand.spawned (read : ReadCommand) (text : String) : Option (String × List String) :=
  (read.argv text).filter fun (_, args) => args.all fun arg => !arg.toList.contains '\x00'

/-! ### The options of a tool -/

def isOption (word : String) : Bool := word.toList.head? = some '-'

/-- The words that a tool takes for options: up to `--` all that begin with `-`, but for a word that
is the value of the option before it. -/
def options (takesValue : String → Bool) : List String → List String
  | [] => []
  | [word] => if isOption word then [word] else []
  | word :: next :: rest =>
    if isOption word = false then options takesValue (next :: rest)
    else if word = "--" then [word]
    else if takesValue word then word :: options takesValue rest
    else word :: options takesValue (next :: rest)

/-- The options that the bridge gives, but for the one of xbps. -/
def ownUses : List (String × String) :=
  [("pacman", "-Ss"), ("dnf", "-q"), ("yum", "-q"), ("zypper", "-q"), ("apk", "-v"),
    ("emerge", "--search"), ("kubectl", "-A"), ("kubectl", "--tail=100")]

/-- What the manuals of the tools say of the options that the bridge gives: the pattern of
`xbps-query -Rs` is the value of `-s`, and no other of them takes a value. -/
structure Documented (takesValue : String → String → Bool) : Prop where
  xbps : takesValue "xbps-query" "-Rs" = true
  bare : ∀ use ∈ ownUses, takesValue use.1 use.2 = false

/-- The options that the bridge itself gives. -/
def ReadCommand.ownOptions : ReadCommand → List String
  | .search manager => (searchWords manager).2.filter (isOption ·)
  | .describe => ["-A"]
  | .logs => ["-A", "--tail=100"]

/-- The tool receives the options of the bridge and no others. -/
def Uninjected (takesValue : String → String → Bool) (read : ReadCommand) (text : String) : Prop :=
  ∀ bin args, read.spawned text = some (bin, args) →
    options (takesValue bin) args = read.ownOptions

/-- The word is none that the tool could take for an option: it does not begin like one, or it is
the pattern of xbps, or there is no tool that gets it. -/
def Harmless (read : ReadCommand) (text : String) : Prop :=
  isOption (read.word text) = false ∨ read = .search .xbps ∨ '\x00' ∈ (read.word text).toList

variable {takesValue : String → String → Bool}

theorem spawned_iff {read : ReadCommand} {text bin : String} {args : List String} :
    read.spawned text = some (bin, args) ↔
      (read.word text ≠ "" ∧ '\x00' ∉ (read.word text).toList) ∧
        bin = read.bin ∧ args = read.args (read.word text) := by
  have plain : (read.args (read.word text)).all (fun arg => !arg.toList.contains '\x00') ↔
      '\x00' ∉ (read.word text).toList := by
    cases read with
    | search manager => cases manager <;> simp [ReadCommand.args, searchWords]
    | describe => simp [ReadCommand.args]
    | logs => simp [ReadCommand.args]
  simp only [ReadCommand.spawned, Option.filter_eq_some_iff, ReadCommand.argv,
    Option.ite_none_left_eq_some, Option.some.injEq, Prod.mk.injEq]
  constructor
  · rintro ⟨⟨begun, rfl, rfl⟩, free⟩
    exact ⟨⟨begun, plain.mp free⟩, rfl, rfl⟩
  · rintro ⟨⟨begun, free⟩, rfl, rfl⟩
    exact ⟨⟨begun, rfl, rfl⟩, plain.mpr free⟩

theorem options_operand (takes : String → Bool) {word : String} (operand : isOption word = false)
    (next : String) (rest : List String) :
    options takes (word :: next :: rest) = options takes (next :: rest) := by
  rw [options, if_pos operand]

/-- An option of the bridge without a value. -/
theorem options_own (documented : Documented takesValue) {bin word : String}
    (own : (bin, word) ∈ ownUses) (next : String) (rest : List String) :
    options (takesValue bin) (word :: next :: rest) = word :: options (takesValue bin) (next :: rest) := by
  have bare : takesValue bin word = false := documented.bare _ own
  have option : ∀ use ∈ ownUses, isOption use.2 = true ∧ use.2 ≠ "--" := by decide
  rw [options, if_neg (by simp [(option _ own).1]), if_neg (option _ own).2, if_neg (by simp [bare])]

/-- An option before others is the first one that the tool sees. -/
theorem head_options (takes : String → Bool) {word : String} (option : isOption word)
    (rest : List String) : (options takes (word :: rest)).head? = some word := by
  cases rest with
  | nil => simp [options, option]
  | cons next rest =>
    rw [options, if_neg (by simp [option])]
    split
    · rfl
    · split <;> rfl

/-- The words of a search, and the term behind them. -/
theorem options_search (documented : Documented takesValue) {manager : Manager}
    (other : manager ≠ .xbps) (term : String) :
    options (takesValue (searchWords manager).1) ((searchWords manager).2 ++ [term]) =
      (searchWords manager).2.filter (isOption ·) ++ if isOption term then [term] else [] := by
  cases manager with
  | apt | lunar | sorcery => rfl
  | pacman => exact @options_own _ documented "pacman" _ (by decide) term []
  | dnf => exact @options_own _ documented "dnf" _ (by decide) "search" [term]
  | yum => exact @options_own _ documented "yum" _ (by decide) "search" [term]
  | zypper => exact @options_own _ documented "zypper" _ (by decide) "se" [term]
  | apk => exact (options_operand _ rfl _ _).trans (@options_own _ documented "apk" "-v" (by decide) term [])
  | emerge => exact @options_own _ documented "emerge" _ (by decide) term []
  | xbps => exact absurd rfl other

theorem options_xbps (documented : Documented takesValue) (term : String) :
    options (takesValue "xbps-query") ["-Rs", term] = ["-Rs"] := by
  rw [options, if_neg (by decide), if_neg (by decide), if_pos documented.xbps]
  rfl

/-- The name of a pod, before the options of the bridge. -/
theorem options_kubectl (documented : Documented takesValue) (pod : String) {last : List String}
    (own : last = ["-A"] ∨ last = ["-A", "--tail=100"]) :
    options (takesValue "kubectl") (pod :: last) = last ↔ isOption pod = false := by
  have kept : options (takesValue "kubectl") last = last := by
    rcases own with rfl | rfl
    · rfl
    · exact @options_own _ documented "kubectl" _ (by decide) _ []
  have begins : ∃ rest, last = "-A" :: rest := by
    rcases own with rfl | rfl
    · exact ⟨_, rfl⟩
    · exact ⟨_, rfl⟩
  obtain ⟨rest, split⟩ := begins
  constructor
  · intro same
    refine Bool.eq_false_iff.mpr fun option => ?_
    have first := head_options (takesValue "kubectl") option last
    rw [same, split] at first
    obtain rfl : "-A" = pod := Option.some.inj first
    have twice := @options_own _ documented "kubectl" "-A" (by decide) "-A" rest
    rw [← split, same, kept] at twice
    exact absurd (congrArg List.length twice) (by simp)
  · intro operand
    rw [split, options_operand _ operand, ← split, kept]

/-- A tool that a read command starts receives the options of the bridge and no others exactly when
the text gives it nothing to take for an option. -/
theorem uninjected_iff (documented : Documented takesValue) (read : ReadCommand) (text : String) :
    Uninjected takesValue read text ↔ Harmless read text := by
  have received : Uninjected takesValue read text ↔
      (read.word text ≠ "" → '\x00' ∉ (read.word text).toList →
        options (takesValue read.bin) (read.args (read.word text)) = read.ownOptions) := by
    simp only [Uninjected, spawned_iff]
    constructor
    · intro all begun free
      exact all _ _ ⟨⟨begun, free⟩, rfl, rfl⟩
    · rintro same bin args ⟨⟨begun, free⟩, rfl, rfl⟩
      exact same begun free
  have exactly : options (takesValue read.bin) (read.args (read.word text)) = read.ownOptions ↔
      isOption (read.word text) = false ∨ read = .search .xbps := by
    cases read with
    | search manager =>
      by_cases xbps : manager = .xbps
      · subst xbps
        exact iff_of_true (options_xbps documented _) (.inr rfl)
      · have other : ReadCommand.search manager ≠ .search .xbps := fun same =>
          xbps (ReadCommand.search.inj same)
        rw [ReadCommand.bin, ReadCommand.args, options_search documented xbps, ReadCommand.ownOptions,
          List.append_right_eq_self, or_iff_left other]
        simp
    | describe =>
      rw [ReadCommand.args, options_operand _ rfl, options_operand _ rfl, or_iff_left nofun]
      exact options_kubectl documented _ (.inl rfl)
    | logs =>
      rw [ReadCommand.args, options_operand _ rfl, or_iff_left nofun]
      exact options_kubectl documented _ (.inr rfl)
  rw [received, exactly]
  unfold Harmless
  constructor
  · intro safe
    by_cases empty : read.word text = ""
    · exact .inl (by rw [empty]; rfl)
    · by_cases free : '\x00' ∈ (read.word text).toList
      · exact .inr (.inr free)
      · exact (safe empty free).elim .inl (.inr ∘ .inl)
  · rintro (operand | xbps | refused) _ free
    · exact .inl operand
    · exact .inr xbps
    · exact absurd refused free

/-- No option takes a value but the search of xbps. -/
def sampleTakesValue (bin word : String) : Bool := bin = "xbps-query" && word = "-Rs"

theorem sampleTakesValue_documented : Documented sampleTakesValue where
  xbps := by decide
  bare := by decide

theorem uninjected_ripgrep :
    Uninjected sampleTakesValue (.search .apt) "ripgrep" ↔ Harmless (.search .apt) "ripgrep" :=
  uninjected_iff sampleTakesValue_documented _ _

/-- A term that begins with a hyphen is an option of apt-cache. -/
theorem term_is_option : ¬ Uninjected sampleTakesValue (.search .apt) "-oDir::Cache=/tmp" := by
  intro uninjected
  have received := uninjected "apt-cache" ["search", "-oDir::Cache=/tmp"] (by rfl)
  exact absurd received (by decide)

end SysDeck.Web.ReadArgv
