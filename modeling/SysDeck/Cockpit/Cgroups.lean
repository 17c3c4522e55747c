import SysDeck.Library.FileTree

/-! The cgroup commands of the policy bridge: the check of the path, and what the commands create
and open for writing. -/

namespace SysDeck.Cockpit.Cgroups

open FileTree

/-- `Path(text)`: no empty name and no `.` is kept. -/
def parse (text : String) : Path :=
  let parts := (text.toList.splitOn '/').map String.ofList
  ⟨text.toList.head? = some '/', parts.filter fun part => part ≠ "" && part ≠ "."⟩

/-- `Path("/sys/fs/cgroup")` -/
def CGROUP_ROOT : Path := ⟨true, ["sys", "fs", "cgroup"]⟩

/-- The file system as a command meets it, with the limits of the kernel and of the interpreter on
links, and where a directory or a file may be made and a file opened for writing. -/
structure Host where
  tree : Tree
  cwd : Location
  links : Nat
  depth : Nat
  permits : Location → Bool
  creates : Location → Bool
  opens : Location → Bool

def Host.resolve (host : Host) (path : Path) : Option Location :=
  FileTree.resolve host.tree host.depth (path.start host.cwd) path.parts

/-- The node that a path names, or with `create` the place where one will be made. -/
def Host.lookup (host : Host) (create : Bool) (path : Path) : Except Errno Location :=
  FileTree.lookup host.tree create host.links (path.start host.cwd) path.parts

/-- `path / name` -/
def child (path : Path) (name : String) : Path := { path with parts := path.parts ++ [name] }

def Host.isNode (host : Host) (path : Path) (node : Node) : Bool :=
  match host.lookup false path with
  | .ok place => host.tree place = some node
  | .error _ => false

def cgroupPathOk (host : Host) (path : Path) : Bool :=
  match host.resolve path, host.resolve CGROUP_ROOT with
  | some place, some root => root.isSuffixOf place
  | _, _ => false

/-- `[A-Za-z0-9_.-]` -/
def knobChar (c : Char) : Bool := c.isAlphanum || c = '_' || c = '.' || c = '-'

/-- A word of the vocabulary of control files: what `_CGROUP_CTRL_RE` spells before its `$`. -/
def isControlWord (control : List Char) : Bool :=
  match control.span (· ≠ '.') with
  | (head, '.' :: knob) =>
    head = "cgroup".toList &&
        ["procs", "controllers", "subtree_control", "type", "freeze", "kill"].contains
          (String.ofList knob) ||
      ["memory", "cpu", "io", "pids", "rdma", "misc", "hugetlb"].contains (String.ofList head) &&
        knob.all knobChar && 1 ≤ knob.length && knob.length ≤ 32
  | _ => false

/-- `_CGROUP_CTRL_RE.match`, whose `$` stands also before a last newline. -/
def controlMatch (control : String) : Bool :=
  isControlWord control.toList ||
    control.toList.getLast? = some '\n' && isControlWord control.toList.dropLast

def cgroupV2Available (host : Host) : Bool :=
  host.isNode (child CGROUP_ROOT "cgroup.controllers") .file

inductive Answer where
  | refused
  | unavailable
  | missing
  | done
  | failed
  deriving DecidableEq

/-- What a command leaves: the tree, the node it opened for writing, and its answer. -/
structure Outcome where
  tree : Tree
  opened : Option Location
  answer : Answer

def cgroupCreate (host : Host) (arg : String) : Outcome :=
  let path := parse arg
  if !cgroupV2Available host then ⟨host.tree, none, .unavailable⟩
  else if !cgroupPathOk host path then ⟨host.tree, none, .refused⟩
  else
    let (made, error) :=
      mkdir host.permits host.links (path.start host.cwd) false host.tree path.parts.reverse
    ⟨made, none, if error.isNone then .done else .failed⟩

/-- A file is opened for writing, and made where nothing stands. -/
def openForWriting (host : Host) (path : Path) : Outcome :=
  match host.lookup true path with
  | .error _ => ⟨host.tree, none, .failed⟩
  | .ok place =>
    match host.tree place with
    | some .file =>
      if host.opens place then ⟨host.tree, some place, .done⟩ else ⟨host.tree, none, .failed⟩
    | none =>
      if host.creates place then
        ⟨Function.update host.tree place (some .file), some place, .done⟩
      else ⟨host.tree, none, .failed⟩
    | some _ => ⟨host.tree, none, .failed⟩

def cgroupMove (host : Host) (arg : String) : Outcome :=
  if !cgroupPathOk host (parse arg) then ⟨host.tree, none, .refused⟩
  else if !host.isNode (child (parse arg) "cgroup.procs") .file then ⟨host.tree, none, .missing⟩
  else openForWriting host (child (parse arg) "cgroup.procs")

def cgroupSet (host : Host) (arg control : String) : Outcome :=
  if !cgroupPathOk host (parse arg) then ⟨host.tree, none, .refused⟩
  else if !controlMatch control then ⟨host.tree, none, .refused⟩
  else if !host.isNode (parse arg) .directory then ⟨host.tree, none, .missing⟩
  else openForWriting host (child (parse arg) control)

/-- A command with its arguments. The process id and the value are written as they are into what
was opened. -/
inductive Command where
  | create (path : String)
  | move (pid path : String)
  | set (path control value : String)

def run (host : Host) : Command → Outcome
  | .create path => cgroupCreate host path
  | .move _ path => cgroupMove host path
  | .set path control _ => cgroupSet host path control

/-! ### What stays in the hierarchy -/

/-- The hierarchy, its root included. -/
def Inside (host : Host) (place : Location) : Prop :=
  ∃ root, host.resolve CGROUP_ROOT = some root ∧ root <:+ place

/-- Nothing outside the hierarchy is made or opened for writing, and what `cgroup-set` opens has a
word of the vocabulary for a name. -/
structure Confined (host : Host) (command : Command) : Prop where
  made : ∀ place, (run host command).tree place ≠ host.tree place → Inside host place
  opened : ∀ place, (run host command).opened = some place → Inside host place
  control : ∀ path control value, command = .set path control value →
    ∀ name up, (run host command).opened = some (name :: up) → isControlWord name.toList

/-- Where opening for writing opens or makes a file. -/
def Takes (host : Host) (place : Location) : Prop :=
  host.tree place = some .file ∧ host.opens place ∨ host.tree place = none ∧ host.creates place

/-- The names that the path of `cgroup-create` lacks, walked from its first name with the earlier
ones filled in, are all in the hierarchy; and no file of the name that `cgroup-set` was given is
opened where that name ends in a newline. -/
def Safe (host : Host) : Command → Prop
  | .create arg => cgroupV2Available host → cgroupPathOk host (parse arg) →
      ∀ place ∈ (fill host.permits host.links ((parse arg).start host.cwd) host.tree
        (parse arg).parts.reverse).gaps, Inside host place
  | .move _ _ => True
  | .set arg control _ => controlMatch control → control.toList.getLast? = some '\n' →
      ∀ place, host.resolve (parse arg) = some place → Inside host place →
        host.isNode (parse arg) .directory → ¬ Takes host (control :: place)

theorem cgroupPathOk_iff {host : Host} {path : Path} :
    cgroupPathOk host path ↔ ∃ place, host.resolve path = some place ∧ Inside host place := by
  unfold cgroupPathOk Inside
  cases host.resolve path <;> cases host.resolve CGROUP_ROOT <;> simp

theorem Inside.child {host : Host} {place : Location} (inside : Inside host place) (name : String) :
    Inside host (name :: place) := by
  obtain ⟨root, resolved, suffix⟩ := inside
  exact ⟨root, resolved, suffix.trans (List.suffix_cons name place)⟩

section Opening

variable {host : Host}
  (flat : ∀ place, Inside host place → ∀ target, host.tree place ≠ some (.link target))

include flat

/-- The kernel finds the file where the check looked. -/
theorem lookup_child {path : Path} {name : String} (plain : isName name) {create : Bool}
    {parent place : Location} (resolved : host.resolve path = some parent)
    (inside : Inside host parent) (found : host.lookup create (child path name) = .ok place) :
    place = name :: parent := by
  obtain ⟨depth, again⟩ := resolve_of_lookup found
  rw [child, resolve_append, Option.bind_eq_some_iff] at again
  obtain ⟨there, leading, last⟩ := again
  obtain rfl : parent = there := resolve_unique resolved leading
  simp only [isName, Bool.and_eq_true, decide_eq_true_eq] at plain
  rw [resolve_down depth (by simp [plain]) plain.2 (flat _ (inside.child name))] at last
  cases depth <;> simpa [FileTree.resolve, resolveWith, eq_comm] using last

end Opening

theorem openForWriting_opened {host : Host} {path : Path} {place : Location} :
    (openForWriting host path).opened = some place ↔
      host.lookup true path = .ok place ∧ Takes host place := by
  unfold openForWriting Takes
  cases looked : host.lookup true path with
  | error error => simp
  | ok there =>
    simp only [Except.ok.injEq]
    cases node : host.tree there with
    | none =>
      by_cases may : host.creates there
      · simp only [if_pos may, Option.some.injEq]
        exact ⟨fun same => by simp [← same, node, may], And.left⟩
      · simp only [if_neg may]
        refine ⟨fun nothing => (by cases nothing), ?_⟩
        rintro ⟨rfl, takes⟩
        simp [node, may] at takes
    | some kind =>
      cases kind with
      | file =>
        by_cases may : host.opens there
        · simp only [if_pos may, Option.some.injEq]
          exact ⟨fun same => by simp [← same, node, may], And.left⟩
        · simp only [if_neg may]
          refine ⟨fun nothing => (by cases nothing), ?_⟩
          rintro ⟨rfl, takes⟩
          simp [node, may] at takes
      | _ =>
        refine ⟨fun nothing => (by cases nothing), ?_⟩
        rintro ⟨rfl, takes⟩
        simp [node] at takes

/-- Opening changes nothing but what it makes. -/
theorem openForWriting_made {host : Host} {path : Path} {place : Location}
    (changed : (openForWriting host path).tree place ≠ host.tree place) :
    (openForWriting host path).opened = some place := by
  unfold openForWriting at changed ⊢
  split at changed
  · exact absurd rfl changed
  · next there looked =>
    split at changed
    · split at changed <;> exact absurd rfl changed
    · next node =>
      split at changed
      · next may =>
        by_cases same : place = there
        · simp [may, same]
        · simp [same] at changed
      · exact absurd rfl changed
    · exact absurd rfl changed

theorem isControlWord_newline {control : List Char} (newline : control.getLast? = some '\n') :
    isControlWord control = false := by
  have whole := List.takeWhile_append_dropWhile (p := (· ≠ '.')) (l := control)
  unfold isControlWord
  rw [List.span_eq_takeWhile_dropWhile]
  split
  · next head knob spanned =>
    obtain ⟨start, rest⟩ := Prod.mk.inj spanned
    rw [start, rest] at whole
    rw [← whole] at newline
    have last : knob = [] ∨ knob.getLast? = some '\n' := by
      cases knob with
      | nil => exact .inl rfl
      | cons c knob => exact .inr (by simpa [List.getLast?_cons_cons] using newline)
    rcases last with rfl | last
    · simp
    · have words : ∀ word ∈ ["procs", "controllers", "subtree_control", "type", "freeze", "kill"],
          word.toList.getLast? ≠ some '\n' := by decide
      have notWord : String.ofList knob ∉
          ["procs", "controllers", "subtree_control", "type", "freeze", "kill"] := by
        intro member
        exact words _ member (by simpa using last)
      have notKnob : knob.all knobChar = false := by
        rw [List.all_eq_false]
        exact ⟨'\n', List.mem_of_getLast? last, by decide⟩
      simp only [List.contains_eq_mem, notWord, notKnob]
      simp
  · rfl

theorem isName_of_controlMatch {control : String} (matched : controlMatch control) :
    isName control := by
  have others : ∀ name ∈ ["", ".", ".."], controlMatch name = false := by decide
  simp only [isName, Bool.and_eq_true, decide_eq_true_eq]
  refine ⟨⟨?_, ?_⟩, ?_⟩ <;> rintro rfl <;> simp [others] at matched

/-- A control name that is matched is a word, or a word with a newline after it. -/
theorem isControlWord_iff {control : String} (matched : controlMatch control) :
    isControlWord control.toList ↔ control.toList.getLast? ≠ some '\n' := by
  constructor
  · intro word newline
    rw [isControlWord_newline newline] at word
    cases word
  · intro other
    simpa [controlMatch, other] using matched

/-- What stands in a directory of the hierarchy is opened by its name. -/
theorem opened_of_takes {host : Host} {path : Path} {name : String} (plain : isName name)
    {parent : Location}
    (resolved : host.resolve path = some parent) (directory : host.isNode path .directory) (takes : Takes host (name :: parent)) :
    (openForWriting host (child path name)).opened = some (name :: parent) := by
  refine openForWriting_opened.mpr ⟨?_, takes⟩
  unfold Host.isNode at directory
  split at directory
  · next there found =>
    obtain ⟨depth, again⟩ := resolve_of_lookup found
    obtain rfl : parent = there := resolve_unique resolved again
    obtain ⟨fewer, onward⟩ := lookup_append true found
    simp only [decide_eq_true_eq] at directory
    simp only [isName, Bool.and_eq_true, decide_eq_true_eq] at plain
    refine (onward [name]).trans ?_
    rcases takes with ⟨node, -⟩ | ⟨node, -⟩ <;>
      cases fewer <;> simp [FileTree.lookup, walk, directory, plain, node]
  · cases directory

/-- What `cgroup-set` opens: a file of that name in the directory that was checked. -/
theorem cgroupSet_opened {host : Host} {arg control : String} {place : Location} :
    (cgroupSet host arg control).opened = some place ↔
      cgroupPathOk host (parse arg) ∧ controlMatch control ∧
        host.isNode (parse arg) .directory ∧
        (openForWriting host (child (parse arg) control)).opened = some place := by
  unfold cgroupSet
  by_cases ok : cgroupPathOk host (parse arg)
  · by_cases matched : controlMatch control
    · by_cases directory : host.isNode (parse arg) .directory
      · simp [ok, matched, directory]
      · simp [ok, matched, directory]
    · simp [ok, matched]
  · simp [ok]

/-- What `cgroup-create` changes: the names that its path lacks. -/
theorem cgroupCreate_changes {host : Host} {arg : String} {place : Location} :
    (cgroupCreate host arg).tree place ≠ host.tree place ↔
      cgroupV2Available host ∧ cgroupPathOk host (parse arg) ∧
        place ∈ (fill host.permits host.links ((parse arg).start host.cwd) host.tree
          (parse arg).parts.reverse).gaps := by
  unfold cgroupCreate
  by_cases available : cgroupV2Available host
  · by_cases ok : cgroupPathOk host (parse arg)
    · simpa [available, ok] using mkdir_changes_iff
    · simp [available, ok]
  · simp [available]

theorem cgroupCreate_opened (host : Host) (arg : String) : (cgroupCreate host arg).opened = none := by
  by_cases available : cgroupV2Available host
  · by_cases ok : cgroupPathOk host (parse arg)
    · simp [cgroupCreate, available, ok]
    · simp [cgroupCreate, available, ok]
  · simp [cgroupCreate, available]

section Opening

variable {host : Host}
  (flat : ∀ place, Inside host place → ∀ target, host.tree place ≠ some (.link target))

include flat

theorem opened_child {path : Path} {name : String} (plain : isName name) (ok : cgroupPathOk host path)
    {place : Location} (opened : (openForWriting host (child path name)).opened = some place) :
    ∃ parent, host.resolve path = some parent ∧ Inside host parent ∧ place = name :: parent ∧
      Takes host place := by
  obtain ⟨parent, resolved, inside⟩ := cgroupPathOk_iff.mp ok
  obtain ⟨found, takes⟩ := openForWriting_opened.mp opened
  exact ⟨parent, resolved, inside, lookup_child flat plain resolved inside found, takes⟩

/-- A file that is opened under the checked path is in the hierarchy. -/
theorem opened_inside {path : Path} {name : String} (plain : isName name)
    (ok : cgroupPathOk host path) {place : Location}
    (opened : (openForWriting host (child path name)).opened = some place) : Inside host place := by
  obtain ⟨parent, -, inside, rfl, -⟩ := opened_child flat plain ok opened
  exact inside.child name

theorem cgroupMove_inside (arg : String) {place : Location} :
    ((cgroupMove host arg).tree place ≠ host.tree place → Inside host place) ∧
      ((cgroupMove host arg).opened = some place → Inside host place) := by
  have plain : isName "cgroup.procs" := by decide
  unfold cgroupMove
  split
  · simp
  · next ok =>
    split
    · simp
    · have inside := @opened_inside host flat _ _ plain (by simpa using ok) place
      exact ⟨fun changed => inside (openForWriting_made changed), inside⟩

theorem cgroupSet_inside (arg control : String) {place : Location} :
    ((cgroupSet host arg control).tree place ≠ host.tree place → Inside host place) ∧
      ((cgroupSet host arg control).opened = some place → Inside host place) := by
  unfold cgroupSet
  split
  · simp
  · next ok =>
    split
    · simp
    · next matched =>
      split
      · simp
      · have plain := isName_of_controlMatch (by simpa using matched)
        have inside := @opened_inside host flat _ _ plain (by simpa using ok) place
        exact ⟨fun changed => inside (openForWriting_made changed), inside⟩

theorem cgroupSet_word_iff {arg control : String} :
    (∀ name up, (cgroupSet host arg control).opened = some (name :: up) →
        isControlWord name.toList) ↔
      (controlMatch control → control.toList.getLast? = some '\n' →
        ∀ place, host.resolve (parse arg) = some place → Inside host place →
          host.isNode (parse arg) .directory → ¬ Takes host (control :: place)) := by
  constructor
  · intro words matched newline place resolved inside directory takes
    have plain := isName_of_controlMatch matched
    have opened := opened_of_takes plain resolved directory takes
    have ok := cgroupPathOk_iff.mpr ⟨place, resolved, inside⟩
    have word := words control place (cgroupSet_opened.mpr ⟨ok, matched, directory, opened⟩)
    exact (isControlWord_iff matched).mp word newline
  · intro safe name up opened
    obtain ⟨ok, matched, directory, opened⟩ := cgroupSet_opened.mp opened
    have plain := isName_of_controlMatch matched
    obtain ⟨parent, resolved, inside, same, takes⟩ := opened_child flat plain ok opened
    obtain ⟨rfl, rfl⟩ := List.cons.inj same
    refine (isControlWord_iff matched).mpr fun newline => ?_
    exact safe matched newline up resolved inside directory takes

end Opening

/-- A host with an empty `/tmp`, and the root of the hierarchy. -/
def bareHost : Host where
  tree place :=
    if place = ["cgroup.controllers", "cgroup", "fs", "sys"] then some .file
    else if place ∈ [[], ["sys"], ["fs", "sys"], ["cgroup", "fs", "sys"], ["tmp"]] then
      some .directory
    else none
  cwd := []
  links := 40
  depth := 100
  permits _ := true
  creates _ := false
  opens _ := true

theorem bareHost_flat (place : Location) (target : Path) : bareHost.tree place ≠ some (.link target) := by
  unfold bareHost
  grind

end SysDeck.Cockpit.Cgroups
