import Mathlib.Data.List.Infix
import Mathlib.Logic.Function.Basic

/-! A tree of directories and symbolic links: the walk that the kernel makes over a path, the
resolution of a path that counts missing names as directories, and `mkdir` with parents. -/

namespace FileTree

/-- The names from a node up to the root. -/
abbrev Location := List String

/-- The text of a path or of a link, cut at its slashes. -/
structure Path where
  absolute : Bool
  parts : List String
  deriving DecidableEq

def Path.start (path : Path) (here : Location) : Location := if path.absolute then [] else here

inductive Node where
  | directory
  | file
  | link (target : Path)
  deriving DecidableEq

abbrev Tree := Location → Option Node

inductive Errno where
  | noEntry | notDirectory | loop | exists | denied
  deriving DecidableEq

/-- The walk over the names of a path, where `follow` goes on from a link. A last name that is
missing is an error, or with `create` the place where the node will be made. -/
def walk (tree : Tree) (create : Bool) (follow : Location → List String → Except Errno Location) :
    Location → List String → Except Errno Location
  | here, [] => .ok here
  | here, part :: rest =>
    if tree here ≠ some .directory then .error .notDirectory
    else if part = "" ∨ part = "." then walk tree create follow here rest
    else if part = ".." then walk tree create follow here.tail rest
    else match tree (part :: here) with
      | none => if create && rest.isEmpty then .ok (part :: here) else .error .noEntry
      | some (.link target) => follow (target.start here) (target.parts ++ rest)
      | some _ => walk tree create follow (part :: here) rest

/-- The node a path names, with at most so many links on the way. -/
def lookup (tree : Tree) (create : Bool) : Nat → Location → List String → Except Errno Location
  | 0 => walk tree create fun _ _ => .error .loop
  | links + 1 => walk tree create (lookup tree create links)

/-- The resolution of a path, where a name that is missing stands for itself. -/
def resolveWith (tree : Tree) (follow : Location → List String → Option Location) :
    Location → List String → Option Location
  | here, [] => some here
  | here, part :: rest =>
    if part = "" ∨ part = "." then resolveWith tree follow here rest
    else if part = ".." then resolveWith tree follow here.tail rest
    else match tree (part :: here) with
      | some (.link target) =>
        match follow (target.start here) target.parts with
        | some there => resolveWith tree follow there rest
        | none => none
      | _ => resolveWith tree follow (part :: here) rest

/-- The resolution with links nested so deep at most. -/
def resolve (tree : Tree) : Nat → Location → List String → Option Location
  | 0 => resolveWith tree fun _ _ => none
  | depth + 1 => resolveWith tree (resolve tree depth)

/-! ### Lookup and resolution -/
attribute [local simp] walk lookup resolveWith resolve

theorem resolveWith_append (tree : Tree) (follow : Location → List String → Option Location)
    (here : Location) (first second : List String) :
    resolveWith tree follow here (first ++ second) =
      (resolveWith tree follow here first).bind (resolveWith tree follow · second) := by
  induction first generalizing here with
  | nil => rfl
  | cons part rest ih =>
    simp only [List.cons_append, resolveWith]
    split
    · exact ih here
    · split
      · exact ih here.tail
      · split
        · split
          · exact ih _
          · rfl
        · exact ih (part :: here)

theorem resolveWith_mono {tree : Tree} {less more : Location → List String → Option Location}
    (grows : ∀ here parts place, less here parts = some place → more here parts = some place)
    {here : Location} {parts : List String} {place : Location}
    (found : resolveWith tree less here parts = some place) :
    resolveWith tree more here parts = some place := by
  induction parts generalizing here with
  | nil => exact found
  | cons part rest ih =>
    simp only [resolveWith] at found ⊢
    split
    · next same => exact ih (by simpa only [if_pos same] using found)
    · next other =>
      rw [if_neg other] at found
      split
      · next up => exact ih (by simpa only [if_pos up] using found)
      · next down =>
        rw [if_neg down] at found
        cases node : tree (part :: here) with
        | none => exact ih (by simpa only [node] using found)
        | some kind =>
          cases kind with
          | directory => exact ih (by simpa only [node] using found)
          | file => exact ih (by simpa only [node] using found)
          | link target =>
            simp only [node] at found ⊢
            cases followed : less (target.start here) target.parts with
            | none => simp [followed] at found
            | some there =>
              rw [grows _ _ _ followed]
              exact ih (by simpa only [followed] using found)

theorem resolve_succ {tree : Tree} {depth : Nat} {here : Location} {parts : List String}
    {place : Location} (found : resolve tree depth here parts = some place) :
    resolve tree (depth + 1) here parts = some place := by
  induction depth generalizing here parts place with
  | zero => exact resolveWith_mono (fun _ _ _ none => by simp at none) found
  | succ depth ih => exact resolveWith_mono (fun _ _ _ => ih) found

theorem resolve_mono {tree : Tree} {less more : Nat} (le : less ≤ more) {here : Location}
    {parts : List String} {place : Location} (found : resolve tree less here parts = some place) :
    resolve tree more here parts = some place := by
  induction more, le using Nat.le_induction with
  | base => exact found
  | succ more _ ih => exact resolve_succ ih

theorem resolve_append (tree : Tree) (depth : Nat) (here : Location) (first second : List String) :
    resolve tree depth here (first ++ second) =
      (resolve tree depth here first).bind (resolve tree depth · second) := by
  cases depth <;> exact resolveWith_append _ _ here first second

/-- Two depths that both suffice give one answer. -/
theorem resolve_unique {tree : Tree} {depth other : Nat} {here : Location} {parts : List String}
    {place there : Location} (found : resolve tree depth here parts = some place)
    (again : resolve tree other here parts = some there) : place = there := by
  have left := resolve_mono (Nat.le_max_left depth other) found
  have right := resolve_mono (Nat.le_max_right depth other) again
  exact Option.some.inj (left.symm.trans right)

theorem resolve_stay (tree : Tree) (depth : Nat) (here : Location) {part : String}
    (same : part = "" ∨ part = ".") (rest : List String) :
    resolve tree depth here (part :: rest) = resolve tree depth here rest := by
  cases depth <;> simp only [resolve, resolveWith, if_pos same]

theorem resolve_up (tree : Tree) (depth : Nat) (here : Location) (rest : List String) :
    resolve tree depth here (".." :: rest) = resolve tree depth here.tail rest := by
  cases depth <;> simp [resolve, resolveWith]

/-- A name that is not a link is gone down into, whether something stands there or not. -/
theorem resolve_down {tree : Tree} (depth : Nat) {here : Location} {part : String}
    (other : ¬ (part = "" ∨ part = ".")) (down : part ≠ "..")
    (node : ∀ target, tree (part :: here) ≠ some (.link target)) (rest : List String) :
    resolve tree depth here (part :: rest) = resolve tree depth (part :: here) rest := by
  cases depth <;> simp only [resolve, resolveWith, if_neg other, if_neg down]

theorem resolve_link {tree : Tree} {depth : Nat} {here there place : Location} {part : String}
    (other : ¬ (part = "" ∨ part = ".")) (down : part ≠ "..") {target : Path}
    (node : tree (part :: here) = some (.link target))
    (followed : resolve tree depth (target.start here) target.parts = some there)
    {rest : List String} (found : resolve tree (depth + 1) there rest = some place) :
    resolve tree (depth + 1) here (part :: rest) = some place := by
  rw [resolve] at found ⊢
  simpa only [resolveWith, if_neg other, if_neg down, node, followed] using found

theorem walk_resolves {tree : Tree} {create : Bool}
    {follow : Location → List String → Except Errno Location}
    (sound : ∀ here parts place, follow here parts = .ok place →
      ∃ depth, resolve tree depth here parts = some place)
    {here : Location} {parts : List String} {place : Location}
    (found : walk tree create follow here parts = .ok place) :
    ∃ depth, resolve tree depth here parts = some place := by
  induction parts generalizing here with
  | nil => exact ⟨0, by simpa [walk, resolve, resolveWith] using found⟩
  | cons part rest ih =>
    rw [walk] at found
    split at found
    · cases found
    · split at found
      · next same =>
        obtain ⟨depth, resolved⟩ := ih found
        exact ⟨depth, by rw [resolve_stay tree depth here same, resolved]⟩
      · next other =>
        split at found
        · next up =>
          obtain ⟨depth, resolved⟩ := ih found
          exact ⟨depth, by rw [up, resolve_up, resolved]⟩
        · next down =>
          split at found
          · next node =>
            split at found
            · next last =>
              obtain rfl := Except.ok.inj found
              obtain rfl : rest = [] := by simpa using (Bool.and_eq_true_iff.mp last).2
              exact ⟨0, resolve_down 0 other down (by simp [node]) []⟩
            · cases found
          · next target node =>
            -- the names of the link and the rest of the path are one walk for the kernel
            obtain ⟨depth, resolved⟩ := sound _ _ _ found
            rw [resolve_append, Option.bind_eq_some_iff] at resolved
            obtain ⟨there, followed, resolved⟩ := resolved
            exact ⟨depth + 1, resolve_link other down node followed (resolve_succ resolved)⟩
          · next kind plain node =>
            obtain ⟨depth, resolved⟩ := ih found
            have never : ∀ target, tree (part :: here) ≠ some (.link target) := by
              intro target link
              exact plain target (Option.some.inj (node.symm.trans link))
            exact ⟨depth, by rw [resolve_down depth other down never, resolved]⟩

/-- A node that the kernel finds is the one the path resolves to. -/
theorem resolve_of_lookup {tree : Tree} {create : Bool} {links : Nat} {here : Location}
    {parts : List String} {place : Location} (found : lookup tree create links here parts = .ok place) :
    ∃ depth, resolve tree depth here parts = some place := by
  induction links generalizing here parts place with
  | zero => exact walk_resolves (fun _ _ _ ok => by cases ok) found
  | succ links ih => exact walk_resolves (fun _ _ _ => ih) found

/-! ### The leading part of a path -/

theorem walk_append (links : Nat) {tree : Tree} {create : Bool}
    {follow followed : Location → List String → Except Errno Location}
    (split : ∀ here first place, follow here first = .ok place →
      ∃ fewer, ∀ second, followed here (first ++ second) = lookup tree create fewer place second)
    (whole : lookup tree create links = walk tree create followed)
    {here : Location} {first : List String} {place : Location}
    (found : walk tree false follow here first = .ok place) :
    ∃ fewer, ∀ second,
      walk tree create followed here (first ++ second) = lookup tree create fewer place second := by
  induction first generalizing here with
  | nil =>
    obtain rfl : here = place := by simpa [walk] using found
    exact ⟨links, fun second => by rw [whole, List.nil_append]⟩
  | cons part rest ih =>
    simp only [List.cons_append, walk] at found ⊢
    split at found
    · cases found
    · next directory =>
      simp only [if_neg directory]
      split at found
      · next same => simpa only [if_pos same] using ih found
      · next other =>
        simp only [if_neg other]
        split at found
        · next up => simpa only [if_pos up] using ih found
        · next down =>
          simp only [if_neg down]
          split at found
          · cases found
          · next target node =>
            simp only [← List.append_assoc]
            exact split _ _ _ found
          · exact ih found

/-- A path goes on from the node that its leading part names. -/
theorem lookup_append {tree : Tree} (create : Bool) {links : Nat} {here : Location}
    {first : List String} {place : Location} (found : lookup tree false links here first = .ok place) :
    ∃ fewer, ∀ second,
      lookup tree create links here (first ++ second) = lookup tree create fewer place second := by
  induction links generalizing here first place with
  | zero => exact walk_append 0 (fun _ _ _ ok => by cases ok) rfl found
  | succ links ih => exact walk_append (links + 1) (fun _ _ _ ok => ih ok) rfl found

theorem walk_append_error {tree : Tree} {follow : Location → List String → Except Errno Location}
    {error : Errno} (stop : ∀ here first, follow here first = .error error →
      ∀ second, follow here (first ++ second) = .error error)
    {here : Location} {first : List String} (stopped : walk tree false follow here first = .error error)
    (second : List String) : walk tree false follow here (first ++ second) = .error error := by
  induction first generalizing here with
  | nil => cases stopped
  | cons part rest ih =>
    simp only [List.cons_append, walk] at stopped ⊢
    split at stopped
    · next missing => simpa only [if_pos missing] using stopped
    · next directory =>
      simp only [if_neg directory]
      split at stopped
      · next same => simpa only [if_pos same] using ih stopped
      · next other =>
        simp only [if_neg other]
        split at stopped
        · next up => simpa only [if_pos up] using ih stopped
        · next down =>
          simp only [if_neg down]
          split at stopped
          · exact stopped
          · next target node =>
            simp only [← List.append_assoc]
            exact stop _ _ stopped second
          · exact ih stopped

/-- Where the walk of the leading part stops, the walk of the path stops. -/
theorem lookup_append_error {tree : Tree} {links : Nat} {here : Location} {first : List String}
    {error : Errno} (stopped : lookup tree false links here first = .error error)
    (second : List String) : lookup tree false links here (first ++ second) = .error error := by
  induction links generalizing here first second with
  | zero => exact walk_append_error (fun _ _ same _ => by exact same) stopped second
  | succ links ih => exact walk_append_error (fun _ _ stopped => ih stopped) stopped second

/-! ### Directories made on the way -/

section Making

variable (permits : Location → Bool) (links : Nat) (start : Location)

def isDirectory (tree : Tree) (parts : List String) : Bool :=
  match lookup tree false links start parts with
  | .ok place => tree place = some .directory
  | .error _ => false

/-- Neither a directory itself nor its parent. -/
def isName (part : String) : Bool := part ≠ "" && part ≠ "." && part ≠ ".."

/-- `mkdir`, of the path whose names are given from its last; `permits` says where the host lets
a directory be made. -/
def makeDirectory (tree : Tree) : List String → Except Errno Tree
  | [] => .error .exists
  | part :: up =>
    match lookup tree false links start up.reverse with
    | .error error => .error error
    | .ok here =>
      if tree here ≠ some .directory then .error .notDirectory
      else if !isName part || tree (part :: here) ≠ none then .error .exists
      else if permits (part :: here) then
        .ok (Function.update tree (part :: here) (some .directory))
      else .error .denied

/-- Making one directory, where a directory that is there may be accepted. -/
def mkdirHere (existOk : Bool) (tree : Tree) (up : List String) : Tree × Option Errno :=
  match makeDirectory permits links start tree up with
  | .ok made => (made, none)
  | .error .noEntry => (tree, some .noEntry)
  | .error error =>
    (tree, if existOk && isDirectory links start tree up.reverse then none else some error)

/-- Making a directory with its parents: the parents are made where the directory itself cannot
be for a name that is missing, and then the directory. -/
def mkdir (existOk : Bool) (tree : Tree) : List String → Tree × Option Errno
  | [] => mkdirHere permits links start existOk tree []
  | part :: up =>
    match makeDirectory permits links start tree (part :: up) with
    | .error .noEntry =>
      match mkdir true tree up with
      | (made, none) => mkdirHere permits links start existOk made (part :: up)
      | stopped => stopped
    | _ => mkdirHere permits links start existOk tree (part :: up)

/-- Where the last name of a path is missing from a directory that takes it. -/
def gap (tree : Tree) (up : List String) (part : String) : Option Location :=
  match lookup tree false links start up.reverse with
  | .error _ => none
  | .ok here =>
    if tree here = some .directory ∧ isName part ∧ tree (part :: here) = none ∧ permits (part :: here)
    then some (part :: here) else none

/-- The walk of a path from its first name, with the missing names filled in as it meets them. -/
structure Filled where
  tree : Tree
  gaps : List Location
  goesOn : Bool

def fill (tree : Tree) : List String → Filled
  | [] => ⟨tree, [], isDirectory links start tree []⟩
  | part :: up =>
    let before := fill tree up
    if before.goesOn then
      match gap permits links start before.tree up part with
      | some place =>
        ⟨Function.update before.tree place (some .directory), place :: before.gaps, true⟩
      | none => { before with goesOn := isDirectory links start before.tree (part :: up).reverse }
    else before

/-! ### What is made -/

attribute [local simp] mkdir fill

variable {permits links start}

theorem isDirectory_iff {tree : Tree} {parts : List String} :
    isDirectory links start tree parts ↔
      ∃ place, lookup tree false links start parts = .ok place ∧ tree place = some .directory := by
  unfold isDirectory
  cases lookup tree false links start parts <;> simp

/-- The leading part of a directory's path is a directory's. -/
theorem isDirectory_of_snoc {tree : Tree} {parts : List String} {part : String}
    (whole : isDirectory links start tree (parts ++ [part])) :
    isDirectory links start tree parts := by
  obtain ⟨place, found, -⟩ := isDirectory_iff.mp whole
  cases leading : lookup tree false links start parts with
  | error error => simp [lookup_append_error leading] at found
  | ok here =>
    obtain ⟨fewer, onward⟩ := lookup_append false leading
    rw [onward] at found
    by_cases directory : tree here = some .directory
    · exact isDirectory_iff.mpr ⟨here, leading, directory⟩
    · cases fewer <;> simp [lookup, walk, directory] at found

theorem gap_eq_some {tree : Tree} {up : List String} {part : String} {place : Location}
    (found : gap permits links start tree up part = some place) :
    ∃ here, lookup tree false links start up.reverse = .ok here ∧ tree here = some .directory ∧
      isName part ∧ place = part :: here ∧ tree place = none ∧ permits place := by
  unfold gap at found
  split at found
  · cases found
  · next here looked =>
    split at found
    · next free =>
      obtain rfl := Option.some.inj found
      exact ⟨here, looked, free.1, free.2.1, rfl, free.2.2.1, free.2.2.2⟩
    · cases found

/-- A name that is missing leaves the whole path missing. -/
theorem lookup_of_gap {tree : Tree} {up : List String} {part : String} {place : Location}
    (found : gap permits links start tree up part = some place) :
    lookup tree false links start (part :: up).reverse = .error .noEntry := by
  obtain ⟨here, looked, directory, name, rfl, free, -⟩ := gap_eq_some found
  obtain ⟨fewer, onward⟩ := lookup_append false looked
  simp only [isName, Bool.and_eq_true, decide_eq_true_eq] at name
  rw [List.reverse_cons, onward]
  cases fewer <;> simp [lookup, walk, directory, name, free]

/-- A path with no name missing is walked as it is. -/
theorem fill_of_settled {tree : Tree} {up : List String}
    (settled : lookup tree false links start up.reverse ≠ .error .noEntry) :
    fill permits links start tree up = ⟨tree, [], isDirectory links start tree up.reverse⟩ := by
  induction up with
  | nil => rfl
  | cons part up ih =>
    have before : lookup tree false links start up.reverse ≠ .error .noEntry := by
      intro missing
      exact settled (by rw [List.reverse_cons, lookup_append_error missing])
    rw [fill, ih before]
    by_cases directory : isDirectory links start tree up.reverse
    · have full : gap permits links start tree up part = none := by
        cases found : gap permits links start tree up part with
        | none => rfl
        | some place => exact absurd (lookup_of_gap found) settled
      simp only [if_pos directory, full]
    · have stopped : isDirectory links start tree (up.reverse ++ [part]) = false :=
        Bool.eq_false_iff.mpr fun whole => directory (isDirectory_of_snoc whole)
      simp [stopped, Bool.eq_false_iff.mpr directory]

theorem makeDirectory_gap {tree : Tree} {up : List String} {part : String} {place : Location}
    (found : gap permits links start tree up part = some place) :
    makeDirectory permits links start tree (part :: up) =
      .ok (Function.update tree place (some .directory)) := by
  obtain ⟨here, looked, directory, name, rfl, free, permitted⟩ := gap_eq_some found
  simp [makeDirectory, looked, directory, name, free, permitted]

theorem makeDirectory_full {tree : Tree} {up : List String} {part : String}
    (full : gap permits links start tree up part = none) :
    ∃ error, makeDirectory permits links start tree (part :: up) = .error error ∧
      (error = .noEntry ↔ lookup tree false links start up.reverse = .error .noEntry) := by
  unfold gap at full
  unfold makeDirectory
  split at full
  · next error looked => exact ⟨error, by simp [looked], by simp [looked]⟩
  · next here looked =>
    simp only [looked]
    split
    · exact ⟨_, rfl, by simp⟩
    · next directory =>
      split
      · exact ⟨_, rfl, by simp⟩
      · next free =>
        split
        · next permitted => simp_all
        · exact ⟨_, rfl, by simp⟩

/-- The tree after making one directory. -/
theorem mkdirHere_tree (existOk : Bool) (tree : Tree) (part : String) (up : List String) :
    (mkdirHere permits links start existOk tree (part :: up)).1 =
      match gap permits links start tree up part with
      | some place => Function.update tree place (some .directory)
      | none => tree := by
  cases found : gap permits links start tree up part with
  | some place => simp [mkdirHere, makeDirectory_gap found]
  | none =>
    obtain ⟨error, refused, -⟩ := makeDirectory_full found
    cases error <;> simp [mkdirHere, refused]

theorem mkdirHere_done (tree : Tree) (part : String) (up : List String) :
    (mkdirHere permits links start true tree (part :: up)).2 = none ↔
      (gap permits links start tree up part).isSome ∨
        isDirectory links start tree (part :: up).reverse := by
  cases found : gap permits links start tree up part with
  | some place => simp [mkdirHere, makeDirectory_gap found]
  | none =>
    obtain ⟨error, refused, missing⟩ := makeDirectory_full found
    by_cases gone : error = .noEntry
    · have nowhere : isDirectory links start tree (up.reverse ++ [part]) = false := by
        rw [isDirectory, lookup_append_error (missing.mp gone)]
      simp [mkdirHere, refused, gone, nowhere]
    · cases error <;> simp_all [mkdirHere]

theorem fill_cons_done {tree : Tree} {up : List String} {part : String}
    (going : (fill permits links start tree up).goesOn) :
    (fill permits links start tree (part :: up)).tree =
        (mkdirHere permits links start true (fill permits links start tree up).tree
          (part :: up)).1 ∧
      ((fill permits links start tree (part :: up)).goesOn ↔
        (mkdirHere permits links start true (fill permits links start tree up).tree
          (part :: up)).2 = none) := by
  rw [mkdirHere_tree, mkdirHere_done, fill, if_pos going]
  cases gap permits links start (fill permits links start tree up).tree up part <;> simp

theorem mkdirHere_tree_eq (existOk : Bool) (tree : Tree) (up : List String) :
    (mkdirHere permits links start existOk tree up).1 =
      (mkdirHere permits links start true tree up).1 := by
  cases up with
  | nil => rfl
  | cons part up => rw [mkdirHere_tree, mkdirHere_tree]

theorem mkdir_cons_of_other {existOk : Bool} {tree : Tree} {part : String} {up : List String}
    (other : makeDirectory permits links start tree (part :: up) ≠ .error .noEntry) :
    mkdir permits links start existOk tree (part :: up) =
      mkdirHere permits links start existOk tree (part :: up) := by
  rw [mkdir]
  split
  · next missing => exact absurd missing other
  · rfl

/-- Whether the directory may be there already changes the answer only. -/
theorem mkdir_tree_eq (existOk : Bool) (tree : Tree) (up : List String) :
    (mkdir permits links start existOk tree up).1 =
      (mkdir permits links start true tree up).1 := by
  cases up with
  | nil => rfl
  | cons part up =>
    by_cases missing : makeDirectory permits links start tree (part :: up) = .error .noEntry
    · rw [mkdir, mkdir, missing]
      cases mkdir permits links start true tree up with
      | mk made error =>
        cases error with
        | none => exact mkdirHere_tree_eq existOk made (part :: up)
        | some error => rfl
    · rw [mkdir_cons_of_other missing, mkdir_cons_of_other missing]
      exact mkdirHere_tree_eq existOk tree (part :: up)

/-- Making a directory with its parents fills in the names that the walk of the path from its
first name meets missing. -/
theorem mkdir_fill (tree : Tree) (up : List String) :
    (mkdir permits links start true tree up).1 = (fill permits links start tree up).tree ∧
      ((mkdir permits links start true tree up).2 = none ↔
        (fill permits links start tree up).goesOn) := by
  induction up with
  | nil =>
    simp [mkdir, mkdirHere, makeDirectory, fill]
  | cons part up ih =>
    by_cases missing : makeDirectory permits links start tree (part :: up) = .error .noEntry
    · rw [mkdir, missing]
      cases parents : mkdir permits links start true tree up with
      | mk made error =>
        rw [parents] at ih
        obtain ⟨rfl, going⟩ := ih
        cases error with
        | none =>
          have onward := @fill_cons_done permits links start tree up part (going.mp rfl)
          exact ⟨onward.1.symm, onward.2.symm⟩
        | some error =>
          have stopped : (fill permits links start tree up).goesOn = false := by
            simpa using going
          simp [fill, stopped]
    · have settled : lookup tree false links start up.reverse ≠ .error .noEntry := by
        intro gone
        exact missing (by simp [makeDirectory, gone])
      rw [mkdir_cons_of_other missing]
      have same : fill permits links start tree up = ⟨tree, [], isDirectory links start tree up.reverse⟩ :=
        fill_of_settled settled
      by_cases directory : isDirectory links start tree up.reverse
      · have going : (fill permits links start tree up).goesOn := by rw [same, directory]
        have onward := @fill_cons_done permits links start tree up part going
        rw [same] at onward
        exact ⟨onward.1.symm, onward.2.symm⟩
      · have full : gap permits links start tree up part = none := by
          cases found : gap permits links start tree up part with
          | none => rfl
          | some place =>
            obtain ⟨here, looked, isDir, -⟩ := gap_eq_some found
            exact absurd (isDirectory_iff.mpr ⟨here, looked, isDir⟩) directory
        have stopped : isDirectory links start tree (up.reverse ++ [part]) = false :=
          Bool.eq_false_iff.mpr fun whole => directory (isDirectory_of_snoc whole)
        rw [mkdirHere_tree, mkdirHere_done, fill, same]
        simp [full, stopped, Bool.eq_false_iff.mpr directory]

theorem fill_tree (tree : Tree) (up : List String) (place : Location) :
    (fill permits links start tree up).tree place =
      if place ∈ (fill permits links start tree up).gaps then some .directory else tree place := by
  induction up with
  | nil => simp [fill]
  | cons part up ih =>
    rw [fill]
    split
    · split
      · next there found =>
        by_cases here : place = there
        · simp [here]
        · simpa [here] using ih
      · exact ih
    · exact ih

theorem gaps_missing {tree : Tree} {up : List String} {place : Location}
    (filled : place ∈ (fill permits links start tree up).gaps) : tree place = none := by
  induction up with
  | nil => simp [fill] at filled
  | cons part up ih =>
    rw [fill] at filled
    split at filled
    · split at filled
      · next there found =>
        rcases List.mem_cons.mp filled with rfl | earlier
        · obtain ⟨-, -, -, -, -, free, -⟩ := gap_eq_some found
          rw [fill_tree] at free
          split at free
          · cases free
          · exact free
        · exact ih earlier
      · exact ih filled
    · exact ih filled

/-- What the leading part of a path lacks, the path lacks. -/
theorem gaps_append {tree : Tree} {up : List String} {place : Location}
    (filled : place ∈ (fill permits links start tree up).gaps) (more : List String) :
    place ∈ (fill permits links start tree (more ++ up)).gaps := by
  induction more with
  | nil => exact filled
  | cons part more ih =>
    rw [List.cons_append, fill]
    split
    · split
      · exact List.mem_cons_of_mem _ ih
      · exact ih
    · exact ih

/-- What making a directory with its parents changes. -/
theorem mkdir_changes_iff {existOk : Bool} {tree : Tree} {up : List String} {place : Location} :
    (mkdir permits links start existOk tree up).1 place ≠ tree place ↔
      place ∈ (fill permits links start tree up).gaps := by
  rw [mkdir_tree_eq, (mkdir_fill tree up).1, fill_tree]
  by_cases filled : place ∈ (fill permits links start tree up).gaps
  · simp [filled, gaps_missing filled]
  · simp [filled]

end Making

end FileTree
