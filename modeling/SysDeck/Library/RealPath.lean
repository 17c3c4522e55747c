import Mathlib.Order.Nat
import SysDeck.Library.FileTree

/-! The resolution of a path by links that are followed one inside the other, where a link that is
met inside itself is left in the path with all that comes after it. -/

namespace FileTree

/-- A name put after a place without a look at the tree. -/
def step (here : Location) (part : String) : Location :=
  if part = "" ∨ part = "." then here else if part = ".." then here.tail else part :: here

/-- The rest of a path put after a place; one that begins with a slash takes its place. -/
def join (here : Location) : List String → Location
  | "" :: part :: rest => (part :: rest).foldl step []
  | rest => rest.foldl step here

/-- The walk over the names of a path. Links are resolved by `follow`, in which those of `open_` have
not come to their ends; the flag falls where one of these is met. -/
def realWith (tree : Tree) (follow : List Location → Location → List String → Option (Location × Bool))
    (open_ : List Location) : Location → List String → Option (Location × Bool)
  | here, [] => some (here, true)
  | here, part :: rest =>
    if part = "" ∨ part = "." then realWith tree follow open_ here rest
    else if part = ".." then realWith tree follow open_ here.tail rest
    else match tree (part :: here) with
      | some (.link target) =>
        if open_.contains (part :: here) then some (join (part :: here) rest, false)
        else match follow ((part :: here) :: open_) (target.start here) target.parts with
          | some (there, true) => realWith tree follow open_ there rest
          | some (there, false) => some (join there rest, false)
          | none => none
      | _ => realWith tree follow open_ (part :: here) rest

/-- The resolution with calls nested so deep at most, nothing where they would go deeper. -/
def realFrom (tree : Tree) : Nat → List Location → Location → List String → Option (Location × Bool)
  | 0 => realWith tree fun _ _ _ => none
  | depth + 1 => realWith tree (realFrom tree depth)

/-- `os.path.realpath` of an absolute path. -/
def realPath (tree : Tree) (depth : Nat) (parts : List String) : Option Location :=
  (realFrom tree depth [] [] parts).map (·.1)

/-- The link at the place does not come to its end so deep. -/
def Unresolved (tree : Tree) (depth : Nat) (place : Location) : Prop :=
  ∀ target, tree place = some (.link target) →
    resolve tree depth (target.start place.tail) target.parts = none

theorem realWith_agrees {tree : Tree} {depth : Nat}
    {follow : List Location → Location → List String → Option (Location × Bool)}
    {open_ : List Location} (outside : ∀ place ∈ open_, ∀ less < depth, Unresolved tree less place)
    (agrees : ∀ less < depth, ∀ open_, (∀ place ∈ open_, ∀ fewer < less, Unresolved tree fewer place) →
      ∀ here parts place, resolve tree less here parts = some place →
        follow open_ here parts = none ∨ follow open_ here parts = some (place, true))
    {here : Location} {parts : List String} {place : Location}
    (resolved : resolve tree depth here parts = some place) :
    realWith tree follow open_ here parts = none ∨
      realWith tree follow open_ here parts = some (place, true) := by
  induction parts generalizing here with
  | nil =>
    right
    cases depth <;> simpa [resolve, resolveWith, realWith] using resolved
  | cons part rest ih =>
    rw [realWith]
    by_cases same : part = "" ∨ part = "."
    · rw [if_pos same]
      exact ih (resolve_stay tree depth here same rest ▸ resolved)
    rw [if_neg same]
    by_cases up : part = ".."
    · rw [if_pos up]
      exact ih (resolve_up tree depth here rest ▸ up ▸ resolved)
    rw [if_neg up]
    by_cases link : ∃ target, tree (part :: here) = some (.link target)
    · obtain ⟨target, node⟩ := link
      -- the link comes to its end at some depth, the least of which is not that of an open one
      cases depth with
      | zero => simp [resolve, resolveWith, same, up, node] at resolved
      | succ depth =>
        rw [resolve, resolveWith, if_neg same, if_neg up, node] at resolved
        cases followed : resolve tree depth (target.start here) target.parts with
        | none => simp [followed] at resolved
        | some there =>
          simp only [followed] at resolved
          have ends : ∃ less, resolve tree less (target.start here) target.parts ≠ none :=
            ⟨depth, by simp [followed]⟩
          have least := Nat.find_min' ends (by simp [followed] : resolve tree depth _ _ ≠ none)
          have closed : part :: here ∉ open_ := fun member =>
            Nat.find_spec ends (outside _ member _ (Nat.lt_succ_of_le least) target node)
          have found : resolve tree (Nat.find ends) (target.start here) target.parts = some there := by
            obtain ⟨place, found⟩ := Option.ne_none_iff_exists'.mp (Nat.find_spec ends)
            rw [found, resolve_unique found followed]
          have inner := agrees _ (Nat.lt_succ_of_le least) ((part :: here) :: open_) (by
            intro other member less lower
            rcases List.mem_cons.mp member with rfl | earlier
            · intro other node'
              obtain rfl := Node.link.inj (Option.some.inj (node.symm.trans node'))
              exact Classical.not_not.mp (Nat.find_min ends lower)
            · exact outside other earlier less (lower.trans (Nat.lt_succ_of_le least)))
            _ _ _ found
          rw [node]
          simp only [List.contains_iff_mem, if_neg closed]
          rcases inner with stopped | reached
          · exact .inl (by rw [stopped])
          · rw [reached]
            exact ih (by rw [resolve]; exact resolved)
    · have plain : ∀ target, tree (part :: here) ≠ some (.link target) :=
        fun target node => link ⟨target, node⟩
      rw [resolve_down depth same up plain] at resolved
      cases node : tree (part :: here) with
      | none => exact ih resolved
      | some kind =>
        cases kind with
        | link target => exact absurd node (plain target)
        | directory => exact ih resolved
        | file => exact ih resolved

/-- Where the path resolves at all, this resolution agrees, unless it goes too deep. -/
theorem realFrom_agrees {tree : Tree} (limit depth : Nat) {open_ : List Location}
    (outside : ∀ place ∈ open_, ∀ less < depth, Unresolved tree less place) {here : Location}
    {parts : List String} {place : Location} (resolved : resolve tree depth here parts = some place) :
    realFrom tree limit open_ here parts = none ∨
      realFrom tree limit open_ here parts = some (place, true) := by
  induction limit generalizing depth open_ here parts place with
  | zero => exact realWith_agrees outside (fun _ _ _ _ _ _ _ _ => .inl rfl) resolved
  | succ limit ih =>
    exact realWith_agrees outside (fun less _ _ none _ _ _ found => ih less none found) resolved

theorem realPath_agrees {tree : Tree} {limit depth : Nat} {parts : List String} {place : Location}
    (resolved : resolve tree depth [] parts = some place) :
    realPath tree limit parts = none ∨ realPath tree limit parts = some place := by
  rcases @realFrom_agrees tree limit depth [] (List.forall_mem_nil _) _ _ _ resolved with stopped | reached
  · exact .inl (by rw [realPath, stopped]; rfl)
  · exact .inr (by rw [realPath, reached]; rfl)

/-- A path without links is resolved at every limit. -/
theorem realFrom_plain {tree : Tree} (limit : Nat) (open_ : List Location) {here : Location}
    {parts : List String} {place : Location} (resolved : resolve tree 0 here parts = some place)
    (rest : List String) :
    realFrom tree limit open_ here (parts ++ rest) = realFrom tree limit open_ place rest := by
  induction parts generalizing here with
  | nil =>
    obtain rfl : here = place := by simpa [resolve, resolveWith] using resolved
    rfl
  | cons part parts ih =>
    by_cases same : part = "" ∨ part = "."
    · rw [resolve_stay tree 0 here same] at resolved
      rw [← ih resolved]
      cases limit <;> simp only [realFrom, List.cons_append, realWith, if_pos same]
    by_cases up : part = ".."
    · rw [up, resolve_up] at resolved
      rw [← ih resolved]
      cases limit <;> simp only [realFrom, List.cons_append, realWith, if_neg same, if_pos up]
    have plain : ∀ target, tree (part :: here) ≠ some (.link target) := by
      intro target node
      simp [resolve, resolveWith, same, up, node] at resolved
    rw [resolve_down 0 same up plain] at resolved
    rw [← ih resolved]
    cases node : tree (part :: here) with
    | none => cases limit <;> simp only [realFrom, List.cons_append, realWith, if_neg same, if_neg up, node]
    | some kind =>
      cases kind with
      | link target => exact absurd node (plain target)
      | directory => cases limit <;> simp only [realFrom, List.cons_append, realWith, if_neg same, if_neg up, node]
      | file => cases limit <;> simp only [realFrom, List.cons_append, realWith, if_neg same, if_neg up, node]

end FileTree
