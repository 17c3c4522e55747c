import SysDeck.Web.JellyfinItems

/-! Where the media listing leaves the root: two host states with the same root that it tells apart. -/

namespace SysDeck.Web.Jellyfin

open FileTree

variable {host other : Host} {library : String} {limit : Number}

/-- Two states with the same root and different answers. -/
theorem not_contained {first second : Host} (same : SameBelow host first) (same' : SameBelow host second)
    (differ : (items first library limit).1 ≠ (items second library limit).1) :
    ¬ Contained host library limit :=
  fun contained => differ ((contained.same first same).trans (contained.same second same').symm)

/-! ### Figures outside the root -/

/-- The host with other figures outside the root. -/
def Host.resized (host : Host) (size : ℕ) : Host :=
  { host with stat := fun place => if mediaRoot.isSuffixOf place then host.stat place else ⟨size, 0⟩ }

theorem sameBelow_resized (host : Host) (size : ℕ) : SameBelow host (host.resized size) := by
  intro place below
  exact ⟨rfl, rfl, if_pos (List.isSuffixOf_iff_suffix.mpr below)⟩

theorem media_resized (host : Host) (size levels : ℕ) (d : String) :
    (host.resized size).media levels d = host.media levels d := by
  induction levels generalizing d with
  | zero => rfl
  | succ levels ih =>
    rw [Host.media, Host.media]
    refine List.flatMap_congr fun e _ => ?_
    rw [ih]

theorem consider_prefix (host : Host) (library : String) (limit : ℚ) (items : List Item) (media : List Media) :
    items <+: media.foldl (consider host library limit) items := by
  induction media generalizing items with
  | nil => exact List.prefix_refl _
  | cons file rest ih =>
    refine List.IsPrefix.trans ?_ (ih _)
    rw [consider]
    split
    · exact List.prefix_refl _
    · exact List.prefix_append ..

/-- The item of a file that is reached stands after those of the files before it. -/
theorem getElem?_shown {before after : List Media} {file : Media} (reached : host.reaches limit before)
    {item : Item} (shown : itemOf host library file = some item) :
    ((before ++ file :: after).foldl (consider host library (limitOf limit)) [])[
      (before.filterMap (itemOf host library)).length]? = some item := by
  have fold := foldl_consider host library limit before
  rw [if_pos reached] at fold
  have room : ¬ limitOf limit ≤ (before.filterMap (itemOf host library)).length := by
    rw [length_filterMap_itemOf]
    exact not_le.mpr reached
  have put : consider host library (limitOf limit) (before.filterMap (itemOf host library)) file =
      before.filterMap (itemOf host library) ++ [item] := by
    unfold itemOf at shown
    rw [consider, if_neg room, shown]
    rfl
  obtain ⟨more, whole⟩ := consider_prefix host library (limitOf limit)
    (before.filterMap (itemOf host library) ++ [item]) after
  rw [List.foldl_append, fold, List.foldl_cons, put, ← whole, List.append_assoc,
    List.getElem?_append_right (Nat.le_refl _), Nat.sub_self]
  rfl

theorem itemOf_resized_inside {size : ℕ} {media : Media}
    (inside : ∀ place, host.lookup media.path = .ok place → mediaRoot <:+ place) :
    itemOf (host.resized size) library media = itemOf host library media :=
  Agreed.itemOf library ⟨rfl, inside⟩ (sameBelow_resized host size)

theorem itemOf_resized_outside {size : ℕ} {media : Media} {place : Location}
    (found : host.lookup media.path = .ok place) (outside : ¬ mediaRoot <:+ place) :
    ∃ item, itemOf (host.resized size) library media = some item ∧ item.sizeMb = sizeMb size := by
  have figures : (host.resized size).statOf media.path = some ⟨size, 0⟩ := by
    have looked : (host.resized size).lookup media.path = .ok place := found
    unfold Host.statOf
    rw [looked]
    refine congrArg some (if_neg ?_)
    rw [List.isSuffixOf_iff_suffix]
    exact outside
  unfold itemOf item?
  rw [show media.dir ++ "/" ++ media.name = media.path from rfl, figures]
  exact ⟨_, rfl, rfl⟩

/-- A file outside the root that is reached tells of its figures. -/
theorem outside_tells {before after : List Media} {file : Media} {place : Location}
    (same : SameBelow host other) {ents : List Dirent} (read : other.readdir (dirOf library) = some ents)
    (split : other.media 5 (dirOf library) = before ++ file :: after) (reached : other.reaches limit before)
    (inside : ∀ earlier ∈ before, ∀ place, other.lookup earlier.path = .ok place → mediaRoot <:+ place)
    (found : other.lookup file.path = .ok place) (outside : ¬ mediaRoot <:+ place) :
    ¬ Contained host library limit := by
  have shown (size : ℕ) : ∃ item,
      (walk (other.resized size) library (limitOf limit) 5 (dirOf library) ⟨[], [dirOf library]⟩).items[
        (before.filterMap (itemOf other library)).length]? = some item ∧ item.sizeMb = sizeMb size := by
    obtain ⟨item, own, figure⟩ := @itemOf_resized_outside other library size file place found outside
    have fronts : before.filterMap (itemOf (other.resized size) library) =
        before.filterMap (itemOf other library) :=
      List.filterMap_congr fun earlier member => itemOf_resized_inside (inside earlier member)
    have reaching : (other.resized size).reaches limit before := by
      rw [Host.reaches, ← @length_filterMap_itemOf _ library, fronts, length_filterMap_itemOf]
      exact reached
    refine ⟨item, ?_, figure⟩
    rw [walk_items, media_resized, split, ← fronts]
    exact getElem?_shown reaching own
  refine not_contained (same.trans (sameBelow_resized other 0)) (same.trans (sameBelow_resized other 1048576)) ?_
  rw [items_of_some limit (show (other.resized 0).readdir (dirOf library) = some ents from read),
    items_of_some limit (show (other.resized 1048576).readdir (dirOf library) = some ents from read)]
  intro equal
  have lists := (Answer.listed.inj equal).2.1
  obtain ⟨first, here, small⟩ := shown 0
  obtain ⟨second, there, large⟩ := shown 1048576
  rw [lists, there, Option.some.injEq] at here
  rw [← here, large] at small
  exact absurd small (by decide)

/-! ### Other host states with the same root -/

/-- What a host state keeps of another: the root, and what is above and below it. -/
def Host.kept (host : Host) (place : Location) : Bool := host.near place || mediaRoot.isSuffixOf place

theorem Host.kept_iff {place : Location} : host.kept place ↔ host.near place ∨ mediaRoot <:+ place := by
  simp [Host.kept]

/-- A node below the root is below a node. -/
theorem Host.present_of_below {place : Location} (present : host.tree place ≠ none) (below : mediaRoot <:+ place) :
    host.tree mediaRoot ≠ none := by
  by_cases same : mediaRoot = place
  · rw [same]
    exact present
  · rw [Host.above present below same]
    exact nofun

/-- The places that are kept hang together, where there are nodes. -/
theorem Host.kept_up {name : String} {here : Location} (kept : host.kept (name :: here))
    (present : host.tree (name :: here) ≠ none) : host.kept here := by
  rw [Host.kept_iff] at kept ⊢
  rcases kept with near | below
  · exact .inl (host.region.up _ near)
  · have root := Host.present_of_below present below
    exact .inl (host.region.up _ ((Host.near_iff_of_present root).mpr (.inr below)))

/-- A place that is kept is the top, or begins with the first name of the root. -/
theorem Host.top_of_kept {place : Location} (kept : host.kept place) :
    place = [] ∨ place.getLast? = some "var" := by
  have below (under : mediaRoot <:+ place) : place.getLast? = some "var" := by
    obtain ⟨front, rfl⟩ := under
    rw [List.getLast?_append]
    rfl
  rcases Host.kept_iff.mp kept with near | under
  · by_cases absent : host.tree mediaRoot = none
    · exact .inl ((Host.near_iff_of_absent absent).mp near)
    · rcases (Host.near_iff_of_present absent).mp near with ⟨front, whole⟩ | under
      · cases place with
        | nil => exact .inl rfl
        | cons name here =>
          refine .inr ?_
          have last := congrArg List.getLast? whole
          rw [List.getLast?_append_of_ne_nil _ (List.cons_ne_nil _ _)] at last
          exact last
      · exact .inr (below under)
  · exact .inr (below under)

/-- A name of a kept place above the root is one of the root's. -/
theorem Host.name_of_kept {name : String} {here : Location} (kept : host.kept (name :: here))
    (above : ¬ mediaRoot <:+ here) : name ∈ mediaRoot := by
  have under (below : mediaRoot <:+ name :: here) : name ∈ mediaRoot := by
    rcases List.suffix_cons_iff.mp below with same | inside
    · exact same ▸ List.mem_cons_self
    · exact absurd inside above
  rcases Host.kept_iff.mp kept with near | below
  · by_cases absent : host.tree mediaRoot = none
    · cases (Host.near_iff_of_absent absent).mp near
    · rcases (Host.near_iff_of_present absent).mp near with upper | below
      · exact upper.subset List.mem_cons_self
      · exact under below
  · exact under below

/-- Nodes put in the place of all that is not kept, with the names that they may have. -/
structure Graft (host : Host) where
  node : Location → Option Node
  alphabet : List String
  root : mediaRoot ⊆ alphabet
  known : ∀ here name, node (name :: here) ≠ none → name ∈ alphabet ∧ isName name ∧ Clean name
  parents : ∀ here name, host.kept (name :: here) = false → node (name :: here) ≠ none →
    (if host.kept here then host.tree here else node here) = some .directory
  targets : ∀ place target, node place = some (.link target) → ∀ part ∈ target.parts, Clean part

namespace Graft

variable (graft : Graft host)

def tree (place : Location) : Option Node := if host.kept place then host.tree place else graft.node place

theorem tree_kept {place : Location} (kept : host.kept place) : graft.tree place = host.tree place := if_pos kept

theorem tree_new {place : Location} (new : host.kept place = false) : graft.tree place = graft.node place :=
  if_neg (Bool.eq_false_iff.mp new)

def state : Host where
  tree := graft.tree
  names here :=
    if mediaRoot.isSuffixOf here then host.names here
    else graft.alphabet.filter fun name => graft.tree (name :: here) ≠ none
  stat := host.stat
  listed := by
    intro here name
    by_cases below : mediaRoot <:+ here
    · have kept : host.kept (name :: here) := Host.kept_iff.mpr (.inr (below.trans (List.suffix_cons ..)))
      rw [if_pos (List.isSuffixOf_iff_suffix.mpr below), host.listed, graft.tree_kept kept]
    · rw [if_neg (List.isSuffixOf_iff_suffix.not.mpr below), List.mem_filter, decide_eq_true_iff]
      refine and_iff_right_of_imp fun present => ?_
      by_cases kept : host.kept (name :: here)
      · exact graft.root (Host.name_of_kept kept below)
      · rw [graft.tree_new (Bool.eq_false_iff.mpr kept)] at present
        exact (graft.known here name present).1
  proper := by
    intro here name present
    by_cases kept : host.kept (name :: here)
    · rw [graft.tree_kept kept] at present
      exact host.proper here name present
    · rw [graft.tree_new (Bool.eq_false_iff.mpr kept)] at present
      exact (graft.known here name present).2
  parents := by
    intro here name present
    by_cases kept : host.kept (name :: here)
    · rw [graft.tree_kept kept] at present
      rw [graft.tree_kept (Host.kept_up kept present)]
      exact host.parents here name present
    · have new := Bool.eq_false_iff.mpr kept
      rw [graft.tree_new new] at present
      exact graft.parents here name new present
  top := by
    rw [graft.tree_kept (Host.kept_iff.mpr (.inl host.region.top))]
    exact host.top
  targets := by
    intro place target link
    by_cases kept : host.kept place
    · rw [graft.tree_kept kept] at link
      exact host.targets place target link
    · rw [graft.tree_new (Bool.eq_false_iff.mpr kept)] at link
      exact graft.targets place target link

theorem same : SameBelow host graft.state := by
  intro place below
  refine ⟨graft.tree_kept (Host.kept_iff.mpr (.inr below)), ?_, rfl⟩
  exact if_pos (List.isSuffixOf_iff_suffix.mpr below)

end Graft

/-- Nothing but the root with what is above and below it. -/
def bare (host : Host) : Graft host where
  node _ := none
  alphabet := mediaRoot
  root := List.Subset.refl _
  known := fun _ _ present => absurd rfl present
  parents := fun _ _ _ present => absurd rfl present
  targets := nofun

/-! ### A link that leads on -/

section Detour

variable {names : List String} {there : Location} {part : String} {rest : List String}

/-- A name at the top that is neither the root's first name nor the one that is looked up. -/
def fresh (part : String) : String := if part = "a" then "b" else "a"

theorem fresh_ne (part : String) : fresh part ≠ part ∧ fresh part ≠ "var" := by
  unfold fresh
  split
  next same =>
    rw [same]
    decide
  next other => exact ⟨fun same => other same.symm, by decide⟩

theorem fresh_name (part : String) : isName (fresh part) ∧ Clean (fresh part) := by
  have all : (isName "a" ∧ '/' ∉ "a".toList ∧ '\x00' ∉ "a".toList) ∧
      isName "b" ∧ '/' ∉ "b".toList ∧ '\x00' ∉ "b".toList := by decide
  unfold fresh
  split
  · exact all.2
  · exact all.1

/-- The names of the directories that the link leads into. -/
def detourNames (part : String) (rest : List String) : List String :=
  mediaRoot ++ part :: fresh part :: rest.filter isName

/-- The directories under the fresh name, down so deep that the rest of the path ends among them. -/
def inDetour (part : String) (rest : List String) (place : Location) : Bool :=
  place.getLast? = some (fresh part) && place.length ≤ 2 * rest.length + 1 &&
    place.all (· ∈ detourNames part rest)

theorem inDetour_iff {place : Location} :
    inDetour part rest place ↔ place.getLast? = some (fresh part) ∧ place.length ≤ 2 * rest.length + 1 ∧
      ∀ name ∈ place, name ∈ detourNames part rest := by
  simp [inDetour, and_assoc]

/-- What stands outside the root: a link where the path leaves it, and directories for the rest of the path. -/
def detourNode (there : Location) (part : String) (rest : List String) (place : Location) : Option Node :=
  if place = part :: there then some (.link ⟨true, List.replicate (rest.length + 1) (fresh part)⟩)
  else if inDetour part rest place then some .directory
  else none

theorem kept_of_inDetour {place : Location} (inside : inDetour part rest place) : host.kept place = false := by
  obtain ⟨last, -, -⟩ := inDetour_iff.mp inside
  rw [Bool.eq_false_iff]
  intro kept
  rcases Host.top_of_kept kept with rfl | first
  · cases last
  · exact (fresh_ne part).2 (Option.some.inj (last.symm.trans first))

theorem Arrival.kept (arrival : Arrival host.near host.tree names there part rest) :
    host.kept (part :: there) = false := by
  rw [Bool.eq_false_iff, ne_eq, Host.kept_iff, not_or]
  refine ⟨Bool.eq_false_iff.mp arrival.outside, fun below => ?_⟩
  by_cases absent : host.tree mediaRoot = none
  · rw [(Host.near_iff_of_absent absent).mp arrival.inside] at below
    exact absurd below.length_le (by simp [mediaRoot])
  · exact Bool.eq_false_iff.mp arrival.outside ((Host.near_iff_of_present absent).mpr (.inr below))

theorem not_inDetour_of_arrival (arrival : Arrival host.near host.tree names there part rest) :
    inDetour part rest (part :: there) = false := by
  rw [Bool.eq_false_iff]
  intro inside
  obtain ⟨last, -, -⟩ := inDetour_iff.mp inside
  rcases Host.top_of_kept (Host.kept_iff.mpr (.inl arrival.inside)) with rfl | first
  · exact (fresh_ne part).1 (Option.some.inj last).symm
  · cases there with
    | nil => cases first
    | cons name above =>
      rw [List.getLast?_cons_cons] at last
      exact (fresh_ne part).2 (Option.some.inj (last.symm.trans first))

theorem detourNames_clean (arrival : Arrival host.near host.tree names there part rest)
    (clean : ∀ name ∈ part :: rest, Clean name) :
    ∀ name ∈ detourNames part rest, isName name ∧ Clean name := by
  intro name member
  rcases List.mem_append.mp member with root | member
  · have all : ∀ name ∈ mediaRoot, isName name ∧ '/' ∉ name.toList ∧ '\x00' ∉ name.toList := by decide
    exact all name root
  rcases List.mem_cons.mp member with rfl | member
  · exact ⟨arrival.name, clean name List.mem_cons_self⟩
  rcases List.mem_cons.mp member with rfl | member
  · exact fresh_name part
  · obtain ⟨later, proper⟩ := List.mem_filter.mp member
    exact ⟨proper, clean name (List.mem_cons_of_mem _ later)⟩

def detour (arrival : Arrival host.near host.tree names there part rest)
    (clean : ∀ name ∈ part :: rest, Clean name) : Graft host where
  node := detourNode there part rest
  alphabet := detourNames part rest
  root := List.subset_append_left ..
  known := by
    intro here name present
    have member : name ∈ detourNames part rest := by
      unfold detourNode at present
      split at present
      next link =>
        rw [(List.cons.inj link).1]
        exact List.mem_append_right _ List.mem_cons_self
      next =>
        split at present
        next inside => exact (inDetour_iff.mp inside).2.2 name List.mem_cons_self
        next => exact absurd rfl present
    exact ⟨member, detourNames_clean arrival clean name member⟩
  parents := by
    intro here name _ present
    unfold detourNode at present
    split at present
    next link =>
      obtain ⟨-, rfl⟩ := List.cons.inj link
      rw [if_pos (Host.kept_iff.mpr (.inl arrival.inside))]
      exact arrival.directory
    next =>
      split at present
      next inside =>
        obtain ⟨last, short, members⟩ := inDetour_iff.mp inside
        cases here with
        | nil =>
          rw [if_pos (Host.kept_iff.mpr (.inl host.region.top))]
          exact host.top
        | cons above here =>
          have within : inDetour part rest (above :: here) := by
            rw [List.getLast?_cons_cons] at last
            exact inDetour_iff.mpr ⟨last, (Nat.le_succ _).trans short, fun name member =>
              members name (List.mem_cons_of_mem _ member)⟩
          have other : above :: here ≠ part :: there := by
            intro link
            rw [link, not_inDetour_of_arrival arrival] at within
            cases within
          rw [kept_of_inDetour within, detourNode, if_neg other, if_pos within]
          rfl
      next => exact absurd rfl present
  targets := by
    intro place target link name member
    unfold detourNode at link
    split at link
    next =>
      obtain rfl := Node.link.inj (Option.some.inj link)
      rw [List.eq_of_mem_replicate member]
      exact (fresh_name part).2
    next =>
      split at link <;> cases link

variable (arrival : Arrival host.near host.tree names there part rest) (clean : ∀ name ∈ part :: rest, Clean name)

theorem detour_tree {place : Location} (inside : inDetour part rest place) :
    (detour arrival clean).state.tree place = some .directory := by
  have other : place ≠ part :: there := by
    rintro rfl
    rw [not_inDetour_of_arrival arrival] at inside
    cases inside
  change (detour arrival clean).tree place = some .directory
  rw [Graft.tree_new _ (kept_of_inDetour inside)]
  exact (if_neg other).trans (if_pos inside)

theorem inDetour_replicate {length : ℕ} (short : length ≤ rest.length) :
    inDetour part rest (List.replicate (length + 1) (fresh part)) := by
  refine inDetour_iff.mpr ⟨by simp [List.getLast?_replicate], ?_, fun name member => ?_⟩
  · rw [List.length_replicate]
    omega
  · rw [List.eq_of_mem_replicate member]
    exact List.mem_append_right _ (List.mem_cons_of_mem _ List.mem_cons_self)

/-- The walk over the names of the link. -/
theorem detour_chain {follow : Location → List String → Except Errno Location} (down : ℕ) {left : ℕ}
    (short : down + left ≤ rest.length + 1) :
    FileTree.walk (detour arrival clean).state.tree false follow (List.replicate down (fresh part))
        (List.replicate left (fresh part) ++ rest) =
      FileTree.walk (detour arrival clean).state.tree false follow (List.replicate (down + left) (fresh part)) rest := by
  induction left generalizing down with
  | zero => rfl
  | succ left ih =>
    have proper := (fresh_name part).1
    simp only [isName, Bool.and_eq_true, decide_eq_true_eq] at proper
    have here : (detour arrival clean).state.tree (List.replicate down (fresh part)) = some .directory := by
      cases down with
      | zero => exact (detour arrival clean).state.top
      | succ down => exact detour_tree arrival clean (inDetour_replicate (by omega))
    have next : (detour arrival clean).state.tree (List.replicate (down + 1) (fresh part)) = some .directory :=
      detour_tree arrival clean (inDetour_replicate (by omega))
    rw [List.replicate_succ] at next
    rw [List.replicate_succ, List.cons_append, FileTree.walk, if_neg (not_not_intro here), if_neg (not_or.mpr proper.1),
      if_neg proper.2, next]
    have onward := ih (down + 1) (by omega)
    rw [List.replicate_succ, Nat.add_right_comm] at onward
    exact onward

/-- The path ends at a directory among those that the link leads into. -/
theorem detour_lookup {fewer : ℕ} {path : String}
    (goes : ∀ other : Tree, (∀ place, host.near place → other place = host.tree place) →
      FileTree.lookup other false maxLinks [] (parts path) =
        FileTree.lookup other false (fewer + 1) there (part :: rest)) :
    ∃ place, (detour arrival clean).state.lookup path = .ok place ∧
      (detour arrival clean).state.tree place = some .directory ∧ ¬ mediaRoot <:+ place := by
  let free (left : ℕ) (place : Location) : Prop :=
    inDetour part rest place ∧ left < place.length ∧ place.length + left ≤ 2 * rest.length + 1
  have walked (follow : Location → List String → Except Errno Location) :
      ∃ place, FileTree.walk (detour arrival clean).state.tree false follow (List.replicate (rest.length + 1) (fresh part))
        rest = .ok place ∧ free 0 place := by
    refine @walk_free _ false follow (fun name => isName name → name ∈ detourNames part rest) free
      ?_ ?_ ?_ ?_ _ rest ?_ ?_
    · exact fun left place inside => detour_tree arrival clean inside.1
    · rintro left place ⟨inside, deep, short⟩
      exact ⟨inside, by omega, by omega⟩
    · rintro left place ⟨inside, deep, short⟩
      obtain ⟨last, -, members⟩ := inDetour_iff.mp inside
      cases place with
      | nil => cases deep
      | cons first above =>
        cases above with
        | nil => exact absurd deep (by simp)
        | cons second above =>
          rw [List.getLast?_cons_cons] at last
          rw [List.length_cons] at deep short
          refine ⟨inDetour_iff.mpr ⟨last, ?_, fun name member => members name (List.mem_cons_of_mem _ member)⟩,
            Nat.lt_of_succ_lt_succ deep, ?_⟩
          · rw [List.tail_cons]
            omega
          · rw [List.tail_cons]
            omega
    · rintro left place name ⟨inside, deep, short⟩ known proper
      obtain ⟨last, -, members⟩ := inDetour_iff.mp inside
      refine ⟨inDetour_iff.mpr ⟨?_, ?_, ?_⟩, ?_, ?_⟩
      · cases place with
        | nil => cases last
        | cons first above => rwa [List.getLast?_cons_cons]
      · rw [List.length_cons]
        omega
      · intro other member
        rcases List.mem_cons.mp member with rfl | above
        · exact known proper
        · exact members other above
      · rw [List.length_cons]
        omega
      · rw [List.length_cons]
        omega
    · intro name member proper
      refine List.mem_append_right _ (List.mem_cons_of_mem _ (List.mem_cons_of_mem _ ?_))
      exact List.mem_filter.mpr ⟨member, proper⟩
    · refine ⟨inDetour_replicate (Nat.le_refl _), ?_, ?_⟩
      · rw [List.length_replicate]
        omega
      · rw [List.length_replicate]
        omega
  have link : (detour arrival clean).state.tree (part :: there) =
      some (.link ⟨true, List.replicate (rest.length + 1) (fresh part)⟩) := by
    change (detour arrival clean).tree (part :: there) = _
    rw [Graft.tree_new _ (Arrival.kept arrival)]
    exact if_pos rfl
  have directory : (detour arrival clean).state.tree there = some .directory := by
    rw [(detour arrival clean).same.agree there arrival.inside]
    exact arrival.directory
  have proper := arrival.name
  simp only [isName, Bool.and_eq_true, decide_eq_true_eq] at proper
  have stepped : (detour arrival clean).state.lookup path =
      FileTree.lookup (detour arrival clean).state.tree false fewer []
        (List.replicate (rest.length + 1) (fresh part) ++ rest) := by
    rw [Host.lookup, goes _ (detour arrival clean).same.agree, FileTree.lookup, FileTree.walk,
      if_neg (not_not_intro directory), if_neg (not_or.mpr proper.1), if_neg proper.2, link]
    rfl
  have ends : ∃ place, FileTree.lookup (detour arrival clean).state.tree false fewer []
      (List.replicate (rest.length + 1) (fresh part) ++ rest) = .ok place ∧ free 0 place := by
    cases fewer with
    | zero =>
      obtain ⟨place, found, inside⟩ := walked fun _ _ => .error .loop
      refine ⟨place, ?_, inside⟩
      rw [← found]
      exact (detour_chain arrival clean 0 (by omega)).trans (by rw [Nat.zero_add])
    | succ fewer =>
      obtain ⟨place, found, inside⟩ := walked (FileTree.lookup (detour arrival clean).state.tree false fewer)
      refine ⟨place, ?_, inside⟩
      rw [← found]
      exact (detour_chain arrival clean 0 (by omega)).trans (by rw [Nat.zero_add])
  obtain ⟨place, found, inside, -, -⟩ := ends
  refine ⟨place, stepped.trans found, detour_tree arrival clean inside, fun below => ?_⟩
  have kept : host.kept place := Host.kept_iff.mpr (.inr below)
  rw [kept_of_inDetour inside] at kept
  cases kept

end Detour

/-! ### Listings that leave the root -/

theorem readdir_of_lookup {path : String} (whole : '\x00' ∉ path.toList) {place : Location}
    (found : host.lookup path = .ok place) (directory : host.tree place = some .directory) :
    host.readdir path =
      some ((host.names place).map fun name => ⟨name, host.tree (name :: place) = some .directory⟩) := by
  unfold Host.readdir
  rw [if_neg whole, found]
  exact if_pos directory

theorem not_suffix_of_not {place : Location} (ends : (!mediaRoot.isSuffixOf place) = true) :
    ¬ mediaRoot <:+ place := by
  rw [← List.isSuffixOf_iff_suffix, Bool.not_eq_true]
  simpa using ends

/-- The names on the way of a path that strays are those of a text without slashes. -/
theorem strays_arrives {path : String} (whole : '\x00' ∉ path.toList) (strays : host.strays true path) :
    ∃ fewer there part rest, Arrival host.near host.tree (parts path) there part rest ∧
      (∀ name ∈ part :: rest, Clean name) ∧
      ∀ other : Tree, (∀ place, host.near place → other place = host.tree place) →
        FileTree.lookup other false maxLinks [] (parts path) =
          FileTree.lookup other false (fewer + 1) there (part :: rest) := by
  obtain ⟨fewer, there, part, rest, arrival, goes⟩ := leaves_arrives host.region host.region.top strays
  refine ⟨fewer, there, part, rest, arrival, fun name member => ?_, goes⟩
  rcases arrival.known name member with own | ⟨place, target, link, linked⟩
  · exact clean_parts whole name own
  · exact host.targets place target link name linked

/-- A path that strays is found in one state and not in another. -/
theorem bare_lookup {fewer : ℕ} {there : Location} {part : String} {names rest : List String} {path : String}
    (arrival : Arrival host.near host.tree names there part rest)
    (goes : ∀ other : Tree, (∀ place, host.near place → other place = host.tree place) →
      FileTree.lookup other false maxLinks [] (parts path) =
        FileTree.lookup other false (fewer + 1) there (part :: rest)) :
    (bare host).state.lookup path = .error .noEntry := by
  have directory : (bare host).state.tree there = some .directory := by
    rw [(bare host).same.agree there arrival.inside]
    exact arrival.directory
  have missing : (bare host).state.tree (part :: there) = none := (bare host).tree_new (Arrival.kept arrival)
  have proper := arrival.name
  simp only [isName, Bool.and_eq_true, decide_eq_true_eq] at proper
  rw [Host.lookup, goes _ (bare host).same.agree, FileTree.lookup, FileTree.walk,
    if_neg (not_not_intro directory), if_neg (not_or.mpr proper.1), if_neg proper.2, missing]
  rfl

/-- The library's path strays: it is a directory in one state and missing in another. -/
theorem not_contained_of_strays (whole : '\x00' ∉ library.toList) (strays : host.strays true (dirOf library)) :
    ¬ Contained host library limit := by
  have zero := zero_dirOf.not.mpr whole
  obtain ⟨fewer, there, part, rest, arrival, clean, goes⟩ := strays_arrives zero strays
  obtain ⟨place, found, directory, -⟩ := detour_lookup arrival clean goes
  have missing : (bare host).state.readdir (dirOf library) = none := by
    unfold Host.readdir
    rw [if_neg zero, bare_lookup arrival goes]
  refine not_contained (bare host).same (detour arrival clean).same ?_
  rw [items_of_none limit missing, items_of_some limit (readdir_of_lookup zero found directory)]
  exact nofun

/-- A file in a directory above the root. -/
def fileAbove {place : Location} (near : host.near place) (above : ¬ mediaRoot <:+ place)
    (directory : host.tree place = some .directory) : Graft host where
  node here := if here = "a.mkv" :: place then some .file else none
  alphabet := "a.mkv" :: mediaRoot
  root := List.subset_cons_self ..
  known := by
    intro here name present
    obtain rfl : name = "a.mkv" := by
      by_contra other
      exact present (if_neg fun same => other (List.cons.inj same).1)
    have proper : isName "a.mkv" ∧ '/' ∉ "a.mkv".toList ∧ '\x00' ∉ "a.mkv".toList := by decide
    exact ⟨List.mem_cons_self, proper⟩
  parents := by
    intro here name _ present
    obtain rfl : here = place := by
      by_contra other
      exact present (if_neg fun same => other (List.cons.inj same).2)
    rw [if_pos (Host.kept_iff.mpr (.inl near))]
    exact directory
  targets := by
    intro here target link
    split at link <;> cases link

/-- The library's path ends above the root, where a state may have a file. -/
theorem not_contained_of_above (whole : '\x00' ∉ library.toList) {place : Location}
    (stays : host.strays false (dirOf library) = false) (found : host.lookup (dirOf library) = .ok place)
    (outside : ¬ mediaRoot <:+ place) : ¬ Contained host library limit := by
  have near : host.near place := (lookup_same host.region (fun _ _ => rfl) host.region.top stays).2 place found
  have directory : host.tree place = some .directory := by
    by_cases absent : host.tree mediaRoot = none
    · rw [(Host.near_iff_of_absent absent).mp near]
      exact host.top
    · refine Host.above absent (((Host.near_iff_of_present absent).mp near).resolve_right outside) ?_
      rintro rfl
      exact outside (List.suffix_refl _)
  let graft := fileAbove near outside directory
  have new : host.kept ("a.mkv" :: place) = false := by
    rw [Bool.eq_false_iff]
    exact fun kept => absurd (Host.name_of_kept kept outside) (by decide)
  have file : graft.state.tree ("a.mkv" :: place) = some .file := (graft.tree_new new).trans (if_pos rfl)
  have looked : graft.state.lookup (dirOf library) = .ok place :=
    (lookup_same host.region graft.same.agree host.region.top stays).1.trans found
  have here : graft.state.tree place = some .directory := (graft.same.agree place near).trans directory
  have first : ∃ rest, graft.state.names place = "a.mkv" :: rest := by
    have names : graft.state.names place =
        ("a.mkv" :: mediaRoot).filter fun name => graft.state.tree (name :: place) ≠ none :=
      if_neg (List.isSuffixOf_iff_suffix.not.mpr outside)
    refine ⟨_, names.trans (List.filter_cons_of_pos ?_)⟩
    rw [file]
    rfl
  obtain ⟨rest, names⟩ := first
  have read := readdir_of_lookup (zero_dirOf.not.mpr whole) looked here
  have media : ∃ after, graft.state.media 5 (dirOf library) = [] ++ ⟨dirOf library, "a.mkv", .video⟩ :: after := by
    have kind : kind? "a.mkv" = some .video := by decide +kernel
    rw [Host.media, read, names, Option.getD_some, List.map_cons, List.flatMap_cons, file, kind]
    exact ⟨_, rfl⟩
  obtain ⟨after, media⟩ := media
  refine outside_tells graft.same read media (reaches_nil _ limit) (List.forall_mem_nil _)
    (Host.lookup_child looked file (by simp)) fun below => ?_
  rcases List.suffix_cons_iff.mp below with same | inside
  · exact absurd (List.cons.inj same).1 (by simp)
  · exact outside inside

theorem walk_opened (host : Host) (library : String) (limit : ℚ) (levels : ℕ) (d : String) (scan : Scan) :
    scan.opened ⊆ (walk host library limit levels d scan).opened := by
  induction levels generalizing d scan with
  | zero => exact List.Subset.refl _
  | succ levels ih =>
    rw [walk]
    split
    · exact List.Subset.refl _
    cases host.readdir d with
    | none => exact List.subset_append_left ..
    | some ents =>
      refine List.foldlRecOn (motive := fun now : Scan => scan.opened ⊆ now.opened) ents _
        (List.subset_append_left ..) fun now grown e _ => ?_
      dsimp only
      split
      · exact grown
      split
      · exact List.Subset.trans grown (ih _ _)
      · cases kind? e.name with
        | none => exact grown
        | some kind => exact List.Subset.trans grown (List.subset_append_left ..)

/-- The directory of the library is opened. -/
theorem dirOf_opened (whole : '\x00' ∉ library.toList) : dirOf library ∈ (items host library limit).2 := by
  cases read : host.readdir (dirOf library) with
  | none =>
    rw [items_of_none limit read, if_neg (zero_dirOf.not.mpr whole)]
    exact List.mem_singleton_self _
  | some ents =>
    rw [items_of_some limit read]
    exact walk_opened _ _ _ _ _ _ (List.mem_singleton_self _)

theorem media_clean {levels : ℕ} {d : String} (whole : '\x00' ∉ d.toList) {media : Media}
    (member : media ∈ host.media levels d) : '\x00' ∉ media.path.toList := by
  induction levels generalizing d with
  | zero => cases member
  | succ levels ih =>
    rw [Host.media] at member
    cases read : host.readdir d with
    | none =>
      rw [read] at member
      cases member
    | some ents =>
      rw [read, Option.getD_some] at member
      obtain ⟨e, inside, member⟩ := List.mem_flatMap.mp member
      obtain ⟨place, -, -, present, -⟩ := Host.entry read inside
      obtain ⟨-, clean⟩ := host.proper place e.name present
      split at member
      · exact ih (zero_join clean whole) member
      · obtain ⟨kind, -, rfl⟩ := Option.map_eq_some_iff.mp (Option.mem_toList.mp member)
        exact zero_join clean whole

/-- A file that is reached leads out of the root. -/
theorem not_contained_of_file (whole : '\x00' ∉ library.toList)
    (stays : host.leadsOut false (dirOf library) = false) {before after : List Media} {file : Media}
    (split : host.media 5 (dirOf library) = before ++ file :: after) (reached : host.reaches limit before)
    (earlier : ∀ media ∈ before, host.leadsOut false media.path = false) (leads : host.leadsOut true file.path) :
    ¬ Contained host library limit := by
  have zero := zero_dirOf.not.mpr whole
  obtain ⟨ents, read⟩ : ∃ ents, host.readdir (dirOf library) = some ents := by
    cases read : host.readdir (dirOf library) with
    | some ents => exact ⟨ents, rfl⟩
    | none =>
      rw [Host.media, read] at split
      exact absurd split (by simp)
  have same_refl : SameBelow host host := fun _ _ => ⟨rfl, rfl, rfl⟩
  unfold Host.leadsOut at leads
  rcases (Bool.or_eq_true_iff ..).mp leads with strays | ends
  · have member : file ∈ host.media 5 (dirOf library) := by simp [split]
    obtain ⟨fewer, there, part, rest, arrival, clean, goes⟩ := strays_arrives (media_clean zero member) strays
    obtain ⟨place, found, -, outside⟩ := detour_lookup arrival clean goes
    have same := (detour arrival clean).same
    have agreed (media : Media) (inside : media ∈ before) :
        Agreed host (detour arrival clean).state media.path := same.agreed (earlier media inside)
    refine outside_tells same (((same.agreed stays).readdir same).trans read)
      (((same.agreed stays).media same 5).trans split) ?_ ?_ found outside
    · have fronts : before.filterMap (itemOf (detour arrival clean).state library) =
          before.filterMap (itemOf host library) :=
        List.filterMap_congr fun media inside => (agreed media inside).itemOf library same
      rw [Host.reaches, ← @length_filterMap_itemOf _ library, fronts, length_filterMap_itemOf]
      exact reached
    · intro media inside place found
      exact (agreed media inside).below place ((agreed media inside).lookup.symm.trans found)
  · obtain ⟨-, ends⟩ := Bool.and_eq_true_iff.mp ends
    cases found : host.lookup file.path with
    | error error => simp [found] at ends
    | ok place =>
      refine outside_tells same_refl read split reached ?_ found ?_
      · exact fun media inside => (same_refl.agreed (earlier media inside)).below
      · rw [found] at ends
        exact not_suffix_of_not ends

theorem Escapes.not_contained (escapes : Escapes host library limit) : ¬ Contained host library limit := by
  obtain ⟨whole, above | leads | ⟨stays, before, file, after, split, reached, earlier, leads⟩⟩ := escapes
  · exact fun contained => above (contained.opened _ (dirOf_opened whole))
  · unfold Host.leadsOut at leads
    rcases (Bool.or_eq_true_iff ..).mp leads with strays | ends
    · exact not_contained_of_strays whole strays
    · obtain ⟨stays, ends⟩ := Bool.and_eq_true_iff.mp ends
      cases found : host.lookup (dirOf library) with
      | error error => simp [found] at ends
      | ok place =>
        rw [found] at ends
        exact not_contained_of_above whole (by simpa using stays) found (not_suffix_of_not ends)
  · exact not_contained_of_file whole stays split reached earlier leads

/-- Of the files that are reached and lead out, one is the first. -/
theorem first_leads {media before after : List Media} {file : Media} (split : media = before ++ file :: after)
    (reached : host.reaches limit before) (leads : host.leadsOut false file.path) :
    ∃ before file after, media = before ++ file :: after ∧ host.reaches limit before ∧
      (∀ earlier ∈ before, host.leadsOut false earlier.path = false) ∧ host.leadsOut false file.path := by
  induction count : before.length using Nat.strong_induction_on generalizing before file after with
  | _ size ih =>
    by_cases none : ∀ earlier ∈ before, host.leadsOut false earlier.path = false
    · exact ⟨before, file, after, split, reached, none, leads⟩
    · push Not at none
      obtain ⟨earlier, member, sooner⟩ := none
      obtain ⟨front, back, rfl⟩ := List.append_of_mem member
      have fewer : host.reaches limit front := by
        refine lt_of_le_of_lt ?_ reached
        rw [List.countP_append]
        exact_mod_cast Nat.le_add_right ..
      have shorter : front.length < size := by
        rw [← count, List.length_append, List.length_cons]
        omega
      have sooner_split : media = front ++ earlier :: (back ++ file :: after) := by
        rw [split, List.append_assoc]
        rfl
      exact ih front.length shorter sooner_split fewer (Bool.eq_true_of_not_eq_false sooner) rfl

theorem leadsOut_spare {path : String} (leads : host.leadsOut false path) :
    host.leadsOut true path ∨ host.strays false path ∧ host.strays true path = false := by
  unfold Host.leadsOut at leads ⊢
  cases spare : host.strays true path with
  | true => exact .inl (by rw [Bool.true_or])
  | false =>
    cases all : host.strays false path with
    | true => exact .inr ⟨rfl, rfl⟩
    | false =>
      rw [all] at leads
      exact .inl leads

/-- A listing is confined or escapes, unless one of its paths has no link left where it leaves the root. -/
theorem confined_or_escapes (host : Host) (library : String) (limit : Number) :
    Confined host library limit ∨ Escapes host library limit ∨
      ∃ path, host.strays false path ∧ host.strays true path = false := by
  by_cases zero : '\x00' ∈ library.toList
  · exact .inl (.inl zero)
  by_cases below : Below (dirOf library)
  swap
  · exact .inr (.inl ⟨zero, .inl below⟩)
  cases stays : host.leadsOut false (dirOf library) with
  | true =>
    rcases leadsOut_spare stays with leads | exhausted
    · exact .inr (.inl ⟨zero, .inr (.inl leads)⟩)
    · exact .inr (.inr ⟨_, exhausted⟩)
  | false =>
    by_cases files : ∀ before file after, host.media 5 (dirOf library) = before ++ file :: after →
        host.reaches limit before → host.leadsOut false file.path = false
    · exact .inl (.inr ⟨below, stays, files⟩)
    · push Not at files
      obtain ⟨before, file, after, split, reached, leads⟩ := files
      obtain ⟨before, file, after, split, reached, earlier, leads⟩ :=
        first_leads split reached (Bool.eq_true_of_not_eq_false leads)
      rcases leadsOut_spare leads with leads | exhausted
      · exact .inr (.inl ⟨zero, .inr (.inr ⟨stays, before, file, after, split, reached, earlier, leads⟩)⟩)
      · exact .inr (.inr ⟨_, exhausted⟩)

/-- A listing stays in the root where its paths do, and only there, unless a path that leaves the root has
followed as many links as there may be. -/
theorem items_contained (host : Host) (library : String) (limit : Number) :
    (Confined host library limit → Contained host library limit) ∧
      (Escapes host library limit → ¬ Contained host library limit) ∧
      (Confined host library limit ∨ Escapes host library limit ∨
        ∃ path, host.strays false path ∧ host.strays true path = false) :=
  ⟨Confined.contained, Escapes.not_contained, confined_or_escapes host library limit⟩

/-- A host with the root alone, which is empty. -/
def emptyRoot : Host where
  tree place := if place <:+ mediaRoot then some .directory else none
  names here := mediaRoot.filter fun name => name :: here <:+ mediaRoot
  stat _ := ⟨4096, 0⟩
  listed := by
    intro here name
    rw [List.mem_filter, decide_eq_true_iff, ite_ne_right_iff]
    exact ⟨fun listed => ⟨listed.2, nofun⟩, fun present => ⟨present.1.subset List.mem_cons_self, present.1⟩⟩
  proper := by
    intro here name present
    have all : ∀ name ∈ mediaRoot, isName name ∧ '/' ∉ name.toList ∧ '\x00' ∉ name.toList := by decide
    exact all name ((ite_ne_right_iff.mp present).1.subset List.mem_cons_self)
  parents := by
    intro here name present
    exact if_pos ((List.suffix_cons ..).trans (ite_ne_right_iff.mp present).1)
  top := rfl
  targets := by
    intro place target link
    split at link <;> cases link

/-- The caller's text climbs from the root of the media to that of the host. -/
theorem items_climbs : ¬ Contained emptyRoot "../../../../.." .nan := by
  intro contained
  have opened : dirOf "../../../../.." ∈ (items emptyRoot "../../../../.." .nan).2 := by
    refine dirOf_opened ?_
    rw [String.toList_ofList]
    decide
  have outside : ¬ mediaRoot <:+ (parts (dirOf "../../../../..")).foldl step [] := by
    rw [parts, dirOf, MEDIA_ROOT, String.toList_append, String.toList_append, String.toList_ofList,
      String.toList_ofList, String.toList_ofList]
    decide +kernel
  exact outside (contained.opened _ opened)

end SysDeck.Web.Jellyfin
