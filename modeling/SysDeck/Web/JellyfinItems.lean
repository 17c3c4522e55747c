import SysDeck.Library.Text
import SysDeck.Web.Jellyfin

/-! Where the media listing stays in the root: a walk that looks up no name elsewhere gives one answer in
every host state that has the root, and one that does gives two. -/

namespace SysDeck.Web.Jellyfin

open FileTree

/-! ### Paths -/

theorem parts_join (d : String) {name : String} (clean : Clean name) :
    parts (d ++ "/" ++ name) = parts d ++ [name] := by
  have chars : (d ++ "/" ++ name).toList = d.toList ++ '/' :: name.toList := by simp
  rw [parts, chars, List.splitOn_append_cons_self, List.map_append, List.splitOn_eq_singleton clean.1,
    List.map_singleton, String.ofList_toList]
  rfl

theorem zero_join {d name : String} (clean : Clean name) (whole : '\x00' ∉ d.toList) :
    '\x00' ∉ (d ++ "/" ++ name).toList := by
  simp [whole, clean.2]

theorem zero_dirOf {library : String} : '\x00' ∈ (dirOf library).toList ↔ '\x00' ∈ library.toList := by
  have root : '\x00' ∉ MEDIA_ROOT.toList := by decide
  simp [dirOf, root]

theorem clean_parts {path : String} (whole : '\x00' ∉ path.toList) : ∀ part ∈ parts path, Clean part := by
  intro part member
  obtain ⟨chars, cut, rfl⟩ := List.mem_map.mp member
  rw [Clean, String.toList_ofList]
  exact ⟨Text.not_mem_of_mem_splitOn cut, fun inside => whole (Text.mem_of_mem_part cut inside)⟩

/-- A name below a path below the root. -/
theorem Below.join {d name : String} (below : Below d) (clean : Clean name) (proper : isName name) :
    Below (d ++ "/" ++ name) := by
  have stepped : step ((parts d).foldl step []) name = name :: (parts d).foldl step [] := by
    simp only [isName, Bool.and_eq_true, decide_eq_true_eq] at proper
    rw [step, if_neg (not_or.mpr proper.1), if_neg proper.2]
  rw [Below, parts_join d clean, List.foldl_append, List.foldl_cons, List.foldl_nil, stepped]
  exact below.trans (List.suffix_cons ..)

/-! ### The host -/

variable {host other : Host} {path : String}

/-- With a node the host has all directories above it. -/
theorem Host.above {place above : Location} (present : host.tree place ≠ none) (suffix : above <:+ place)
    (proper : above ≠ place) : host.tree above = some .directory := by
  induction place with
  | nil => exact absurd (List.suffix_nil.mp suffix) proper
  | cons name here ih =>
    have directory := host.parents here name present
    rcases List.suffix_cons_iff.mp suffix with same | inside
    · exact absurd same proper
    · by_cases same : above = here
      · rw [same, directory]
      · exact ih (by simp [directory]) inside same

theorem Host.near_iff_of_present (present : host.tree mediaRoot ≠ none) {place : Location} :
    host.near place ↔ place <:+ mediaRoot ∨ mediaRoot <:+ place := by
  simp [Host.near, present]

theorem Host.near_iff_of_absent (absent : host.tree mediaRoot = none) {place : Location} :
    host.near place ↔ place = [] := by
  simp [Host.near, absent]

theorem Host.region (host : Host) : Region host.near where
  top := by
    unfold Host.near
    split <;> simp
  up := by
    intro place inside
    by_cases absent : host.tree mediaRoot = none
    · rw [Host.near_iff_of_absent absent] at inside ⊢
      rw [inside]
      rfl
    · rw [Host.near_iff_of_present absent] at inside ⊢
      cases place with
      | nil => exact inside
      | cons name here =>
        rcases inside with above | below
        · exact .inl ((List.suffix_cons ..).trans above)
        · rcases List.suffix_cons_iff.mp below with same | inside
          · exact .inl (same ▸ List.suffix_cons ..)
          · exact .inr inside

/-- A host state with the same root has the same tree on the way to it. -/
theorem SameBelow.agree (same : SameBelow host other) (place : Location) (inside : host.near place) :
    other.tree place = host.tree place := by
  by_cases absent : host.tree mediaRoot = none
  · rw [(Host.near_iff_of_absent absent).mp inside, host.top, other.top]
  · rcases (Host.near_iff_of_present absent).mp inside with above | below
    · by_cases root : place = mediaRoot
      · exact (same place (root ▸ List.suffix_refl _)).1
      · have present : other.tree mediaRoot ≠ none := by
          rw [(same mediaRoot (List.suffix_refl _)).1]
          exact absent
        rw [Host.above absent above root, Host.above present above root]
    · exact (same place below).1

theorem SameBelow.trans {third : Host} (first : SameBelow host other) (second : SameBelow other third) :
    SameBelow host third := by
  intro place below
  obtain ⟨tree, names, stat⟩ := first place below
  obtain ⟨tree', names', stat'⟩ := second place below
  exact ⟨tree'.trans tree, names'.trans names, stat'.trans stat⟩

/-! ### Paths that lead to one place -/

theorem Host.lookup_join {d name : String} (clean : Clean name) {place : Location}
    (found : host.lookup d = .ok place) :
    ∃ fewer, host.lookup (d ++ "/" ++ name) = FileTree.lookup host.tree false fewer place [name] := by
  obtain ⟨fewer, onward⟩ := lookup_append false found
  exact ⟨fewer, by rw [Host.lookup, parts_join d clean, onward]⟩

/-- A node of a directory, by the directory's path and its name. -/
theorem Host.lookup_child {d name : String} {place : Location} (found : host.lookup d = .ok place) {node : Node}
    (child : host.tree (name :: place) = some node) (plain : ∀ target, node ≠ .link target) :
    host.lookup (d ++ "/" ++ name) = .ok (name :: place) := by
  have present : host.tree (name :: place) ≠ none := by simp [child]
  obtain ⟨proper, clean⟩ := host.proper place name present
  obtain ⟨fewer, onward⟩ := Host.lookup_join clean found
  rw [onward, FileTree.lookup_child (host.parents place name present) proper child plain]

/-- The path leads to the same node in both states, below the root, or to none in both. -/
structure Agreed (host other : Host) (path : String) : Prop where
  lookup : other.lookup path = host.lookup path
  below : ∀ place, host.lookup path = .ok place → mediaRoot <:+ place

theorem strays_of_leadsOut {path : String} (stays : host.leadsOut false path = false) :
    host.strays false path = false := by
  unfold Host.leadsOut at stays
  exact (Bool.or_eq_false_iff.mp stays).1

theorem SameBelow.agreed (same : SameBelow host other) {path : String} (stays : host.leadsOut false path = false) :
    Agreed host other path where
  lookup := (lookup_same host.region same.agree host.region.top (strays_of_leadsOut stays)).1
  below := by
    intro place found
    unfold Host.leadsOut at stays
    simpa [strays_of_leadsOut stays, found] using stays

theorem Agreed.readdir (agreed : Agreed host other path) (same : SameBelow host other) :
    other.readdir path = host.readdir path := by
  unfold Host.readdir
  rw [agreed.lookup]
  split
  · rfl
  cases found : host.lookup path with
  | error error => rfl
  | ok place =>
    have below := agreed.below place found
    obtain ⟨tree, names, -⟩ := same place below
    dsimp only
    rw [tree, names]
    split
    · refine congrArg some (List.map_congr_left fun name _ => ?_)
      rw [(same (name :: place) (below.trans (List.suffix_cons ..))).1]
    · rfl

/-- An entry of a directory is a node of the tree. -/
theorem Host.entry {path : String} {ents : List Dirent} (read : host.readdir path = some ents) {e : Dirent}
    (member : e ∈ ents) :
    ∃ place, host.lookup path = .ok place ∧ host.tree place = some .directory ∧
      host.tree (e.name :: place) ≠ none ∧
      (e.isDirectory ↔ host.tree (e.name :: place) = some .directory) := by
  unfold Host.readdir at read
  split at read
  · cases read
  split at read
  next place found =>
    split at read
    next directory =>
      rw [← Option.some.inj read] at member
      obtain ⟨name, inside, rfl⟩ := List.mem_map.mp member
      exact ⟨place, found, directory, (host.listed place name).mp inside, by simp⟩
    next => cases read
  next => cases read

theorem Agreed.child (agreed : Agreed host other path) (same : SameBelow host other) {ents : List Dirent}
    (read : host.readdir path = some ents) {e : Dirent} (member : e ∈ ents) (directory : e.isDirectory) :
    Agreed host other (path ++ "/" ++ e.name) := by
  obtain ⟨place, found, -, -, kind⟩ := Host.entry read member
  have below := agreed.below place found
  have child := kind.mp directory
  have inside : mediaRoot <:+ e.name :: place := below.trans (List.suffix_cons ..)
  have here := Host.lookup_child found child nofun
  have there : other.lookup (path ++ "/" ++ e.name) = .ok (e.name :: place) :=
    Host.lookup_child (agreed.lookup.trans found) ((same _ inside).1.trans child) nofun
  refine ⟨there.trans here.symm, fun other found => ?_⟩
  rw [← Except.ok.inj (here.symm.trans found)]
  exact inside

theorem Agreed.media (same : SameBelow host other) (levels : ℕ) {path : String}
    (agreed : Agreed host other path) : other.media levels path = host.media levels path := by
  induction levels generalizing path with
  | zero => rfl
  | succ levels ih =>
    rw [Host.media, Host.media, agreed.readdir same]
    cases read : host.readdir path with
    | none => rfl
    | some ents =>
      rw [Option.getD_some]
      refine List.flatMap_congr fun e member => ?_
      split
      next directory => exact ih (agreed.child same read member directory)
      next => rfl

theorem Agreed.statOf (agreed : Agreed host other path) (same : SameBelow host other) :
    other.statOf path = host.statOf path := by
  unfold Host.statOf
  rw [agreed.lookup]
  cases found : host.lookup path with
  | error error => rfl
  | ok place => exact congrArg some (same place (agreed.below place found)).2.2

/-! ### The walk -/

/-- A file is shown, where there is room. -/
def consider (host : Host) (library : String) (limit : ℚ) (items : List Item) (media : Media) : List Item :=
  if limit ≤ items.length then items
  else items ++ (item? host library media.dir media.name media.kind).toList

theorem consider_full {library : String} {limit : ℚ} {items : List Item} (full : limit ≤ items.length)
    (media : List Media) : media.foldl (consider host library limit) items = items := by
  induction media with
  | nil => rfl
  | cons first rest ih => rw [List.foldl_cons, consider, if_pos full, ih]

/-- The walk shows the media files of its directory. -/
theorem walk_items (host : Host) (library : String) (limit : ℚ) (levels : ℕ) (d : String) (scan : Scan) :
    (walk host library limit levels d scan).items =
      (host.media levels d).foldl (consider host library limit) scan.items := by
  induction levels generalizing d scan with
  | zero => rfl
  | succ levels ih =>
    rw [walk]
    split
    next full => rw [consider_full full]
    rw [Host.media]
    cases host.readdir d with
    | none => rfl
    | some ents =>
      rw [Option.getD_some, List.foldl_flatMap]
      refine (List.foldl_hom Scan.items fun scan e => ?_).symm
      by_cases full : limit ≤ scan.items.length
      · rw [consider_full full, if_pos full]
      · rw [if_neg full]
        split
        next => exact (ih _ _).symm
        next =>
          cases kind? e.name with
          | none => rfl
          | some kind => exact if_neg full

/-! ### What is opened -/

/-- A path that the walk may open: it begins with the root and lies below it. -/
structure Rooted (path : String) : Prop where
  root : MEDIA_ROOT.toList <+: path.toList
  below : Below path

theorem Rooted.join {d name : String} (rooted : Rooted d) (clean : Clean name) (proper : isName name) :
    Rooted (d ++ "/" ++ name) where
  root := rooted.root.trans (by simp [List.append_assoc])
  below := rooted.below.join clean proper

theorem rooted_dirOf {library : String} (below : Below (dirOf library)) : Rooted (dirOf library) where
  root := by simp [dirOf, List.append_assoc]
  below := below

theorem rooted_id {path : String} (rooted : Rooted path) : MEDIA_ROOT ++ idOf path = path := by
  obtain ⟨rest, whole⟩ := rooted.root
  apply String.toList_injective
  rw [String.toList_append, idOf, String.toList_ofList, ← whole, List.drop_left]

/-- What a walk of a rooted directory opens and reports is rooted. -/
structure Safe (scan : Scan) : Prop where
  opened : ∀ path ∈ scan.opened, Below path
  reported : ∀ item ∈ scan.items, Below (MEDIA_ROOT ++ item.id)

theorem Safe.shown {scan : Scan} (safe : Safe scan) {library d name : String} (rooted : Rooted (d ++ "/" ++ name))
    (kind : Kind) :
    Safe ⟨scan.items ++ (item? host library d name kind).toList, scan.opened ++ [d ++ "/" ++ name]⟩ where
  opened := by
    intro path member
    rcases List.mem_append.mp member with old | new
    · exact safe.opened path old
    · rw [List.mem_singleton.mp new]
      exact rooted.below
  reported := by
    intro item member
    rcases List.mem_append.mp member with old | new
    · exact safe.reported item old
    · rw [Option.mem_toList, item?] at new
      obtain ⟨s, -, found⟩ := Option.bind_eq_some_iff.mp new
      split at found
      · obtain rfl := Option.some.inj found
        rw [rooted_id rooted]
        exact rooted.below
      · cases found

theorem walk_safe (host : Host) (library : String) (limit : ℚ) (levels : ℕ) {d : String} (rooted : Rooted d)
    {scan : Scan} (safe : Safe scan) : Safe (walk host library limit levels d scan) := by
  induction levels generalizing d scan with
  | zero => exact safe
  | succ levels ih =>
    rw [walk]
    split
    · exact safe
    have reading : Safe { scan with opened := scan.opened ++ [d] } := by
      refine ⟨fun path member => ?_, safe.reported⟩
      rcases List.mem_append.mp member with old | new
      · exact safe.opened path old
      · rw [List.mem_singleton.mp new]
        exact rooted.below
    cases read : host.readdir d with
    | none => exact reading
    | some ents =>
      refine List.foldlRecOn ents _ reading fun scan safe e member => ?_
      obtain ⟨place, -, -, present, -⟩ := Host.entry read member
      obtain ⟨proper, clean⟩ := host.proper place e.name present
      dsimp only
      split
      · exact safe
      split
      · exact ih (rooted.join clean proper) safe
      · cases kind? e.name with
        | none => exact safe
        | some kind => exact safe.shown (rooted.join clean proper) kind

/-! ### The files that are reached -/

def itemOf (host : Host) (library : String) (media : Media) : Option Item :=
  item? host library media.dir media.name media.kind

theorem itemOf_isSome {library : String} {media : Media} :
    (itemOf host library media).isSome = host.shows media := by
  unfold itemOf item? Host.shows Media.path
  cases host.statOf (media.dir ++ "/" ++ media.name) with
  | none => rfl
  | some s =>
    rw [Option.bind_some, Option.any_some]
    split <;> simp_all

theorem length_filterMap_itemOf {library : String} (media : List Media) :
    (media.filterMap (itemOf host library)).length = media.countP host.shows := by
  rw [List.length_filterMap_eq_countP]
  exact List.countP_congr fun media _ => by rw [itemOf_isSome]

theorem one_le_limitOf (limit : Number) : 1 ≤ limitOf limit := by
  cases limit with
  | nan => decide +kernel
  | infinity negative => cases negative <;> decide +kernel
  | finite value =>
    rw [limitOf]
    split
    · decide +kernel
    · exact le_max_left ..

theorem reaches_nil (host : Host) (limit : Number) : host.reaches limit [] := by
  have positive : (0 : ℚ) < limitOf limit := lt_of_lt_of_le one_pos (one_le_limitOf limit)
  simpa [Host.reaches] using positive

/-- While files are reached, each is shown as far as its figures are; otherwise the limit is reached. -/
theorem foldl_consider (host : Host) (library : String) (limit : Number) (media : List Media) :
    if host.reaches limit media then
      media.foldl (consider host library (limitOf limit)) [] = media.filterMap (itemOf host library)
    else limitOf limit ≤ (media.foldl (consider host library (limitOf limit)) []).length := by
  induction media using List.reverseRecOn with
  | nil =>
    rw [if_pos (reaches_nil host limit)]
    rfl
  | append_singleton before media ih =>
    rw [List.foldl_append, List.foldl_cons, List.foldl_nil]
    by_cases reached : host.reaches limit before
    · rw [if_pos reached] at ih
      have room : ¬ limitOf limit ≤ (before.filterMap (itemOf host library)).length := by
        rw [length_filterMap_itemOf]
        exact not_le.mpr reached
      have shown : consider host library (limitOf limit) (before.filterMap (itemOf host library)) media =
          (before ++ [media]).filterMap (itemOf host library) := by
        rw [consider, if_neg room, List.filterMap_append]
        change _ ++ (itemOf host library media).toList = _
        cases found : itemOf host library media <;> simp [found]
      rw [ih, shown]
      split
      next => rfl
      next beyond =>
        rw [length_filterMap_itemOf]
        exact not_lt.mp beyond
    · rw [if_neg reached] at ih
      have beyond : ¬ host.reaches limit (before ++ [media]) := by
        refine fun later => reached (lt_of_le_of_lt ?_ later)
        rw [List.countP_append]
        exact_mod_cast Nat.le_add_right ..
      rw [if_neg beyond, consider, if_pos ih]
      exact ih

/-- A file that is looked at before the limit is one that is reached. -/
theorem reaches_of_room {library : String} {limit : Number} {before : List Media}
    (room : ¬ limitOf limit ≤ (before.foldl (consider host library (limitOf limit)) []).length) :
    host.reaches limit before := by
  have fold := foldl_consider host library limit before
  split at fold
  next reached => exact reached
  next => exact absurd fold room

theorem Agreed.itemOf (library : String) {media : Media} (agreed : Agreed host other media.path)
    (same : SameBelow host other) : itemOf other library media = itemOf host library media := by
  unfold Jellyfin.itemOf item?
  rw [show media.dir ++ "/" ++ media.name = media.path from rfl, agreed.statOf same]

/-- Two states that agree on the files that are reached show the same. -/
theorem foldl_same {library : String} {limit : Number} {media : List Media}
    (agree : ∀ before file after, media = before ++ file :: after → host.reaches limit before →
      itemOf other library file = itemOf host library file) :
    media.foldl (consider other library (limitOf limit)) [] =
      media.foldl (consider host library (limitOf limit)) [] := by
  have fronts : ∀ before after, media = before ++ after →
      before.foldl (consider other library (limitOf limit)) [] =
        before.foldl (consider host library (limitOf limit)) [] := by
    intro before
    induction before using List.reverseRecOn with
    | nil => exact fun _ _ => rfl
    | append_singleton before file ih =>
      intro after split
      rw [List.append_assoc, List.singleton_append] at split
      rw [List.foldl_append, List.foldl_append, ih _ split]
      simp only [List.foldl_cons, List.foldl_nil, consider]
      split
      next => rfl
      next room =>
        have same := agree before file after split (reaches_of_room room)
        unfold itemOf at same
        rw [same]
  exact fronts media [] (List.append_nil _).symm

/-! ### Inside the root -/

theorem readdir_zero (host : Host) {path : String} (zero : '\x00' ∈ path.toList) : host.readdir path = none :=
  if_pos zero

theorem items_of_none {library : String} (limit : Number) (none : host.readdir (dirOf library) = none) :
    items host library limit =
      (.failed ("library '" ++ library ++ "' not found under " ++ MEDIA_ROOT),
        if '\x00' ∈ (dirOf library).toList then [] else [dirOf library]) := by
  simp only [items, none]

theorem items_of_some {library : String} (limit : Number) {ents : List Dirent}
    (read : host.readdir (dirOf library) = some ents) :
    items host library limit =
      (let scan := walk host library (limitOf limit) 5 (dirOf library) ⟨[], [dirOf library]⟩
      (.listed library scan.items scan.items.length ("real file scan of " ++ dirOf library), scan.opened)) := by
  simp only [items, read]

/-- A listing that stays in the root opens and reports nothing outside it, and nothing outside it tells. -/
theorem Confined.contained {library : String} {limit : Number} (confined : Confined host library limit) :
    Contained host library limit := by
  by_cases zero : '\x00' ∈ library.toList
  · have none (host : Host) := items_of_none limit (readdir_zero host (zero_dirOf.mpr zero))
    refine ⟨?_, ?_, fun other _ => by rw [none, none]⟩
    · rw [none, if_pos (zero_dirOf.mpr zero)]
      exact List.forall_mem_nil _
    · rw [none]
      exact List.forall_mem_nil _
  obtain ⟨below, stays, files⟩ := confined.resolve_left zero
  have rooted := rooted_dirOf below
  have safe : Safe (walk host library (limitOf limit) 5 (dirOf library) ⟨[], [dirOf library]⟩) :=
    walk_safe host library (limitOf limit) 5 rooted ⟨by simpa using below, List.forall_mem_nil _⟩
  have listed : ∀ other, SameBelow host other →
      (walk other library (limitOf limit) 5 (dirOf library) ⟨[], [dirOf library]⟩).items =
        (walk host library (limitOf limit) 5 (dirOf library) ⟨[], [dirOf library]⟩).items := by
    intro other same
    rw [walk_items, walk_items, (same.agreed stays).media same]
    exact foldl_same fun before file after split reached =>
      (same.agreed (files before file after split reached)).itemOf library same
  cases read : host.readdir (dirOf library) with
  | none =>
    refine ⟨?_, ?_, fun other same => ?_⟩
    · rw [items_of_none limit read, if_neg (zero_dirOf.not.mpr zero)]
      simpa using below
    · rw [items_of_none limit read]
      exact List.forall_mem_nil _
    · rw [items_of_none limit read, items_of_none limit (((same.agreed stays).readdir same).trans read)]
  | some ents =>
    refine ⟨?_, ?_, fun other same => ?_⟩
    · rw [items_of_some limit read]
      exact safe.opened
    · rw [items_of_some limit read]
      exact safe.reported
    · rw [items_of_some limit read, items_of_some limit (((same.agreed stays).readdir same).trans read)]
      simp only [listed other same]

end SysDeck.Web.Jellyfin
