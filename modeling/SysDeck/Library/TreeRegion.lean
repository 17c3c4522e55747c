import SysDeck.Library.FileTree

/-! Walks over a part of a tree: a path whose names are all looked up in the part leads to one node in
every tree that has the part. -/

namespace FileTree

variable {near : Location → Bool} {tree other : Tree}

/-- A part of a tree has the root, and with a place all those above it. -/
structure Region (near : Location → Bool) : Prop where
  top : near []
  up : ∀ place, near place → near place.tail

/-- Whether the walk looks a name up outside the part; `out` says whether this counts. -/
def leavesWith (near : Location → Bool) (tree : Tree) (out : Bool) (follow : Location → List String → Bool) :
    Location → List String → Bool
  | _, [] => false
  | here, part :: rest =>
    if tree here ≠ some .directory then false
    else if part = "" ∨ part = "." then leavesWith near tree out follow here rest
    else if part = ".." then leavesWith near tree out follow here.tail rest
    else if near (part :: here) then
      match tree (part :: here) with
      | none => false
      | some (.link target) => follow (target.start here) (target.parts ++ rest)
      | some _ => leavesWith near tree out follow (part :: here) rest
    else out

/-- Whether a path looks a name up outside the part, with so many links at most; with `spare`, only while
a link more may be followed. -/
def leaves (near : Location → Bool) (tree : Tree) (spare : Bool) : Nat → Location → List String → Bool
  | 0 => leavesWith near tree (!spare) fun _ _ => false
  | links + 1 => leavesWith near tree true (leaves near tree spare links)

theorem Region.start (region : Region near) {here : Location} (inside : near here) (target : Path) :
    near (target.start here) := by
  unfold Path.start
  split
  · exact region.top
  · exact inside

theorem walk_same (region : Region near) (agree : ∀ place, near place → other place = tree place)
    {follow followed : Location → List String → Except Errno Location} {out : Location → List String → Bool}
    (onward : ∀ here parts, near here → out here parts = false →
      followed here parts = follow here parts ∧ ∀ place, follow here parts = .ok place → near place)
    {here : Location} {parts : List String} (inside : near here)
    (stays : leavesWith near tree true out here parts = false) :
    walk other false followed here parts = walk tree false follow here parts ∧
      ∀ place, walk tree false follow here parts = .ok place → near place := by
  induction parts generalizing here with
  | nil =>
    refine ⟨rfl, fun place found => ?_⟩
    obtain rfl := Except.ok.inj found
    exact inside
  | cons part rest ih =>
    rw [leavesWith] at stays
    simp only [walk]
    rw [agree here inside]
    split
    · exact ⟨rfl, by simp⟩
    next directory =>
    rw [if_neg directory] at stays
    split
    next same =>
      rw [if_pos same] at stays
      exact ih inside stays
    next other =>
    rw [if_neg other] at stays
    split
    next up =>
      rw [if_pos up] at stays
      exact ih (region.up here inside) stays
    next down =>
    rw [if_neg down] at stays
    split at stays
    next below =>
      rw [agree _ below]
      cases node : tree (part :: here) with
      | none => exact ⟨rfl, by simp⟩
      | some kind =>
        rw [node] at stays
        cases kind with
        | link target => exact onward _ _ (region.start inside target) stays
        | directory => exact ih below stays
        | file => exact ih below stays
    next => cases stays

/-- A path that stays in the part leads to the same node in every tree that has the part. -/
theorem lookup_same (region : Region near) (agree : ∀ place, near place → other place = tree place)
    {links : Nat} {here : Location} {parts : List String} (inside : near here)
    (stays : leaves near tree false links here parts = false) :
    lookup other false links here parts = lookup tree false links here parts ∧
      ∀ place, lookup tree false links here parts = .ok place → near place := by
  induction links generalizing here parts with
  | zero => exact walk_same region agree (fun _ _ _ _ => ⟨rfl, fun _ found => by cases found⟩) inside stays
  | succ links ih => exact walk_same region agree (fun _ _ => ih) inside stays

/-- Where a walk looks a name up outside the part, with what is left of the path. -/
structure Arrival (near : Location → Bool) (tree : Tree) (parts : List String) (there : Location)
    (part : String) (rest : List String) : Prop where
  inside : near there
  directory : tree there = some .directory
  name : isName part
  outside : near (part :: there) = false
  known : ∀ name ∈ part :: rest,
    name ∈ parts ∨ ∃ place target, tree place = some (.link target) ∧ name ∈ target.parts

theorem Arrival.cons {parts : List String} {there : Location} {part : String} {rest : List String}
    (arrival : Arrival near tree parts there part rest) (first : String) :
    Arrival near tree (first :: parts) there part rest :=
  { arrival with known := fun name member => (arrival.known name member).imp_left (List.mem_cons_of_mem _) }

/-- The names of a link and the rest of a path are known, where they come from a path with that link. -/
theorem Arrival.follow {here : Location} {part : String} {target : Path} {rest : List String}
    {there : Location} {last : String} {left : List String}
    (arrival : Arrival near tree (target.parts ++ rest) there last left)
    (link : tree (part :: here) = some (.link target)) : Arrival near tree (part :: rest) there last left where
  inside := arrival.inside
  directory := arrival.directory
  name := arrival.name
  outside := arrival.outside
  known := by
    intro name member
    rcases arrival.known name member with inside | elsewhere
    · rcases List.mem_append.mp inside with linked | later
      · exact .inr ⟨_, target, link, linked⟩
      · exact .inl (List.mem_cons_of_mem _ later)
    · exact .inr elsewhere

theorem isName_of_ne {part : String} (other : ¬ (part = "" ∨ part = ".")) (down : part ≠ "..") : isName part := by
  rw [not_or] at other
  simp [isName, other, down]

/-- A walk that looks a name up outside the part arrives there in every tree that has the part. -/
theorem walk_arrives (region : Region near) {out : Bool}
    {follow : Location → List String → Bool}
    {followed : Tree → Location → List String → Except Errno Location}
    (spare : out = true → ∃ fewer, ∀ other, walk other false (followed other) = lookup other false (fewer + 1))
    (onward : ∀ here parts, near here → follow here parts = true →
      ∃ fewer there part rest, Arrival near tree parts there part rest ∧
        ∀ other : Tree, (∀ place, near place → other place = tree place) →
          followed other here parts = lookup other false (fewer + 1) there (part :: rest))
    {here : Location} {parts : List String} (inside : near here)
    (leaving : leavesWith near tree out follow here parts = true) :
    ∃ fewer there part rest, Arrival near tree parts there part rest ∧
      ∀ other : Tree, (∀ place, near place → other place = tree place) →
        walk other false (followed other) here parts = lookup other false (fewer + 1) there (part :: rest) := by
  induction parts generalizing here with
  | nil => cases leaving
  | cons part rest ih =>
    rw [leavesWith] at leaving
    split at leaving
    · cases leaving
    next directory =>
    have entered : ∀ other : Tree, (∀ place, near place → other place = tree place) →
        ¬ other here ≠ some .directory := fun other agree => by rw [agree here inside]; exact directory
    split at leaving
    next same =>
      obtain ⟨fewer, there, last, left, arrival, goes⟩ := ih inside leaving
      refine ⟨fewer, there, last, left, arrival.cons part, fun other agree => ?_⟩
      rw [walk, if_neg (entered other agree), if_pos same]
      exact goes other agree
    next other =>
    split at leaving
    next up =>
      obtain ⟨fewer, there, last, left, arrival, goes⟩ := ih (region.up here inside) leaving
      refine ⟨fewer, there, last, left, arrival.cons part, fun other' agree => ?_⟩
      rw [walk, if_neg (entered other' agree), if_neg other, if_pos up]
      exact goes other' agree
    next down =>
    split at leaving
    next below =>
      cases node : tree (part :: here) with
      | none => simp [node] at leaving
      | some kind =>
        rw [node] at leaving
        have steps : ∀ other' : Tree, (∀ place, near place → other' place = tree place) →
            other' (part :: here) = some kind := fun other' agree => by rw [agree _ below, node]
        have enters : ∀ other' : Tree, (∀ place, near place → other' place = tree place) →
            (∀ target, kind ≠ .link target) →
            walk other' false (followed other') here (part :: rest) =
              walk other' false (followed other') (part :: here) rest := by
          intro other' agree plain
          rw [walk, if_neg (entered other' agree), if_neg other, if_neg down, steps other' agree]
          cases kind with
          | link target => exact absurd rfl (plain target)
          | directory => rfl
          | file => rfl
        cases kind with
        | link target =>
          obtain ⟨fewer, there, last, left, arrival, goes⟩ := onward _ _ (region.start inside target) leaving
          refine ⟨fewer, there, last, left, arrival.follow node, fun other' agree => ?_⟩
          rw [walk, if_neg (entered other' agree), if_neg other, if_neg down, steps other' agree]
          exact goes other' agree
        | directory =>
          obtain ⟨fewer, there, last, left, arrival, goes⟩ := ih below leaving
          refine ⟨fewer, there, last, left, arrival.cons part, fun other' agree => ?_⟩
          rw [enters other' agree nofun]
          exact goes other' agree
        | file =>
          obtain ⟨fewer, there, last, left, arrival, goes⟩ := ih below leaving
          refine ⟨fewer, there, last, left, arrival.cons part, fun other' agree => ?_⟩
          rw [enters other' agree nofun]
          exact goes other' agree
    next away =>
      obtain ⟨fewer, same⟩ := spare leaving
      refine ⟨fewer, here, part, rest, ⟨inside, of_not_not directory, isName_of_ne other down, ?_, ?_⟩, ?_⟩
      · simpa using away
      · exact fun name member => .inl member
      · exact fun other _ => congrFun (congrFun (same other) here) (part :: rest)

/-- A path that looks a name up outside the part, with a link to spare, arrives there in every tree that has
the part. -/
theorem leaves_arrives (region : Region near) {links : Nat} {here : Location} {parts : List String}
    (inside : near here) (leaving : leaves near tree true links here parts = true) :
    ∃ fewer there part rest, Arrival near tree parts there part rest ∧
      ∀ other : Tree, (∀ place, near place → other place = tree place) →
        lookup other false links here parts = lookup other false (fewer + 1) there (part :: rest) := by
  induction links generalizing here parts with
  | zero =>
    exact @walk_arrives near tree region false (fun _ _ => false) (fun _ _ _ => .error .loop) (fun out => by cases out)
      (fun _ _ _ leaving => by cases leaving) here parts inside leaving
  | succ links ih => exact walk_arrives region (fun _ => ⟨links, fun _ => rfl⟩) (fun _ _ => ih) inside leaving

/-- A walk through directories alone: `free` says of a place how many names may still be walked from it. -/
theorem walk_free {create : Bool} {follow : Location → List String → Except Errno Location}
    {known : String → Prop} {free : Nat → Location → Prop}
    (directory : ∀ left place, free left place → tree place = some .directory)
    (stay : ∀ left place, free (left + 1) place → free left place)
    (up : ∀ left place, free (left + 1) place → free left place.tail)
    (down : ∀ left place part, free (left + 1) place → known part → isName part → free left (part :: place))
    {here : Location} {parts : List String} (names : ∀ part ∈ parts, known part)
    (start : free parts.length here) :
    ∃ place, walk tree create follow here parts = .ok place ∧ free 0 place := by
  induction parts generalizing here with
  | nil => exact ⟨here, rfl, start⟩
  | cons part rest ih =>
    have later : ∀ part ∈ rest, known part := fun part member => names part (List.mem_cons_of_mem _ member)
    rw [walk, if_neg (not_not_intro (directory _ here start))]
    split
    · exact ih later (stay _ here start)
    next other =>
    split
    · exact ih later (up _ here start)
    next below =>
      have entered := down _ here part start (names part List.mem_cons_self) (isName_of_ne other below)
      rw [directory _ _ entered]
      exact ih later entered

/-- A node in a directory, by its name. -/
theorem lookup_child {create : Bool} {links : Nat} {here : Location} {name : String} {node : Node}
    (directory : tree here = some .directory) (proper : isName name) (child : tree (name :: here) = some node)
    (plain : ∀ target, node ≠ .link target) : lookup tree create links here [name] = .ok (name :: here) := by
  simp only [isName, Bool.and_eq_true, decide_eq_true_eq] at proper
  have other : ¬ (name = "" ∨ name = ".") := not_or.mpr proper.1
  cases node with
  | link target => exact absurd rfl (plain target)
  | directory => cases links <;> simp [lookup, walk, directory, other, proper.2, child]
  | file => cases links <;> simp [lookup, walk, directory, other, proper.2, child]

end FileTree
