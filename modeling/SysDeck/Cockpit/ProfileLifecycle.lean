import SysDeck.Library.Execution
import SysDeck.Cockpit.Profiles

/-! What was created, copied and deleted against what is discovered, over any history. -/

namespace SysDeck.Cockpit.Profiles

/-! ### The discovered profiles -/

theorem mem_children {disk : Disk} {directory : Path} {name : String} :
    name ∈ disk.children directory ↔ disk.exists (directory ++ [name]) := by
  have last : ∀ path : Path, (if path.dropLast = directory then path.getLast? else none) = some name ↔
      path = directory ++ [name] := by
    intro path
    constructor
    · intro found
      split at found
      · next same =>
        rw [← same, List.dropLast_append_getLast? name found]
      · cases found
    · rintro rfl
      simp
  simp [Disk.children, Disk.exists, Disk.isFile, Disk.isDir, last]

/-- What is discovered, and where. -/
inductive Listed (disk : Disk) (home : Path) : Profile → Prop where
  | root {d : Path} (dir : d ∈ MKOSI_DIRS home) (there : disk.isDir d)
      (file : disk.isFile (d ++ ["mkosi.conf"])) :
      Listed disk home ⟨d.getLast?.getD "", d ++ ["mkosi.conf"], .mkosi⟩
  | entry {d : Path} {sub suffix x : String} (dir : d ∈ MKOSI_DIRS home) (there : disk.isDir d)
      (kind : (sub, suffix) ∈ [("mkosi.profiles", ".profile"), ("mkosi.conf.d", ".conf")])
      (inside : disk.isDir (d ++ [sub])) (node : disk.exists (d ++ [sub] ++ [x]))
      (ending : suffix.toList <:+ x.toList) : Listed disk home ⟨stem x, d ++ [sub] ++ [x], .mkosi⟩
  | spec {d : Path} {suffix x : String} (dir : d ∈ VMDB2_DIRS home)
      (kind : suffix ∈ [".yaml", ".yml"]) (there : disk.isDir d) (node : disk.exists (d ++ [x]))
      (ending : suffix.toList <:+ x.toList) : Listed disk home ⟨stem x, d ++ [x], .vmdb2⟩
  | archiso {d : Path} {name : String} (dir : d ∈ ARCHISO_DIRS) (there : disk.isDir d)
      (node : disk.isDir (d ++ [name])) (marker : disk.isFile (d ++ [name] ++ ["profiledef.sh"])) :
      Listed disk home ⟨name, d ++ [name], .archiso⟩
  | liveBuild {d : Path} {name : String} (dir : d ∈ LIVE_BUILD_DIRS home) (there : disk.isDir d)
      (node : disk.isDir (d ++ [name])) (marker : disk.isDir (d ++ [name] ++ ["config"])) :
      Listed disk home ⟨name, d ++ [name], .liveBuild⟩

theorem mem_stems {disk : Disk} {backend : Backend} {directory : Path} {suffix : String}
    {p : Profile} :
    p ∈ disk.stems backend directory suffix ↔
      disk.isDir directory ∧ ∃ x, disk.exists (directory ++ [x]) ∧ suffix.toList <:+ x.toList ∧
        ⟨stem x, directory ++ [x], backend⟩ = p := by
  unfold Disk.stems
  split
  · next root => simp [Disk.glob, mem_children, root, and_assoc]
  · next root => simp [root]

theorem mem_mkosiProfiles {disk : Disk} {home : Path} {p : Profile} :
    p ∈ mkosiProfiles disk home ↔ ∃ d ∈ MKOSI_DIRS home, disk.isDir d ∧
      (disk.isFile (d ++ ["mkosi.conf"]) ∧ p = ⟨d.getLast?.getD "", d ++ ["mkosi.conf"], .mkosi⟩ ∨
        p ∈ disk.stems .mkosi (d ++ ["mkosi.profiles"]) ".profile" ∨
        p ∈ disk.stems .mkosi (d ++ ["mkosi.conf.d"]) ".conf") := by
  rw [mkosiProfiles, List.mem_eraseDups, List.mem_flatMap]
  refine exists_congr fun d => and_congr_right fun _ => ?_
  by_cases there : disk.isDir d
  · by_cases file : disk.isFile (d ++ ["mkosi.conf"])
    · simp [there, file]
    · simp [there, file]
  · simp [there]

theorem mem_vmdb2Profiles {disk : Disk} {home : Path} {p : Profile} :
    p ∈ vmdb2Profiles disk home ↔
      ∃ d ∈ VMDB2_DIRS home, ∃ suffix ∈ [".yaml", ".yml"], p ∈ disk.stems .vmdb2 d suffix := by
  rw [vmdb2Profiles, List.mem_eraseDups, List.mem_flatMap]
  simp only [List.mem_flatMap]

theorem mem_markedProfiles {disk : Disk} {backend : Backend} {marked : Path → Bool}
    {dirs : List Path} {p : Profile} :
    p ∈ markedProfiles disk backend marked dirs ↔
      ∃ d ∈ dirs, disk.isDir d ∧ ∃ name, disk.isDir (d ++ [name]) ∧ marked (d ++ [name]) ∧
        ⟨name, d ++ [name], backend⟩ = p := by
  rw [markedProfiles, List.mem_eraseDups, List.mem_flatMap]
  refine exists_congr fun d => and_congr_right fun _ => ?_
  by_cases there : disk.isDir d
  · simp only [there, Bool.not_true, Bool.false_eq_true, if_false, List.mem_map, List.mem_filter,
      mem_children, Bool.and_eq_true, true_and]
    refine exists_congr fun name => ?_
    constructor
    · rintro ⟨⟨-, node, marker⟩, same⟩
      exact ⟨node, marker, same⟩
    · rintro ⟨node, marker, same⟩
      exact ⟨⟨by simp [Disk.exists, node], node, marker⟩, same⟩
  · simp [there]

theorem mem_profiles {disk : Disk} {home : Path} {p : Profile} :
    p ∈ profiles disk home ↔ Listed disk home p := by
  simp only [profiles, List.mem_append, mem_mkosiProfiles, mem_vmdb2Profiles, archisoProfiles,
    liveBuildProfiles, mem_markedProfiles, mem_stems]
  constructor
  · rintro (((⟨d, dir, there, ⟨file, rfl⟩ | ⟨inside, x, node, ending, rfl⟩ |
      ⟨inside, x, node, ending, rfl⟩⟩ | ⟨d, dir, suffix, kind, there, x, node, ending, rfl⟩) |
      ⟨d, dir, there, name, node, marker, rfl⟩) | ⟨d, dir, there, name, node, marker, rfl⟩)
    · exact .root dir there file
    · exact .entry dir there (by simp) inside node ending
    · exact .entry dir there (by simp) inside node ending
    · exact .spec dir kind there node ending
    · exact .archiso dir there node marker
    · exact .liveBuild dir there node marker
  · intro listed
    cases listed with
    | root dir there file => exact .inl (.inl (.inl ⟨_, dir, there, .inl ⟨file, rfl⟩⟩))
    | entry dir there kind inside node ending =>
      simp only [List.mem_cons, Prod.mk.injEq, List.not_mem_nil, or_false] at kind
      obtain ⟨rfl, rfl⟩ | ⟨rfl, rfl⟩ := kind
      · exact .inl (.inl (.inl ⟨_, dir, there, .inr (.inl ⟨inside, _, node, ending, rfl⟩)⟩))
      · exact .inl (.inl (.inl ⟨_, dir, there, .inr (.inr ⟨inside, _, node, ending, rfl⟩)⟩))
    | spec dir kind there node ending =>
      exact .inl (.inl (.inr ⟨_, dir, _, kind, there, _, node, ending, rfl⟩))
    | archiso dir there node marker => exact .inl (.inr ⟨_, dir, there, _, node, marker, rfl⟩)
    | liveBuild dir there node marker => exact .inr ⟨_, dir, there, _, node, marker, rfl⟩

theorem Listed.exists {disk : Disk} {home : Path} {p : Profile} (listed : Listed disk home p) :
    disk.exists p.path := by
  cases listed with
  | root _ _ file => simp [Disk.exists, file]
  | entry _ _ _ _ node _ => exact node
  | spec _ _ _ node _ => exact node
  | archiso _ _ node _ => simp [Disk.exists, node]
  | liveBuild _ _ node _ => simp [Disk.exists, node]

/-- Every node of the first disk is one of the second. -/
def Disk.Within (less more : Disk) : Prop :=
  (∀ path, less.isFile path → more.isFile path) ∧ ∀ path, less.isDir path → more.isDir path

theorem Disk.Within.exists {less more : Disk} (within : less.Within more) {path : Path}
    (node : less.exists path) : more.exists path := by
  simp only [Disk.exists, Bool.or_eq_true] at node ⊢
  exact node.imp (within.1 path) (within.2 path)

/-- A profile that is discovered stays so when nodes are added. -/
theorem Listed.mono {less more : Disk} (within : less.Within more) {home : Path} {p : Profile}
    (listed : Listed less home p) : Listed more home p := by
  cases listed with
  | root dir there file => exact .root dir (within.2 _ there) (within.1 _ file)
  | entry dir there kind inside node ending =>
    exact .entry dir (within.2 _ there) kind (within.2 _ inside) (within.exists node) ending
  | spec dir kind there node ending =>
    exact .spec dir kind (within.2 _ there) (within.exists node) ending
  | archiso dir there node marker =>
    exact .archiso dir (within.2 _ there) (within.2 _ node) (within.1 _ marker)
  | liveBuild dir there node marker =>
    exact .liveBuild dir (within.2 _ there) (within.2 _ node) (within.2 _ marker)

theorem within_add (disk : Disk) (files directories : List Path) :
    disk.Within (disk.add files directories) := by
  constructor
  · intro path node
    simp only [Disk.isFile, Disk.add, List.contains_eq_mem, decide_eq_true_eq] at node ⊢
    exact List.mem_append_left _ node
  · intro path node
    simp only [Disk.isDir, Disk.add, List.contains_eq_mem, decide_eq_true_eq] at node ⊢
    exact List.mem_append_left _ node

theorem remove_within (disk : Disk) (gone : Path → Bool) : (disk.remove gone).Within disk := by
  constructor
  · intro path node
    simp only [Disk.isFile, Disk.remove, List.contains_eq_mem, decide_eq_true_eq] at node ⊢
    exact (List.mem_filter.mp node).1
  · intro path node
    simp only [Disk.isDir, Disk.remove, List.contains_eq_mem, decide_eq_true_eq] at node ⊢
    exact (List.mem_filter.mp node).1

theorem isFile_remove {disk : Disk} {gone : Path → Bool} {path : Path} (stays : gone path = false) :
    (disk.remove gone).isFile path = disk.isFile path := by
  simp [Disk.isFile, Disk.remove, stays]

theorem isDir_remove {disk : Disk} {gone : Path → Bool} {path : Path} (stays : gone path = false) :
    (disk.remove gone).isDir path = disk.isDir path := by
  simp [Disk.isDir, Disk.remove, stays]

theorem not_exists_remove {disk : Disk} {gone : Path → Bool} {path : Path} (taken : gone path) :
    (disk.remove gone).exists path = false := by
  simp [Disk.exists, Disk.isFile, Disk.isDir, Disk.remove, taken]

/-! ### What stands for a profile that was made -/

/-- The path that a created or copied profile was given. -/
def madePath : Backend → String → Path
  | .mkosi, name => ["etc", "mkosi", "profiles", name, "mkosi.conf"]
  | .vmdb2, name => ["etc", "vmdb2", name ++ ".yaml"]
  | .archiso, name => ["etc", "archiso", "configs", name]
  | .liveBuild, name => ["etc", "live-build", name]

/-- The node that discovery looks for below a profile's path. -/
def marker (backend : Backend) (path : Path) : List Path :=
  match backend with
  | .archiso => [path ++ ["profiledef.sh"]]
  | .liveBuild => [path ++ ["config"]]
  | _ => []

/-- The nodes by which discovery finds a profile that was made. -/
def Backed (disk : Disk) (name : String) : Backend → Prop
  | .mkosi => False
  | .vmdb2 => name ≠ "" ∧ disk.isDir ["etc", "vmdb2"] ∧ disk.isFile ["etc", "vmdb2", name ++ ".yaml"]
  | .archiso => disk.isDir ["etc", "archiso", "configs"] ∧
      disk.isDir ["etc", "archiso", "configs", name] ∧
      disk.isFile ["etc", "archiso", "configs", name, "profiledef.sh"]
  | .liveBuild => disk.isDir ["etc", "live-build"] ∧ disk.isDir ["etc", "live-build", name] ∧
      disk.isDir ["etc", "live-build", name, "config"]

theorem stem_yaml {name : String} (some : name ≠ "") : stem (name ++ ".yaml") = name := by
  have reversed : (name ++ ".yaml").toList.reverse =
      ['l', 'm', 'a', 'y', '.'] ++ name.toList.reverse := by simp
  cases before : name.toList.reverse with
  | nil => exact absurd (by simpa using before) some
  | cons c rest =>
    have whole : (c :: rest).reverse = name.toList := by rw [← before, List.reverse_reverse]
    have suffix : (['l', 'm', 'a', 'y', '.'] ++ c :: rest).takeWhile (· ≠ '.') =
        ['l', 'm', 'a', 'y'] := by simp
    have stemmed : (['l', 'm', 'a', 'y', '.'] ++ c :: rest).dropWhile (· ≠ '.') =
        '.' :: c :: rest := by simp
    rw [stem, reversed, before, List.span_eq_takeWhile_dropWhile, suffix, stemmed]
    simp only [whole, String.ofList_toList]

theorem Backed.listed {disk : Disk} {name : String} {backend : Backend}
    (backed : Backed disk name backend) (home : Path) :
    Listed disk home ⟨name, madePath backend name, backend⟩ := by
  cases backend with
  | mkosi => exact backed.elim
  | vmdb2 =>
    obtain ⟨nonempty, there, file⟩ := backed
    have spec := @Listed.spec disk home ["etc", "vmdb2"] ".yaml" (name ++ ".yaml")
      (by simp [VMDB2_DIRS]) (by simp) there (by simp [Disk.exists, file]) (by simp)
    rwa [stem_yaml nonempty] at spec
  | archiso =>
    obtain ⟨there, node, file⟩ := backed
    exact .archiso (d := ["etc", "archiso", "configs"]) (by simp [ARCHISO_DIRS]) there node file
  | liveBuild =>
    obtain ⟨there, node, config⟩ := backed
    exact .liveBuild (d := ["etc", "live-build"]) (by simp [LIVE_BUILD_DIRS]) there node config

theorem Backed.mono {less more : Disk} (within : less.Within more) {name : String}
    {backend : Backend} (backed : Backed less name backend) : Backed more name backend := by
  cases backend with
  | mkosi => exact backed
  | vmdb2 => exact ⟨backed.1, within.2 _ backed.2.1, within.1 _ backed.2.2⟩
  | archiso => exact ⟨within.2 _ backed.1, within.2 _ backed.2.1, within.1 _ backed.2.2⟩
  | liveBuild => exact ⟨within.2 _ backed.1, within.2 _ backed.2.1, within.2 _ backed.2.2⟩

/-- The root of a made profile, the profile, and its marker. -/
def support (backend : Backend) (name : String) : List Path :=
  (madePath backend name).dropLast :: madePath backend name ::
    marker backend (madePath backend name)

theorem Backed.remove {disk : Disk} {gone : Path → Bool} {name : String} {backend : Backend}
    (stays : ∀ path ∈ support backend name, gone path = false)
    (backed : Backed disk name backend) : Backed (disk.remove gone) name backend := by
  cases backend with
  | mkosi => exact backed
  | vmdb2 =>
    simp only [support, madePath, marker, List.forall_mem_cons] at stays
    exact ⟨backed.1, (isDir_remove stays.1).trans backed.2.1,
      (isFile_remove stays.2.1).trans backed.2.2⟩
  | archiso =>
    simp only [support, madePath, marker, List.forall_mem_cons] at stays
    exact ⟨(isDir_remove stays.1).trans backed.1, (isDir_remove stays.2.1).trans backed.2.1,
      (isFile_remove stays.2.2.1).trans backed.2.2⟩
  | liveBuild =>
    simp only [support, madePath, marker, List.forall_mem_cons] at stays
    exact ⟨(isDir_remove stays.1).trans backed.1, (isDir_remove stays.2.1).trans backed.2.1,
      (isDir_remove stays.2.2.1).trans backed.2.2⟩

/-- The config directories of a user are beside everything that is made. -/
theorem home_apart (home : Path) {tool x : String} {rest : List String} {name : String}
    {backend : Backend} (other : backend ≠ .mkosi) {path : Path}
    (member : path ∈ support backend name) :
    ¬ home ++ [".config", tool] ++ x :: rest <+: path := by
  have short : ∀ {a b c d e : String}, a ≠ ".config" → b ≠ ".config" → (path = [a, b] ∨
      path = [a, b, c] ∨ path = [a, b, c, d] ∨ c ≠ ".config" ∧ path = [a, b, c, d, e]) →
      ¬ home ++ [".config", tool] ++ x :: rest <+: path := by
    intro a b c d e first second shape above
    have length := above.length_le
    rcases home with _ | ⟨h, _ | ⟨h', _ | ⟨h'', home⟩⟩⟩ <;>
      rcases shape with rfl | rfl | rfl | ⟨third, rfl⟩ <;>
      simp_all [List.cons_prefix_cons, eq_comm] <;> omega
  cases backend with
  | mkosi => exact absurd rfl other
  | vmdb2 =>
    simp only [support, madePath, marker, List.mem_cons, List.not_mem_nil, or_false] at member
    rcases member with rfl | rfl
    · exact @short "etc" "vmdb2" "" "" "" (by decide) (by decide) (.inl rfl)
    · exact @short "etc" "vmdb2" _ "" "" (by decide) (by decide) (.inr (.inl rfl))
  | archiso =>
    simp only [support, madePath, marker, List.mem_cons, List.not_mem_nil, or_false] at member
    rcases member with rfl | rfl | rfl
    · exact @short "etc" "archiso" "configs" "" "" (by decide) (by decide) (.inr (.inl rfl))
    · exact @short "etc" "archiso" "configs" _ "" (by decide) (by decide) (.inr (.inr (.inl rfl)))
    · exact @short "etc" "archiso" "configs" _ _ (by decide) (by decide)
        (.inr (.inr (.inr ⟨by decide, rfl⟩)))
  | liveBuild =>
    simp only [support, madePath, marker, List.mem_cons, List.not_mem_nil, or_false] at member
    rcases member with rfl | rfl | rfl
    · exact @short "etc" "live-build" "" "" "" (by decide) (by decide) (.inl rfl)
    · exact @short "etc" "live-build" _ "" "" (by decide) (by decide) (.inr (.inl rfl))
    · exact @short "etc" "live-build" _ _ "" (by decide) (by decide) (.inr (.inr (.inl rfl)))

/-- The directory of a backend below `/etc`. -/
def ownDirectory : Backend → String
  | .mkosi => "mkosi"
  | .vmdb2 => "vmdb2"
  | .archiso => "archiso"
  | .liveBuild => "live-build"

theorem elsewhere {name : String} {backend : Backend} {path : Path}
    (member : path ∈ support backend name) {first second : String} {rest : List String}
    (apart : first ≠ "etc" ∨ second ≠ ownDirectory backend) : ¬ first :: second :: rest <+: path := by
  have head : ∃ rest, path = "etc" :: ownDirectory backend :: rest := by
    cases backend <;> simp only [support, madePath, marker, List.mem_cons, List.not_mem_nil,
      or_false, List.dropLast] at member <;> rcases member with rfl | rfl | rfl <;> exact ⟨_, rfl⟩
  obtain ⟨rest', rfl⟩ := head
  intro above
  simp only [List.cons_prefix_cons] at above
  exact apart.elim (· above.1) (· above.2.1)

/-- A discovered path at or above a node of a made profile is that profile's. -/
theorem Listed.own {disk : Disk} {home : Path} {p : Profile} (listed : Listed disk home p)
    {name : String} {backend : Backend} (other : backend ≠ .mkosi) (nonempty : name ≠ "")
    {path : Path} (member : path ∈ support backend name) (above : p.path <+: path) :
    p = ⟨name, madePath backend name, backend⟩ ∧ path ≠ (madePath backend name).dropLast := by
  have apart := fun tool x rest => @home_apart home tool x rest name backend other path member
  cases listed with
  | root dir there file =>
    simp only [MKOSI_DIRS, List.mem_cons, List.not_mem_nil, or_false] at dir
    rcases dir with rfl | rfl | rfl | rfl
    · exact absurd above (elsewhere member (.inr (by cases backend <;> simp_all [ownDirectory])))
    · exact absurd above (elsewhere member (.inr (by cases backend <;> simp_all [ownDirectory])))
    · exact absurd above (elsewhere member (.inl (by decide)))
    · exact absurd above (apart _ _ _)
  | entry dir there kind inside node ending =>
    simp only [MKOSI_DIRS, List.mem_cons, List.not_mem_nil, or_false] at dir
    rcases dir with rfl | rfl | rfl | rfl
    · exact absurd above (elsewhere member (.inr (by cases backend <;> simp_all [ownDirectory])))
    · exact absurd above (elsewhere member (.inr (by cases backend <;> simp_all [ownDirectory])))
    · exact absurd above (elsewhere member (.inl (by decide)))
    · exact absurd (by simpa using above) (apart _ _ [_])
  | spec dir kind there node ending =>
    simp only [VMDB2_DIRS, List.mem_cons, List.not_mem_nil, or_false] at dir
    rcases dir with rfl | rfl | rfl
    · cases backend with
      | vmdb2 =>
        simp only [support, madePath, marker, List.mem_cons, List.not_mem_nil, or_false] at member
        rcases member with rfl | rfl
        · simp at above
        · obtain rfl : _ = name ++ ".yaml" := by simpa using above
          exact ⟨by simp [madePath, stem_yaml nonempty], by simp [madePath]⟩
      | mkosi => exact absurd rfl other
      | _ => exact absurd above (elsewhere member (.inr (by decide)))
    · exact absurd above (elsewhere member (.inl (by decide)))
    · exact absurd above (apart _ _ _)
  | archiso dir there node marked =>
    simp only [ARCHISO_DIRS, List.mem_cons, List.not_mem_nil, or_false] at dir
    rcases dir with rfl | rfl
    · exact absurd above (elsewhere member (.inl (by decide)))
    · cases backend with
      | archiso =>
        simp only [support, madePath, marker, List.mem_cons, List.not_mem_nil, or_false] at member
        rcases member with rfl | rfl | rfl
        · simp at above
        · obtain rfl : _ = name := by simpa using above
          exact ⟨rfl, by simp [madePath]⟩
        · obtain rfl : _ = name := by simpa using above
          exact ⟨rfl, by simp [madePath]⟩
      | mkosi => exact absurd rfl other
      | _ => exact absurd above (elsewhere member (.inr (by decide)))
  | liveBuild dir there node marked =>
    simp only [LIVE_BUILD_DIRS, List.mem_cons, List.not_mem_nil, or_false] at dir
    rcases dir with rfl | rfl | rfl
    · cases backend with
      | liveBuild =>
        simp only [support, madePath, marker, List.mem_cons, List.not_mem_nil, or_false] at member
        rcases member with rfl | rfl | rfl
        · simp at above
        · obtain rfl : _ = name := by simpa using above
          exact ⟨rfl, by simp [madePath]⟩
        · obtain rfl : _ = name := by simpa using above
          exact ⟨rfl, by simp [madePath]⟩
      | mkosi => exact absurd rfl other
      | _ => exact absurd above (elsewhere member (.inr (by decide)))
    · exact absurd above (elsewhere member (.inl (by decide)))
    · exact absurd above (apart _ _ _)

/-! ### A history -/

/-- A profile is found by its name where no other that is discovered has it. -/
def Found (disk : Disk) (home : Path) (p : Profile) : Prop :=
  p ∈ profiles disk home ∧
    ((∀ q ∈ profiles disk home, q.name = p.name → q = p) →
      (profiles disk home).find? (·.name = p.name) = some p)

/-- What was made and not deleted since is discovered, and what was deleted is not. -/
structure Faithful (home : Path) (history : History) : Prop where
  made : ∀ name backend, (name, backend) ∈ history.made →
    ∃ p, Found history.disk home p ∧ p.name = name ∧ p.backend = backend
  deleted : ∀ name, history.deleted = some name → ∀ p ∈ profiles history.disk home, p.name ≠ name

/-- A delete comes to its removal. -/
def Removes (disk : Disk) (home : Path) (name : String) (force : Bool) (p : Profile) : Prop :=
  (profiles disk home).find? (·.name = name) = some p ∧ ¬ ["usr", "share"] <+: p.path ∧
    (disk.isFile p.path ∨ disk.isDir p.path ∧ force)

/-- No profile of mkosi is made, and none is copied onto the root of its backend; the name that is
deleted is that of one profile, and a removal that fails has left the profile and its marker. -/
def Allowed (home : Path) (history : History) : Call → Prop
  | .create name backendId rejected a =>
    backendId = "mkosi" → validId name → rejected = false → a.completes →
      history.disk.exists (madePath .mkosi name) ∨
        (madePath .mkosi name).dropLast.inits.any history.disk.isFile
  | .copy _ newName _ _ a => newName = "" → a.completes →
      history.disk.exists ARCHISO_COPY_DEST ∧ history.disk.exists LIVE_BUILD_COPY_DEST
  | .delete name force a => ∀ p, Removes history.disk home name force p →
      if a.completes then ∀ q ∈ profiles history.disk home, q.name = name → q = p
      else history.disk.isFile p.path ∨ ∀ node ∈ p.path :: marker p.backend p.path, a.kept node

/-- Every profile that was made stands. -/
def Standing (history : History) : Prop :=
  ∀ name backend, (name, backend) ∈ history.made → name ≠ "" ∧ Backed history.disk name backend

theorem find_unique {disk : Disk} {home : Path} {p : Profile} (member : p ∈ profiles disk home) :
    Found disk home p := by
  refine ⟨member, fun unique => ?_⟩
  cases found : (profiles disk home).find? (·.name = p.name) with
  | none =>
    have missing := List.find?_eq_none.mp found p member
    simp at missing
  | some q =>
    have name : q.name = p.name := by simpa using List.find?_some found
    rw [unique q (List.mem_of_find?_eq_some found) name]

theorem Standing.found {history : History} (standing : Standing history) (home : Path)
    {name : String} {backend : Backend} (member : (name, backend) ∈ history.made) :
    ∃ p, Found history.disk home p ∧ p.name = name ∧ p.backend = backend := by
  have listed := (standing name backend member).2.listed home
  exact ⟨_, find_unique (mem_profiles.mpr listed), rfl, rfl⟩

/-! ### What a command does -/

theorem scaffold_cases (disk : Disk) (a : Attempt) (backend : Backend) (directory : Path)
    (file : String) :
    scaffold disk a backend directory file = (disk, .error) ∨
      disk.exists (directory ++ [file]) = false ∧ directory.inits.any disk.isFile = false ∧
        scaffold disk a backend directory file =
          (disk.add (a.done [directory ++ [file]]) (a.done directory.inits),
            if a.completes then .created backend else .error) := by
  unfold scaffold
  split
  · exact .inl rfl
  · next clear =>
    split
    · exact .inl rfl
    · next absent => exact .inr ⟨by simpa using absent, by simpa using clear, rfl⟩

theorem profileCreate_cases (disk : Disk) (name backendId : String) (rejected : Bool) (a : Attempt) :
    profileCreate disk name backendId rejected a = (disk, .error) ∨
      validId name ∧ rejected = false ∧
        (backendId = "mkosi" ∧ profileCreate disk name backendId rejected a =
            scaffold disk a .mkosi ["etc", "mkosi", "profiles", name] "mkosi.conf" ∨
          backendId = "vmdb2" ∧ profileCreate disk name backendId rejected a =
            scaffold disk a .vmdb2 ["etc", "vmdb2"] (name ++ ".yaml")) := by
  unfold profileCreate
  by_cases valid : validId name
  · cases rejected with
    | true => exact .inl (by simp [valid])
    | false =>
      by_cases mkosi : backendId = "mkosi"
      · exact .inr ⟨valid, rfl, .inl ⟨mkosi, by simp [valid, mkosi]⟩⟩
      · by_cases vmdb2 : backendId = "vmdb2"
        · exact .inr ⟨valid, rfl, .inr ⟨vmdb2, by simp [valid, vmdb2]⟩⟩
        · exact .inl (by simp [valid, mkosi, vmdb2])
  · exact .inl (by simp [valid])

theorem profileCopy_cases (disk : Disk) (home : Path) (srcName newName : String)
    (hint : Option String) (rejected : Bool) (a : Attempt) :
    profileCopy disk home srcName newName hint rejected a = (disk, .error) ∨
      ∃ source root, source ∈ profiles disk home ∧ copyDest source.backend = some root ∧
        disk.exists (under root newName) = false ∧
        profileCopy disk home srcName newName hint rejected a =
          (disk.add (a.done (copied source.path (under root newName) disk.files))
              (a.done ((under root newName).dropLast.inits ++
                copied source.path (under root newName) disk.directories)),
            if a.completes then .copied source.backend else .error) := by
  unfold profileCopy
  split
  · exact .inl rfl
  · split
    · exact .inl rfl
    · split
      · exact .inl rfl
      · next source found =>
        split
        · exact .inl rfl
        · next root copyable =>
          dsimp only
          split
          · exact .inl rfl
          · split
            · exact .inl rfl
            · next absent =>
              split
              · exact .inl rfl
              · exact .inr ⟨source, root, List.mem_of_find?_eq_some found, copyable,
                  by simpa using absent, rfl⟩

/-- A delete that comes to no removal leaves the disk; a removal takes the profile and what is
below it, or stops on the way. -/
theorem profileDelete_cases (disk : Disk) (home : Path) (name : String) (force : Bool) (a : Attempt) :
    profileDelete disk home name force a = (disk, .error) ∨
      ∃ p gone, Removes disk home name force p ∧ (∀ path, gone path → p.path <+: path) ∧
        (a.completes ∧ gone p.path ∧
            profileDelete disk home name force a = (disk.remove gone, .deleted) ∨
          a.completes = false ∧ disk.isFile p.path = false ∧ (∀ path, gone path → !a.kept path) ∧
            profileDelete disk home name force a = (disk.remove gone, .error)) := by
  unfold profileDelete
  split
  · exact .inl rfl
  · next p found =>
    split
    · exact .inl rfl
    · next own =>
      rw [List.isPrefixOf_iff_prefix] at own
      split
      · next file =>
        cases completes : a.completes with
        | false => exact .inl (by simp)
        | true =>
          refine .inr ⟨p, (· = p.path), ⟨found, own, .inl file⟩, ?_, .inl ⟨rfl, by simp, by simp⟩⟩
          intro path same
          simp only [decide_eq_true_eq] at same
          rw [same]
      · next noFile =>
        split
        · next directory =>
          cases force with
          | false => exact .inl rfl
          | true =>
            cases completes : a.completes with
            | true =>
              exact .inr ⟨p, p.path.isPrefixOf, ⟨found, own, .inr ⟨directory, rfl⟩⟩,
                fun path => List.isPrefixOf_iff_prefix.mp, .inl ⟨rfl, by simp, by simp⟩⟩
            | false =>
              refine .inr ⟨p, fun path => p.path.isPrefixOf path && !a.kept path,
                ⟨found, own, .inr ⟨directory, rfl⟩⟩, ?_,
                .inr ⟨rfl, by simpa using noFile, ?_, by simp⟩⟩
              · intro path taken
                exact List.isPrefixOf_iff_prefix.mp (Bool.and_eq_true_iff.mp taken).1
              · intro path taken
                exact (Bool.and_eq_true_iff.mp taken).2
        · exact .inl rfl

/-! ### One command -/

theorem Disk.Within.refl (disk : Disk) : disk.Within disk := ⟨fun _ => id, fun _ => id⟩

theorem profileCreate_within (disk : Disk) (name backendId : String) (rejected : Bool) (a : Attempt) :
    disk.Within (profileCreate disk name backendId rejected a).1 := by
  have scaffolded : ∀ backend directory file,
      disk.Within (scaffold disk a backend directory file).1 := by
    intro backend directory file
    rcases scaffold_cases disk a backend directory file with same | ⟨-, -, same⟩ <;> rw [same]
    · exact .refl disk
    · exact within_add disk _ _
  rcases profileCreate_cases disk name backendId rejected a with
    same | ⟨-, -, ⟨-, same⟩ | ⟨-, same⟩⟩ <;> rw [same]
  · exact .refl disk
  · exact scaffolded _ _ _
  · exact scaffolded _ _ _

theorem profileCopy_within (disk : Disk) (home : Path) (srcName newName : String)
    (hint : Option String) (rejected : Bool) (a : Attempt) :
    disk.Within (profileCopy disk home srcName newName hint rejected a).1 := by
  rcases profileCopy_cases disk home srcName newName hint rejected a with
    same | ⟨_, _, _, _, _, same⟩ <;> rw [same]
  · exact .refl disk
  · exact within_add disk _ _

/-- What `profile-create` answers, and that it made the profile. -/
theorem profileCreate_made {home : Path} {history : History} {name backendId : String}
    {rejected : Bool} {a : Attempt}
    (allowed : Allowed home history (.create name backendId rejected a)) :
    (profileCreate history.disk name backendId rejected a).2 = .error ∨
      ∃ backend, (profileCreate history.disk name backendId rejected a).2 = .created backend ∧
        name ≠ "" ∧ Backed (profileCreate history.disk name backendId rejected a).1 name backend := by
  rcases profileCreate_cases history.disk name backendId rejected a with
    same | ⟨valid, readable, ⟨mkosi, same⟩ | ⟨-, same⟩⟩
  · exact .inl (by rw [same])
  · rcases scaffold_cases history.disk a .mkosi ["etc", "mkosi", "profiles", name] "mkosi.conf" with
      refused | ⟨absent, clear, made⟩
    · exact .inl (by rw [same, refused])
    · cases completes : a.completes with
      | false => exact .inl (by simp [same, made, completes])
      | true =>
        rcases allowed mkosi valid readable completes with taken | blocked
        · exact absurd taken (by simpa [madePath] using absent)
        · exact absurd blocked (by rw [Bool.not_eq_true]; exact clear)
  · rcases scaffold_cases history.disk a .vmdb2 ["etc", "vmdb2"] (name ++ ".yaml") with
      refused | ⟨-, -, made⟩
    · exact .inl (by rw [same, refused])
    · cases completes : a.completes with
      | false => exact .inl (by simp [same, made, completes])
      | true =>
        have nonempty : name ≠ "" := by
          rintro rfl
          exact absurd valid (by decide)
        refine .inr ⟨.vmdb2, by simp [same, made, completes], nonempty, nonempty, ?_, ?_⟩
        · simp [same, made, Disk.isDir, Disk.add, Attempt.done, completes]
        · simp [same, made, Disk.isFile, Disk.add, Attempt.done, completes]

theorem mem_copied {source dest rest : Path} {nodes : List Path}
    (member : source ++ rest ∈ nodes) : dest ++ rest ∈ copied source dest nodes := by
  refine List.mem_filterMap.mpr ⟨source ++ rest, member, ?_⟩
  simp

/-- The marker of a profile is copied with it. -/
theorem backed_of_copy {disk : Disk} {home : Path} {source : Profile} {root : Path}
    (listed : Listed disk home source) (copyable : copyDest source.backend = some root)
    (name : String) :
    Backed (disk.add (copied source.path (root ++ [name]) disk.files)
      ((root ++ [name]).dropLast.inits ++
        copied source.path (root ++ [name]) disk.directories)) name source.backend := by
  cases listed with
  | root => cases copyable
  | entry => cases copyable
  | spec => cases copyable
  | @archiso d child dir there node marked =>
    obtain rfl : ["etc", "archiso", "configs"] = root := Option.some.inj copyable
    simp only [Disk.isDir, Disk.isFile, List.contains_eq_mem, decide_eq_true_eq] at node marked
    have copiedNode := @mem_copied (d ++ [child]) ["etc", "archiso", "configs", name] [] _
      (by simpa using node)
    have copiedMarker := @mem_copied (d ++ [child]) ["etc", "archiso", "configs", name]
      ["profiledef.sh"] _ marked
    refine ⟨?_, ?_, ?_⟩
    · simp [Disk.isDir, Disk.add]
    · simpa [Disk.isDir, Disk.add] using .inr copiedNode
    · simpa [Disk.isFile, Disk.add] using .inr copiedMarker
  | @liveBuild d child dir there node marked =>
    obtain rfl : ["etc", "live-build"] = root := Option.some.inj copyable
    simp only [Disk.isDir, List.contains_eq_mem, decide_eq_true_eq] at node marked
    have copiedNode := @mem_copied (d ++ [child]) ["etc", "live-build", name] [] _
      (by simpa using node)
    have copiedMarker := @mem_copied (d ++ [child]) ["etc", "live-build", name] ["config"] _ marked
    refine ⟨?_, ?_, ?_⟩
    · simp [Disk.isDir, Disk.add]
    · simpa [Disk.isDir, Disk.add] using .inr copiedNode
    · simpa [Disk.isDir, Disk.add] using .inr copiedMarker

/-- What `profile-copy` answers, and that it made the profile. -/
theorem profileCopy_made {history : History} {home : Path} {srcName newName : String}
    {hint : Option String} {rejected : Bool} {a : Attempt}
    (allowed : Allowed home history (.copy srcName newName hint rejected a)) :
    (profileCopy history.disk home srcName newName hint rejected a).2 = .error ∨
      ∃ backend, (profileCopy history.disk home srcName newName hint rejected a).2 = .copied backend ∧
        newName ≠ "" ∧
        Backed (profileCopy history.disk home srcName newName hint rejected a).1 newName backend := by
  rcases profileCopy_cases history.disk home srcName newName hint rejected a with
    same | ⟨source, root, member, copyable, absent, same⟩
  · exact .inl (by rw [same])
  · cases completes : a.completes with
    | false => exact .inl (by simp [same, completes])
    | true =>
      have nonempty : newName ≠ "" := by
        intro empty
        obtain ⟨archiso, liveBuild⟩ := allowed empty completes
        rw [under, if_pos empty] at absent
        cases backend : source.backend <;> simp [copyDest, backend] at copyable <;>
          subst copyable <;> simp_all
      refine .inr ⟨source.backend, by simp [same, completes], nonempty, ?_⟩
      have backed := backed_of_copy (mem_profiles.mp member) copyable newName
      simpa [same, completes, Attempt.done, under, nonempty] using backed

/-- A removal that is allowed takes no node of another made profile. -/
theorem backed_of_remove {disk : Disk} {home : Path} {name : String} {force : Bool} {p : Profile}
    (removes : Removes disk home name force p) {gone : Path → Bool}
    (below : ∀ path, gone path → p.path <+: path) {other : String} {backend : Backend}
    (nonempty : other ≠ "") (backed : Backed disk other backend)
    (spared : other = name → ∀ node ∈ p.path :: marker p.backend p.path, gone node = false) :
    Backed (disk.remove gone) other backend := by
  have made : backend ≠ .mkosi := by
    rintro rfl
    exact backed
  have listed := mem_profiles.mp (List.mem_of_find?_eq_some removes.1)
  have named : p.name = name := by simpa using List.find?_some removes.1
  refine backed.remove fun path member => ?_
  by_contra taken
  rw [Bool.not_eq_false] at taken
  obtain ⟨own, notRoot⟩ := listed.own made nonempty member (below path taken)
  have same : other = name := by rw [← named, own]
  have kept := spared same path (by simpa [support, own, notRoot] using member)
  rw [kept] at taken
  cases taken

theorem standing_step {home : Path} {history : History} (standing : Standing history) {call : Call}
    (allowed : Allowed home history call) : Standing (step home history call) := by
  cases call with
  | create name backendId rejected a =>
    have within := profileCreate_within history.disk name backendId rejected a
    have kept : ∀ other backend, (other, backend) ∈ history.made → other ≠ "" ∧
        Backed (profileCreate history.disk name backendId rejected a).1 other backend :=
      fun other backend member =>
        (standing other backend member).imp_right fun backed => backed.mono within
    rcases profileCreate_made allowed with refused | ⟨made, created, nonempty, backed⟩
    · simpa [Standing, step, perform, refused] using kept
    · simp only [Standing, step, perform, created, Call.name]
      intro other backend member
      rcases List.mem_cons.mp member with same | earlier
      · obtain ⟨rfl, rfl⟩ := Prod.mk.inj same
        exact ⟨nonempty, backed⟩
      · exact kept other backend earlier
  | copy srcName newName hint rejected a =>
    have within := profileCopy_within history.disk home srcName newName hint rejected a
    have kept : ∀ other backend, (other, backend) ∈ history.made → other ≠ "" ∧
        Backed (profileCopy history.disk home srcName newName hint rejected a).1 other backend :=
      fun other backend member =>
        (standing other backend member).imp_right fun backed => backed.mono within
    rcases profileCopy_made allowed with refused | ⟨made, copied, nonempty, backed⟩
    · simpa [Standing, step, perform, refused] using kept
    · simp only [Standing, step, perform, copied, Call.name]
      intro other backend member
      rcases List.mem_cons.mp member with same | earlier
      · obtain ⟨rfl, rfl⟩ := Prod.mk.inj same
        exact ⟨nonempty, backed⟩
      · exact kept other backend earlier
  | delete name force a =>
    rcases profileDelete_cases history.disk home name force a with
      same | ⟨p, gone, removes, below, ⟨completes, taken, same⟩ | ⟨stops, noFile, spared, same⟩⟩
    · simpa [Standing, step, perform, same] using standing
    · simp only [Standing, step, perform, same, Call.name]
      intro other backend member
      obtain ⟨earlier, different⟩ := List.mem_filter.mp member
      obtain ⟨nonempty, backed⟩ := standing other backend earlier
      exact ⟨nonempty, backed_of_remove removes below nonempty backed
        fun same => absurd same (of_decide_eq_true different)⟩
    · simp only [Standing, step, perform, same]
      intro other backend member
      obtain ⟨nonempty, backed⟩ := standing other backend member
      refine ⟨nonempty, backed_of_remove removes below nonempty backed fun _ node member => ?_⟩
      have kept := allowed p removes
      rw [stops, if_neg Bool.false_ne_true] at kept
      rcases kept with file | kept
      · exact absurd file (by simp [noFile])
      · by_contra taken
        have lost := spared node (by simpa using taken)
        simp [kept node member] at lost

/-- What a delete has removed is discovered no more. -/
theorem deleted_step {home : Path} {history : History} {call : Call}
    (allowed : Allowed home history call) {name : String}
    (deleted : (step home history call).deleted = some name) :
    ∀ p ∈ profiles (step home history call).disk home, p.name ≠ name := by
  cases call with
  | create created backendId rejected a =>
    rcases profileCreate_made allowed with answer | ⟨made, answer, -⟩ <;>
      simp [step, perform, answer] at deleted
  | copy srcName newName hint rejected a =>
    rcases profileCopy_made allowed with answer | ⟨made, answer, -⟩ <;>
      simp [step, perform, answer] at deleted
  | delete removed force a =>
    rcases profileDelete_cases history.disk home removed force a with
      same | ⟨p, gone, removes, below, ⟨completes, taken, same⟩ | ⟨stops, noFile, spared, same⟩⟩
    · simp [step, perform, same] at deleted
    · simp only [step, perform, same, Call.name, Option.some.injEq] at deleted ⊢
      subst deleted
      intro q member named
      have after := mem_profiles.mp member
      have before := mem_profiles.mpr (after.mono (remove_within history.disk gone))
      have unique := allowed p removes
      rw [if_pos completes] at unique
      have node := after.exists
      rw [unique q before named, not_exists_remove taken] at node
      cases node
    · simp [step, perform, same] at deleted

end SysDeck.Cockpit.Profiles
