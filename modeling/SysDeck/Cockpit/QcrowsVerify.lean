import SysDeck.Cockpit.Qcrows

/-! What the answer to a verification says about an image, where no two contents have one hash. -/

namespace SysDeck.Cockpit.Qcrows

/-! ### The member that a name stands for -/

/-- The last regular member with the name. -/
def lookup (members : List Member) (name : Name) : Option Member :=
  members.reverse.find? fun member => member.isfile && normalName member.name = name

theorem lookup_cons (member : Member) (members : List Member) (name : Name) :
    lookup (member :: members) name = (lookup members name).or
      (if member.isfile && normalName member.name = name then some member else none) := by
  rw [lookup, List.reverse_cons, List.find?_append, List.find?_cons, List.find?_nil, lookup]
  cases member.isfile && decide (normalName member.name = name) <;> rfl

theorem find?_foldl_addMember (members : List Member) (names : OrderedMap Name Member) (name : Name) :
    (members.foldl addMember names).find? name = (lookup members name).or (names.find? name) := by
  induction members generalizing names with
  | nil => rfl
  | cons member members ih =>
    rw [List.foldl_cons, ih, lookup_cons, Option.or_assoc]
    congr 1
    unfold addMember
    by_cases file : member.isfile
    · rw [if_pos file, OrderedMap.find?_set]
      by_cases same : normalName member.name = name
      · simp [file, same]
      · simp [same, Ne.symm same]
    · simp [file]

theorem find?_memberNames {members : List Member} {names : OrderedMap Name Member}
    (read : memberNames members = .ok names) (name : Name) : names.find? name = lookup members name := by
  unfold memberNames at read
  split at read
  · cases read
  · obtain rfl := Except.ok.inj read
    rw [find?_foldl_addMember]
    cases lookup members name <;> rfl

/-- A regular member that is the last of its name. -/
theorem lookup_split {before after : List Member} {member : Member} (file : member.isfile)
    (last : ∀ later ∈ after, later.isfile → normalName later.name ≠ normalName member.name) :
    lookup (before ++ member :: after) (normalName member.name) = some member := by
  have none : lookup after (normalName member.name) = none := by
    rw [lookup, List.find?_eq_none]
    intro later member
    have differ := last later (List.mem_reverse.mp member)
    simp only [Bool.and_eq_true, decide_eq_true_eq, not_and]
    exact differ
  rw [lookup, List.reverse_append, List.reverse_cons, List.find?_append, List.find?_append]
  change (((lookup after _).or _).or _) = _
  rw [none, List.find?_cons_of_pos (by simp [file])]
  rfl

/-- The other names stand for what they stood for. -/
theorem lookup_of_ne {before after : List Member} {member other : Member} {name : Name}
    (same : other.name = member.name) (differ : normalName member.name ≠ name) :
    lookup (before ++ other :: after) name = lookup (before ++ member :: after) name := by
  have skipped : ∀ m : Member, m.name = member.name →
      List.find? (fun member => member.isfile && normalName member.name = name) [m] = none := by
    intro m named
    rw [List.find?_eq_none]
    intro m' only
    obtain rfl := List.mem_singleton.mp only
    simp [named, differ]
  simp only [lookup, List.reverse_append, List.reverse_cons, List.find?_append, skipped other same,
    skipped member rfl]

/-! ### What an answer says -/

theorem ok_answerOf {checks : List Check} {missing : List String} {noInitrd : Bool} :
    (answerOf checks missing noInitrd).ok = true ↔ ∀ check ∈ checks, check.passed := by
  have whole : checks.countP (·.passed) = checks.length ↔ ∀ check ∈ checks, check.passed :=
    List.countP_eq_length
  have most : checks.countP (·.passed) ≤ checks.length := List.countP_le_length
  rw [← whole]
  simp only [answerOf, decide_eq_true_eq]
  omega

theorem bind_eq_ok {α β : Type} {first : Except Failure α} {next : α → Except Failure β} {result : β}
    (done : (first >>= next) = .ok result) : ∃ value, first = .ok value ∧ next value = .ok result := by
  cases first with
  | error failure => cases done
  | ok value => exact ⟨value, rfl, done⟩

variable {sha256 : List Byte → List Char} {members : List Member}

/-- The answer is ok. -/
def Accepts (sha256 : List Byte → List Char) (members : List Member) : Prop :=
  (cmdQcrowsVerify sha256 (.archive members)).ok
  deriving Decidable

/-- The text of the list of hashes. -/
def listText (members : List Member) : Option (List Char) :=
  (lookup members (nameOf "hashes.sha256".toList)).map fun list => Utf8.decode list.content

theorem accepts_checks (accepts : Accepts sha256 members) :
    ∃ names, memberNames members = .ok names ∧ (∀ check ∈ requiredChecks names, check.passed) ∧
      (rootfsCheck names).passed ∧ (kernelCheck names).passed ∧
      ∃ hashes, hashCheck sha256 names = .ok hashes ∧ hashes.passed := by
  obtain ⟨answer, done, ok⟩ : ∃ answer, verify sha256 members = .ok answer ∧ answer.ok := by
    rw [Accepts, cmdQcrowsVerify] at accepts
    cases verified : verify sha256 members with
    | ok answer =>
      rw [verified] at accepts
      exact ⟨answer, rfl, accepts⟩
    | error failure =>
      rw [verified] at accepts
      cases failure <;> cases accepts
  obtain ⟨names, read, later⟩ := bind_eq_ok done
  obtain ⟨⟨config, missing⟩, -, later⟩ := bind_eq_ok later
  obtain ⟨metadata, -, later⟩ := bind_eq_ok later
  obtain ⟨hashes, walked, later⟩ := bind_eq_ok later
  obtain rfl := Except.ok.inj later
  rw [ok_answerOf] at ok
  refine ⟨names, read, ?_, ?_, ?_, hashes, walked, ?_⟩
  · exact fun check member => ok check (by simp [member])
  · exact ok _ (by simp)
  · exact ok _ (by simp)
  · exact ok _ (by simp)

theorem lookup_of_required (accepts : Accepts sha256 members) {file : String} (required : file ∈ requiredFiles) :
    (lookup members (nameOf file.toList)).isSome := by
  obtain ⟨names, read, present, -⟩ := accepts_checks accepts
  have found := present ⟨file ++ " present", (find names file).isSome⟩ (List.mem_map.mpr ⟨file, required, rfl⟩)
  rwa [find, find?_memberNames read] at found

/-- A kernel of one of the two names and formats. -/
theorem kernel_of_accepts (accepts : Accepts sha256 members) :
    ∃ file ∈ ["kernel/vmlinuz", "kernel/vmlinux"], ∃ member,
      lookup members (nameOf file.toList) = some member ∧ kernelMagicOk (member.content.take 0x20A) := by
  obtain ⟨names, read, -, -, kernel, -⟩ := accepts_checks accepts
  unfold kernelCheck at kernel
  split at kernel
  · rename_i member found
    obtain ⟨file, listed, present⟩ := List.exists_of_findSome?_eq_some found
    rw [find, find?_memberNames read] at present
    exact ⟨file, listed, member, present, kernel⟩
  · cases kernel

theorem rootfs_of_accepts (accepts : Accepts sha256 members) :
    ∃ member ∈ members, member.isfile ∧ isRootfs (normalName member.name) := by
  obtain ⟨names, read, -, rootfs, -⟩ := accepts_checks accepts
  obtain ⟨name, key, begins⟩ := List.any_eq_true.mp rootfs
  obtain ⟨member, found⟩ := Option.isSome_iff_exists.mp (OrderedMap.find?_isSome_iff.mpr key)
  rw [find?_memberNames read] at found
  have named := List.find?_some found
  rw [Bool.and_eq_true, decide_eq_true_eq] at named
  exact ⟨member, List.mem_reverse.mp (List.mem_of_find?_eq_some found), named.1, named.2 ▸ begins⟩

/-- A line of the list and what it says. -/
def Lists (members : List Member) (expect rel : List Char) : Prop :=
  ∃ text line, listText members = some text ∧ line ∈ entryLines text ∧ entryOf line = some (expect, rel)

/-- Every line has the hash of a member. -/
theorem lines_of_accepts (accepts : Accepts sha256 members) {text line : List Char}
    (read : listText members = some text) (listed : line ∈ entryLines text) :
    ∃ expect rel member, entryOf line = some (expect, rel) ∧ lookup members (nameOf rel) = some member ∧
      sha256 member.content = expect := by
  obtain ⟨names, named, -, -, -, hashes, walked, passed⟩ := accepts_checks accepts
  obtain ⟨list, found, rfl⟩ := Option.map_eq_some_iff.mp read
  rw [hashCheck, find, find?_memberNames named, found] at walked
  obtain ⟨text, opened, later⟩ := bind_eq_ok walked
  obtain rfl := Except.ok.inj later
  obtain rfl : Utf8.decode list.content = text := by
    unfold readText readMember at opened
    split at opened
    · cases opened
    · exact Except.ok.inj opened
  have matched := List.all_eq_true.mp passed line listed
  unfold lineMatches at matched
  split at matched
  · cases matched
  · rename_i expect rel entry
    split at matched
    · cases matched
    · rename_i member present
      rw [find?_memberNames named] at present
      exact ⟨expect, rel, member, entry, present, of_decide_eq_true matched⟩

theorem hash_of_lists (accepts : Accepts sha256 members) {expect rel : List Char}
    (lists : Lists members expect rel) :
    ∃ member, lookup members (nameOf rel) = some member ∧ sha256 member.content = expect := by
  obtain ⟨text, line, read, listed, entry⟩ := lists
  obtain ⟨expect', rel', member, entry', found, same⟩ := lines_of_accepts accepts read listed
  obtain ⟨rfl, rfl⟩ := Prod.mk.inj (Option.some.inj (entry'.symm.trans entry))
  exact ⟨member, found, same⟩

/-- Two images with one list have the same content under each name of the list. -/
theorem content_of_lists (injective : Function.Injective sha256) {others : List Member}
    (accepts : Accepts sha256 members) (accepts' : Accepts sha256 others)
    (same : listText others = listText members) {expect rel : List Char} (lists : Lists members expect rel) :
    (lookup others (nameOf rel)).map (·.content) = (lookup members (nameOf rel)).map (·.content) := by
  obtain ⟨member, found, hash⟩ := hash_of_lists accepts lists
  obtain ⟨text, line, read, listed, entry⟩ := lists
  obtain ⟨other, found', hash'⟩ := hash_of_lists accepts' ⟨text, line, same ▸ read, listed, entry⟩
  rw [found, found', Option.map_some, Option.map_some, injective (hash'.trans hash.symm)]

/-- An image that is accepted has the files of an image, and each entry of its list has the hash of a
member: no other bytes are accepted in the place of a member that is listed. -/
theorem accepted_image_matches_its_list (injective : Function.Injective sha256)
    (accepts : Accepts sha256 members) :
    (∀ file ∈ requiredFiles, (lookup members (nameOf file.toList)).isSome) ∧
    (∃ member ∈ members, member.isfile ∧ isRootfs (normalName member.name)) ∧
    (∃ file ∈ ["kernel/vmlinuz", "kernel/vmlinux"], ∃ member,
      lookup members (nameOf file.toList) = some member ∧ kernelMagicOk (member.content.take 0x20A)) ∧
    (∀ text line, listText members = some text → line ∈ entryLines text → ∃ expect rel member,
      entryOf line = some (expect, rel) ∧ lookup members (nameOf rel) = some member ∧
        sha256 member.content = expect) ∧
    ∀ before member after, members = before ++ member :: after → member.isfile →
      (∀ later ∈ after, later.isfile → normalName later.name ≠ normalName member.name) →
      normalName member.name ≠ nameOf "hashes.sha256".toList →
      ∀ expect rel, Lists members expect rel → nameOf rel = normalName member.name →
        ∀ content, content ≠ member.content → ¬Accepts sha256 (before ++ { member with content } :: after) := by
  refine ⟨fun file => lookup_of_required accepts, rootfs_of_accepts accepts, kernel_of_accepts accepts,
    fun text line => lines_of_accepts accepts, ?_⟩
  rintro before member after rfl file last other expect rel lists same content differ accepts'
  have list : listText (before ++ { member with content } :: after) = listText (before ++ member :: after) :=
    congrArg (Option.map _) (lookup_of_ne rfl other)
  have contents := content_of_lists injective accepts accepts' list lists
  have changed : lookup (before ++ { member with content } :: after) (nameOf rel) =
      some { member with content } := by
    rw [same]
    exact lookup_split file last
  rw [changed, same, lookup_split file last] at contents
  exact differ (Option.some.inj contents)

/-- SHA-256 on two short contents; each other content stands for its own hash. -/
def shortSha256 (content : List Byte) : List Char :=
  if content = [] then "e3b0c44298fc1c149afbf4c8996fb92427ae41e4649b934ca495991b7852b855".toList
  else if content = [0] then "6e340b9cffb37a989ca544e6bb780a2c78901d3fb33738768511a30617afa01d".toList
  else 'x' :: content.map fun byte => Char.ofNat byte.val

def fileOf (name : String) (content : List Byte) : Member := ⟨nameOf name.toList, true, content⟩

theorem head?_shortSha256 (content : List Byte) : (shortSha256 content).head? =
    some (if content = [] then 'e' else if content = [0] then '6' else 'x') := by
  unfold shortSha256
  repeat rw [String.toList_ofList]
  split
  · rfl
  · split <;> rfl

theorem map_ofNat_injective : Function.Injective fun content : List Byte =>
    content.map fun byte => Char.ofNat byte.val := by
  refine List.map_injective_iff.mpr fun byte other same => Fin.ext ?_
  have code : ∀ byte : Byte, (Char.ofNat byte.val).toNat = byte.val := fun byte =>
    Utf16.toNat_ofNat (.inl (Nat.lt_trans byte.isLt (by decide)))
  rw [← code byte, ← code other]
  exact congrArg Char.toNat same

theorem shortSha256_injective : Function.Injective shortSha256 := by
  intro content other same
  have heads := congrArg List.head? same
  rw [head?_shortSha256, head?_shortSha256] at heads
  by_cases nothing : content = []
  · by_cases nothing' : other = []
    · rw [nothing, nothing']
    · by_cases zero : other = [0] <;> simp [nothing, nothing', zero] at heads
  · by_cases nothing' : other = []
    · by_cases zero : content = [0] <;> simp [nothing, nothing', zero] at heads
    · by_cases zero : content = [0]
      · by_cases zero' : other = [0]
        · rw [zero, zero']
        · simp [nothing', zero, zero'] at heads
      · by_cases zero' : other = [0]
        · simp [nothing, zero, zero'] at heads
        · rw [shortSha256, if_neg nothing, if_neg zero, shortSha256, if_neg nothing', if_neg zero'] at same
          exact map_ofNat_injective (List.cons.inj same).2

/-- An image with this list and this root file system. -/
def smallImage (list : String) (rootfs : List Byte) : List Member :=
  [fileOf "./metadata.toml" (Utf8.encode
      "[qcrows]\nformat_version=1\n[image.compatibility]\nhypervisors=[1]".toList),
    fileOf "./menu.toml" [], fileOf "./hashes.sha256" (Utf8.encode list.toList),
    fileOf "./kernel/vmlinux" [0x7F, 0x45, 0x4C, 0x46], fileOf "./kernel/config" [],
    fileOf "./rootfs.tar.gz" rootfs]

def listOfRootfs : String :=
  "e3b0c44298fc1c149afbf4c8996fb92427ae41e4649b934ca495991b7852b855  ./rootfs.tar.gz\n"

theorem a_changed_rootfs_is_refused : ¬Accepts shortSha256 (smallImage listOfRootfs [0]) := by
  have entry : Lists (smallImage listOfRootfs []) (shortSha256 []) "rootfs.tar.gz".toList := by
    refine ⟨listOfRootfs.toList, listOfRootfs.toList.dropLast, ?_, ?_, ?_⟩
    · unfold listText smallImage fileOf listOfRootfs
      repeat rw [String.toList_ofList]
      decide +kernel
    · unfold entryLines Packages.splitlines listOfRootfs
      repeat rw [String.toList_ofList]
      decide +kernel
    · unfold entryOf relative shortSha256 listOfRootfs
      repeat rw [String.toList_ofList]
      decide +kernel
  refine (accepted_image_matches_its_list shortSha256_injective ?_).2.2.2.2
    ((smallImage listOfRootfs []).take 5) (fileOf "./rootfs.tar.gz" []) [] rfl rfl ?_ ?_ _ _ entry ?_ [0] ?_
  · unfold smallImage fileOf listOfRootfs shortSha256 Accepts
    repeat rw [String.toList_ofList]
    decide +kernel
  · exact fun later member => absurd member List.not_mem_nil
  · unfold fileOf
    repeat rw [String.toList_ofList]
    decide +kernel
  · unfold fileOf
    repeat rw [String.toList_ofList]
    decide +kernel
  · exact fun nothing => nomatch nothing

/-- With an empty list no member has a hash. -/
theorem an_empty_list_is_accepted :
    Accepts shortSha256 (smallImage "" []) ∧ ¬∃ expect rel, Lists (smallImage "" []) expect rel := by
  refine ⟨?_, ?_⟩
  · unfold smallImage fileOf shortSha256 Accepts
    repeat rw [String.toList_ofList]
    decide +kernel
  · rintro ⟨expect, rel, text, line, read, listed, -⟩
    have empty : listText (smallImage "" []) = some [] := by decide +kernel
    have none : entryLines [] = [] := by decide +kernel
    rw [← Option.some.inj (empty.symm.trans read), none] at listed
    exact absurd listed List.not_mem_nil

end SysDeck.Cockpit.Qcrows
