import SysDeck.Cockpit.HwAlert

/-! The check of a device's path against the file system of the kernel, where the entries of the bus
directories are links to the devices. -/

namespace SysDeck.Cockpit.HwAlert

open FileTree

/-- How the kernel lays out the buses: no link on the way to a bus directory, and its entries are
links to directories of `/sys/devices`, with no further link on the way. -/
structure Sysfs (host : Host) : Prop where
  bases : ∀ bus : Bus,
    resolve host.tree 0 [] ["sys", "bus", bus.text, "devices"] = some bus.place
  entries : ∀ (bus : Bus) name node, host.tree (name :: bus.place) = some node →
    ∃ target there, node = .link target ∧
      resolve host.tree 0 (target.start bus.place) target.parts = some there ∧
      ["devices", "sys"] <:+ there ∧ host.tree there = some .directory

/-- Neither command answers that the path is invalid. -/
def Accepted (host : Host) (id : String) : Prop :=
  ∀ command ∈ [cmdBlock, cmdUnblock],
    (command host id).map Outcome.result ≠ some .invalidDevicePath

/-- Whatever either command writes is the `authorized` of a device of a bus. -/
def Confined (host : Host) (id : String) : Prop :=
  ∀ command ∈ [cmdBlock, cmdUnblock], ∀ outcome place text, command host id = some outcome →
    outcome.write = some (place, text) →
    ∃ (bus : Bus) (name : String) (target : Path) (there : Location),
      host.tree (name :: bus.place) = some (.link target) ∧
      resolve host.tree 0 (target.start bus.place) target.parts = some there ∧
      place = "authorized" :: there

/-- The id names an entry of a bus directory that does not stand there. -/
def Absent (host : Host) (id : String) : Prop :=
  ∀ (bus : Bus) name, '/' ∉ name.toList → id = bus.base ++ "/" ++ name →
    name ≠ ".." ∧ host.tree (name :: bus.place) = none

/-! ### Paths as names -/

theorem parse_base (bus : Bus) {name : String} (single : '/' ∉ name.toList) :
    (parse (bus.base ++ "/" ++ name).toList).parts = ["sys", "bus", bus.text, "devices", name] := by
  have text : (bus.base ++ "/" ++ name).toList = '/' :: ['/'].intercalate
      ["sys".toList, "bus".toList, bus.text.toList, "devices".toList, name.toList] := by
    simp only [Bus.base, String.toList_append]
    simp [List.intercalate, List.intersperse]
  rw [text, parse]
  dsimp only
  rw [List.splitOn_intercalate]
  · simp
  · intro part member
    simp only [List.mem_cons, List.not_mem_nil, or_false] at member
    rcases member with rfl | rfl | rfl | rfl | rfl
    · decide
    · decide
    · cases bus <;> decide
    · decide
    · exact single
  · simp

theorem join_base (bus : Bus) (name : String) : join bus.base name = bus.base ++ "/" ++ name := by
  unfold join
  rw [if_neg]
  cases bus <;> decide

/-- A name joined to an absolute path stands after the names of the path, less a last slash. -/
theorem parse_join {path name : String} (absolute : path.toList.head? = some '/')
    (single : '/' ∉ name.toList) :
    ∃ before, (parse (join path name).toList).parts = before ++ [name] ∧
      ((parse path.toList).parts = before ∨ (parse path.toList).parts = before ++ [""]) := by
  obtain ⟨text, whole⟩ : ∃ text, path.toList = '/' :: text := by
    cases chars : path.toList with
    | nil => simp [chars] at absolute
    | cons c text =>
      simp only [chars, List.head?_cons, Option.some.injEq] at absolute
      exact ⟨text, by rw [absolute]⟩
  have alone : (name.toList.splitOn '/').map String.ofList = [name] := by
    rw [List.splitOn_eq_singleton single, List.map_singleton, String.ofList_toList]
  unfold join
  split
  · next slash =>
    have last := slash.resolve_left (by rw [whole]; simp)
    rw [String.toList_append, whole]
    rcases List.eq_nil_or_concat text with rfl | ⟨front, c, rfl⟩
    · exact ⟨[], by simpa [parse] using alone, .inr rfl⟩
    · obtain rfl : c = '/' := by simpa [whole, List.getLast?_cons] using last
      refine ⟨(front.splitOn '/').map String.ofList, ?_, .inr ?_⟩
      · simp only [parse, List.concat_eq_append, List.cons_append, List.append_assoc, List.nil_append]
        rw [List.splitOn_append_cons_self, List.map_append, alone]
      · simp only [parse, List.concat_eq_append]
        rw [List.splitOn_append_cons_self, List.map_append]
        rfl
  · refine ⟨(text.splitOn '/').map String.ofList, ?_, .inl (by rw [whole, parse])⟩
    have chars : (path ++ "/" ++ name).toList = '/' :: (text ++ '/' :: name.toList) := by
      simp [String.toList_append, whole]
    rw [chars, parse]
    dsimp only
    rw [List.splitOn_append_cons_self, List.map_append, alone]

/-- The walk of a path in two parts. -/
theorem lookup_split {tree : Tree} {links : Nat} {here : Location} {first second : List String}
    {place : Location} (found : lookup tree false links here (first ++ second) = .ok place) :
    ∃ there fewer, lookup tree false links here first = .ok there ∧
      lookup tree false fewer there second = .ok place := by
  cases leading : lookup tree false links here first with
  | error error => simp [lookup_append_error leading] at found
  | ok there =>
    obtain ⟨fewer, onward⟩ := lookup_append false leading
    exact ⟨there, fewer, rfl, onward second ▸ found⟩

/-- A name is found in a directory. -/
theorem directory_of_lookup {tree : Tree} {links : Nat} {here : Location} {part : String}
    {rest : List String} {place : Location}
    (found : lookup tree false links here (part :: rest) = .ok place) : tree here = some .directory := by
  by_contra other
  cases links <;> simp [lookup, walk, other] at found

/-- The `authorized` below a path is found from the node of the path. -/
theorem lookup_authorized {host : Host} {id : String} (absolute : id.toList.head? = some '/')
    {place : Location} (found : host.lookup (join id "authorized") = .ok place) :
    ∃ there fewer, lookup host.tree false host.links [] (parse id.toList).parts = .ok there ∧
      lookup host.tree false fewer there ["authorized"] = .ok place := by
  obtain ⟨before, joined, parts⟩ := @parse_join id "authorized" absolute (by decide)
  unfold Host.lookup at found
  rw [joined] at found
  obtain ⟨there, fewer, leading, last⟩ := lookup_split found
  refine ⟨there, fewer, ?_, last⟩
  rcases parts with same | slash
  · rw [same, leading]
  · obtain ⟨links, onward⟩ := lookup_append false leading
    rw [slash, onward]
    cases links <;> simp [lookup, walk, directory_of_lookup last]

/-! ### What is written -/

theorem ancestor_directory {host : Host} {place : Location}
    (directory : host.tree place = some .directory) {up : Location} (below : up <:+ place) :
    host.tree up = some .directory := by
  induction place with
  | nil =>
    rw [List.suffix_nil.mp below]
    exact directory
  | cons name place ih =>
    rcases List.suffix_cons_iff.mp below with rfl | higher
    · exact directory
    · exact ih (host.parents place name (by simp [directory])) higher

/-- An entry of a bus directory is no directory itself. -/
theorem Sysfs.entry_link {host : Host} (sysfs : Sysfs host) {bus : Bus} {name : String}
    (directory : host.tree (name :: bus.place) = some .directory) : False := by
  obtain ⟨target, _, same, _⟩ := sysfs.entries bus name _ directory
  cases same

theorem Sysfs.resolve_entry {host : Host} (sysfs : Sysfs host) {bus : Bus} {name : String}
    {node : Node} (stands : host.tree (name :: bus.place) = some node) :
    ∃ there, resolve host.tree 1 bus.place [name] = some there ∧ ["devices", "sys"] <:+ there ∧
      host.tree there = some .directory := by
  obtain ⟨target, there, rfl, resolved, inside, directory⟩ := sysfs.entries bus name node stands
  have proper := (host.proper _ _ (by rw [stands]; nofun : host.tree (name :: bus.place) ≠ none)).1
  simp only [isName, Bool.and_eq_true, decide_eq_true_eq] at proper
  refine ⟨there, ?_, inside, directory⟩
  refine resolve_link (by tauto) proper.2 stands resolved ?_
  rfl

theorem insideBases_iff {p : Location} :
    insideBases p = true ↔ ∃ bus : Bus, bus.place <:+ p := by
  rw [insideBases, List.any_eq_true]
  constructor
  · intro ⟨bus, _, inside⟩
    exact ⟨bus, List.isSuffixOf_iff_suffix.mp inside⟩
  · intro ⟨bus, inside⟩
    exact ⟨bus, by cases bus <;> simp, List.isSuffixOf_iff_suffix.mpr inside⟩

/-- A directory inside a bus directory is the bus directory. -/
theorem Sysfs.only_base {host : Host} (sysfs : Sysfs host) {bus : Bus} {there : Location}
    (directory : host.tree there = some .directory) (inside : bus.place <:+ there) :
    there = bus.place := by
  obtain ⟨names, rfl⟩ := inside
  rcases List.eq_nil_or_concat names with rfl | ⟨front, name, rfl⟩
  · rfl
  · have below : name :: bus.place <:+ front.concat name ++ bus.place := ⟨front, by simp⟩
    exact (sysfs.entry_link (ancestor_directory directory below)).elim

/-- No bus directory has a file for an entry. -/
theorem Sysfs.no_file {host : Host} (sysfs : Sysfs host) {bus : Bus} {name : String} {links : Nat}
    {place : Location} (found : lookup host.tree false links bus.place [name] = .ok place)
    (named : isName name) : host.tree place ≠ some .file := by
  intro file
  obtain ⟨depth, resolved⟩ := resolve_of_lookup found
  cases stands : host.tree (name :: bus.place) with
  | none =>
    simp only [isName, Bool.and_eq_true, decide_eq_true_eq] at named
    have base := directory_of_lookup found
    cases links <;> simp [lookup, walk, stands, named, base] at found
  | some node =>
    obtain ⟨there, entry, _, directory⟩ := sysfs.resolve_entry stands
    rw [resolve_unique resolved entry, directory] at file
    cases file

/-- Nothing is written at all: no bus directory holds a file. -/
theorem Sysfs.unwritten {host : Host} (sysfs : Sysfs host) {value id : String} {outcome : Outcome}
    (ran : authorize value host id = some outcome) : outcome.write = none := by
  obtain ⟨ok, checked, rfl⟩ := Option.map_eq_some_iff.mp ran
  unfold devicePathOk at checked
  split at checked
  · cases checked
    rfl
  next absolute =>
  obtain ⟨p, real, rfl⟩ := Option.map_eq_some_iff.mp checked
  split
  · rfl
  next inside =>
  split
  · rfl
  next place found =>
  split
  · next file =>
    obtain ⟨there, fewer, named, last⟩ := lookup_authorized (by simpa using absolute) found
    obtain ⟨depth, resolved⟩ := resolve_of_lookup named
    have same : p = there := by
      rcases @realPath_agrees _ (host.depth + 1) _ _ _ resolved with stopped | reached
      · rw [Host.realpath, stopped] at real
        cases real
      · exact Option.some.inj (real.symm.trans reached)
    obtain ⟨bus, below⟩ := insideBases_iff.mp (by simpa using inside)
    have base := sysfs.only_base (directory_of_lookup last) (same ▸ below)
    rw [base] at last
    exact absurd file.1 (sysfs.no_file last (by decide))
  · rfl

theorem Sysfs.confined {host : Host} (sysfs : Sysfs host) (id : String) : Confined host id := by
  intro command member outcome place text ran wrote
  simp only [List.mem_cons, List.not_mem_nil, or_false] at member
  have none : outcome.write = none := by
    rcases member with rfl | rfl
    · exact sysfs.unwritten ran
    · exact sysfs.unwritten ran
  rw [none] at wrote
  cases wrote

/-! ### What is refused -/

theorem authorize_invalid {value id : String} {host : Host} :
    (authorize value host id).map Outcome.result = some .invalidDevicePath ↔
      devicePathOk host id = some false := by
  unfold authorize
  cases devicePathOk host id with
  | none => simp
  | some ok =>
    cases ok with
    | false => simp
    | true =>
      simp only [Option.map_some, Bool.not_true, Bool.false_eq_true, if_false, Option.some.injEq,
        reduceCtorEq, iff_false]
      split
      · simp
      · split <;> simp

theorem accepted_iff {host : Host} {id : String} :
    Accepted host id ↔ devicePathOk host id ≠ some false := by
  constructor
  · intro accepted refused
    exact accepted cmdBlock (by simp) (authorize_invalid.mpr refused)
  · intro passes command member
    simp only [List.mem_cons, List.not_mem_nil, or_false] at member
    rcases member with rfl | rfl
    · exact fun refused => passes (authorize_invalid.mp refused)
    · exact fun refused => passes (authorize_invalid.mp refused)

/-- The place that the path of an entry resolves to. -/
theorem Sysfs.realpath_base {host : Host} (sysfs : Sysfs host) (bus : Bus) {name : String}
    (single : '/' ∉ name.toList) :
    host.realpath (bus.base ++ "/" ++ name) =
      (realFrom host.tree (host.depth + 1) [] bus.place [name]).map (·.1) := by
  have names := realFrom_plain (host.depth + 1) [] (sysfs.bases bus) [name]
  rw [Host.realpath, realPath, parse_base bus single, ← names]
  rfl

/-- A path of a bus directory passes exactly when nothing stands there. -/
theorem Sysfs.passes_iff {host : Host} (sysfs : Sysfs host) (bus : Bus) {name : String}
    (single : '/' ∉ name.toList) :
    devicePathOk host (bus.base ++ "/" ++ name) ≠ some false ↔
      name ≠ ".." ∧ host.tree (name :: bus.place) = none := by
  have absolute : (bus.base ++ "/" ++ name).toList.head? = some '/' := by
    rw [String.toList_append, String.toList_append]
    cases bus <;> rfl
  unfold devicePathOk
  rw [if_neg (not_not.mpr absolute), sysfs.realpath_base bus single]
  have proper : host.tree (name :: bus.place) ≠ none → isName name := fun stands =>
    (host.proper _ _ stands).1
  by_cases here : name = "" ∨ name = "."
  · have missing : host.tree (name :: bus.place) = none := by
      by_contra stands
      have named := proper stands
      simp only [isName, Bool.and_eq_true, decide_eq_true_eq] at named
      tauto
    have down : name ≠ ".." := by rcases here with rfl | rfl <;> decide
    have own : insideBases bus.place = true := insideBases_iff.mpr ⟨bus, List.suffix_refl _⟩
    simp [realFrom, realWith, here, missing, down, own]
  by_cases up : name = ".."
  · have refused : insideBases bus.place.tail = false := by cases bus <;> decide
    simp [realFrom, realWith, up, refused]
  cases stands : host.tree (name :: bus.place) with
  | none =>
    have inside : insideBases (name :: bus.place) = true :=
      insideBases_iff.mpr ⟨bus, List.suffix_cons _ _⟩
    simp [realFrom, realWith, here, up, stands, inside]
  | some node =>
    obtain ⟨target, there, rfl, resolved, device, _⟩ := sysfs.entries bus name node stands
    have followed : realFrom host.tree host.depth [name :: bus.place] (target.start bus.place)
        target.parts = some (there, true) := by
      have plain := realFrom_plain host.depth [name :: bus.place] resolved []
      rw [List.append_nil] at plain
      rw [plain]
      cases host.depth <;> rfl
    have refused : insideBases there = false := by
      refine Bool.eq_false_iff.mpr fun inside => ?_
      obtain ⟨other, names, same⟩ := insideBases_iff.mp inside
      obtain ⟨front, rfl⟩ := device
      have ends : names ++ ["devices", other.text] ++ ["bus", "sys"] = front ++ ["devices", "sys"] := by
        simpa [Bus.place] using same
      exact absurd (List.append_inj' ends rfl).2 (by decide)
    simp [realFrom, realWith, here, up, stands, followed, refused]

/-! ### What is scanned -/

theorem listdir_single {host : Host} {path name : String} (member : name ∈ host.listdir path) :
    '/' ∉ name.toList := by
  unfold Host.listdir at member
  split at member
  · exact (host.proper _ _ ((host.listed _ _).mp member)).2
  · cases member

/-- What is listed in a bus directory stands there. -/
theorem Sysfs.listdir_stands {host : Host} (sysfs : Sysfs host) {bus : Bus} {name : String}
    (member : name ∈ host.listdir bus.base) : host.tree (name :: bus.place) ≠ none := by
  unfold Host.listdir at member
  split at member
  · next place found =>
    obtain ⟨depth, resolved⟩ := resolve_of_lookup found
    have parts : (parse bus.base.toList).parts = ["sys", "bus", bus.text, "devices"] := by
      cases bus <;> decide
    rw [parts] at resolved
    rw [← resolve_unique resolved (sysfs.bases bus)]
    exact (host.listed _ _).mp member
  · cases member

/-- An id of the first two scans is the path of what is listed. -/
theorem listed_id {isDecimal : Char → Bool} {host : Host} {device : Device}
    (member : device ∈ scanUsbDevices isDecimal host ++ scanThunderboltDevices host) :
    ∃ (bus : Bus) (name : String), name ∈ host.listdir bus.base ∧
      device.id = bus.base ++ "/" ++ name := by
  rcases List.mem_append.mp member with usb | thunderbolt
  · unfold scanUsbDevices at usb
    split at usb
    · obtain ⟨entry, listed, made⟩ := List.mem_filterMap.mp usb
      refine ⟨.usb, entry, listed, ?_⟩
      unfold scanUsbDevice at made
      dsimp only at made
      split at made
      · cases made
      split at made
      · cases made
      split at made
      · cases made
      · cases made
        exact join_base .usb entry
    · cases usb
  · unfold scanThunderboltDevices at thunderbolt
    split at thunderbolt
    · obtain ⟨entry, listed, made⟩ := List.mem_filterMap.mp thunderbolt
      refine ⟨.thunderbolt, entry, listed, ?_⟩
      unfold scanThunderboltDevice at made
      dsimp only at made
      split at made
      · cases made
      split at made
      · cases made
      · cases made
        exact join_base .thunderbolt entry
    · cases thunderbolt

theorem pciFields_address {isDecimal : Char → Bool} {line address pciClass vendorId deviceId : List Char}
    (read : pciFields isDecimal line = some [address, pciClass, vendorId, deviceId]) :
    ∀ c ∈ address, isDecimal c || c = ':' || c = '.' := by
  unfold pciFields at read
  rw [List.span_eq_takeWhile_dropWhile] at read
  split at read
  · cases read
  · next first rest _ same =>
    obtain ⟨classPair, _, read⟩ := Option.bind_eq_some_iff.mp read
    obtain ⟨vendorPair, _, read⟩ := Option.bind_eq_some_iff.mp read
    obtain ⟨devicePair, _, read⟩ := Option.bind_eq_some_iff.mp read
    cases read
    intro c member
    rw [← (Prod.mk.inj same).1] at member
    exact List.mem_takeWhile_imp (p := fun c => isDecimal c || c = ':' || c = '.') member

theorem pci_id {isDecimal : Char → Bool} (slash : isDecimal '/' = false) {host : Host}
    {device : Device} (member : device ∈ scanPciDevices isDecimal host) :
    ∃ name : String, '/' ∉ name.toList ∧ device.id = Bus.pci.base ++ "/" ++ name := by
  obtain ⟨line, _, made⟩ := List.mem_filterMap.mp member
  unfold scanPciDevice at made
  split at made
  · next address pciClass vendorId deviceId read =>
    split at made
    · cases made
    · cases made
      refine ⟨String.ofList address, ?_, rfl⟩
      rw [String.toList_ofList]
      intro inside
      have allowed := pciFields_address read '/' inside
      rw [slash] at allowed
      exact absurd allowed (by decide)
  · cases made

/-- Under the kernel's layout a scanned id is accepted exactly when nothing stands at it, and no id
at all has anything written outside of the devices. -/
theorem guard_exact {host : Host} (sysfs : Sysfs host) {isDecimal : Char → Bool}
    (slash : isDecimal '/' = false) {device : Device} (emitted : device ∈ scanned isDecimal host) :
    Accepted host device.id ∧ (∀ id, Confined host id) ↔ Absent host device.id := by
  have form : ∃ (bus : Bus) (name : String), '/' ∉ name.toList ∧
      device.id = bus.base ++ "/" ++ name := by
    rcases List.mem_append.mp emitted with listed | pci
    · obtain ⟨bus, name, member, same⟩ := listed_id listed
      exact ⟨bus, name, listdir_single member, same⟩
    · exact ⟨.pci, pci_id slash pci⟩
  constructor
  · intro ⟨accepted, _⟩ bus name single same
    rw [same] at accepted
    exact (sysfs.passes_iff bus single).mp (accepted_iff.mp accepted)
  · intro absent
    obtain ⟨bus, name, single, same⟩ := form
    refine ⟨?_, sysfs.confined⟩
    rw [same]
    exact accepted_iff.mpr ((sysfs.passes_iff bus single).mpr (absent bus name single same))

theorem stands_iff {nodes : List (Location × Node)} {place : Location} :
    nodes.lookup place ≠ none ↔ ∃ entry ∈ nodes, entry.1 = place := by
  simp only [ne_eq, List.lookup_eq_none_iff, not_forall, bne_iff_ne, not_not, exists_prop]
  exact exists_congr fun entry => and_congr_right fun _ => eq_comm

/-- Every node has a proper name and stands in a directory. -/
def Whole (nodes : List (Location × Node)) : Prop :=
  ∀ entry ∈ nodes, entry.1 = [] ∨
    (isName (entry.1.headD "") ∧ '/' ∉ (entry.1.headD "").toList) ∧
      nodes.lookup entry.1.tail = some .directory

/-- The host whose tree is a list of nodes. -/
def hostOf (nodes : List (Location × Node)) (whole : Whole nodes)
    (contents : Location → Option String) (lspci : String) : Host where
  tree := fun place => nodes.lookup place
  names := fun here => nodes.filterMap fun entry =>
    if entry.1.tail = here then entry.1.head? else none
  listed := by
    intro here name
    rw [stands_iff, List.mem_filterMap]
    refine exists_congr fun entry => and_congr_right fun _ => ?_
    cases entry.1 with
    | nil => simp
    | cons first rest => by_cases same : rest = here <;> simp [same]
  proper := by
    intro here name stands
    obtain ⟨entry, member, place⟩ := stands_iff.mp stands
    rcases whole entry member with root | ⟨named, _⟩
    · cases root.symm.trans place
    · simpa [place] using named
  parents := by
    intro here name stands
    obtain ⟨entry, member, place⟩ := stands_iff.mp stands
    rcases whole entry member with root | ⟨_, directory⟩
    · cases root.symm.trans place
    · simpa [place] using directory
  links := 40
  depth := 200
  contents
  opens := fun _ => true
  lspci

/-- A stick on the bus, under its controller, and the buses. -/
def stickNodes : List (Location × Node) :=
  [([], .directory), (["sys"], .directory), (["bus", "sys"], .directory),
    (["usb", "bus", "sys"], .directory), (["devices", "usb", "bus", "sys"], .directory),
    (["1-1", "devices", "usb", "bus", "sys"],
      .link ⟨false, ["..", "..", "..", "devices", "pci0", "1-1"]⟩),
    (["thunderbolt", "bus", "sys"], .directory),
    (["devices", "thunderbolt", "bus", "sys"], .directory),
    (["pci", "bus", "sys"], .directory), (["devices", "pci", "bus", "sys"], .directory),
    (["devices", "sys"], .directory), (["pci0", "devices", "sys"], .directory),
    (["1-1", "pci0", "devices", "sys"], .directory),
    (["idVendor", "1-1", "pci0", "devices", "sys"], .file),
    (["idProduct", "1-1", "pci0", "devices", "sys"], .file),
    (["authorized", "1-1", "pci0", "devices", "sys"], .file)]

/-- `lspci` names the bridge without the domain that its entry has. -/
def stickHost : Host :=
  hostOf stickNodes (by unfold Whole; decide)
    (fun place => match place.head? with
      | some "idVendor" => some "0781\n"
      | some "idProduct" => some "5581\n"
      | _ => none)
    "00:03.0 \"0403\" \"8086\" \"a348\"\n"

theorem stick_sysfs : Sysfs stickHost where
  bases := by
    intro bus
    cases bus <;> decide
  entries := by
    intro bus name node stands
    have only : ∀ entry ∈ stickNodes, entry.1 = [] ∨ (∀ bus ∈ [Bus.usb, .thunderbolt, .pci],
        entry.1.tail ≠ bus.place) ∨ entry.1 = "1-1" :: Bus.usb.place := by decide
    have listed : stickNodes.lookup (name :: bus.place) = some node := stands
    obtain ⟨entry, member, place⟩ := stands_iff.mp (by rw [listed]; nofun)
    rcases only entry member with root | apart | link
    · cases root.symm.trans place
    · exact absurd (by rw [place]; rfl) (apart bus (by cases bus <;> simp))
    · rw [place] at link
      rw [link] at stands
      have tree : stickHost.tree ("1-1" :: Bus.usb.place) =
        some (.link ⟨false, ["..", "..", "..", "devices", "pci0", "1-1"]⟩) := by decide
      obtain rfl := Option.some.inj (stands.symm.trans tree)
      obtain ⟨_, base⟩ := List.cons.inj link
      rw [base]
      exact ⟨_, ["1-1", "pci0", "devices", "sys"], rfl, by decide, by decide, by decide⟩

def bridge : Device := ⟨"/sys/bus/pci/devices/00:03.0", "8086", "a348", ""⟩

def stick : Device := ⟨"/sys/bus/usb/devices/1-1", "0781", "5581", ""⟩

theorem stick_scanned : scanned Char.isDigit stickHost = [stick, bridge] := by
  decide +kernel

theorem guard_exact_bridge :
    Accepted stickHost bridge.id ∧ ∀ id, Confined stickHost id := by
  have emitted : bridge ∈ scanned Char.isDigit stickHost := by
    rw [stick_scanned]
    simp
  refine (guard_exact stick_sysfs (by decide) emitted).mpr ?_
  intro bus name single same
  have parts : (parse bridge.id.toList).parts = ["sys", "bus", "pci", "devices", "00:03.0"] := by
    decide +kernel
  rw [same, parse_base bus single] at parts
  simp only [List.cons.injEq, and_true, true_and] at parts
  obtain ⟨text, rfl⟩ := parts
  obtain rfl : bus = .pci := by cases bus <;> first | rfl | exact absurd text (by decide)
  decide +kernel

/-- The stick is scanned, and cannot be blocked. -/
theorem stick_refused :
    stick ∈ scanned Char.isDigit stickHost ∧
      cmdBlock stickHost stick.id = some ⟨.invalidDevicePath, none⟩ ∧
      ¬ Accepted stickHost stick.id := by
  have refused : cmdBlock stickHost stick.id = some ⟨.invalidDevicePath, none⟩ := by decide +kernel
  refine ⟨by rw [stick_scanned]; simp, refused, fun accepted => ?_⟩
  exact accepted cmdBlock (by simp) (by rw [refused]; rfl)

/-- So no device of USB or Thunderbolt can be blocked. -/
theorem Sysfs.listed_refused {host : Host} (sysfs : Sysfs host) {isDecimal : Char → Bool}
    {device : Device}
    (member : device ∈ scanUsbDevices isDecimal host ++ scanThunderboltDevices host) :
    ¬ Accepted host device.id := by
  obtain ⟨bus, name, listed, same⟩ := listed_id member
  rw [same]
  intro accepted
  exact sysfs.listdir_stands listed
    ((sysfs.passes_iff bus (listdir_single listed)).mp (accepted_iff.mp accepted)).2

end SysDeck.Cockpit.HwAlert
