import SysDeck.Cockpit.PackageText
import SysDeck.Library.PythonInt
import SysDeck.Library.Scan
import Mathlib.Data.List.Nodup
import Mathlib.Data.List.Basic

/-! The VLANs of a host, as `ip -d link show` prints them and as the policy bridge lists, creates and
deletes them. -/

namespace SysDeck.Cockpit.Vlans

open Lines (OneLine)
open Packages (isSpace lineEnd splitlines strip)
open PackageFiles (unlines)
open Scan (literal many many1 search)

/-! ### What is printed -/

def visible (c : Char) : Bool := !isSpace c

/-- The characters of an interface's name: the kernel refuses a blank, a slash and a colon; a name with
the sign that is printed before a parent cannot be told from a name and its parent. -/
def nameChar (c : Char) : Bool := visible c && c != '/' && c != ':' && c != '@'

structure Name where
  chars : List Char
  begun : chars ≠ []
  plain : ∀ c ∈ chars, nameChar c = true

/-- What is printed of a VLAN: its protocol, its id, and what comes after it. -/
structure Vlan where
  protocol : List Char
  id : ℕ
  rest : List Char
  word : ∀ c ∈ protocol, visible c = true
  one : OneLine lineEnd rest

def Vlan.line (vlan : Vlan) : List Char :=
  "    vlan protocol ".toList ++ vlan.protocol ++ " id ".toList ++ Nat.toDigits 10 vlan.id ++ ' ' :: vlan.rest

/-- A line that is indented. -/
structure Detail where
  chars : List Char
  indented : chars.head? = some ' '
  one : OneLine lineEnd chars

/-- An interface: the lines after its header, and among them that of its VLAN. -/
structure Link where
  index : ℕ
  name : Name
  parent : Option Name
  flags : List Char
  one : OneLine lineEnd flags
  vlan : Option Vlan
  before : List Detail
  after : List Detail

/-- The name and the parent. -/
def Link.label (link : Link) : List Char :=
  link.name.chars ++ match link.parent with
    | none => []
    | some parent => '@' :: parent.chars

def Link.header (link : Link) : List Char :=
  Nat.toDigits 10 link.index ++ (':' :: ([' '] ++ (link.label ++ ':' :: ' ' :: link.flags)))

def Link.details (link : Link) : List (List Char) :=
  link.before.map Detail.chars ++ (link.vlan.map Vlan.line).toList ++ link.after.map Detail.chars

def Link.lines (link : Link) : List (List Char) := link.header :: link.details

/-- The interfaces of a host; no two have one name. -/
structure Network where
  links : List Link
  nodup : (links.map (·.name.chars)).Nodup

/-- `ip -d link show` -/
def Network.show (network : Network) : List Char := unlines (network.links.flatMap Link.lines)

/-! ### What is read -/

structure Row where
  interface : List Char
  vid : ℕ
  protocol : List Char
  deriving DecidableEq

/-- `VLAN_RE.search(line)`: `vlan id (\d+) .* protocol (\S+)` -/
def searchVlan (line : List Char) : Option (ℕ × List Char) :=
  search (literal "vlan id ".toList (many1 PythonInt.isDigit fun vid rest =>
    literal [' '] (many (· != '\n') fun _ rest =>
      literal " protocol ".toList (many1 visible fun protocol _ =>
        some ((PythonInt.digits vid).getD 0, protocol)) rest) rest)) line

/-- What a line says of a VLAN. -/
def vlanOf (line : List Char) : Option (ℕ × List Char) :=
  if "vlan id".toList <:+: line then searchVlan line else none

/-- `re.match(r"^\d+:\s+(\S+):", line)` -/
def headerName (line : List Char) : Option (List Char) :=
  many1 PythonInt.isDigit (fun _ rest => literal [':'] (many1 isSpace fun _ rest =>
    many1 visible (fun name rest => literal [':'] (fun _ => some name) rest) rest) rest) line

def rowOf (interface : List Char) (found : ℕ × List Char) : Row := ⟨interface, found.1, found.2⟩

/-- One line of the listing, after `current_iface` and the rows so far. -/
def readLine (state : List Char × List Row) (line : List Char) : List Char × List Row :=
  match headerName line with
  | some name =>
    let current := name.rdropWhile (· = '@')
    (current, state.2 ++ ((vlanOf line).map (rowOf current)).toList)
  | none =>
    if state.1.isEmpty then state
    else (state.1, state.2 ++ ((vlanOf line).map (rowOf state.1)).toList)

/-- The rows of `cmd_vlan_list`. -/
def vlanList (out : List Char) : List Row := ((splitlines (String.ofList out)).foldl readLine ([], [])).2

/-! ### Creation and deletion -/

/-- How `ip link add link IFACE name SUBIF type vlan id VID` answers: the interface it makes, as it is
printed when it has been brought up, or nothing. -/
structure Iproute where
  add : Network → List Char → List Char → List Char → Option Link
  named : ∀ {network iface subif vid link}, add network iface subif vid = some link →
    link.name.chars = subif
  fresh : ∀ {network iface subif vid link}, add network iface subif vid = some link →
    ∀ other ∈ network.links, other.name.chars ≠ link.name.chars
  parent : ∀ {network iface subif vid link}, add network iface subif vid = some link →
    link.parent.map Name.chars = some iface

def Network.add (network : Network) (link : Link)
    (fresh : ∀ other ∈ network.links, other.name.chars ≠ link.name.chars) : Network where
  links := network.links ++ [link]
  nodup := by
    rw [List.map_append, List.map_singleton, List.nodup_append]
    refine ⟨network.nodup, by simp, ?_⟩
    intro name member other last
    obtain ⟨link', present, rfl⟩ := List.mem_map.mp member
    rw [List.mem_singleton.mp last]
    exact fresh link' present

/-- `ip link del NAME` -/
def Network.delete (network : Network) (name : List Char) : Network where
  links := network.links.filter fun link => link.name.chars ≠ name
  nodup := (List.filter_sublist.map _).nodup network.nodup

inductive CreateReport where
  | error (text : List Char)
  | refused
  | created (interface parent : List Char) (vid : ℤ)

def subif (iface vid : List Char) : List Char := iface ++ '.' :: vid

/-- `cmd_vlan_create`, where `ip` is installed. -/
def cmdVlanCreate (ip : Iproute) (network : Network) : List (List Char) → Network × CreateReport
  | iface :: vid :: _ =>
    match PythonInt.read (strip vid) with
    | none => (network, .error ("vid ".toList ++ vid ++ " is not numeric".toList))
    | some n =>
      if n < 1 ∨ 4094 < n then (network, .error ("vid ".toList ++ vid ++ " out of range (1-4094)".toList))
      else
        match added : ip.add network iface (subif iface vid) vid with
        | none => (network, .refused)
        | some link => (network.add link (ip.fresh added), .created (subif iface vid) iface n)
  | _ => (network, .error "usage: vlan-create <iface> <vid>".toList)

/-- `cmd_vlan_delete`, where `ip` is installed: the interface, and whether it was there. -/
def cmdVlanDelete (network : Network) : List (List Char) → Network × Option (List Char × Bool)
  | iface :: vid :: _ =>
    let name := subif iface vid
    (network.delete name, some (name, network.links.any (·.name.chars = name)))
  | _ => (network, none)

/-! ### What is to hold -/

def Link.expected (link : Link) : Option Row :=
  link.vlan.map fun vlan => ⟨link.name.chars, vlan.id, vlan.protocol⟩

/-- The listing has the VLAN interfaces, and nothing else. -/
def Network.ListsVlans (network : Network) : Prop :=
  vlanList network.show = network.links.filterMap Link.expected

/-- What is made by a creation that is reported is listed with its id, and the deletion with the same
arguments takes exactly it away. -/
def CreatesListed (ip : Iproute) (network : Network) (iface vid : List Char) : Prop :=
  ∀ after interface parent n, cmdVlanCreate ip network [iface, vid] = (after, .created interface parent n) →
    (∃ row ∈ vlanList after.show, row.interface = interface ∧ (row.vid : ℤ) = n) ∧
      (cmdVlanDelete after [iface, vid]).1.links = network.links

/-- What `VLAN_RE` finds in the lines of an interface. -/
def Link.found (link : Link) : List (ℕ × List Char) := link.lines.filterMap vlanOf

/-- The lines of the interface say of a VLAN what it is, and no parent is printed of one. -/
def Link.Readable (link : Link) : Prop :=
  link.found = (link.vlan.map fun vlan => (vlan.id, vlan.protocol)).toList ∧
    (link.vlan.isSome → link.parent = none)

/-! ### The lines -/

theorem visible_of_nameChar {c : Char} (plain : nameChar c = true) : visible c = true := by
  simp only [nameChar, Bool.and_eq_true] at plain
  exact plain.1.1.1

theorem Name.at_not_mem (name : Name) : '@' ∉ name.chars :=
  fun member => absurd (name.plain _ member) (by decide)

theorem oneLine_of_visible {chars : List Char} (all : ∀ c ∈ chars, visible c = true) :
    OneLine lineEnd chars := by
  intro c member
  have shown := all c member
  rw [visible, Bool.not_eq_true'] at shown
  rw [Bool.eq_false_iff]
  intro ends
  rw [PackageFiles.space_of_lineEnd ends] at shown
  cases shown

theorem visible_toDigits (n : ℕ) : ∀ c ∈ Nat.toDigits 10 n, visible c = true := by
  intro c member
  have digit := Nat.isDigit_of_mem_toDigits (by decide) (by decide) member
  simp only [Char.isDigit, Bool.and_eq_true, decide_eq_true_eq, ge_iff_le] at digit
  have low : 48 ≤ c.toNat := digit.1
  have high : c.toNat ≤ 57 := digit.2
  simp only [visible, isSpace, Bool.not_eq_true', Bool.or_eq_false_iff, Bool.and_eq_false_iff,
    decide_eq_false_iff_not]
  omega

theorem Link.visible_label (link : Link) : ∀ c ∈ link.label, visible c = true := by
  intro c member
  rcases List.mem_append.mp member with own | others
  · exact visible_of_nameChar (link.name.plain c own)
  · cases parent : link.parent with
    | none => simp [parent] at others
    | some above =>
      simp only [parent, List.mem_cons] at others
      rcases others with rfl | others
      · rfl
      · exact visible_of_nameChar (above.plain c others)

theorem Link.label_ne_nil (link : Link) : link.label ≠ [] :=
  List.append_ne_nil_of_left_ne_nil link.name.begun _

/-- The sign is inside the label only. -/
theorem Link.label_last (link : Link) : ∀ c ∈ link.label.getLast?, c ≠ '@' := by
  intro c last
  cases printed : link.parent with
  | none =>
    have label : link.label = link.name.chars := by simp [Link.label, printed]
    rw [label] at last
    rintro rfl
    exact link.name.at_not_mem (List.mem_of_getLast? last)
  | some parent =>
    have label : link.label = (link.name.chars ++ ['@']) ++ parent.chars := by
      simp [Link.label, printed]
    rw [label, List.getLast?_append_of_ne_nil _ parent.begun] at last
    rintro rfl
    exact parent.at_not_mem (List.mem_of_getLast? last)

theorem Link.rdropWhile_label (link : Link) : link.label.rdropWhile (· = '@') = link.label := by
  rw [List.rdropWhile_eq_self_iff]
  intro begun
  have last := link.label_last _ (List.getLast?_eq_some_getLast begun)
  simpa using last

/-- The name that the header line is taken to give is the printed one, with its parent. -/
theorem Link.headerName_header (link : Link) : headerName link.header = some link.label := by
  have colon : isSpace ':' = false := by decide
  have token : many1 visible (fun name rest => literal [':'] (fun _ => some name) rest)
      (link.label ++ ':' :: ' ' :: link.flags) = some link.label := by
    refine Scan.greedyFrom_skip link.visible_label ?_
    have stop : visible ' ' = false := by decide
    have more : visible ':' = true := by decide
    simp [Scan.greedyFrom, stop, more, Scan.nonempty, literal, link.label_ne_nil]
  refine Scan.many1_of_longest Nat.toDigits_ne_nil ?_ ?_ ?_
  · exact fun c member => PythonInt.isDigit_of_ascii (Nat.isDigit_of_mem_toDigits (by decide) (by decide) member)
  · intro c head
    cases head
    decide
  · refine (Scan.literal_append [':'] _ _).trans ?_
    refine Scan.many1_of_longest (List.cons_ne_nil ' ' []) (List.all_eq_true.mp rfl) ?_ token
    intro c head
    obtain ⟨first, rest, split⟩ := List.exists_cons_of_ne_nil link.label_ne_nil
    have shown := link.visible_label first (by simp [split])
    rw [split, List.cons_append, List.head?_cons, Option.mem_some_iff] at head
    rw [← head]
    simpa [visible] using shown

theorem headerName_indented {line : List Char} (indented : line.head? = some ' ') :
    headerName line = none := by
  obtain ⟨rest, rfl⟩ : ∃ rest, line = ' ' :: rest := by
    cases line with
    | nil => cases indented
    | cons c rest => exact ⟨rest, by rw [Option.some.inj indented]⟩
  have blank : PythonInt.isDigit ' ' = false := by decide
  simp [headerName, many1, many, Scan.greedyFrom, blank, Scan.nonempty]

theorem Link.indented_details (link : Link) : ∀ line ∈ link.details, line.head? = some ' ' := by
  intro line member
  simp only [Link.details, List.mem_append, List.mem_map, Option.mem_toList, Option.map_eq_some_iff] at member
  rcases member with (⟨detail, -, rfl⟩ | ⟨vlan, -, rfl⟩) | ⟨detail, -, rfl⟩
  · exact detail.indented
  · rfl
  · exact detail.indented

theorem Link.oneLine_header (link : Link) : OneLine lineEnd link.header := by
  refine (oneLine_of_visible (visible_toDigits link.index)).append ?_
  refine List.forall_mem_cons.mpr ⟨by decide, List.forall_mem_append.mpr
    ⟨List.forall_mem_singleton.mpr rfl, ?_⟩⟩
  refine (oneLine_of_visible link.visible_label).append ?_
  exact List.forall_mem_cons.mpr ⟨by decide, List.forall_mem_cons.mpr ⟨by decide, link.one⟩⟩

theorem Vlan.oneLine (vlan : Vlan) : OneLine lineEnd vlan.line := by
  have start : OneLine lineEnd "    vlan protocol ".toList := Lines.OneLine.literal rfl
  have id : OneLine lineEnd " id ".toList := Lines.OneLine.literal rfl
  refine (((start.append (oneLine_of_visible vlan.word)).append id).append
    (oneLine_of_visible (visible_toDigits vlan.id))).append ?_
  exact List.forall_mem_cons.mpr ⟨by decide, vlan.one⟩

theorem Link.oneLine (link : Link) : ∀ line ∈ link.lines, OneLine lineEnd line := by
  intro line member
  rcases List.mem_cons.mp member with rfl | member
  · exact link.oneLine_header
  · simp only [Link.details, List.mem_append, List.mem_map, Option.mem_toList,
      Option.map_eq_some_iff] at member
    rcases member with (⟨detail, -, rfl⟩ | ⟨vlan, -, rfl⟩) | ⟨detail, -, rfl⟩
    · exact detail.one
    · exact vlan.oneLine
    · exact detail.one

/-! ### The listing -/

/-- What is found in the lines of an interface, under the name its header line is taken to give. -/
def Link.rows (link : Link) : List Row := link.found.map (rowOf link.label)

theorem foldl_details {current : List Char} (begun : current ≠ []) {lines : List (List Char)}
    (indented : ∀ line ∈ lines, line.head? = some ' ') (rows : List Row) :
    lines.foldl readLine (current, rows) =
      (current, rows ++ (lines.filterMap vlanOf).map (rowOf current)) := by
  induction lines generalizing rows with
  | nil => simp
  | cons line lines ih =>
    have here := headerName_indented (indented line List.mem_cons_self)
    have later := ih fun other member => indented other (List.mem_cons_of_mem _ member)
    rw [List.foldl_cons, readLine, here]
    simp only [List.isEmpty_iff, begun, if_false]
    rw [later]
    cases said : vlanOf line with
    | none => simp [said]
    | some found => simp [said]

/-- After the lines of an interface its rows have been added. -/
theorem Link.foldl_lines (link : Link) (current : List Char) (rows : List Row) :
    link.lines.foldl readLine (current, rows) = (link.label, rows ++ link.rows) := by
  rw [Link.rows, Link.found, Link.lines, List.foldl_cons, readLine, link.headerName_header]
  simp only [link.rdropWhile_label]
  rw [foldl_details link.label_ne_nil link.indented_details, List.append_assoc]
  cases said : vlanOf link.header with
  | none => simp [said]
  | some found => simp [said]

theorem foldl_links (links : List Link) (current : List Char) (rows : List Row) :
    ((links.flatMap Link.lines).foldl readLine (current, rows)).2 = rows ++ links.flatMap Link.rows := by
  induction links generalizing current rows with
  | nil => simp
  | cons link links ih =>
    rw [List.flatMap_cons, List.foldl_append, link.foldl_lines, ih, List.flatMap_cons, List.append_assoc]

/-- The listing: what is found in the lines of each interface, under its printed name. -/
theorem vlanList_show (network : Network) : vlanList network.show = network.links.flatMap Link.rows := by
  have one : ∀ line ∈ network.links.flatMap Link.lines, OneLine lineEnd line := by
    intro line member
    obtain ⟨link, -, inside⟩ := List.mem_flatMap.mp member
    exact link.oneLine line inside
  rw [vlanList, Network.show, PackageFiles.splitlines_unlines one, foldl_links, List.nil_append]

/-! ### Names -/

theorem Link.label_of_none {link : Link} (alone : link.parent = none) : link.label = link.name.chars := by
  simp [Link.label, alone]

theorem Link.at_mem_label_iff (link : Link) : '@' ∈ link.label ↔ link.parent.isSome := by
  cases printed : link.parent with
  | none => simp [link.label_of_none printed, link.name.at_not_mem]
  | some parent => simp [Link.label, printed]

/-- The name is what is printed before the sign. -/
theorem Link.takeWhile_label (link : Link) : link.label.takeWhile (· ≠ '@') = link.name.chars := by
  have all : ∀ c ∈ link.name.chars, decide (c ≠ '@') = true := by
    intro c member
    rw [decide_eq_true_eq]
    rintro rfl
    exact link.name.at_not_mem member
  rw [Link.label, List.takeWhile_append_of_pos all]
  cases link.parent with
  | none => simp
  | some parent => simp

theorem Network.nodup_labels (network : Network) : (network.links.map Link.label).Nodup := by
  have named := network.nodup
  have split : network.links.map (·.name.chars) =
      (network.links.map Link.label).map (·.takeWhile (· ≠ '@')) := by
    rw [List.map_map]
    exact List.map_congr_left fun link _ => link.takeWhile_label.symm
  rw [split] at named
  exact named.of_map

theorem Link.label_eq_name {first second : Link} (same : first.label = second.name.chars) :
    first.parent = none ∧ first.name.chars = second.name.chars := by
  have alone : first.parent = none := by
    rw [← Option.not_isSome_iff_eq_none, ← first.at_mem_label_iff, same]
    exact second.name.at_not_mem
  exact ⟨alone, first.label_of_none alone ▸ same⟩

section Filter

variable {rows : Link → List Row} {key : Link → List Char}
  (keyed : ∀ link, ∀ row ∈ rows link, row.interface = key link)

include keyed

theorem filter_rows_of_ne {links : List Link} {interface : List Char}
    (other : ∀ link ∈ links, key link ≠ interface) :
    (links.flatMap rows).filter (·.interface = interface) = [] := by
  rw [List.filter_eq_nil_iff]
  intro row member
  obtain ⟨link, present, inside⟩ := List.mem_flatMap.mp member
  rw [keyed link row inside, decide_eq_true_eq]
  exact other link present

/-- Of the rows of all interfaces, those under the key of one are its own. -/
theorem filter_rows {links : List Link} (nodup : (links.map key).Nodup) {link : Link}
    (member : link ∈ links) : (links.flatMap rows).filter (·.interface = key link) = rows link := by
  induction links with
  | nil => cases member
  | cons first links ih =>
    obtain ⟨fresh, nodup⟩ := List.nodup_cons.mp nodup
    rw [List.flatMap_cons, List.filter_append]
    rcases List.mem_cons.mp member with rfl | later
    · have own : (rows link).filter (·.interface = key link) = rows link := by
        rw [List.filter_eq_self]
        intro row inside
        rw [keyed link row inside, decide_eq_true_eq]
      have others : (links.flatMap rows).filter (·.interface = key link) = [] :=
        filter_rows_of_ne keyed fun other present same =>
          fresh (List.mem_map.mpr ⟨other, present, same⟩)
      rw [own, others, List.append_nil]
    · have different : (rows first).filter (·.interface = key link) = [] := by
        rw [List.filter_eq_nil_iff]
        intro row inside
        rw [keyed first row inside, decide_eq_true_eq]
        exact fun same => fresh (List.mem_map.mpr ⟨link, later, same.symm⟩)
      rw [different, List.nil_append, ih nodup later]

end Filter

/-! ### The listing is that of the VLANs -/

theorem Link.Readable.rows {link : Link} (readable : link.Readable) : link.rows = link.expected.toList := by
  obtain ⟨said, alone⟩ := readable
  rw [Link.rows, said, Link.expected]
  cases tagged : link.vlan with
  | none => rfl
  | some vlan =>
    have label := link.label_of_none (alone (by rw [tagged]; rfl))
    simp [rowOf, label]

theorem rowOf_injective (interface : List Char) : Function.Injective (rowOf interface) := by
  rintro ⟨id, protocol⟩ ⟨id', protocol'⟩ same
  simp only [rowOf, Row.mk.injEq, true_and] at same
  rw [same.1, same.2]

/-- Without a printed parent the rows of the listing and the VLAN that is there stand under one name. -/
theorem Link.readable_of_alone {link : Link} (alone : link.parent = none)
    (same : link.rows = link.expected.toList) : link.Readable := by
  refine ⟨?_, fun _ => alone⟩
  apply (List.map_injective_iff.mpr (rowOf_injective link.label))
  have label := link.label_of_none alone
  rw [Link.rows] at same
  rw [same, Link.expected]
  cases link.vlan with
  | none => rfl
  | some vlan => simp [rowOf, label]

theorem Link.rows_interface (link : Link) : ∀ row ∈ link.rows, row.interface = link.label := by
  intro row member
  obtain ⟨found, -, rfl⟩ := List.mem_map.mp member
  rfl

theorem Link.expected_interface (link : Link) :
    ∀ row ∈ link.expected.toList, row.interface = link.name.chars := by
  intro row member
  obtain ⟨vlan, -, rfl⟩ := Option.map_eq_some_iff.mp (Option.mem_toList.mp member)
  rfl

/-- Where a parent is printed nothing stands under the name, and nothing is expected under the label. -/
theorem Network.readable_of_parent {network : Network} {link : Link} (member : link ∈ network.links)
    (printed : link.parent ≠ none)
    (same : network.links.flatMap Link.rows = network.links.flatMap fun link => link.expected.toList) :
    link.Readable := by
  have unnamed : ∀ other ∈ network.links, other.label ≠ link.name.chars := by
    intro other present named
    obtain ⟨alone, named⟩ := Link.label_eq_name named
    rw [List.inj_on_of_nodup_map network.nodup present member named] at alone
    exact printed alone
  have unlabelled : ∀ other ∈ network.links, other.name.chars ≠ link.label := by
    intro other present labelled
    exact printed (Link.label_eq_name labelled.symm).1
  have nothing : link.expected.toList = [] := by
    rw [← filter_rows Link.expected_interface network.nodup member, ← same]
    exact filter_rows_of_ne Link.rows_interface unnamed
  have silent : link.rows = [] := by
    rw [← filter_rows Link.rows_interface network.nodup_labels member, same]
    exact filter_rows_of_ne Link.expected_interface unlabelled
  have untagged : link.vlan = none := by simpa [Link.expected] using nothing
  refine ⟨?_, by simp [untagged]⟩
  rw [untagged]
  exact List.map_eq_nil_iff.mp silent

/-- The listing is right exactly when the lines of each interface say of a VLAN what it is, and no parent
is printed of one. -/
theorem listsVlans_iff (network : Network) :
    network.ListsVlans ↔ ∀ link ∈ network.links, link.Readable := by
  rw [Network.ListsVlans, vlanList_show, List.filterMap_eq_flatMap_toList]
  constructor
  · intro same link member
    by_cases alone : link.parent = none
    · apply Link.readable_of_alone alone
      have label := link.label_of_none alone
      calc link.rows
        _ = (network.links.flatMap Link.rows).filter (·.interface = link.label) :=
          (filter_rows Link.rows_interface network.nodup_labels member).symm
        _ = (network.links.flatMap fun link => link.expected.toList).filter
            (·.interface = link.name.chars) := by rw [same, label]
        _ = link.expected.toList := filter_rows Link.expected_interface network.nodup member
    · exact Network.readable_of_parent member alone same
  · intro readable
    exact List.flatMap_congr fun link member => (readable link member).rows

/-! ### Creation -/

/-- A creation that is reported has made the interface. -/
theorem cmdVlanCreate_created {ip : Iproute} {network after : Network} {iface vid interface parent : List Char}
    {n : ℤ} (reported : cmdVlanCreate ip network [iface, vid] = (after, .created interface parent n)) :
    ∃ link, ∃ added : ip.add network iface (subif iface vid) vid = some link,
      after = network.add link (ip.fresh added) ∧ interface = subif iface vid := by
  simp only [cmdVlanCreate] at reported
  split at reported
  · cases reported
  · split at reported
    · cases reported
    · split at reported
      · cases reported
      · rename_i link added
        obtain ⟨made, report⟩ := Prod.mk.inj reported
        cases report
        exact ⟨link, added, made.symm, rfl⟩

/-- Nothing is listed under the name of an interface of which a parent is printed. -/
theorem not_listed_of_parent {network : Network} {link : Link} (member : link ∈ network.links)
    (printed : link.parent ≠ none) : ∀ row ∈ vlanList network.show, row.interface ≠ link.name.chars := by
  rw [vlanList_show]
  intro row present named
  obtain ⟨other, inside, row'⟩ := List.mem_flatMap.mp present
  rw [other.rows_interface row row'] at named
  obtain ⟨alone, named⟩ := Link.label_eq_name named
  rw [List.inj_on_of_nodup_map network.nodup inside member named] at alone
  exact printed alone

theorem Network.delete_add {network : Network} {link : Link}
    (fresh : ∀ other ∈ network.links, other.name.chars ≠ link.name.chars) :
    ((network.add link fresh).delete link.name.chars).links = network.links := by
  rw [Network.delete, Network.add]
  simpa using fresh

/-- What a reported creation has made is never listed under its name; the deletion takes it back. -/
theorem vlans_listed_iff (ip : Iproute) (network : Network) (iface vid : List Char) :
    (network.ListsVlans ↔ ∀ link ∈ network.links, link.Readable) ∧
      (CreatesListed ip network iface vid ↔ ¬∃ after interface parent n,
        cmdVlanCreate ip network [iface, vid] = (after, .created interface parent n)) ∧
      ∀ after interface parent n,
        cmdVlanCreate ip network [iface, vid] = (after, .created interface parent n) →
          (cmdVlanDelete after [iface, vid]).1.links = network.links := by
  refine ⟨listsVlans_iff network, ?_, ?_⟩
  · constructor
    · rintro listed ⟨after, interface, parent, n, reported⟩
      obtain ⟨⟨row, member, named, -⟩, -⟩ := listed after interface parent n reported
      obtain ⟨link, added, rfl, rfl⟩ := cmdVlanCreate_created reported
      have present : link ∈ (network.add link (ip.fresh added)).links := by simp [Network.add]
      have printed : link.parent ≠ none := by
        intro alone
        have above := ip.parent added
        rw [alone] at above
        cases above
      exact not_listed_of_parent present printed row member (named.trans (ip.named added).symm)
    · intro unreported after interface parent n reported
      exact absurd ⟨after, interface, parent, n, reported⟩ unreported
  · intro after interface parent n reported
    obtain ⟨link, added, rfl, rfl⟩ := cmdVlanCreate_created reported
    rw [cmdVlanDelete]
    simp only [← ip.named added]
    exact Network.delete_add (ip.fresh added)

def eth0 : Name := ⟨"eth0".toList, by decide, List.all_eq_true.mp rfl⟩

def flags : List Char := "<BROADCAST,MULTICAST,UP,LOWER_UP> mtu 1500 state UP".toList

def address : Detail := ⟨"    link/ether 52:54:00:12:34:56 minmtu 0".toList, rfl, Lines.OneLine.literal rfl⟩

def host : Network := ⟨[⟨2, eth0, none, flags, Lines.OneLine.literal rfl, none, [address], []⟩], by simp⟩

/-- What `ip` makes of an interface that is there and of an id in digits. -/
def iproute : Iproute where
  add network iface name vid :=
    if given : (iface ≠ [] ∧ iface.all nameChar = true) ∧ (name ≠ [] ∧ name.all nameChar = true) ∧
        network.links.all (·.name.chars ≠ name) = true ∧ network.links.any (·.name.chars = iface) = true ∧
        vid ≠ [] ∧ vid.all Char.isDigit = true then
      some
        { index := network.links.length + 2
          name := ⟨name, given.2.1.1, List.all_eq_true.mp given.2.1.2⟩
          parent := some ⟨iface, given.1.1, List.all_eq_true.mp given.1.2⟩
          flags := flags
          one := Lines.OneLine.literal rfl
          vlan := some ⟨"802.1Q".toList, Nat.ofDigitChars 10 vid 0, "<REORDER_HDR>".toList,
            List.all_eq_true.mp rfl, Lines.OneLine.literal rfl⟩
          before := [address]
          after := [] }
    else none
  named := by
    intro network iface name vid link made
    split at made
    · rw [← Option.some.inj made]
    · cases made
  fresh := by
    intro network iface name vid link made
    split at made
    · next given =>
      rw [← Option.some.inj made]
      simpa using given.2.2.1
    · cases made
  parent := by
    intro network iface name vid link made
    split at made
    · rw [← Option.some.inj made]
      rfl
    · cases made

/-- The host after the creation. -/
def tagged : Network := (cmdVlanCreate iproute host ["eth0".toList, "100".toList]).1

theorem tagged_reported : cmdVlanCreate iproute host ["eth0".toList, "100".toList] =
    (tagged, .created "eth0.100".toList "eth0".toList 100) := rfl

/-- The VLAN is made and not listed. -/
theorem a_created_vlan_is_not_listed :
    tagged.links.filterMap Link.expected = [⟨"eth0.100".toList, 100, "802.1Q".toList⟩] ∧
      vlanList tagged.show = [] ∧ ¬tagged.ListsVlans ∧
      ¬CreatesListed iproute host "eth0".toList "100".toList := by
  have empty : vlanList tagged.show = [] := by
    rw [vlanList_show]
    rfl
  refine ⟨rfl, empty, ?_, ?_⟩
  · intro listed
    rw [Network.ListsVlans, empty] at listed
    cases listed
  · intro listed
    obtain ⟨⟨row, member, -⟩, -⟩ := listed _ _ _ _ tagged_reported
    rw [empty] at member
    cases member

end SysDeck.Cockpit.Vlans
