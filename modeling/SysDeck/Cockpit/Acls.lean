import Mathlib.Tactic.IntervalCases
import SysDeck.Cockpit.PackageText
import SysDeck.Library.Text

/-! The access control lists of a path, as `getfacl` prints them and as the policy bridge reads them. -/

namespace SysDeck.Cockpit.Acls

open Lines (OneLine)
open Packages (lineEnd splitlines strip)
open PackageFiles (unlines)

/-! ### What is printed -/

inductive Kind where
  | user | group | mask | other
  deriving DecidableEq

def Kind.text : Kind → List Char
  | .user => "user".toList
  | .group => "group".toList
  | .mask => "mask".toList
  | .other => "other".toList

structure Perms where
  read : Bool
  write : Bool
  execute : Bool
  deriving DecidableEq

def Perms.text (perms : Perms) : List Char :=
  [if perms.read then 'r' else '-', if perms.write then 'w' else '-', if perms.execute then 'x' else '-']

def Perms.meet (perms mask : Perms) : Perms :=
  ⟨perms.read && mask.read, perms.write && mask.write, perms.execute && mask.execute⟩

/-- An entry; one without a qualifier has an empty name. -/
structure Entry where
  default : Bool
  kind : Kind
  name : List Char
  perms : Perms
  deriving DecidableEq

/-- The characters of a name that are printed in octal. -/
def escaped (c : Char) : Bool :=
  c = ':' || c = ',' || c = ' ' || c = '\t' || c = '\n' || c = '\r' || c = '\\'

def octal (n : ℕ) : Char := Char.ofNat (48 + n % 8)

def quoteChar (c : Char) : List Char :=
  if escaped c then ['\\', octal (c.toNat / 64), octal (c.toNat / 8), octal c.toNat] else [c]

def quote (name : List Char) : List Char := name.flatMap quoteChar

/-- The mask applies to named users and to groups. -/
def Entry.masked (entry : Entry) : Bool :=
  entry.kind = .group || entry.kind = .user && !entry.name.isEmpty

def maskOf (acl : List Entry) (default : Bool) : Option Perms :=
  (acl.find? fun entry => entry.default = default && entry.kind = .mask).map (·.perms)

/-- The permissions that the mask leaves, where it takes any away. -/
def effective (acl : List Entry) (entry : Entry) : Option Perms :=
  ((maskOf acl entry.default).map entry.perms.meet).filter fun left => entry.masked && left ≠ entry.perms

/-- The line of an entry; what the mask leaves is a comment, after some tabs. -/
def Entry.line (acl : List Entry) (indent : Entry → ℕ) (entry : Entry) : List Char :=
  (if entry.default then "default:".toList else []) ++ entry.kind.text ++ ':' :: quote entry.name ++
    ':' :: entry.perms.text ++
    match effective acl entry with
    | none => []
    | some left => List.replicate (indent entry + 1) '\t' ++ "#effective:".toList ++ left.text

/-- A line about the file, the owner or the group. -/
structure Comment where
  chars : List Char
  mark : chars.head? = some '#'
  one : OneLine lineEnd chars

/-- The output of `getfacl -p`. -/
def rendering (comments : List Comment) (indent : Entry → ℕ) (acl : List Entry) : List Char :=
  unlines (comments.map Comment.chars ++ acl.map (·.line acl indent) ++ [[]])

/-! ### What is read -/

structure Parsed where
  raw : List Char
  default : Bool
  kind : List Char
  name : List Char
  perms : List Char

/-- What is read of a line that is no comment; the kind is the second part, whether or not the first one is
`default`. -/
def entryOf (line : List Char) : Option Parsed :=
  let parts := line.splitOn ':'
  if 3 ≤ parts.length then
    some ⟨line, parts.headD [] = "default".toList, parts.getD 1 [],
      if 3 < parts.length then parts.getD 2 [] else [], parts.getLastD []⟩
  else none

def isComment (line : List Char) : Bool := line.isEmpty || "#".toList.isPrefixOf line

/-- What a comment says about the owner or the group. -/
def baseOf (line : List Char) : List Char :=
  let value := strip ((line.dropWhile (· ≠ ':')).drop 1)
  if "# file:".toList.isPrefixOf line then []
  else if "# owner:".toList.isPrefixOf line then "owner=".toList ++ value ++ [' ']
  else if "# group:".toList.isPrefixOf line then "group=".toList ++ value ++ [' ']
  else []

def parseEntries (out : List Char) : List Parsed :=
  (splitlines (String.ofList out)).filterMap fun line => if isComment line then none else entryOf line

/-- What the command meets: whether `getfacl` is there, which paths exist, and what it prints. -/
structure Host where
  have_ : Bool
  exists_ : List Char → Bool
  getfacl : List Char → List Char × List Char

inductive Report where
  | error (text : List Char)
  | unavailable (reason install : List Char)
  | available (path : List Char) (entries : List Parsed) (base raw stderr : List Char)

/-- `cmd_acl_list` -/
def cmdAclList (host : Host) : List (List Char) → Report
  | [] => .error "path required".toList
  | path :: _ =>
    if !host.have_ then
      .unavailable "getfacl not installed".toList
        "pacman -S acl  # Arch\\napart install acl  # Debian".toList
    else if !host.exists_ path then .error ("path ".toList ++ path ++ " does not exist".toList)
    else
      let (out, err) := host.getfacl path
      let comments := (splitlines (String.ofList out)).filter isComment
      .available path (parseEntries out) (strip (comments.flatMap baseOf)) out (strip err)

/-- What is said about an entry: whether it is a default, its kind, its name and its permissions. -/
abbrev Facts := Bool × List Char × List Char × List Char

def Parsed.facts (parsed : Parsed) : Facts := (parsed.default, parsed.kind, parsed.name, parsed.perms)

def Entry.facts (entry : Entry) : Facts := (entry.default, entry.kind.text, entry.name, entry.perms.text)

def Report.facts : Report → Option (List Facts)
  | .available _ entries _ _ _ => some (entries.map Parsed.facts)
  | _ => none

/-- A host that has `getfacl`, whose answer on a path is the rendering of the list. -/
def answering (comments : List Comment) (indent : Entry → ℕ) (acl : List Entry) : Host :=
  ⟨true, fun _ => true, fun _ => (rendering comments indent acl, [])⟩

/-! ### The parts of a line -/

/-- A name that is printed as it is, on one line. -/
def Plain (name : List Char) : Prop := ∀ c ∈ name, escaped c = false ∧ lineEnd c = false

theorem quote_cons (c : Char) (name : List Char) : quote (c :: name) = quoteChar c ++ quote name :=
  List.flatMap_cons

theorem length_quote (name : List Char) : name.length ≤ (quote name).length := by
  induction name with
  | nil => exact Nat.zero_le _
  | cons c name ih =>
    have own : 1 ≤ (quoteChar c).length := by
      unfold quoteChar
      split
      · exact Nat.succ_le_succ (Nat.zero_le _)
      · exact Nat.le_refl 1
    rw [quote_cons, List.length_append, List.length_cons]
    omega

theorem quote_eq_iff {name : List Char} : quote name = name ↔ ∀ c ∈ name, escaped c = false := by
  induction name with
  | nil => exact iff_of_true rfl (List.forall_mem_nil _)
  | cons c name ih =>
    rw [quote_cons, List.forall_mem_cons]
    cases special : escaped c with
    | false => simp [quoteChar, special, ih]
    | true =>
      refine iff_of_false (fun same => ?_) fun plain => absurd plain.1 Bool.true_eq_false.mp
      have lengths := congrArg List.length same
      have rest := length_quote name
      simp only [quoteChar, special, if_true, List.length_append, List.length_cons, List.length_nil] at lengths
      omega

theorem mem_quote {c : Char} {name : List Char} (member : c ∈ name) (plain : escaped c = false) :
    c ∈ quote name :=
  List.mem_flatMap.mpr ⟨c, member, by simp [quoteChar, plain]⟩

theorem octal_not_special (n : ℕ) : octal n ≠ ':' ∧ lineEnd (octal n) = false := by
  have less : n % 8 < 8 := Nat.mod_lt n (by decide)
  unfold octal
  generalize n % 8 = digit at less
  interval_cases digit <;> decide

/-- A character of a quoted name is one of the name, or takes part in an escape. -/
theorem of_mem_quote {d : Char} {name : List Char} (member : d ∈ quote name) :
    d ∈ name ∧ escaped d = false ∨ d ≠ ':' ∧ lineEnd d = false := by
  obtain ⟨c, inside, here⟩ := List.mem_flatMap.mp member
  unfold quoteChar at here
  split at here
  · right
    simp only [List.mem_cons, List.not_mem_nil, or_false] at here
    rcases here with rfl | rfl | rfl | rfl
    · decide
    all_goals exact octal_not_special _
  next plain =>
    left
    rw [List.mem_singleton.mp here]
    exact ⟨inside, Bool.eq_false_iff.mpr plain⟩

theorem colon_not_mem_quote (name : List Char) : ':' ∉ quote name := by
  intro member
  rcases of_mem_quote member with ⟨-, plain⟩ | ⟨other, -⟩
  · cases plain
  · exact other rfl

/-- The letters of the format, apart from the colon. -/
def alphabet : List Char := "default user group mask other rwx-\t#effective".toList

theorem mem_alphabet {text : List Char} (all : text.all alphabet.contains = true) :
    ∀ c ∈ text, c ∈ alphabet := by
  intro c member
  simpa using List.all_eq_true.mp all c member

theorem Kind.alphabet (kind : Kind) : kind.text.all alphabet.contains = true := by
  cases kind <;> rfl

theorem Perms.alphabet (perms : Perms) : perms.text.all alphabet.contains = true := by
  obtain ⟨read, write, execute⟩ := perms
  revert read write execute
  decide

theorem Perms.text_inj {first second : Perms} (same : first.text = second.text) : first = second := by
  obtain ⟨read, write, execute⟩ := first
  obtain ⟨read', write', execute'⟩ := second
  revert read write execute read' write' execute'
  decide

/-- The parts of a line between its colons. -/
def Entry.parts (acl : List Entry) (indent : Entry → ℕ) (entry : Entry) : List (List Char) :=
  (if entry.default then ["default".toList] else []) ++ [entry.kind.text, quote entry.name] ++
    match effective acl entry with
    | none => [entry.perms.text]
    | some left =>
      [entry.perms.text ++ List.replicate (indent entry + 1) '\t' ++ "#effective".toList, left.text]

section Line

variable (acl : List Entry) (indent : Entry → ℕ) (entry : Entry)

theorem Entry.parts_ne_nil : entry.parts acl indent ≠ [] := by
  have kind : entry.kind.text ∈ [entry.kind.text, quote entry.name] := List.mem_cons_self
  exact List.ne_nil_of_mem (List.mem_append_left _ (List.mem_append_right _ kind))

theorem Entry.line_eq : entry.line acl indent = List.intercalate [':'] (entry.parts acl indent) := by
  unfold Entry.line Entry.parts
  cases entry.default <;> cases effective acl entry <;> simp [List.intercalate]

/-- The parts are of the letters of the format, apart from the name. -/
theorem Entry.forall_parts {holds : Char → Prop} (letters : ∀ c ∈ alphabet, holds c)
    (named : ∀ c ∈ quote entry.name, holds c) : ∀ part ∈ entry.parts acl indent, ∀ c ∈ part, holds c := by
  have comment : ∀ c ∈ List.replicate (indent entry + 1) '\t' ++ "#effective".toList, holds c := by
    intro c member
    rcases List.mem_append.mp member with tab | member
    · rw [(List.mem_replicate.mp tab).2]
      exact letters _ (mem_alphabet rfl _ (List.mem_singleton_self '\t'))
    · exact letters c (mem_alphabet rfl c member)
  have perms (perms : Perms) : ∀ c ∈ perms.text, holds c := fun c member =>
    letters c (mem_alphabet perms.alphabet c member)
  intro part member
  unfold Entry.parts at member
  rcases List.mem_append.mp member with member | last
  · rcases List.mem_append.mp member with first | middle
    · split at first
      · rw [List.mem_singleton.mp first]
        exact fun c member => letters c (mem_alphabet rfl c member)
      · cases first
    · simp only [List.mem_cons, List.not_mem_nil, or_false] at middle
      rcases middle with rfl | rfl
      · exact fun c member => letters c (mem_alphabet entry.kind.alphabet c member)
      · exact named
  · split at last
    · rw [List.mem_singleton.mp last]
      exact perms entry.perms
    next left _ =>
      simp only [List.mem_cons, List.not_mem_nil, or_false] at last
      rcases last with rfl | rfl
      · rw [List.append_assoc]
        exact List.forall_mem_append.mpr ⟨perms entry.perms, comment⟩
      · exact perms left

theorem Entry.colon_free : ∀ part ∈ entry.parts acl indent, ':' ∉ part := by
  have letters : ∀ c ∈ alphabet, c ≠ ':' := fun c member same => by
    rw [same] at member
    exact absurd member (by decide)
  have named : ∀ c ∈ quote entry.name, c ≠ ':' := fun c member same =>
    colon_not_mem_quote entry.name (same ▸ member)
  exact fun part member inside => entry.forall_parts acl indent letters named part member ':' inside rfl

theorem Entry.splitOn_line : (entry.line acl indent).splitOn ':' = entry.parts acl indent := by
  rw [Entry.line_eq]
  exact List.splitOn_intercalate ':' (entry.colon_free acl indent) (entry.parts_ne_nil acl indent)

theorem Entry.not_comment : isComment (entry.line acl indent) = false := by
  unfold Entry.line
  cases entry.default <;> cases entry.kind <;> rfl

/-- What is read of the line of an entry. -/
def Entry.parsed : Parsed :=
  let parts := entry.parts acl indent
  ⟨entry.line acl indent, parts.headD [] = "default".toList, parts.getD 1 [],
    if 3 < parts.length then parts.getD 2 [] else [], parts.getLastD []⟩

theorem Entry.entryOf_line : entryOf (entry.line acl indent) = some (entry.parsed acl indent) := by
  unfold entryOf Entry.parsed
  rw [entry.splitOn_line]
  refine if_pos ?_
  unfold Entry.parts
  cases entry.default <;> cases effective acl entry <;> simp

theorem Entry.kind_ne_default : entry.kind.text ≠ "default".toList := by
  cases entry.kind <;> decide

/-- The hash of a comment is in no name of a kind. -/
theorem Entry.comment_ne_kind {text : List Char} (member : '#' ∈ text) : quote text ≠ entry.kind.text := by
  intro same
  have inside := mem_quote member (by decide)
  rw [same] at inside
  revert inside
  cases entry.kind <;> decide

/-- The reading of a line is right just for a default entry, of a name that is printed as it is, that the
mask leaves alone. -/
theorem Entry.facts_iff : (entry.parsed acl indent).facts = entry.facts ↔
    entry.default = true ∧ effective acl entry = none ∧ quote entry.name = entry.name := by
  have other := entry.kind_ne_default
  unfold Entry.parsed Entry.parts Parsed.facts Entry.facts
  cases default : entry.default with
  | false =>
    refine iff_of_false (fun same => ?_) (by simp)
    cases cut : effective acl entry with
    | none =>
      simp only [cut, Bool.false_eq_true, if_false] at same
      have name : [] = entry.name := congrArg (·.2.2.1) same
      have kind : quote entry.name = entry.kind.text := congrArg (·.2.1) same
      rw [← name] at kind
      revert kind
      cases entry.kind <;> decide
    | some left =>
      simp only [cut, Bool.false_eq_true, if_false] at same
      have name : entry.perms.text ++ List.replicate (indent entry + 1) '\t' ++ "#effective".toList =
          entry.name := congrArg (·.2.2.1) same
      have kind : quote entry.name = entry.kind.text := congrArg (·.2.1) same
      exact entry.comment_ne_kind (by simp [← name]) kind
  | true =>
    cases cut : effective acl entry with
    | none => simp
    | some left =>
      refine iff_of_false (fun same => ?_) (by simp)
      simp only [if_true] at same
      have perms : left.text = entry.perms.text := congrArg (·.2.2.2) same
      obtain ⟨-, changed⟩ := Option.filter_eq_some_iff.mp cut
      simp [Perms.text_inj perms] at changed

end Line

/-! ### The list -/

theorem Entry.oneLine (acl : List Entry) (indent : Entry → ℕ) (entry : Entry)
    (one : OneLine lineEnd (quote entry.name)) : OneLine lineEnd (entry.line acl indent) := by
  have letters : ∀ c ∈ alphabet, lineEnd c = false := fun c member => by
    have all : alphabet.all (fun c => !lineEnd c) = true := rfl
    simpa using List.all_eq_true.mp all c member
  intro c member
  have parted : c = ':' ∨ ∃ part ∈ (entry.line acl indent).splitOn ':', c ∈ part :=
    Text.mem_part_of_mem member
  rcases parted with rfl | ⟨part, inside, here⟩
  · rfl
  · rw [entry.splitOn_line] at inside
    exact entry.forall_parts acl indent letters one part inside c here

theorem oneLine_quote_iff {name : List Char} (plain : quote name = name) :
    OneLine lineEnd (quote name) ↔ Plain name := by
  rw [plain]
  constructor
  · exact fun one c member => ⟨quote_eq_iff.mp plain c member, one c member⟩
  · exact fun all c member => (all c member).2

/-- The entries are read line by line where no name breaks a line. -/
theorem parseEntries_rendering (comments : List Comment) (indent : Entry → ℕ) {acl : List Entry}
    (one : ∀ entry ∈ acl, OneLine lineEnd (quote entry.name)) :
    parseEntries (rendering comments indent acl) = acl.map (·.parsed acl indent) := by
  have lines : ∀ line ∈ comments.map Comment.chars ++ acl.map (·.line acl indent) ++ [[]],
      OneLine lineEnd line := by
    intro line member
    simp only [List.mem_append, List.mem_map, List.mem_singleton] at member
    rcases member with (⟨comment, -, rfl⟩ | ⟨entry, member, rfl⟩) | rfl
    · exact comment.one
    · exact entry.oneLine acl indent (one entry member)
    · exact List.forall_mem_nil _
  have skipped : (comments.map Comment.chars).filterMap
      (fun line => if isComment line then none else entryOf line) = [] := by
    rw [List.filterMap_eq_nil_iff]
    intro line member
    obtain ⟨comment, -, rfl⟩ := List.mem_map.mp member
    have marked : isComment comment.chars = true := by
      obtain ⟨rest, whole⟩ := List.head?_eq_some_iff.mp comment.mark
      rw [whole]
      rfl
    exact if_pos marked
  have read : (acl.map (·.line acl indent)).filterMap
      (fun line => if isComment line then none else entryOf line) = acl.map (·.parsed acl indent) := by
    rw [List.filterMap_map, ← List.filterMap_eq_map]
    refine List.filterMap_congr fun entry _ => ?_
    rw [Function.comp_apply, entry.not_comment, if_neg Bool.false_ne_true, entry.entryOf_line]
    rfl
  rw [parseEntries, rendering, PackageFiles.splitlines_unlines lines, List.filterMap_append,
    List.filterMap_append, skipped, read]
  simp [isComment]

/-- What is read of a name has no end of a line. -/
theorem name_oneLine {out : List Char} {parsed : Parsed} (member : parsed ∈ parseEntries out) :
    OneLine lineEnd parsed.name := by
  obtain ⟨line, inside, read⟩ := List.mem_filterMap.mp member
  split at read
  · cases read
  · unfold entryOf at read
    dsimp only at read
    split at read
    · rw [← Option.some.inj read]
      have one := PackageFiles.oneLine_of_mem_splitlines inside
      intro c here
      dsimp only at here
      split at here
      · rw [List.getD_eq_getElem?_getD] at here
        cases found : (line.splitOn ':')[2]? with
        | none =>
          rw [found] at here
          cases here
        | some part =>
          rw [found] at here
          exact one c (Text.mem_of_mem_part (List.mem_of_getElem? found) here)
      · cases here
    · cases read

/-- Reading what is printed of a list gives the list just where every entry is a default one, of a name
that is printed as it is on one line, and the mask leaves it alone. -/
theorem acl_list_inverts_iff (comments : List Comment) (indent : Entry → ℕ) (acl : List Entry)
    (path : List Char) :
    (cmdAclList (answering comments indent acl) [path]).facts = some (acl.map Entry.facts) ↔
      ∀ entry ∈ acl, entry.default = true ∧ effective acl entry = none ∧ Plain entry.name := by
  change some ((parseEntries (rendering comments indent acl)).map Parsed.facts) = _ ↔ _
  rw [Option.some.injEq]
  constructor
  · intro same
    have one : ∀ entry ∈ acl, OneLine lineEnd entry.name := by
      intro entry member
      have listed : entry.facts ∈ (parseEntries (rendering comments indent acl)).map Parsed.facts := by
        rw [same]
        exact List.mem_map_of_mem member
      obtain ⟨parsed, read, facts⟩ := List.mem_map.mp listed
      have name : parsed.name = entry.name := congrArg (·.2.2.1) facts
      rw [← name]
      exact name_oneLine read
    have quoted : ∀ entry ∈ acl, OneLine lineEnd (quote entry.name) := by
      intro entry member c here
      rcases of_mem_quote here with ⟨inside, -⟩ | ⟨-, other⟩
      · exact one entry member c inside
      · exact other
    rw [parseEntries_rendering comments indent quoted, List.map_map, List.map_inj_left] at same
    intro entry member
    obtain ⟨default, uncut, plain⟩ := (entry.facts_iff acl indent).mp (same entry member)
    exact ⟨default, uncut, (oneLine_quote_iff plain).mp (quoted entry member)⟩
  · intro good
    have plain : ∀ entry ∈ acl, quote entry.name = entry.name := fun entry member =>
      quote_eq_iff.mpr fun c here => ((good entry member).2.2 c here).1
    rw [parseEntries_rendering comments indent fun entry member =>
      (oneLine_quote_iff (plain entry member)).mpr (good entry member).2.2, List.map_map,
      List.map_inj_left]
    intro entry member
    obtain ⟨default, uncut, -⟩ := good entry member
    exact (entry.facts_iff acl indent).mpr ⟨default, uncut, plain entry member⟩

/-- The entry of a file's owner. -/
def ownerEntry : Entry := ⟨false, .user, [], ⟨true, true, true⟩⟩

/-- `user::rwx` is read as an entry of no kind. -/
theorem an_access_entry_loses_its_kind :
    (cmdAclList (answering [] (fun _ => 0) [ownerEntry]) ["/srv".toList]).facts ≠
      some [ownerEntry.facts] := by
  change some ((parseEntries (rendering [] (fun _ => 0) [ownerEntry])).map Parsed.facts) ≠ _
  have one : ∀ entry ∈ [ownerEntry], OneLine lineEnd (quote entry.name) := by
    intro entry member
    rw [List.mem_singleton.mp member]
    exact List.forall_mem_nil _
  rw [parseEntries_rendering [] _ one]
  decide

end SysDeck.Cockpit.Acls
