import SysDeck.Library.Numeral
import SysDeck.Library.Scan
import SysDeck.Library.Strip
import SysDeck.Web.Containers

/-! The machines of libvirt in the containers bridge: what its list keeps of the table that
`virsh list --all` prints. -/

namespace SysDeck.Web.Containers

open Firewall (trim)

variable (toLowerCase : String → String)

/-- What `virsh` answers, nothing where there is none. -/
structure Virsh where
  rc : ℤ
  stdout : String

def listLibvirt (virsh : Option Virsh) : List CtrRow :=
  match virsh with
  | none => []
  | some r =>
    if r.rc ≠ 0 then []
    else (((r.stdout.toList.splitOn '\n').map String.ofList).drop 2).filterMap (libvirtRow toLowerCase)

/-! ### The table -/

/-- A domain; one that does not run has no id. -/
structure Domain where
  id : Option ℕ
  name : List Char
  state : List Char
  named : name ≠ []
  visible : ∀ c ∈ name, Text.isBlank c = false
  stated : state ≠ []
  tight : Text.Tight state
  line : Lines.OneLine Lines.terminator state

def Domain.number (domain : Domain) : List Char :=
  match domain.id with
  | some n => Nat.toDigits 10 n
  | none => ['-']

/-- A domain in the table, with the blanks before its columns and after them. -/
structure Row where
  domain : Domain
  lead : ℕ
  gap : ℕ
  gap' : ℕ
  trail : ℕ

def blanks (n : ℕ) : List Char := List.replicate n ' '

/-- The columns without the blanks around them. -/
def Row.columns (row : Row) : List Char :=
  row.domain.number ++ (blanks (row.gap + 1) ++ (row.domain.name ++
    (blanks (row.gap' + 1) ++ row.domain.state)))

def Row.text (row : Row) : List Char := blanks row.lead ++ row.columns ++ blanks row.trail

/-- The table: two lines of its head, the rows, which begin with a blank, and blank lines. -/
structure Table where
  head : List Char
  rule : List Char
  rows : List Row
  tail : List (List Char)
  led : ∀ row ∈ rows, 0 < row.lead
  headLine : '\n' ∉ head
  ruleLine : '\n' ∉ rule
  tailBlank : ∀ line ∈ tail, ∀ c ∈ line, Text.isBlank c ∧ c ≠ '\n'

def Table.lines (table : Table) : List (List Char) :=
  table.head :: table.rule :: (table.rows.map Row.text ++ table.tail)

def Table.stdout (table : Table) : String := String.ofList (['\n'].intercalate table.lines)

/-- The class of a state. -/
def Domain.stateClass (domain : Domain) : RowState :=
  let state := (toLowerCase (String.ofList domain.state)).toList
  if "running".toList <:+: state then .running
  else if "paused".toList <:+: state then .frozen
  else .stopped

/-- The row that a domain is to have. -/
def Domain.row (domain : Domain) : CtrRow where
  id := String.ofList domain.name
  name := String.ofList domain.name
  driver := .libvirt
  vm := true
  state := domain.stateClass toLowerCase

/-! ### One line -/

variable {toLowerCase}

theorem isBlank_of_mem_blanks {n : ℕ} {c : Char} (member : c ∈ blanks n) : Text.isBlank c := by
  rw [List.eq_of_mem_replicate member]
  rfl

theorem Domain.number_ne_nil (domain : Domain) : domain.number ≠ [] := by
  unfold Domain.number
  split
  · exact Nat.toDigits_ne_nil
  · exact List.cons_ne_nil _ _

theorem Domain.number_visible (domain : Domain) : ∀ c ∈ domain.number, Text.isBlank c = false := by
  intro c member
  unfold Domain.number at member
  split at member
  · have digit := Nat.isDigit_of_mem_toDigits (by decide) (by decide) member
    exact Numeral.isBlank_of_isNumeral (Numeral.isNumeral_of_isDigit digit)
  · rw [List.mem_singleton.mp member]
    rfl

theorem Domain.number_accepted (domain : Domain) :
    domain.number = ['-'] ∨ domain.number ≠ [] ∧ domain.number.all Char.isDigit := by
  cases known : domain.id with
  | none => exact .inl (by simp [Domain.number, known])
  | some n =>
    refine .inr ⟨domain.number_ne_nil, ?_⟩
    simp only [Domain.number, known, List.all_eq_true]
    exact fun c member => Nat.isDigit_of_mem_toDigits (by decide) (by decide) member

theorem head_blanks_append {n : ℕ} (rest : List Char) :
    ∀ c ∈ (blanks (n + 1) ++ rest).head?, Text.isBlank c = true := by
  intro c first
  obtain rfl : ' ' = c := by simpa [blanks, List.replicate_succ] using first
  rfl

/-- The columns are read back. -/
theorem libvirtFields_columns (row : Row) :
    libvirtFields row.columns = some (row.domain.name, row.domain.state) := by
  have stops {n : ℕ} (rest : List Char) :
      ∀ c ∈ (blanks (n + 1) ++ rest).head?, (!Text.isBlank c) = false := by
    intro c first
    rw [head_blanks_append rest c first, Bool.not_true]
  have name_first : ∀ rest, ∀ c ∈ (row.domain.name ++ rest).head?, Text.isBlank c = false := by
    intro rest c first
    rw [List.head?_append_of_ne_nil _ row.domain.named] at first
    exact row.domain.visible c (List.mem_of_mem_head? first)
  have parts : row.columns = row.domain.number ++ (blanks (row.gap + 1) ++ (row.domain.name ++
      (blanks (row.gap' + 1) ++ row.domain.state))) := rfl
  obtain ⟨number, afterNumber⟩ := Scan.takeWhile_of_split (p := fun c => !Text.isBlank c) parts
    (fun c member => by simp [row.domain.number_visible c member]) (stops _)
  obtain ⟨-, beforeName⟩ := Scan.takeWhile_of_split (p := Text.isBlank) rfl
    (fun c member => isBlank_of_mem_blanks (n := row.gap + 1) member)
    (name_first (blanks (row.gap' + 1) ++ row.domain.state))
  have rest : row.domain.name ++ (blanks (row.gap' + 1) ++ row.domain.state) =
      row.domain.name ++ (blanks (row.gap' + 1) ++ row.domain.state) := rfl
  obtain ⟨name, afterName⟩ := Scan.takeWhile_of_split (p := fun c => !Text.isBlank c) rest
    (fun c member => by simp [row.domain.visible c member]) (stops row.domain.state)
  obtain ⟨-, beforeState⟩ := Scan.takeWhile_of_split (p := Text.isBlank) rfl
    (fun c member => isBlank_of_mem_blanks (n := row.gap' + 1) member) row.domain.tight.1
  have single : row.domain.state.all (fun c => !Lines.terminator c) = true :=
    List.all_eq_true.mpr fun c member => by simp [row.domain.line c member]
  unfold libvirtFields
  simp only [number, afterNumber, beforeName, name, afterName, beforeState]
  rw [if_pos ⟨row.domain.number_accepted, row.domain.named, single⟩]

theorem Row.columns_ne_nil (row : Row) : row.columns ≠ [] := by
  simp [Row.columns, row.domain.number_ne_nil]

theorem Row.trim_text (row : Row) : Text.trim row.text = row.columns := by
  have tight : Text.Tight row.columns := by
    refine Text.tight_append row.domain.number_ne_nil (by simp [blanks]) ?_ ?_
    · exact fun c first => row.domain.number_visible c (List.mem_of_mem_head? first)
    · intro c last
      refine row.domain.tight.2 c ?_
      simpa [List.getLast?_append, List.getLast?_eq_some_getLast row.domain.stated] using last
  exact Strip.stripBy_of_blanks (fun c member => isBlank_of_mem_blanks member)
    (fun c member => isBlank_of_mem_blanks member) tight.1 tight.2 row.columns_ne_nil

/-- A row is read where it does not begin with a blank, and passed over where it does. -/
theorem libvirtRow_text (row : Row) :
    libvirtRow toLowerCase (String.ofList row.text) =
      if row.lead = 0 then some (row.domain.row toLowerCase) else none := by
  have trimmed : trim (String.ofList row.text) ≠ "" := by
    rw [trim, String.toList_ofList, row.trim_text]
    simpa using row.columns_ne_nil
  have chars : (String.ofList row.text).toList = row.text := String.toList_ofList
  unfold libvirtRow
  rw [chars]
  cases lead : row.lead with
  | zero =>
    have begins : ¬ " ".toList <+: row.text := by
      obtain ⟨c, rest, number⟩ := List.exists_cons_of_ne_nil row.domain.number_ne_nil
      have visible := row.domain.number_visible c (number ▸ List.mem_cons_self)
      simp only [Row.text, lead, blanks, List.replicate_zero, List.nil_append, Row.columns, number,
        List.cons_append]
      rintro ⟨rest', same⟩
      obtain rfl : ' ' = c := (List.cons.inj same).1
      cases visible
    rw [if_neg (not_or.mpr ⟨trimmed, begins⟩), row.trim_text, libvirtFields_columns, if_pos rfl]
    rfl
  | succ lead' =>
    have begins : " ".toList <+: row.text := by
      simp [Row.text, lead, blanks, List.replicate_succ]
    rw [if_pos (.inr begins), if_neg (Nat.succ_ne_zero _)]

theorem libvirtRow_blank {line : List Char} (blank : ∀ c ∈ line, Text.isBlank c) :
    libvirtRow toLowerCase (String.ofList line) = none := by
  have trimmed : trim (String.ofList line) = "" := by
    rw [trim, String.toList_ofList]
    exact congrArg String.ofList (Strip.stripBy_eq_nil_iff.mpr blank)
  rw [libvirtRow, if_pos (.inl trimmed)]

/-! ### The list -/

theorem Row.text_line (row : Row) : '\n' ∉ row.text := by
  have spaces {n : ℕ} : '\n' ∉ blanks n := fun member => by
    cases List.eq_of_mem_replicate member
  have number : '\n' ∉ row.domain.number := fun member => by
    cases row.domain.number_visible _ member
  have name : '\n' ∉ row.domain.name := fun member => by
    cases row.domain.visible _ member
  have state : '\n' ∉ row.domain.state := fun member => by
    cases row.domain.line _ member
  simp [Row.text, Row.columns, spaces, number, name, state]

theorem Table.splitOn_stdout (table : Table) :
    table.stdout.toList.splitOn '\n' = table.lines := by
  rw [Table.stdout, String.toList_ofList]
  refine List.splitOn_intercalate '\n' ?_ (List.cons_ne_nil _ _)
  intro line member
  rcases List.mem_cons.mp member with rfl | member
  · exact table.headLine
  rcases List.mem_cons.mp member with rfl | member
  · exact table.ruleLine
  rcases List.mem_append.mp member with rows | tail
  · obtain ⟨row, -, rfl⟩ := List.mem_map.mp rows
    exact row.text_line
  · exact fun ends => (table.tailBlank line tail _ ends).2 rfl

/-- Every row begins with a blank, so that none is read. -/
theorem listLibvirt_table (table : Table) : listLibvirt toLowerCase (some ⟨0, table.stdout⟩) = [] := by
  rw [listLibvirt, if_neg (by simp), table.splitOn_stdout, Table.lines, List.map_cons, List.map_cons,
    List.drop_succ_cons, List.drop_succ_cons, List.drop_zero, List.filterMap_eq_nil_iff]
  intro line member
  obtain ⟨chars, inside, rfl⟩ := List.mem_map.mp member
  rcases List.mem_append.mp inside with rows | tail
  · obtain ⟨row, listed, rfl⟩ := List.mem_map.mp rows
    rw [libvirtRow_text, if_neg (Nat.ne_of_gt (table.led row listed))]
  · exact libvirtRow_blank fun c here => (table.tailBlank chars tail c here).1

/-- The list is complete just when there is no machine. -/
theorem listLibvirt_complete_iff (toLowerCase : String → String) (table : Table) :
    listLibvirt toLowerCase (some ⟨0, table.stdout⟩) =
      table.rows.map (fun row => row.domain.row toLowerCase) ↔ table.rows = [] := by
  rw [listLibvirt_table, eq_comm, List.map_eq_nil_iff]

/-- The machine of the comment in the source. -/
def archTest : Domain where
  id := some 1
  name := "arch-test".toList
  state := "running".toList
  named := by decide +kernel
  visible := List.forall_mem_iff_getElem.mpr (by decide +kernel)
  stated := by decide +kernel
  tight := Text.tight_of_visible (List.forall_mem_iff_getElem.mpr (by decide +kernel))
  line := List.forall_mem_iff_getElem.mpr (by decide +kernel)

/-- Its table, as `virsh` prints it. -/
def archTable : Table where
  head := " Id   Name        State".toList
  rule := "---------------------------".toList
  rows := [⟨archTest, 1, 3, 2, 0⟩]
  tail := [[], []]
  led := by decide +kernel
  headLine := by decide +kernel
  ruleLine := by decide +kernel
  tailBlank := by simp

example : archTable.stdout =
    " Id   Name        State\n---------------------------\n 1    arch-test   running\n\n" := by
  decide +kernel

/-- The running machine is missing. -/
theorem archTest_missing :
    listLibvirt asciiLower (some ⟨0, archTable.stdout⟩) ≠
      archTable.rows.map fun row => row.domain.row asciiLower := by
  decide +kernel

end SysDeck.Web.Containers
