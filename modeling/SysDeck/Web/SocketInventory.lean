import SysDeck.Library.Fields
import SysDeck.Library.Scan
import SysDeck.Web.ProcNet

/-! The listening sockets of a host: as `ss -H -tlnp` and the tables of /proc/net print them, and as the
services bridge reads either. -/

namespace SysDeck.Web.SocketInventory

open Lines (OneLine)
open ProcNet (Address decodeHexAddr)
open Scan (fields literal many1 search)
open Text (isBlank)

/-! ### What is printed -/

def visible (c : Char) : Bool := !isBlank c

/-- The name of the interface that a socket is bound to. -/
structure Zone where
  chars : List Char
  plain : ∀ c ∈ chars, visible c = true ∧ c ≠ ':'

/-- How an IPv6 address is written: `inet_ntop`. -/
structure Ntop where
  text : BitVec 128 → List Char
  plain : ∀ bits, ∀ c ∈ text bits, (Hex.value? c).isSome = true ∨ c = ':' ∨ c = '.'
  colon : ∀ bits, ':' ∈ text bits

/-- The local address of a socket: of IPv4, the wildcard of both, or of IPv6. -/
inductive Place where
  | v4 (bits : BitVec 32) (zone : Option Zone)
  | dual (zone : Option Zone)
  | v6 (bits : BitVec 128) (zone : Option Zone)

structure Socket where
  place : Place
  port : BitVec 16

def zoneText : Option Zone → List Char
  | none => []
  | some zone => '%' :: zone.chars

/-- The address before the colon and the port. -/
def Place.shown (ntop : Ntop) : Place → List Char
  | .v4 bits zone => (Address.v4 bits).text ++ zoneText zone
  | .dual zone => '*' :: zoneText zone
  | .v6 bits zone => '[' :: (ntop.text bits ++ ']' :: zoneText zone)

def Socket.shown (ntop : Ntop) (socket : Socket) : List Char :=
  socket.place.shown ntop ++ ':' :: Nat.toDigits 10 socket.port.toNat

def blanks (gap : ℕ) : List Char := List.replicate gap ' '

/-- A line of columns, each with a gap before it. -/
def columns (indent : ℕ) (first : List Char) (cells : List (ℕ × List Char)) (rest : List Char) : List Char :=
  blanks indent ++ (first ++ (cells.flatMap fun cell => ' ' :: (blanks cell.1 ++ cell.2)) ++ ' ' :: rest)

/-- A line of `ss`: after the local address the peer's and the processes. -/
structure Shown where
  socket : Socket
  received : ℕ
  sent : ℕ
  gaps : ℕ × ℕ × ℕ
  rest : List Char
  one : '\n' ∉ rest

def Shown.line (ntop : Ntop) (shown : Shown) : List Char :=
  columns 0 "LISTEN".toList [(shown.gaps.1, Nat.toDigits 10 shown.received),
    (shown.gaps.2.1, Nat.toDigits 10 shown.sent), (shown.gaps.2.2, shown.socket.shown ntop)] shown.rest

structure Word where
  chars : List Char
  begun : chars ≠ []
  plain : ∀ c ∈ chars, visible c = true

/-- A line of a table in /proc/net; the socket need not be listening. -/
structure Entry where
  index : ℕ
  indent : ℕ
  socket : Socket
  remote : Word
  state : BitVec 8
  queues : Word
  timer : Word
  retransmits : Word
  uid : ℕ × Word
  timeout : ℕ × Word
  inode : Word
  rest : List Char
  one : '\n' ∉ rest

/-- `TCP_LISTEN` -/
def Entry.listens (entry : Entry) : Bool := entry.state = 10#8

def Place.address : Place → Address
  | .v4 bits _ => .v4 bits
  | .dual _ => .v6 0
  | .v6 bits _ => .v6 bits

/-- The address and the port, `%08X:%04X`. -/
def Socket.printed (socket : Socket) : List Char :=
  socket.place.address.printed ++ ':' :: Hex.printed 4 socket.port.toNat

def Entry.line (entry : Entry) : List Char :=
  columns entry.indent (Nat.toDigits 10 entry.index ++ [':']) [(0, entry.socket.printed), (0, entry.remote.chars),
    (0, Hex.printed 2 entry.state.toNat), (0, entry.queues.chars), (0, entry.timer.chars),
    (0, entry.retransmits.chars), (entry.uid.1, entry.uid.2.chars), (entry.timeout.1, entry.timeout.2.chars),
    (0, entry.inode.chars)] entry.rest

def lines (text : List (List Char)) : List Char := text.flatMap fun line => line ++ ['\n']

def Place.isV6 : Place → Bool
  | .v4 _ _ => false
  | .dual _ => true
  | .v6 _ _ => true

/-- A host: the lines of `ss` and those of the two tables, in any orders, are of the same sockets. -/
structure Host where
  shown : List Shown
  header : List Char
  one : '\n' ∉ header
  tcp : List Entry
  tcp6 : List Entry
  v4 : ∀ entry ∈ tcp, entry.socket.place.isV6 = false
  v6 : ∀ entry ∈ tcp6, entry.socket.place.isV6 = true
  same : (shown.map Shown.socket).Perm (((tcp ++ tcp6).filter Entry.listens).map Entry.socket)

/-- `ss -H -tlnp` -/
def Host.ss (ntop : Ntop) (host : Host) : List Char := lines (host.shown.map (Shown.line ntop))

/-- A table, after its header. -/
def Host.table (host : Host) (entries : List Entry) : List Char := lines (host.header :: entries.map Entry.line)

/-! ### What is read -/

inductive Proto where
  | tcp
  | tcp6
  deriving DecidableEq

/-- A row; a port that is not a number is none. -/
structure SocketRow where
  port : Option ℤ
  proto : Proto
  addr : List Char
  pid : Option ℕ
  process : Option (List Char)

/-- `:([0-9]+)$` -/
def portAtEnd {α : Type} (found : List Char → α) (text : List Char) : Option α :=
  literal [':'] (many1 Char.isDigit fun port rest => if rest = [] then some (found port) else none) text

/-- `^(?:\[([^\]]+)\]|([^:]+)):([0-9]+)$` -/
def matchLocal (text : List Char) : Option (Option (List Char) × Option (List Char) × List Char) :=
  (literal ['['] (many1 (· ≠ ']') fun addr rest =>
    literal [']'] (portAtEnd fun port => (some addr, none, port)) rest) text).or
  (many1 (· ≠ ':') (fun addr rest => portAtEnd (fun port => (none, some addr, port)) rest) text)

/-- `users:\(\("([^"]+)",pid=(\d+)` -/
def matchProcess (line : List Char) : Option (List Char × ℕ) :=
  search (literal "users:((\"".toList (many1 (· ≠ '"') fun name rest =>
    literal "\",pid=".toList (many1 Char.isDigit fun pid _ => some (name, Nat.ofDigitChars 10 pid 0)) rest)) line

/-- One line of `ss`. -/
def ssRow (line : List Char) : Option SocketRow :=
  let parts := fields isBlank line
  if parts.length < 4 then none
  else
    let place := parts[3]?.getD []
    (matchLocal place).map fun (bracketed, bare, port) =>
      let addr := (bracketed.or bare).getD []
      let isV6 := place.head? = some '[' || (bracketed.getD []).contains ':'
      let proc := matchProcess line
      { port := some (Nat.ofDigitChars 10 port 0)
        proto := if isV6 then .tcp6 else .tcp
        addr := if addr = [] then (if isV6 then "::".toList else "0.0.0.0".toList) else addr
        pid := proc.map (·.2)
        process := proc.map (·.1) }

def ssListeners (stdout : List Char) : List SocketRow := (stdout.splitOn '\n').filterMap ssRow

structure ProcRow where
  port : Option ℤ
  proto : Proto
  addr : List Char
  inode : List Char

/-- One line of a table. -/
def procRow (proto : Proto) (line : List Char) : Option ProcRow :=
  let parts := fields isBlank line
  if parts.length < 10 then none
  else if parts[3]? ≠ some "0A".toList then none
  else
    let halves := (parts[1]?.getD []).splitOn ':'
    some
      { port := Hex.parseInt (halves[1]?.getD ['0'])
        proto
        addr := decodeHexAddr (halves[0]?.getD [])
        inode := parts[9]?.getD [] }

def procTable (proto : Proto) (text : List Char) : List ProcRow :=
  if text = [] then [] else ((text.splitOn '\n').drop 1).filterMap (procRow proto)

/-- The order of the ports; one that is not a number is like any other. -/
def portOrder (a b : ProcRow) : Bool :=
  match a.port, b.port with
  | some x, some y => x ≤ y
  | _, _ => true

def procListeners (tcp tcp6 : List Char) : List ProcRow :=
  (procTable .tcp tcp ++ procTable .tcp6 tcp6).mergeSort portOrder

/-! ### What is to hold -/

abbrev Key := Option ℤ × Proto

def Host.ssKeys (ntop : Ntop) (host : Host) : List Key :=
  (ssListeners (host.ss ntop)).map fun row => (row.port, row.proto)

def Host.procKeys (host : Host) : List Key :=
  (procListeners (host.table host.tcp) (host.table host.tcp6)).map fun row => (row.port, row.proto)

structure Service where
  service : String
  port : ℕ
  updatedPort : Option ℕ

/-- Which services `list` marks as running. -/
def marks (sockets : List Key) (registry : List Service) : List (String × Bool) :=
  let listening := sockets.map (·.1)
  registry.map fun row => (row.service, listening.contains (some (row.updatedPort.getD row.port : ℤ)))

/-- Both sources have the same ports and protocols, as often, and mark the same services. -/
def Host.Agrees (ntop : Ntop) (host : Host) : Prop :=
  (host.ssKeys ntop).Perm host.procKeys ∧
    ∀ registry, marks (host.ssKeys ntop) registry = marks host.procKeys registry

/-- Neither the wildcard of both protocols, nor an IPv6 address bound to an interface. -/
def Place.Plain : Place → Prop
  | .v4 _ _ => True
  | .dual _ => False
  | .v6 _ zone => zone = none

/-! ### Columns -/

theorem isBlank_of_mem_blanks {gap : ℕ} : ∀ c ∈ blanks gap, isBlank c = true := by
  intro c member
  rw [(List.mem_replicate.mp member).2]
  rfl

theorem fields_cells {cells : List (ℕ × List Char)} (rest : List Char)
    (words : ∀ cell ∈ cells, cell.2 ≠ [] ∧ ∀ c ∈ cell.2, isBlank c = false) :
    (∀ c ∈ ((cells.flatMap fun cell => ' ' :: (blanks cell.1 ++ cell.2)) ++ ' ' :: rest).head?,
        isBlank c = true) ∧
      fields isBlank ((cells.flatMap fun cell => ' ' :: (blanks cell.1 ++ cell.2)) ++ ' ' :: rest) =
        cells.map (·.2) ++ fields isBlank rest := by
  have blank : isBlank ' ' = true := rfl
  induction cells with
  | nil =>
    refine ⟨fun c head => ?_, Scan.fields_cons_blank blank rest⟩
    rw [← Option.some.inj head]
    rfl
  | cons cell cells ih =>
    obtain ⟨stop, later⟩ := ih fun other member => words other (List.mem_cons_of_mem _ member)
    obtain ⟨begun, plain⟩ := words cell List.mem_cons_self
    refine ⟨fun c head => ?_, ?_⟩
    · rw [List.flatMap_cons, List.cons_append, List.cons_append, List.head?_cons] at head
      rw [← Option.some.inj head]
      rfl
    · rw [List.flatMap_cons, List.cons_append, List.cons_append, Scan.fields_cons_blank blank,
        List.append_assoc, List.append_assoc, Scan.fields_blanks isBlank_of_mem_blanks,
        Scan.fields_run begun plain stop, later, List.map_cons, List.cons_append]

theorem fields_columns {indent : ℕ} {first : List Char} {cells : List (ℕ × List Char)} (rest : List Char)
    (begun : first ≠ []) (plain : ∀ c ∈ first, isBlank c = false)
    (words : ∀ cell ∈ cells, cell.2 ≠ [] ∧ ∀ c ∈ cell.2, isBlank c = false) :
    fields isBlank (columns indent first cells rest) = first :: (cells.map (·.2) ++ fields isBlank rest) := by
  obtain ⟨stop, later⟩ := fields_cells rest words
  rw [columns, Scan.fields_blanks isBlank_of_mem_blanks, List.append_assoc,
    Scan.fields_run begun plain stop, later]

/-- The lines of a text, and the empty one after its last. -/
theorem splitOn_lines {text : List (List Char)} (one : ∀ line ∈ text, '\n' ∉ line) :
    (lines text).splitOn '\n' = text ++ [[]] := by
  rw [Text.splitOn_eq_iff (List.append_ne_nil_of_right_ne_nil _ (List.cons_ne_nil _ _))]
  constructor
  · induction text with
    | nil => rfl
    | cons line text ih =>
      have later := ih fun other member => one other (List.mem_cons_of_mem _ member)
      obtain ⟨next, others, split⟩ := List.exists_cons_of_ne_nil
        (List.append_ne_nil_of_right_ne_nil text (List.cons_ne_nil [] []))
      rw [lines] at later ⊢
      rw [List.flatMap_cons, later, List.cons_append, split, List.intercalate_cons_cons]
  · intro part member
    rcases List.mem_append.mp member with inside | last
    · exact one part inside
    · rw [List.mem_singleton.mp last]
      exact List.not_mem_nil

/-! ### Characters -/

theorem isBlank_of_isDigit {c : Char} (digit : c.isDigit = true) : isBlank c = false :=
  Numeral.isBlank_of_isNumeral (Numeral.isNumeral_of_isDigit digit)

theorem isDigit_port (n : ℕ) : ∀ c ∈ Nat.toDigits 10 n, c.isDigit = true :=
  fun _ member => Nat.isDigit_of_mem_toDigits (by decide) (by decide) member

theorem mem_dotted {parts : List ℤ} {c : Char} (member : c ∈ ProcNet.dotted parts) :
    c = '.' ∨ c = '-' ∨ c.isDigit = true := by
  rcases Text.mem_intercalate member with dot | ⟨part, inside, own⟩
  · exact .inl dot
  · obtain ⟨z, -, rfl⟩ := List.mem_map.mp inside
    exact .inr (Json.mem_writeInteger own)

/-- The text of an IPv4 address begins with none of the other marks, and has no colon. -/
theorem mem_v4 {bits : BitVec 32} {c : Char} (member : c ∈ (Address.v4 bits).text) :
    visible c = true ∧ c ≠ ':' ∧ c ≠ '[' := by
  rcases mem_dotted member with rfl | rfl | digit
  · decide
  · decide
  · refine ⟨?_, ?_, ?_⟩
    · rw [visible, isBlank_of_isDigit digit]
      rfl
    · rintro rfl
      cases digit
    · rintro rfl
      cases digit

theorem v4_ne_nil (bits : BitVec 32) : (Address.v4 bits).text ≠ [] := by
  show ['.'].intercalate (_ :: _ :: _) ≠ []
  rw [List.intercalate_cons_cons]
  simp

theorem mem_zoneText {zone : Option Zone} {c : Char} (member : c ∈ zoneText zone) :
    visible c = true ∧ c ≠ ':' := by
  cases zone with
  | none => cases member
  | some zone =>
    rcases List.mem_cons.mp member with rfl | member
    · decide
    · exact zone.plain c member

theorem visible_of_value {c : Char} (value : (Hex.value? c).isSome = true) : visible c = true ∧ c ≠ ']' := by
  have range : (48 ≤ c.toNat ∧ c.toNat ≤ 57) ∨ (65 ≤ c.toNat ∧ c.toNat ≤ 70) ∨ (97 ≤ c.toNat ∧ c.toNat ≤ 102) := by
    rw [Hex.value?] at value
    split at value
    · next digit => exact .inl ⟨digit.1, digit.2⟩
    · split at value
      · next upper => exact .inr (.inl ⟨upper.1, upper.2⟩)
      · split at value
        · next lower => exact .inr (.inr ⟨lower.1, lower.2⟩)
        · cases value
  constructor
  · simp only [visible, isBlank, Bool.not_eq_true', Bool.or_eq_false_iff, Bool.and_eq_false_iff,
      decide_eq_false_iff_not]
    omega
  · rintro rfl
    revert range
    decide

theorem Ntop.mem (ntop : Ntop) {bits : BitVec 128} {c : Char} (member : c ∈ ntop.text bits) :
    visible c = true ∧ c ≠ ']' := by
  rcases ntop.plain bits c member with value | rfl | rfl
  · exact visible_of_value value
  · decide
  · decide

theorem Socket.mem_shown {ntop : Ntop} {socket : Socket} {c : Char} (member : c ∈ socket.shown ntop) :
    visible c = true := by
  rcases List.mem_append.mp member with address | port
  · cases place : socket.place with
    | v4 bits zone =>
      rw [place, Place.shown] at address
      rcases List.mem_append.mp address with own | bound
      · exact (mem_v4 own).1
      · exact (mem_zoneText bound).1
    | dual zone =>
      rw [place, Place.shown] at address
      rcases List.mem_cons.mp address with rfl | bound
      · rfl
      · exact (mem_zoneText bound).1
    | v6 bits zone =>
      rw [place, Place.shown] at address
      rcases List.mem_cons.mp address with rfl | address
      · rfl
      · rcases List.mem_append.mp address with own | bound
        · exact (ntop.mem own).1
        · rcases List.mem_cons.mp bound with rfl | bound
          · rfl
          · exact (mem_zoneText bound).1
  · rcases List.mem_cons.mp port with rfl | port
    · rfl
    · rw [visible, isBlank_of_isDigit (isDigit_port _ c port)]
      rfl

theorem Socket.shown_ne_nil (ntop : Ntop) (socket : Socket) : socket.shown ntop ≠ [] :=
  List.append_ne_nil_of_right_ne_nil _ (List.cons_ne_nil _ _)

/-! ### The expression -/

theorem portAtEnd_digits {α : Type} (found : List Char → α) (n : ℕ) :
    portAtEnd found (':' :: Nat.toDigits 10 n) = some (found (Nat.toDigits 10 n)) := by
  refine (Scan.literal_append [':'] _ _).trans ?_
  have whole := @Scan.many1_of_longest _ Char.isDigit
    (fun port rest => if rest = [] then some (found port) else none) _ (Nat.toDigits 10 n) [] Nat.toDigits_ne_nil
    (isDigit_port n) (fun c head => by cases head) (if_pos rfl)
  rwa [List.append_nil] at whole

/-- After the colon there are digits only. -/
theorem portAtEnd_eq_none {α : Type} (found : List Char → α) {text : List Char} {c : Char} (member : c ∈ text)
    (other : c.isDigit = false) : portAtEnd found (':' :: text) = none := by
  refine (Scan.literal_append [':'] _ _).trans ?_
  rw [Option.eq_none_iff_forall_not_mem]
  intro value matched
  obtain ⟨run, rest, rfl, -, all, ended, -⟩ := Scan.many1_eq_some matched
  split at ended
  · next empty =>
    rw [empty, List.append_nil] at member
    rw [all c member] at other
    cases other
  · cases ended

theorem portAtEnd_of_ne {α : Type} (found : List Char → α) {c : Char} (other : c ≠ ':') (text : List Char) :
    portAtEnd found (c :: text) = none := by
  simp [portAtEnd, literal, Ne.symm other]

/-- An address with no colon and no bracket before it. -/
theorem matchLocal_bare {front : List Char} (begun : front ≠ []) (colon : ∀ c ∈ front, c ≠ ':')
    (bracket : front.head? ≠ some '[') (n : ℕ) :
    matchLocal (front ++ ':' :: Nat.toDigits 10 n) = some (none, some front, Nat.toDigits 10 n) := by
  obtain ⟨c, rest, rfl⟩ := List.exists_cons_of_ne_nil begun
  have other : c ≠ '[' := by
    rintro rfl
    exact bracket rfl
  have first (next : List Char → Option (Option (List Char) × Option (List Char) × List Char)) :
      literal ['['] next (c :: rest ++ ':' :: Nat.toDigits 10 n) = none := by
    simp [literal, Ne.symm other]
  rw [matchLocal, first, Option.none_or]
  refine Scan.many1_of_longest begun ?_ ?_ (portAtEnd_digits _ n)
  · simpa using colon
  · simp

theorem matchLocal_bracketed {text : List Char} (begun : text ≠ []) (bracket : ∀ c ∈ text, c ≠ ']') (n : ℕ) :
    matchLocal ('[' :: (text ++ ']' :: ':' :: Nat.toDigits 10 n)) =
      some (some text, none, Nat.toDigits 10 n) := by
  have inside : many1 (· ≠ ']') (fun addr rest => literal [']']
      (portAtEnd fun port => (some addr, (none : Option (List Char)), port)) rest)
      (text ++ ']' :: ':' :: Nat.toDigits 10 n) = some (some text, none, Nat.toDigits 10 n) := by
    refine Scan.many1_of_longest begun ?_ ?_ ?_
    · simpa using bracket
    · simp
    · exact (Scan.literal_append [']'] _ _).trans (portAtEnd_digits _ n)
  have first := Scan.literal_append ['['] (text ++ ']' :: ':' :: Nat.toDigits 10 n)
    (many1 (· ≠ ']') fun addr rest => literal [']']
      (portAtEnd fun port => (some addr, (none : Option (List Char)), port)) rest)
  rw [matchLocal]
  refine (congrArg (Option.or · _) (first.trans inside)).trans ?_
  rfl

/-- An interface after the bracket: nothing is matched. -/
theorem matchLocal_zoned {text rest : List Char} (bracket : ∀ c ∈ text, c ≠ ']') (colon : ':' ∈ text) :
    matchLocal ('[' :: (text ++ ']' :: '%' :: rest)) = none := by
  have inside : many1 (· ≠ ']') (fun addr rest => literal [']']
      (portAtEnd fun port => (some addr, (none : Option (List Char)), port)) rest)
      (text ++ ']' :: '%' :: rest) = none := by
    refine Scan.many1_stopped ?_ (by simpa using bracket) rfl ?_
    · intro run c rest other
      have different : c ≠ ']' := by simpa using other
      simp [literal, Ne.symm different]
    · exact (Scan.literal_append [']'] _ _).trans (portAtEnd_of_ne _ (by decide) _)
  have first := (Scan.literal_append ['['] (text ++ ']' :: '%' :: rest) _).trans inside
  obtain ⟨before, after, rfl, fresh⟩ := List.eq_append_cons_of_mem colon
  have second : many1 (· ≠ ':') (fun addr rest => portAtEnd
      (fun port => ((none : Option (List Char)), some addr, port)) rest)
      (('[' :: before) ++ ':' :: (after ++ ']' :: '%' :: rest)) = none := by
    refine Scan.many1_stopped ?_ ?_ rfl ?_
    · intro run c rest other
      exact portAtEnd_of_ne _ (by simpa using other) rest
    · intro c member
      rw [decide_eq_true_eq]
      rintro rfl
      rcases List.mem_cons.mp member with same | inside
      · cases same
      · exact fresh inside
    · exact portAtEnd_eq_none _ (List.mem_append_right after List.mem_cons_self) rfl
  rw [matchLocal]
  refine (congrArg (Option.or · _) first).trans ?_
  simpa using second

/-! ### The rows of `ss` -/

/-- The protocol under which `ss` is read to list a socket. -/
def Place.read : Place → Option Proto
  | .v4 _ _ => some .tcp
  | .dual _ => some .tcp
  | .v6 _ none => some .tcp6
  | .v6 _ (some _) => none

def Place.proto (place : Place) : Proto := if place.isV6 then .tcp6 else .tcp

def Socket.readKey (socket : Socket) : Option Key :=
  socket.place.read.map fun proto => (some (socket.port.toNat : ℤ), proto)

def Socket.key (socket : Socket) : Key := (some (socket.port.toNat : ℤ), socket.place.proto)

theorem fields_line (ntop : Ntop) (shown : Shown) : fields isBlank (shown.line ntop) =
    "LISTEN".toList :: Nat.toDigits 10 shown.received :: Nat.toDigits 10 shown.sent ::
      shown.socket.shown ntop :: fields isBlank shown.rest := by
  have number (n : ℕ) : Nat.toDigits 10 n ≠ [] ∧ ∀ c ∈ Nat.toDigits 10 n, isBlank c = false :=
    ⟨Nat.toDigits_ne_nil, fun c member => isBlank_of_isDigit (isDigit_port n c member)⟩
  rw [Shown.line, fields_columns shown.rest (by decide) (Lines.OneLine.literal rfl)]
  · rfl
  · intro cell member
    simp only [List.mem_cons, List.not_mem_nil, or_false] at member
    rcases member with rfl | rfl | rfl
    · exact number shown.received
    · exact number shown.sent
    · exact ⟨shown.socket.shown_ne_nil ntop, fun c inside => by simpa [visible] using Socket.mem_shown inside⟩

/-- What `ssRow` reads of a line is what the expression matches of the local address. -/
theorem ssRow_line (ntop : Ntop) (shown : Shown) :
    (ssRow (shown.line ntop)).map (fun row => (row.port, row.proto)) =
      (matchLocal (shown.socket.shown ntop)).map fun found =>
        (some (Nat.ofDigitChars 10 found.2.2 0 : ℤ),
          if (shown.socket.shown ntop).head? = some '[' || (found.1.getD []).contains ':' then .tcp6 else .tcp) := by
  rw [ssRow, fields_line]
  simp only [List.length_cons]
  rw [if_neg (by omega), Option.map_map]
  rfl

theorem matchLocal_shown (ntop : Ntop) (socket : Socket) :
    (matchLocal (socket.shown ntop)).map (fun found => (some (Nat.ofDigitChars 10 found.2.2 0 : ℤ),
      if (socket.shown ntop).head? = some '[' || (found.1.getD []).contains ':' then Proto.tcp6 else .tcp)) =
      socket.readKey := by
  obtain ⟨place, port⟩ := socket
  cases place with
  | v4 bits zone =>
    have other : ∀ c ∈ (Address.v4 bits).text ++ zoneText zone, c ≠ ':' := by
      intro c member
      rcases List.mem_append.mp member with own | bound
      · exact (mem_v4 own).2.1
      · exact (mem_zoneText bound).2
    obtain ⟨c, rest, split⟩ := List.exists_cons_of_ne_nil (v4_ne_nil bits)
    have bracket : c ≠ '[' := (mem_v4 (split ▸ List.mem_cons_self)).2.2
    have shown : (Socket.mk (.v4 bits zone) port).shown ntop =
        ((Address.v4 bits).text ++ zoneText zone) ++ ':' :: Nat.toDigits 10 port.toNat := rfl
    rw [shown, matchLocal_bare (List.append_ne_nil_of_left_ne_nil (v4_ne_nil bits) _) other
      (by simp [split, bracket])]
    simp [Socket.readKey, Place.read, split, bracket]
  | dual zone =>
    have other : ∀ c ∈ '*' :: zoneText zone, c ≠ ':' := by
      intro c member
      rcases List.mem_cons.mp member with rfl | bound
      · decide
      · exact (mem_zoneText bound).2
    have shown : (Socket.mk (.dual zone) port).shown ntop =
        ('*' :: zoneText zone) ++ ':' :: Nat.toDigits 10 port.toNat := rfl
    rw [shown, matchLocal_bare (List.cons_ne_nil _ _) other (by simp)]
    simp [Socket.readKey, Place.read]
  | v6 bits zone =>
    have bracket : ∀ c ∈ ntop.text bits, c ≠ ']' := fun c member => (ntop.mem member).2
    cases zone with
    | none =>
      have shown : (Socket.mk (.v6 bits none) port).shown ntop =
          '[' :: (ntop.text bits ++ ']' :: ':' :: Nat.toDigits 10 port.toNat) := by
        simp [Socket.shown, Place.shown, zoneText]
      rw [shown, matchLocal_bracketed (List.ne_nil_of_mem (ntop.colon bits)) bracket]
      simp [Socket.readKey, Place.read]
    | some zone =>
      have shown : (Socket.mk (.v6 bits (some zone)) port).shown ntop =
          '[' :: (ntop.text bits ++ ']' :: '%' :: (zone.chars ++ ':' :: Nat.toDigits 10 port.toNat)) := by
        simp [Socket.shown, Place.shown, zoneText]
      rw [shown, matchLocal_zoned bracket (ntop.colon bits)]
      rfl

theorem newline_blank {text : List Char} (visible' : ∀ c ∈ text, visible c = true) : '\n' ∉ text :=
  fun member => absurd (visible' _ member) (by decide)

theorem newline_columns {indent : ℕ} {first : List Char} {cells : List (ℕ × List Char)} {rest : List Char}
    (plain : '\n' ∉ first) (words : ∀ cell ∈ cells, '\n' ∉ cell.2) (one : '\n' ∉ rest) :
    '\n' ∉ columns indent first cells rest := by
  have gap (n : ℕ) : '\n' ∉ blanks n := by simp [blanks]
  have inside : '\n' ∉ cells.flatMap fun cell => ' ' :: (blanks cell.1 ++ cell.2) := by
    intro member
    obtain ⟨cell, present, member⟩ := List.mem_flatMap.mp member
    have free := words cell present
    simp [gap, free] at member
  simp [columns, gap, plain, inside, one]

theorem Shown.newline_line (ntop : Ntop) (shown : Shown) : '\n' ∉ shown.line ntop := by
  have number (n : ℕ) : '\n' ∉ Nat.toDigits 10 n :=
    fun member => absurd (isDigit_port n _ member) (by decide)
  refine newline_columns (by decide) ?_ shown.one
  intro cell member
  simp only [List.mem_cons, List.not_mem_nil, or_false] at member
  rcases member with rfl | rfl | rfl
  · exact number shown.received
  · exact number shown.sent
  · exact newline_blank fun c => Socket.mem_shown

/-- The keys that are read of `ss`. -/
theorem Host.ssKeys_eq (ntop : Ntop) (host : Host) :
    host.ssKeys ntop = (host.shown.map Shown.socket).filterMap Socket.readKey := by
  have one : ∀ line ∈ host.shown.map (Shown.line ntop), '\n' ∉ line := by
    intro line member
    obtain ⟨shown, -, rfl⟩ := List.mem_map.mp member
    exact shown.newline_line ntop
  rw [Host.ssKeys, ssListeners, Host.ss, splitOn_lines one, List.filterMap_append, List.map_append]
  have last : List.filterMap ssRow [[]] = [] := rfl
  rw [last, List.map_nil, List.append_nil, List.filterMap_map, List.filterMap_map, List.map_filterMap]
  refine List.filterMap_congr fun shown _ => ?_
  rw [Function.comp_apply, Function.comp_apply, ssRow_line, matchLocal_shown]

/-! ### The rows of the tables -/

theorem visible_printed {width n : ℕ} {c : Char} (member : c ∈ Hex.printed width n) : visible c = true := by
  have plain := Hex.isPlain_of_mem member
  simp only [Hex.isPlain, Bool.and_eq_true] at plain
  exact plain.1.1.1.1

/-- Hexadecimal digits only. -/
theorem mem_address {address : Address} {c : Char} (member : c ∈ address.printed) :
    visible c = true ∧ c ≠ ':' := by
  have digits {width n : ℕ} (member : c ∈ Hex.printed width n) : visible c = true ∧ c ≠ ':' :=
    ⟨visible_printed member, fun same => ProcNet.colon_not_mem_printed width n (same ▸ member)⟩
  cases address with
  | v4 bits => exact digits member
  | v6 bits =>
    obtain ⟨i, -, inside⟩ := List.mem_flatMap.mp member
    exact digits inside

theorem Socket.splitOn_printed (socket : Socket) : socket.printed.splitOn ':' =
    [socket.place.address.printed, Hex.printed 4 socket.port.toNat] := by
  rw [Text.splitOn_eq_iff (List.cons_ne_nil _ _)]
  refine ⟨by simp [Socket.printed], ?_⟩
  intro part member
  simp only [List.mem_cons, List.not_mem_nil, or_false] at member
  rcases member with rfl | rfl
  · exact fun inside => (mem_address inside).2 rfl
  · exact ProcNet.colon_not_mem_printed _ _

theorem Socket.mem_printed {socket : Socket} {c : Char} (member : c ∈ socket.printed) : visible c = true := by
  rcases List.mem_append.mp member with address | port
  · exact (mem_address address).1
  · rcases List.mem_cons.mp port with rfl | port
    · rfl
    · exact visible_printed port

theorem fields_entry (entry : Entry) : fields isBlank entry.line =
    (Nat.toDigits 10 entry.index ++ [':']) :: entry.socket.printed :: entry.remote.chars ::
      Hex.printed 2 entry.state.toNat :: entry.queues.chars :: entry.timer.chars :: entry.retransmits.chars ::
      entry.uid.2.chars :: entry.timeout.2.chars :: entry.inode.chars :: fields isBlank entry.rest := by
  have plain {text : List Char} (shown : ∀ c ∈ text, visible c = true) : ∀ c ∈ text, isBlank c = false :=
    fun c member => by simpa [visible] using shown c member
  have word (word : Word) : word.chars ≠ [] ∧ ∀ c ∈ word.chars, isBlank c = false :=
    ⟨word.begun, plain word.plain⟩
  have index : ∀ c ∈ Nat.toDigits 10 entry.index ++ [':'], isBlank c = false := by
    intro c member
    rcases List.mem_append.mp member with digit | colon
    · exact isBlank_of_isDigit (isDigit_port _ c digit)
    · rw [List.mem_singleton.mp colon]
      rfl
  rw [Entry.line, fields_columns entry.rest (List.append_ne_nil_of_right_ne_nil _ (List.cons_ne_nil _ _)) index]
  · rfl
  · intro cell member
    simp only [List.mem_cons, List.not_mem_nil, or_false] at member
    rcases member with rfl | rfl | rfl | rfl | rfl | rfl | rfl | rfl | rfl
    · exact ⟨List.append_ne_nil_of_right_ne_nil _ (List.cons_ne_nil _ _), plain fun c => Socket.mem_printed⟩
    · exact word entry.remote
    · exact ⟨Hex.printed_ne_nil 1 _, plain fun c => visible_printed⟩
    · exact word entry.queues
    · exact word entry.timer
    · exact word entry.retransmits
    · exact word entry.uid.2
    · exact word entry.timeout.2
    · exact word entry.inode

theorem Entry.newline_line (entry : Entry) : '\n' ∉ entry.line := by
  have index : '\n' ∉ Nat.toDigits 10 entry.index ++ [':'] := by
    intro member
    rcases List.mem_append.mp member with digit | colon
    · exact absurd (isDigit_port _ _ digit) (by decide)
    · cases List.mem_singleton.mp colon
  refine newline_columns index ?_ entry.one
  intro cell member
  simp only [List.mem_cons, List.not_mem_nil, or_false] at member
  rcases member with rfl | rfl | rfl | rfl | rfl | rfl | rfl | rfl | rfl
  · exact newline_blank fun c => Socket.mem_printed
  · exact newline_blank entry.remote.plain
  · exact newline_blank fun c => visible_printed
  · exact newline_blank entry.queues.plain
  · exact newline_blank entry.timer.plain
  · exact newline_blank entry.retransmits.plain
  · exact newline_blank entry.uid.2.plain
  · exact newline_blank entry.timeout.2.plain
  · exact newline_blank entry.inode.plain

theorem printed_state_iff (state : BitVec 8) : Hex.printed 2 state.toNat = "0A".toList ↔ state = 10#8 := by
  have ten : Hex.printed 2 (10#8).toNat = "0A".toList := by decide
  constructor
  · intro same
    exact BitVec.eq_of_toNat_eq (@Hex.printed_injective 1 _ _ state.isLt (10#8).isLt (same.trans ten.symm))
  · rintro rfl
    exact ten

theorem procRow_line (proto : Proto) (entry : Entry) :
    (procRow proto entry.line).map (fun row => (row.port, row.proto)) =
      if entry.listens then some (some (entry.socket.port.toNat : ℤ), proto) else none := by
  rw [procRow, fields_entry]
  simp only [List.length_cons]
  rw [if_neg (by omega)]
  simp only [List.getElem?_cons_succ, List.getElem?_cons_zero, ne_eq, Option.some.injEq, printed_state_iff,
    Option.getD_some, Socket.splitOn_printed]
  by_cases listening : entry.state = 10#8
  · have port : Hex.parseInt (Hex.printed 4 entry.socket.port.toNat) = some (entry.socket.port.toNat : ℤ) :=
      @Hex.parseInt_printed 3 _ entry.socket.port.isLt
    simp [Entry.listens, listening, port]
  · simp [Entry.listens, listening]

theorem filterMap_procRow (proto : Proto) (entries : List Entry) :
    ((entries.map Entry.line).filterMap (procRow proto)).map (fun row => (row.port, row.proto)) =
      (entries.filter Entry.listens).map fun entry => (some (entry.socket.port.toNat : ℤ), proto) := by
  rw [List.map_filterMap]
  induction entries with
  | nil => rfl
  | cons entry entries ih =>
    rw [List.map_cons, List.filterMap_cons, procRow_line, ih, List.filter_cons]
    cases entry.listens with
    | false => rfl
    | true => rfl

/-- The keys that are read of a table. -/
theorem Host.procTable_eq (host : Host) {entries : List Entry} (proto : Proto) :
    (procTable proto (host.table entries)).map (fun row => (row.port, row.proto)) =
      (entries.filter Entry.listens).map fun entry => (some (entry.socket.port.toNat : ℤ), proto) := by
  have one : ∀ line ∈ host.header :: entries.map Entry.line, '\n' ∉ line := by
    intro line member
    rcases List.mem_cons.mp member with rfl | member
    · exact host.one
    · obtain ⟨entry, -, rfl⟩ := List.mem_map.mp member
      exact entry.newline_line
  have begun : host.table entries ≠ [] := by simp [Host.table, lines]
  have last : List.filterMap (procRow proto) [[]] = [] := rfl
  rw [procTable, if_neg begun, Host.table, splitOn_lines one, List.cons_append, List.drop_succ_cons,
    List.drop_zero, List.filterMap_append, last, List.append_nil, filterMap_procRow]

theorem Host.procKeys_perm (host : Host) :
    host.procKeys.Perm ((host.shown.map Shown.socket).map Socket.key) := by
  have four : (host.tcp.filter Entry.listens).map (fun entry => (some (entry.socket.port.toNat : ℤ), Proto.tcp)) =
      ((host.tcp.filter Entry.listens).map Entry.socket).map Socket.key := by
    rw [List.map_map]
    refine List.map_congr_left fun entry member => ?_
    have family := host.v4 entry (List.mem_of_mem_filter member)
    simp [Socket.key, Place.proto, family]
  have six : (host.tcp6.filter Entry.listens).map (fun entry => (some (entry.socket.port.toNat : ℤ), Proto.tcp6)) =
      ((host.tcp6.filter Entry.listens).map Entry.socket).map Socket.key := by
    rw [List.map_map]
    refine List.map_congr_left fun entry member => ?_
    have family := host.v6 entry (List.mem_of_mem_filter member)
    simp [Socket.key, Place.proto, family]
  have sorted := (List.mergeSort_perm (procTable .tcp (host.table host.tcp) ++
    procTable .tcp6 (host.table host.tcp6)) portOrder).map fun row => (row.port, row.proto)
  refine sorted.trans ?_
  rw [List.map_append, host.procTable_eq, host.procTable_eq, four, six, ← List.map_append, ← List.map_append,
    ← List.filter_append]
  exact host.same.symm.map Socket.key

/-! ### The two sources -/

/-- Two tests, one of which holds where the other does, that hold as often, hold in the same places. -/
theorem of_countP_eq {α : Type} {p q : α → Bool} {places : List α} (imp : ∀ x ∈ places, p x = true → q x = true)
    (same : places.countP p = places.countP q) : ∀ x ∈ places, q x = true → p x = true := by
  induction places with
  | nil => exact fun x member => by cases member
  | cons y places ih =>
    obtain ⟨here, imp⟩ := List.forall_mem_cons.mp imp
    have fewer := List.countP_mono_left imp
    rw [List.countP_cons, List.countP_cons] at same
    refine List.forall_mem_cons.mpr ⟨fun holds => ?_, ih imp ?_⟩
    · by_contra fails
      rw [if_neg fails, if_pos holds] at same
      omega
    · by_cases first : p y = true
      · rw [if_pos first, if_pos (here first)] at same
        omega
      · rw [if_neg first] at same
        split at same <;> omega

theorem Socket.readKey_of_plain {socket : Socket} (plain : socket.place.Plain) :
    socket.readKey = some socket.key := by
  obtain ⟨place, port⟩ := socket
  cases place with
  | v4 bits zone => rfl
  | dual zone => cases plain
  | v6 bits zone =>
    obtain rfl : zone = none := plain
    rfl

/-- A socket of IPv6 that is read as one has the address and the port alone. -/
theorem Place.plain_iff (place : Place) :
    place.Plain ↔ (place.proto = .tcp6 → place.read = some .tcp6) := by
  cases place with
  | v4 bits zone => simp [Place.Plain, Place.proto, Place.isV6]
  | dual zone => simp [Place.Plain, Place.proto, Place.isV6, Place.read]
  | v6 bits zone =>
    cases zone with
    | none => simp [Place.Plain, Place.read]
    | some zone => simp [Place.Plain, Place.proto, Place.isV6, Place.read]

theorem Place.proto_of_read {place : Place} (read : place.read = some .tcp6) : place.proto = .tcp6 := by
  cases place with
  | v4 bits zone => cases read
  | dual zone => cases read
  | v6 bits zone => rfl

/-- The rows are as many under each protocol only where every socket is read as it is. -/
theorem perm_iff (sockets : List Socket) :
    (sockets.filterMap Socket.readKey).Perm (sockets.map Socket.key) ↔ ∀ socket ∈ sockets, socket.place.Plain := by
  constructor
  · intro perm
    have counted := perm.countP_eq fun key => decide (key.2 = Proto.tcp6)
    have six (socket : Socket) : (socket.readKey.map fun key => decide (key.2 = Proto.tcp6)).getD false =
        decide (socket.place.read = some .tcp6) := by
      rw [Socket.readKey]
      cases socket.place.read with
      | none => rfl
      | some proto => simp
    rw [List.countP_filterMap, List.countP_map] at counted
    simp only [six] at counted
    intro socket member
    rw [Place.plain_iff]
    intro family
    have read := of_countP_eq (fun other _ read => ?_) counted socket member (decide_eq_true family)
    · exact of_decide_eq_true read
    · exact decide_eq_true (Place.proto_of_read (of_decide_eq_true read))
  · intro plain
    have all : sockets.filterMap Socket.readKey = sockets.map Socket.key := by
      rw [← List.filterMap_eq_map]
      exact List.filterMap_congr fun socket member => Socket.readKey_of_plain (plain socket member)
    rw [all]

theorem marks_congr {sockets others : List Key} (same : ∀ port, port ∈ sockets.map (·.1) ↔ port ∈ others.map (·.1))
    (registry : List Service) : marks sockets registry = marks others registry := by
  refine List.map_congr_left fun row _ => ?_
  rw [Prod.mk.injEq, Bool.eq_iff_iff, List.contains_iff_mem, List.contains_iff_mem]
  exact ⟨rfl, same _⟩

/-- Both sources agree exactly where no socket listens on the wildcard of both protocols, and none on an
IPv6 address of one interface. -/
theorem agrees_iff (ntop : Ntop) (host : Host) :
    host.Agrees ntop ↔ ∀ shown ∈ host.shown, shown.socket.place.Plain := by
  have rows : (host.ssKeys ntop).Perm host.procKeys ↔ ∀ shown ∈ host.shown, shown.socket.place.Plain := by
    rw [host.ssKeys_eq, host.procKeys_perm.congr_right, perm_iff]
    exact List.forall_mem_map
  rw [Host.Agrees, rows, and_iff_left_iff_imp]
  intro plain registry
  have perm := rows.mpr plain
  exact marks_congr (fun port => (perm.map (·.1)).mem_iff) registry

theorem Host.mem_ssPorts (ntop : Ntop) (host : Host) (port : Option ℤ) :
    port ∈ (host.ssKeys ntop).map (·.1) ↔ ∃ shown ∈ host.shown, shown.socket.place.read ≠ none ∧
      some (shown.socket.port.toNat : ℤ) = port := by
  rw [host.ssKeys_eq, List.mem_map]
  constructor
  · rintro ⟨key, member, rfl⟩
    obtain ⟨socket, inside, read⟩ := List.mem_filterMap.mp member
    obtain ⟨shown, present, rfl⟩ := List.mem_map.mp inside
    obtain ⟨proto, found, rfl⟩ := Option.map_eq_some_iff.mp read
    exact ⟨shown, present, by simp [found], rfl⟩
  · rintro ⟨shown, present, found, rfl⟩
    obtain ⟨proto, found⟩ := Option.ne_none_iff_exists'.mp found
    refine ⟨(some (shown.socket.port.toNat : ℤ), proto), ?_, rfl⟩
    refine List.mem_filterMap.mpr ⟨shown.socket, List.mem_map_of_mem present, ?_⟩
    rw [Socket.readKey, found, Option.map_some]

theorem Host.mem_procPorts (host : Host) (port : Option ℤ) :
    port ∈ host.procKeys.map (·.1) ↔ ∃ shown ∈ host.shown, some (shown.socket.port.toNat : ℤ) = port := by
  rw [(host.procKeys_perm.map (·.1)).mem_iff, List.map_map, List.map_map, List.mem_map]
  rfl

/-- The services that are marked are the same exactly where each port of a socket on an IPv6 address of one
interface has another socket. -/
theorem marks_iff (ntop : Ntop) (host : Host) :
    (∀ registry, marks (host.ssKeys ntop) registry = marks host.procKeys registry) ↔
      ∀ shown ∈ host.shown, shown.socket.place.read = none →
        ∃ other ∈ host.shown, other.socket.port = shown.socket.port ∧ other.socket.place.read ≠ none := by
  constructor
  · intro same shown member unread
    have one := same [⟨"", shown.socket.port.toNat, none⟩]
    have marked := congrArg Prod.snd (List.cons.inj one).1
    rw [Bool.eq_iff_iff, List.contains_iff_mem, List.contains_iff_mem] at marked
    obtain ⟨other, present, read, port⟩ := (host.mem_ssPorts ntop _).mp
      (marked.mpr ((host.mem_procPorts _).mpr ⟨shown, member, rfl⟩))
    refine ⟨other, present, BitVec.eq_of_toNat_eq ?_, read⟩
    exact Int.ofNat.inj (Option.some.inj port)
  · intro others registry
    refine marks_congr (fun port => ?_) registry
    rw [host.mem_ssPorts, host.mem_procPorts]
    constructor
    · rintro ⟨shown, member, -, port⟩
      exact ⟨shown, member, port⟩
    · rintro ⟨shown, member, rfl⟩
      by_cases unread : shown.socket.place.read = none
      · obtain ⟨other, present, port, read⟩ := others shown member unread
        exact ⟨other, present, read, by rw [port]⟩
      · exact ⟨shown, member, unread, rfl⟩

/-- The sources agree, rows and marks, exactly where no socket listens on the wildcard of both protocols and
none on an IPv6 address of one interface; the marks alone where each port of such an address has another
socket. -/
theorem sources_iff (ntop : Ntop) (host : Host) :
    (host.Agrees ntop ↔ ∀ shown ∈ host.shown, shown.socket.place.Plain) ∧
      ((∀ registry, marks (host.ssKeys ntop) registry = marks host.procKeys registry) ↔
        ∀ shown ∈ host.shown, shown.socket.place.read = none →
          ∃ other ∈ host.shown, other.socket.port = shown.socket.port ∧ other.socket.place.read ≠ none) :=
  ⟨agrees_iff ntop host, marks_iff ntop host⟩

/-- The eight groups in full. -/
def fullText : Ntop where
  text bits := (Address.v6 bits).text
  plain := by
    intro bits c member
    rcases Text.mem_intercalate member with colon | ⟨part, inside, own⟩
    · exact .inr (.inl colon)
    · obtain ⟨i, -, rfl⟩ := List.mem_map.mp inside
      obtain ⟨d, low, rfl⟩ := Hex.mem_printed own
      exact .inl (by rw [Hex.value?_digit low]; rfl)
  colon := by
    intro bits
    show ':' ∈ [':'].intercalate (_ :: _ :: _)
    rw [List.intercalate_cons_cons]
    simp

def columnsOf (socket : Socket) : Shown := ⟨socket, 0, 4096, (0, 0, 0), [], by simp⟩

def entryOf (socket : Socket) : Entry :=
  let zero : Word := ⟨['0'], by decide, List.all_eq_true.mp rfl⟩
  { index := 0, indent := 0, socket, remote := zero, state := 10#8, queues := zero, timer := zero
    retransmits := zero, uid := (0, zero), timeout := (0, zero), inode := zero, rest := [], one := by simp }

/-- A host with the sockets given, of IPv6. -/
def sixHost (sockets : List Socket) (v6 : ∀ socket ∈ sockets, socket.place.isV6 = true) : Host where
  shown := sockets.map columnsOf
  header := []
  one := by simp
  tcp := []
  tcp6 := sockets.map entryOf
  v4 := by simp
  v6 := by
    intro entry member
    obtain ⟨socket, inside, rfl⟩ := List.mem_map.mp member
    exact v6 socket inside
  same := by
    have all : (sockets.map entryOf).filter Entry.listens = sockets.map entryOf := by
      rw [List.filter_eq_self]
      intro entry member
      obtain ⟨socket, -, rfl⟩ := List.mem_map.mp member
      rfl
    rw [List.nil_append, all, List.map_map, List.map_map]
    exact List.Perm.refl _

theorem eth0_plain : ∀ c ∈ "eth0".toList, visible c = true ∧ c ≠ ':' := by
  have checked : "eth0".toList.all (fun c => visible c && c ≠ ':') = true := rfl
  simpa using List.all_eq_true.mp checked

def eth0 : Zone := ⟨"eth0".toList, eth0_plain⟩

/-- A wildcard of both protocols at port 22, and a link-local address at port 80. -/
def sample : Host := sixHost [⟨.dual none, 22⟩, ⟨.v6 (0xfe80 <<< 112 + 1) (some eth0), 80⟩] (by simp [Place.isV6])

theorem sources_disagree : sample.ssKeys fullText = [(some 22, .tcp)] ∧
    sample.procKeys.Perm [(some 22, .tcp6), (some 80, .tcp6)] ∧ ¬sample.Agrees fullText := by
  have read : sample.ssKeys fullText = [(some 22, .tcp)] := by
    rw [sample.ssKeys_eq]
    rfl
  refine ⟨read, sample.procKeys_perm, ?_⟩
  rintro ⟨perm, -⟩
  have counted := (perm.trans sample.procKeys_perm).length_eq
  rw [read] at counted
  cases counted

end SysDeck.Web.SocketInventory
