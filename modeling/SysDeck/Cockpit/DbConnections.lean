import SysDeck.Library.Occurrences
import SysDeck.Cockpit.PackageText

/-! The connections of the database bridge: the figure that the summary shows for an engine, and the
list of its connections, both from the socket table that `ss` prints. -/

namespace SysDeck.Cockpit.DbConnections

open Occurrences
open Lines (OneLine)
open Packages (isSpace lineEnd splitlines strip)
open PackageFiles (unlines)

structure Entry where
  id : String
  port : ℕ
  deriving DecidableEq

/-- The ids and the default ports of `ENGINE_REGISTRY`. -/
def engineRegistry : List Entry :=
  [⟨"postgresql", 5432⟩, ⟨"mariadb", 3306⟩, ⟨"mysql", 3306⟩, ⟨"sqlite", 0⟩, ⟨"cockroachdb", 26257⟩,
    ⟨"tidb", 4000⟩, ⟨"mongodb", 27017⟩, ⟨"couchdb", 5984⟩, ⟨"rethinkdb", 28015⟩,
    ⟨"dynamodb-local", 8000⟩, ⟨"milvus", 19530⟩, ⟨"qdrant", 6333⟩, ⟨"weaviate", 8080⟩,
    ⟨"chroma", 8000⟩, ⟨"pgvector", 5432⟩, ⟨"influxdb", 8086⟩, ⟨"timescaledb", 5432⟩,
    ⟨"questdb", 9000⟩, ⟨"clickhouse", 8123⟩, ⟨"neo4j", 7474⟩, ⟨"arangodb", 8529⟩, ⟨"orientdb", 2480⟩,
    ⟨"redis", 6379⟩, ⟨"keydb", 6379⟩, ⟨"valkey", 6379⟩, ⟨"rocksdb", 0⟩, ⟨"lmdb", 0⟩, ⟨"badgerdb", 0⟩,
    ⟨"firestore-emulator", 8080⟩, ⟨"supabase-local", 54321⟩, ⟨"lancedb", 0⟩, ⟨"duckdb", 0⟩,
    ⟨"tile38", 9851⟩]

def decimal (port : ℕ) : List Char := Nat.toDigits 10 port

/-- `f":{port} "` -/
def portText (port : ℕ) : List Char := (':' :: decimal port) ++ [' ']

/-- The connections in the answer of `detect_engine`; `ss` is what `ss -tnp` writes. -/
def detectConnections (running : Bool) (port : ℕ) (ss : List Char) : ℕ :=
  if running ∧ 0 < port then count (portText port) (strip ss) else 0

inductive Reply where
  | connections (lines : List (List Char)) (count : ℕ)
  | unknownEngine (id : String)
  deriving DecidableEq

/-- `count` in a reply. -/
def Reply.figure : Reply → Option ℕ
  | .connections _ n => some n
  | .unknownEngine _ => none

/-- `ss` is what `ss -tnp` writes of the sockets with a local port. -/
def cmdConnections (ss : ℕ → List Char) (engineId : String) : Reply :=
  match engineRegistry.find? (·.id = engineId) with
  | none => .unknownEngine engineId
  | some entry =>
    if entry.port = 0 then .connections [] 0
    else
      let lines := (splitlines (String.ofList (strip (ss entry.port)))).filter
        ("ESTAB".toList <:+: ·)
      .connections lines lines.length

/-! ### The socket table -/

inductive State where
  | estab | synSent | synRecv | finWait1 | finWait2 | timeWait | closeWait | lastAck | closing
  deriving DecidableEq

def State.text : State → List Char
  | .estab => "ESTAB".toList
  | .synSent => "SYN-SENT".toList
  | .synRecv => "SYN-RECV".toList
  | .finWait1 => "FIN-WAIT-1".toList
  | .finWait2 => "FIN-WAIT-2".toList
  | .timeWait => "TIME-WAIT".toList
  | .closeWait => "CLOSE-WAIT".toList
  | .lastAck => "LAST-ACK".toList
  | .closing => "CLOSING".toList

/-- A text without blanks. -/
abbrev Solid := { text : List Char // ∀ c ∈ text, isSpace c = false }

structure Socket where
  state : State
  recvQ : ℕ
  sendQ : ℕ
  address : Solid
  port : ℕ
  peer : Solid
  peerPort : ℕ

/-- The blanks after the columns of a line, and what stands after the last one: more blanks, and the
processes. -/
structure Spacing where
  afterState : ℕ
  afterRecv : ℕ
  afterSend : ℕ
  afterLocal : ℕ
  tail : List Char
  line : OneLine lineEnd tail

structure Row where
  socket : Socket
  spacing : Spacing

def blanks (n : ℕ) : List Char := List.replicate n ' '

def Row.state (row : Row) : List Char := row.socket.state.text ++ blanks (row.spacing.afterState + 1)

def Row.queues (row : Row) : List Char :=
  decimal row.socket.recvQ ++ blanks (row.spacing.afterRecv + 1) ++
    (decimal row.socket.sendQ ++ blanks (row.spacing.afterSend + 1))

/-- The columns of the two ends. -/
def endpoint (address : Solid) (port : ℕ) : List Char := address.1 ++ ':' :: decimal port

/-- What stands after the column of the local end. -/
def Row.rest (row : Row) : List Char := endpoint row.socket.peer row.socket.peerPort ++ row.spacing.tail

def Row.text (row : Row) : List Char :=
  row.state ++ row.queues ++
    (endpoint row.socket.address row.socket.port ++ blanks (row.spacing.afterLocal + 1) ++ row.rest)

/-- How a table is laid out. -/
structure Layout where
  header : List Char
  spacing : ℕ → Spacing
  begun : ∃ c ∈ header.head?, isSpace c = false
  line : OneLine lineEnd header
  words : ∀ c ∈ header, c.isDigit = false
  stateless : ¬ "ESTAB".toList <:+: header

def Layout.rows (layout : Layout) (sockets : List Socket) : List Row :=
  sockets.mapIdx fun i socket => ⟨socket, layout.spacing i⟩

/-- The output of `ss` for some sockets. -/
def Layout.stdout (layout : Layout) (sockets : List Socket) : List Char :=
  unlines (layout.header :: (layout.rows sockets).map Row.text)

/-- The sockets that `sport = port` keeps. -/
def ofPort (sockets : List Socket) (port : ℕ) : List Socket := sockets.filter (·.port = port)

/-- The number of established sockets with a local port. -/
def established (sockets : List Socket) (port : ℕ) : ℕ :=
  sockets.countP fun socket => socket.state = .estab ∧ socket.port = port

/-- A row without the blanks at its end. -/
def Row.clip (row : Row) : Row :=
  { row with spacing :=
    { row.spacing with
      tail := row.spacing.tail.rdropWhile isSpace
      line := fun c member => row.spacing.line c ((List.rdropWhile_prefix _ _).subset member) } }

/-- The rows as they are read: the last one ends where the output is stripped. -/
def shown : List Row → List Row
  | [] => []
  | [row] => [row.clip]
  | row :: next :: rows => row :: shown (next :: rows)

/-! ### The port in a line -/

theorem isDigit_of_mem_decimal {n : ℕ} {c : Char} (member : c ∈ decimal n) : c.isDigit :=
  Nat.isDigit_of_mem_toDigits (by decide) (by decide) member

theorem decimal_ne_nil (n : ℕ) : decimal n ≠ [] := Nat.toDigits_ne_nil

theorem isSpace_of_isDigit {c : Char} (digit : c.isDigit) : isSpace c = false := by
  have bounds : 48 ≤ c.toNat ∧ c.toNat ≤ 57 := Char.isDigit_iff_toNat.mp digit
  unfold isSpace
  simp only [Bool.or_eq_false_iff, Bool.and_eq_false_iff, decide_eq_false_iff_not]
  omega

theorem decimal_inj {n m : ℕ} (same : decimal n = decimal m) : n = m := by
  have values := congrArg (Nat.ofDigitChars 10 · 0) same
  simpa [decimal, Nat.ofDigitChars_ten_toDigits] using values

theorem not_mem_decimal {n : ℕ} {c : Char} (other : c.isDigit = false) : c ∉ decimal n := by
  intro member
  rw [isDigit_of_mem_decimal member] at other
  cases other

theorem blank_not_mem_port (port : ℕ) : ' ' ∉ ':' :: decimal port :=
  List.not_mem_cons_of_ne_of_not_mem (by decide) (not_mem_decimal rfl)

theorem portText_ne_nil (port : ℕ) : portText port ≠ [] := List.concat_ne_nil _ _

theorem newline_not_mem_portText (port : ℕ) : '\n' ∉ portText port := by
  simp [portText, not_mem_decimal (n := port) (c := '\n') rfl]

/-- A column ends with a port just when it is its own. -/
theorem port_suffix_iff {address : Solid} {port port' : ℕ} :
    ':' :: decimal port <:+ endpoint address port' ↔ port' = port := by
  constructor
  · intro ends
    have clear (n : ℕ) : ':' ∉ decimal n := not_mem_decimal rfl
    have own : ':' :: decimal port' <:+ endpoint address port' := List.suffix_append _ _
    rcases List.suffix_or_suffix_of_suffix ends own with inside | inside
    · rcases List.suffix_cons_iff.mp inside with same | inside
      · exact decimal_inj (List.cons.inj same).2.symm
      · exact absurd (inside.subset List.mem_cons_self) (clear _)
    · rcases List.suffix_cons_iff.mp inside with same | inside
      · exact decimal_inj (List.cons.inj same).2
      · exact absurd (inside.subset List.mem_cons_self) (clear _)
  · rintro rfl
    exact List.suffix_append _ _

theorem count_blanks (port n : ℕ) (rest : List Char) :
    count (portText port) (blanks n ++ rest) = count (portText port) rest := by
  induction n with
  | zero => rfl
  | succ n ih =>
    have empty : ¬ ':' :: decimal port <:+ [] := by simp
    have first := count_ended (blank_not_mem_port port) (List.not_mem_nil) (blanks n ++ rest)
    rw [List.nil_append, if_neg empty, Nat.zero_add] at first
    rw [← ih]
    exact first

/-- A column counts where it ends with the port. -/
theorem count_column (port : ℕ) {column : List Char} (solid : ' ' ∉ column) (n : ℕ) (rest : List Char) :
    count (portText port) (column ++ blanks (n + 1) ++ rest) =
      (if ':' :: decimal port <:+ column then 1 else 0) + count (portText port) rest := by
  have first := count_ended (blank_not_mem_port port) solid (blanks n ++ rest)
  rw [← count_blanks port n rest, List.append_assoc]
  exact first

theorem count_column_of_digits (port : ℕ) {column : List Char} (solid : ' ' ∉ column)
    (free : ':' ∉ column) (n : ℕ) (rest : List Char) :
    count (portText port) (column ++ blanks (n + 1) ++ rest) = count (portText port) rest := by
  have other : ¬ ':' :: decimal port <:+ column := fun ends => free (ends.subset List.mem_cons_self)
  rw [count_column port solid, if_neg other, Nat.zero_add]

theorem blank_not_mem_solid (text : Solid) : ' ' ∉ text.1 := by
  intro member
  cases text.2 _ member

theorem blank_not_mem_endpoint (address : Solid) (port : ℕ) : ' ' ∉ endpoint address port := by
  rw [endpoint, List.mem_append, not_or]
  exact ⟨blank_not_mem_solid address, blank_not_mem_port port⟩

theorem Row.count_text (row : Row) (port : ℕ) :
    count (portText port) row.text =
      (if row.socket.port = port then 1 else 0) + count (portText port) row.rest := by
  have state : ' ' ∉ row.socket.state.text ∧ ':' ∉ row.socket.state.text := by
    cases row.socket.state <;> decide
  have digits (n : ℕ) : ' ' ∉ decimal n ∧ ':' ∉ decimal n := ⟨not_mem_decimal rfl, not_mem_decimal rfl⟩
  rw [Row.text, Row.state, Row.queues, List.append_assoc (_ ++ _),
    count_column_of_digits port state.1 state.2, List.append_assoc (_ ++ _),
    count_column_of_digits port (digits _).1 (digits _).2,
    count_column_of_digits port (digits _).1 (digits _).2,
    count_column port (blank_not_mem_endpoint _ _)]
  simp only [port_suffix_iff]

/-! ### The output without the blanks at its end -/

theorem rdropWhile_append {p : Char → Bool} (front back : List Char) :
    (front ++ back).rdropWhile p =
      if back.rdropWhile p = [] then front.rdropWhile p else front ++ back.rdropWhile p := by
  simp only [List.rdropWhile, List.reverse_append, List.dropWhile_append, List.isEmpty_iff,
    List.reverse_eq_nil_iff]
  split <;> simp

theorem endpoint_rdropWhile (address : Solid) (port : ℕ) :
    (endpoint address port).rdropWhile isSpace = endpoint address port := by
  rw [List.rdropWhile_eq_self_iff]
  intro begun
  have last : (endpoint address port).getLast begun = (decimal port).getLast (decimal_ne_nil port) := by
    simp only [endpoint]
    rw [List.getLast_append_of_ne_nil _ (List.cons_ne_nil _ _), List.getLast_cons (decimal_ne_nil port)]
  rw [last, isSpace_of_isDigit (isDigit_of_mem_decimal (List.getLast_mem (decimal_ne_nil port)))]
  exact Bool.false_ne_true

theorem Row.rest_clip (row : Row) : row.clip.rest = row.rest.rdropWhile isSpace := by
  have parts : row.clip.rest =
      endpoint row.socket.peer row.socket.peerPort ++ row.spacing.tail.rdropWhile isSpace := rfl
  rw [parts, Row.rest, rdropWhile_append]
  split
  · next nothing => rw [endpoint_rdropWhile, nothing, List.append_nil]
  · rfl

theorem Row.rest_rdropWhile_ne_nil (row : Row) : row.rest.rdropWhile isSpace ≠ [] := by
  rw [← row.rest_clip]
  simp [Row.rest, endpoint]

theorem Row.text_clip (row : Row) : row.clip.text = row.text.rdropWhile isSpace := by
  have parts : row.clip.text = row.state ++ row.queues ++
      (endpoint row.socket.address row.socket.port ++ blanks (row.spacing.afterLocal + 1) ++
        row.clip.rest) := rfl
  have begun := row.rest_rdropWhile_ne_nil
  rw [parts, Row.text, row.rest_clip, rdropWhile_append, rdropWhile_append, if_neg begun,
    if_neg fun empty => begun (List.append_eq_nil_iff.mp empty).2]

theorem Row.text_ne_nil (row : Row) : row.text ≠ [] := by
  simp [Row.text, Row.rest, endpoint]

theorem shown_ne_nil {rows : List Row} (begun : rows ≠ []) : shown rows ≠ [] := by
  match rows with
  | [_] => exact List.cons_ne_nil _ _
  | _ :: _ :: _ => exact List.cons_ne_nil _ _

theorem intercalate_ne_nil {lines : List (List Char)} (begun : lines ≠ [])
    (nonempty : ∀ line ∈ lines, line ≠ []) : ['\n'].intercalate lines ≠ [] := by
  match lines with
  | [line] => simpa [List.intercalate] using nonempty line
  | line :: next :: rest =>
    rw [List.intercalate_cons_cons]
    simp

theorem rdropWhile_rows {rows : List Row} (begun : rows ≠ []) :
    (unlines (rows.map Row.text)).rdropWhile isSpace = ['\n'].intercalate ((shown rows).map Row.text) := by
  match rows with
  | [row] =>
    have single : unlines ([row].map Row.text) = row.text ++ ['\n'] := by simp [unlines]
    rw [single, List.rdropWhile_concat_pos _ _ _ rfl, ← row.text_clip]
    simp [shown, List.intercalate]
  | row :: next :: rows =>
    have parts : unlines ((row :: next :: rows).map Row.text) =
        (row.text ++ ['\n']) ++ unlines ((next :: rows).map Row.text) := rfl
    have later := rdropWhile_rows (List.cons_ne_nil next rows)
    have visible : (unlines ((next :: rows).map Row.text)).rdropWhile isSpace ≠ [] := by
      rw [later]
      refine intercalate_ne_nil ?_ ?_
      · simpa using shown_ne_nil (List.cons_ne_nil next rows)
      · intro line member
        obtain ⟨shownRow, -, rfl⟩ := List.mem_map.mp member
        exact shownRow.text_ne_nil
    obtain ⟨first, others, same⟩ := List.exists_cons_of_ne_nil (shown_ne_nil (List.cons_ne_nil next rows))
    rw [parts, rdropWhile_append, if_neg visible, later, shown, List.map_cons, same, List.map_cons,
      List.intercalate_cons_cons]

section Layout

variable (layout : Layout) (sockets : List Socket)

/-- The header, which ends the output where there is no row. -/
def Layout.shownHeader : List Char :=
  if sockets = [] then layout.header.rdropWhile isSpace else layout.header

def Layout.shownLines : List (List Char) :=
  layout.shownHeader sockets :: (shown (layout.rows sockets)).map Row.text

theorem Layout.rows_eq_nil_iff : layout.rows sockets = [] ↔ sockets = [] := by
  rw [Layout.rows, List.mapIdx_eq_nil_iff]

theorem Layout.strip_stdout :
    strip (layout.stdout sockets) = ['\n'].intercalate (layout.shownLines sockets) := by
  have parts : layout.stdout sockets =
      (layout.header ++ ['\n']) ++ unlines ((layout.rows sockets).map Row.text) := rfl
  have front : (layout.stdout sockets).dropWhile isSpace = layout.stdout sockets := by
    obtain ⟨c, first, visible⟩ := layout.begun
    obtain ⟨rest, header⟩ : ∃ rest, layout.header = c :: rest := List.head?_eq_some_iff.mp first
    rw [parts, header]
    exact List.dropWhile_cons_of_neg (by simp [visible])
  rw [strip, front, parts, Layout.shownLines, Layout.shownHeader]
  by_cases none : sockets = []
  · rw [(layout.rows_eq_nil_iff sockets).mpr none, if_pos none]
    have nothing : unlines (([] : List Row).map Row.text) = [] := rfl
    rw [nothing, List.append_nil, List.rdropWhile_concat_pos _ _ _ rfl]
    simp [shown, List.intercalate]
  · have begun : layout.rows sockets ≠ [] := fun empty => none ((layout.rows_eq_nil_iff sockets).mp empty)
    obtain ⟨first, others, same⟩ := List.exists_cons_of_ne_nil (shown_ne_nil begun)
    have visible : ['\n'].intercalate ((shown (layout.rows sockets)).map Row.text) ≠ [] := by
      refine intercalate_ne_nil (by simp [same]) ?_
      intro line member
      obtain ⟨shownRow, -, rfl⟩ := List.mem_map.mp member
      exact shownRow.text_ne_nil
    rw [rdropWhile_append, rdropWhile_rows begun, if_neg visible, if_neg none, same, List.map_cons,
      List.intercalate_cons_cons]

end Layout

/-! ### The figures -/

@[simp] theorem shown_sockets (rows : List Row) : (shown rows).map Row.socket = rows.map Row.socket := by
  match rows with
  | [] => rfl
  | [_] => rfl
  | row :: next :: rows =>
    rw [shown, List.map_cons, shown_sockets (next :: rows)]
    rfl

theorem Layout.rows_sockets (layout : Layout) (sockets : List Socket) :
    (layout.rows sockets).map Row.socket = sockets := by
  refine List.ext_getElem? fun i => ?_
  rw [Layout.rows, List.getElem?_map, List.getElem?_mapIdx, Option.map_map]
  exact congrFun Option.map_id _

theorem sum_ite_eq_countP {α : Type} (p : α → Prop) [DecidablePred p] (items : List α) :
    (items.map fun item => if p item then 1 else 0).sum = items.countP (p ·) := by
  induction items with
  | nil => rfl
  | cons item items ih =>
    rw [List.map_cons, List.sum_cons, ih, List.countP_cons, Nat.add_comm]
    simp only [decide_eq_true_eq]

theorem count_header (layout : Layout) (sockets : List Socket) (port : ℕ) :
    count (portText port) (layout.shownHeader sockets) = 0 := by
  refine count_eq_zero_of_not_infix fun occurs => ?_
  obtain ⟨c, rest, digits⟩ := List.exists_cons_of_ne_nil (decimal_ne_nil port)
  have inside : c ∈ layout.shownHeader sockets := occurs.subset (by simp [portText, digits])
  have header : c ∈ layout.header := by
    unfold Layout.shownHeader at inside
    split at inside
    · exact (List.rdropWhile_prefix _ _).subset inside
    · exact inside
  have digit := isDigit_of_mem_decimal (n := port) (digits ▸ List.mem_cons_self)
  rw [layout.words c header] at digit
  cases digit

/-- The figure of the summary: a socket counts with its local port, and a line with every other
place where the port is shown. -/
theorem count_stdout (layout : Layout) (sockets : List Socket) (port : ℕ) :
    count (portText port) (strip (layout.stdout sockets)) =
      sockets.countP (·.port = port) +
        ((shown (layout.rows sockets)).map fun row => count (portText port) row.rest).sum := by
  have local_ : sockets.countP (·.port = port) =
      ((shown (layout.rows sockets)).map fun row => if row.socket.port = port then 1 else 0).sum := by
    have names : sockets = (shown (layout.rows sockets)).map Row.socket := by
      rw [shown_sockets, layout.rows_sockets]
    conv_lhs => rw [names, List.countP_map]
    rw [sum_ite_eq_countP]
    rfl
  rw [layout.strip_stdout, count_intercalate (portText_ne_nil port) (newline_not_mem_portText port),
    Layout.shownLines, List.map_cons, List.sum_cons, count_header, Nat.zero_add, List.map_map, local_,
    ← List.sum_map_add]
  exact congrArg List.sum (List.map_congr_left fun row _ => row.count_text port)

theorem oneLine_of_solid {text : List Char} (solid : ∀ c ∈ text, isSpace c = false) :
    OneLine lineEnd text := by
  intro c member
  refine Bool.eq_false_iff.mpr fun ends => ?_
  have visible := solid c member
  rw [PackageFiles.space_of_lineEnd ends] at visible
  cases visible

theorem oneLine_decimal (n : ℕ) : OneLine lineEnd (decimal n) :=
  oneLine_of_solid fun _ member => isSpace_of_isDigit (isDigit_of_mem_decimal member)

theorem oneLine_blanks (n : ℕ) : OneLine lineEnd (blanks n) := by
  intro c member
  rw [List.eq_of_mem_replicate member]
  rfl

theorem oneLine_endpoint (address : Solid) (port : ℕ) : OneLine lineEnd (endpoint address port) := by
  have colon : OneLine lineEnd [':'] := List.forall_mem_singleton.mpr rfl
  exact (oneLine_of_solid address.2).append (colon.append (oneLine_decimal port))

theorem Row.text_oneLine (row : Row) : OneLine lineEnd row.text := by
  have state : OneLine lineEnd row.socket.state.text := by
    cases row.socket.state <;> exact List.forall_mem_iff_getElem.mpr (by decide)
  have queues : OneLine lineEnd row.queues :=
    ((oneLine_decimal _).append (oneLine_blanks _)).append ((oneLine_decimal _).append (oneLine_blanks _))
  have rest : OneLine lineEnd row.rest := (oneLine_endpoint _ _).append row.spacing.line
  exact ((state.append (oneLine_blanks _)).append queues).append
    (((oneLine_endpoint _ _).append (oneLine_blanks _)).append rest)

theorem shownLines_oneLine (layout : Layout) (sockets : List Socket) :
    ∀ line ∈ layout.shownLines sockets, OneLine lineEnd line := by
  intro line member
  rcases List.mem_cons.mp member with rfl | member
  · unfold Layout.shownHeader
    split
    · exact fun c inside => layout.line c ((List.rdropWhile_prefix _ _).subset inside)
    · exact layout.line
  · obtain ⟨row, -, rfl⟩ := List.mem_map.mp member
    exact row.text_oneLine

theorem shownHeader_ne_nil (layout : Layout) (sockets : List Socket) :
    layout.shownHeader sockets ≠ [] := by
  obtain ⟨c, first, visible⟩ := layout.begun
  have inside : c ∈ layout.header := List.mem_of_mem_head? first
  unfold Layout.shownHeader
  split
  · intro empty
    rw [List.rdropWhile_eq_nil_iff.mp empty c inside] at visible
    cases visible
  · exact List.ne_nil_of_mem inside

theorem splitlines_stdout (layout : Layout) (sockets : List Socket) :
    splitlines (String.ofList (strip (layout.stdout sockets))) = layout.shownLines sockets := by
  have one := shownLines_oneLine layout sockets
  have returns : '\r' ∉ ['\n'].intercalate (layout.shownLines sockets) := by
    intro member
    rcases Text.mem_intercalate member with mark | ⟨line, inside, here⟩
    · exact absurd mark (by decide)
    · exact PackageFiles.return_not_mem_of_oneLine (one line inside) here
  have last : (layout.shownLines sockets).getLast? ≠ some [] := by
    intro final
    have member := List.mem_of_getLast? final
    rcases List.mem_cons.mp member with header | row
    · exact shownHeader_ne_nil layout sockets header.symm
    · obtain ⟨row, -, empty⟩ := List.mem_map.mp row
      exact row.text_ne_nil empty
  have split : (['\n'].intercalate (layout.shownLines sockets)).splitOnP lineEnd =
      layout.shownLines sockets := Lines.splitOnP_intercalate rfl (List.cons_ne_nil _ _) one
  rw [layout.strip_stdout, splitlines, String.toList_ofList, PackageFiles.joinReturns_of_none returns,
    split, if_neg last]

/-- Where all sockets are established, each has its line. -/
theorem established_lines {layout : Layout} {sockets : List Socket}
    (all : ∀ socket ∈ sockets, socket.state = .estab) :
    ((layout.shownLines sockets).filter ("ESTAB".toList <:+: ·)).length = sockets.length := by
  have header : ¬ "ESTAB".toList <:+: layout.shownHeader sockets := by
    intro inside
    refine layout.stateless ?_
    unfold Layout.shownHeader at inside
    split at inside
    · exact inside.trans (List.rdropWhile_prefix _ _).isInfix
    · exact inside
  have rows : ∀ line ∈ (shown (layout.rows sockets)).map Row.text, "ESTAB".toList <:+: line := by
    intro line member
    obtain ⟨row, inside, rfl⟩ := List.mem_map.mp member
    have socket : row.socket ∈ sockets := by
      rw [← layout.rows_sockets sockets, ← shown_sockets]
      exact List.mem_map_of_mem inside
    obtain ⟨rest, whole⟩ : ∃ rest, row.text = State.estab.text ++ rest :=
      ⟨_, by rw [Row.text, Row.state, all _ socket, List.append_assoc, List.append_assoc]⟩
    rw [whole]
    exact (List.prefix_append State.estab.text rest).isInfix
  rw [Layout.shownLines, List.filter_cons_of_neg (by simpa using header),
    List.filter_eq_self.mpr fun line member => decide_eq_true (rows line member), List.length_map]
  have names := congrArg List.length (shown_sockets (layout.rows sockets))
  rw [layout.rows_sockets, List.length_map] at names
  exact names

/-- The port is shown nowhere but as the local port of established sockets. -/
structure Clear (layout : Layout) (sockets : List Socket) (port : ℕ) : Prop where
  established : ∀ socket ∈ sockets, socket.port = port → socket.state = .estab
  unshown : ∀ row ∈ shown (layout.rows sockets), ¬ portText port <:+: row.rest

theorem established_eq (sockets : List Socket) (port : ℕ) :
    established sockets port = (ofPort sockets port).countP (·.state = .estab) := by
  rw [ofPort, List.countP_filter, established]
  simp

theorem count_eq_established_iff {layout : Layout} {sockets : List Socket} {port : ℕ} :
    count (portText port) (strip (layout.stdout sockets)) = established sockets port ↔
      Clear layout sockets port := by
  have own : sockets.countP (·.port = port) = (ofPort sockets port).length :=
    List.countP_eq_length_filter
  have fewer : established sockets port ≤ (ofPort sockets port).length := by
    rw [established_eq]
    exact List.countP_le_length
  have every : established sockets port = (ofPort sockets port).length ↔
      ∀ socket ∈ sockets, socket.port = port → socket.state = .estab := by
    rw [established_eq, List.countP_eq_length]
    simp [ofPort]
  have none : ((shown (layout.rows sockets)).map fun row => count (portText port) row.rest).sum = 0 ↔
      ∀ row ∈ shown (layout.rows sockets), ¬ portText port <:+: row.rest := by
    rw [List.sum_eq_zero_iff_forall_eq_nat, List.forall_mem_map]
    exact forall₂_congr fun row _ => count_eq_zero_iff (portText_ne_nil port)
  rw [count_stdout, own]
  constructor
  · intro same
    exact ⟨every.mp (by omega), none.mp (by omega)⟩
  · intro clear
    rw [none.mpr clear.unshown, ← every.mpr clear.established, Nat.add_zero]

theorem find?_entry : ∀ entry ∈ engineRegistry, engineRegistry.find? (·.id = entry.id) = some entry := by
  exact of_decide_eq_true rfl

/-- The two figures agree just when the port is shown nowhere else; the tables of all sockets and of
those with the port may be laid out differently. -/
theorem connections_agree_iff (all own : Layout) (sockets : List Socket) {entry : Entry}
    (registered : entry ∈ engineRegistry) (port : 0 < entry.port) :
    ((cmdConnections (fun port => own.stdout (ofPort sockets port)) entry.id).figure =
        some (detectConnections true entry.port (all.stdout sockets)) ∧
      detectConnections true entry.port (all.stdout sockets) = established sockets entry.port) ↔
      Clear all sockets entry.port := by
  have detected : detectConnections true entry.port (all.stdout sockets) =
      count (portText entry.port) (strip (all.stdout sockets)) := if_pos ⟨rfl, port⟩
  rw [detected]
  constructor
  · rintro ⟨-, same⟩
    exact count_eq_established_iff.mp same
  · intro clear
    have same := count_eq_established_iff.mpr clear
    have only : ∀ socket ∈ ofPort sockets entry.port, socket.state = .estab := by
      intro socket member
      obtain ⟨member, is⟩ := List.mem_filter.mp member
      exact clear.established socket member (of_decide_eq_true is)
    have listed : established sockets entry.port = (ofPort sockets entry.port).length := by
      rw [established_eq, List.countP_eq_length]
      exact fun socket member => decide_eq_true (only socket member)
    refine ⟨?_, same⟩
    rw [cmdConnections, find?_entry entry registered]
    dsimp only
    rw [if_neg (Nat.ne_of_gt port), splitlines_stdout, same, listed, Reply.figure, established_lines only]

/-- The layout of `ss`, with the process of the server and that of the client. -/
def twoProcesses : Layout where
  header := "State Recv-Q Send-Q Local Address:Port  Peer Address:PortProcess".toList
  spacing i :=
    { afterState := 0
      afterRecv := 5
      afterSend := 5
      afterLocal := 1
      tail := if i = 0 then " users:((\"postgres\",pid=812,fd=9))".toList
        else " users:((\"psql\",pid=4021,fd=5))".toList
      line := by
        rw [String.toList_ofList, String.toList_ofList]
        split <;> exact List.forall_mem_iff_getElem.mpr (by exact of_decide_eq_true rfl) }
  begun := ⟨'S', by rw [String.toList_ofList]; rfl, rfl⟩
  line := by
    rw [String.toList_ofList]
    exact List.forall_mem_iff_getElem.mpr (by exact of_decide_eq_true rfl)
  words := by
    rw [String.toList_ofList]
    exact List.forall_mem_iff_getElem.mpr (by exact of_decide_eq_true rfl)
  stateless := by
    rw [String.toList_ofList]
    exact of_decide_eq_true rfl

def remote : Solid where
  val := "192.0.2.10".toList
  property := by
    rw [String.toList_ofList]
    exact List.forall_mem_iff_getElem.mpr (by exact of_decide_eq_true rfl)

def loopback : Solid where
  val := "127.0.0.1".toList
  property := by
    rw [String.toList_ofList]
    exact List.forall_mem_iff_getElem.mpr (by exact of_decide_eq_true rfl)

/-- The server's end of a connection to the database. -/
def serverEnd (client : Solid) : Socket := ⟨.estab, 0, 0, loopback, 5432, client, 47810⟩

/-- The client's end of a connection from the same host. -/
def clientEnd : Socket := ⟨.estab, 0, 0, loopback, 47810, loopback, 5432⟩

theorem connections_agree_oneClient :
    (cmdConnections (fun port => twoProcesses.stdout (ofPort [serverEnd remote] port))
        "postgresql").figure =
        some (detectConnections true 5432 (twoProcesses.stdout [serverEnd remote])) ∧
      detectConnections true 5432 (twoProcesses.stdout [serverEnd remote]) =
        established [serverEnd remote] 5432 :=
  (@connections_agree_iff twoProcesses twoProcesses [serverEnd remote] ⟨"postgresql", 5432⟩
    (by exact of_decide_eq_true rfl) (by decide)).mpr ⟨by exact of_decide_eq_true rfl, by exact of_decide_eq_true rfl⟩

/-- A connection within the host counts twice in the summary, as the client's end shows the port too. -/
theorem connections_loopback :
    detectConnections true 5432 (twoProcesses.stdout [serverEnd loopback, clientEnd]) = 2 ∧
      (cmdConnections (fun port => twoProcesses.stdout (ofPort [serverEnd loopback, clientEnd] port))
        "postgresql").figure = some 1 ∧
      established [serverEnd loopback, clientEnd] 5432 = 1 := by
  refine ⟨?_, ?_, by rfl⟩
  · rw [detectConnections, if_pos ⟨rfl, by decide⟩, count_stdout]
    rfl
  · have only : ofPort [serverEnd loopback, clientEnd] 5432 = [serverEnd loopback] := rfl
    have entry := find?_entry ⟨"postgresql", 5432⟩ (by simp [engineRegistry])
    rw [cmdConnections, entry]
    dsimp only
    rw [only, if_neg (by decide), splitlines_stdout, Reply.figure, established_lines (by simp [serverEnd])]
    rfl

end SysDeck.Cockpit.DbConnections
