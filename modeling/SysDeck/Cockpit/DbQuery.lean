import SysDeck.Library.Sql
import SysDeck.Library.Strip
import SysDeck.Cockpit.Packages

/-! The query box of the database bridge: what it passes on to the clients of the engines, and when
that only reads. -/

namespace SysDeck.Cockpit.DbQuery

open Packages (isSpace strip)
open Sql (Token Script Statement offends)

/-! ### The command -/

inductive Family where
  | sql | nosql | vector | timeseries | graph | embedded | cloud | ai
  deriving DecidableEq

structure Entry where
  id : String
  family : Family
  cli : String

/-- `ENGINE_REGISTRY` -/
def engineRegistry : List Entry :=
  [⟨"postgresql", .sql, "psql"⟩, ⟨"mariadb", .sql, "mariadb"⟩, ⟨"mysql", .sql, "mysql"⟩,
    ⟨"sqlite", .sql, "sqlite3"⟩, ⟨"cockroachdb", .sql, "cockroach"⟩, ⟨"tidb", .sql, "tidb"⟩,
    ⟨"mongodb", .nosql, "mongosh"⟩, ⟨"couchdb", .nosql, "curl"⟩, ⟨"rethinkdb", .nosql, "rethinkdb"⟩,
    ⟨"dynamodb-local", .nosql, "aws"⟩, ⟨"milvus", .vector, "milvus-cli"⟩, ⟨"qdrant", .vector, "curl"⟩,
    ⟨"weaviate", .vector, "curl"⟩, ⟨"chroma", .vector, "curl"⟩, ⟨"pgvector", .vector, "psql"⟩,
    ⟨"influxdb", .timeseries, "influx"⟩, ⟨"timescaledb", .timeseries, "psql"⟩,
    ⟨"questdb", .timeseries, "curl"⟩, ⟨"clickhouse", .timeseries, "clickhouse-client"⟩,
    ⟨"neo4j", .graph, "cypher-shell"⟩, ⟨"arangodb", .graph, "arangosh"⟩, ⟨"orientdb", .graph, "console.sh"⟩,
    ⟨"redis", .embedded, "redis-cli"⟩, ⟨"keydb", .embedded, "keydb-cli"⟩, ⟨"valkey", .embedded, "valkey-cli"⟩,
    ⟨"rocksdb", .embedded, "rocksdb"⟩, ⟨"lmdb", .embedded, "python3"⟩, ⟨"badgerdb", .embedded, "badger"⟩,
    ⟨"firestore-emulator", .cloud, "gcloud"⟩, ⟨"supabase-local", .cloud, "supabase"⟩,
    ⟨"lancedb", .ai, "lancedb"⟩, ⟨"duckdb", .ai, "duckdb"⟩, ⟨"tile38", .ai, "tile38-cli"⟩]

inductive Client where
  | psql | mysql | cockroach | clickhouse
  deriving DecidableEq

/-- What is run before the text of the query. -/
def Client.command : Client → List String
  | psql => ["psql", "-tAc"]
  | mysql => ["mysql", "-e"]
  | cockroach => ["cockroach", "sql", "-e"]
  | clickhouse => ["clickhouse-client", "-q"]

/-- `query_cmds` -/
def queryCmds : List (String × Client) :=
  [("psql", .psql), ("mysql", .mysql), ("mariadb", .mysql), ("cockroach", .cockroach),
    ("clickhouse-client", .clickhouse)]

def readVerbs : List String :=
  ["SELECT", "WITH", "SHOW", "EXPLAIN", "DESCRIBE", "DESC", "PRAGMA", "TABLE", "ANALYZE"]

/-- `upper()`; of the characters outside ASCII only these two become a letter of a read verb. -/
def upper (c : Char) : Char := if c = 'ı' then 'I' else if c = 'ſ' then 'S' else c.toUpper

/-- `sql.lstrip("(\t\r\n ").split(None, 1)[0].upper()` -/
def firstToken (sql : List Char) : List Char :=
  (((sql.dropWhile fun c => c = '(' || c = '\t' || c = '\r' || c = '\n' || c = ' ').dropWhile
    isSpace).takeWhile (!isSpace ·)).map upper

inductive Refusal where
  | onlySql
  | length
  | batched
  | notRead
  | needsFile
  | noHandler (cli : String)
  | unknownEngine (id : String)
  deriving DecidableEq

/-- What is run: the client and the text that it gets. -/
structure Request where
  client : Client
  sql : List Char
  deriving DecidableEq

/-- `cmd_query`, up to the run. -/
def cmdQuery (engineId : String) (sql : List Char) : Except Refusal Request :=
  match engineRegistry.find? (·.id = engineId) with
  | none => .error (.unknownEngine engineId)
  | some entry =>
    if entry.family ≠ .sql ∧ engineId ∉ ["clickhouse", "timescaledb", "duckdb"] then .error .onlySql
    else
      let sql := strip ((strip sql).rdropWhile (· = ';'))
      if sql = [] ∨ 4096 < sql.length ∨ '\x00' ∈ sql then .error .length
      else if ';' ∈ sql ∨ sql.head? = some '\\' then .error .batched
      else if !readVerbs.any (fun verb => firstToken sql = verb.toList) then .error .notRead
      else if entry.cli = "sqlite3" then .error .needsFile
      else match queryCmds.lookup entry.cli with
        | none => .error (.noHandler entry.cli)
        | some client => .ok ⟨client, sql⟩

/-! ### What is passed on -/

/-- What passes all checks. -/
structure Passed (sql : List Char) : Prop where
  semicolon : ';' ∉ sql
  backslash : sql.head? ≠ some '\\'
  stripped : ∀ c ∈ sql.head?, isSpace c = false
  verb : ∃ verb ∈ readVerbs, firstToken sql = verb.toList

theorem passed_of_cmdQuery {engineId : String} {sql : List Char} {request : Request}
    (passed : cmdQuery engineId sql = .ok request) : Passed request.sql := by
  unfold cmdQuery at passed
  split at passed
  · cases passed
  · split at passed
    · cases passed
    · dsimp only at passed
      split at passed
      · cases passed
      · split at passed
        · cases passed
        · rename_i single
          split at passed
          · cases passed
          · rename_i read
            split at passed
            · cases passed
            · split at passed
              · cases passed
              · obtain rfl := Except.ok.inj passed
                rw [not_or] at single
                refine ⟨single.1, single.2, Strip.head_stripBy _, ?_⟩
                simpa using read

theorem isAlpha_of_toUpper {c : Char} (upper : c.toUpper.isUpper) : c.isAlpha := by
  have either : c.isUpper ∨ c.isLower → c.isAlpha := (Bool.or_eq_true _ _).mpr
  by_cases lower : c.val ≥ 'a'.val ∧ c.val ≤ 'z'.val
  · exact either (.inr ((Bool.and_eq_true _ _).mpr ⟨decide_eq_true lower.1, decide_eq_true lower.2⟩))
  · have same : c.toUpper = c := dif_neg lower
    rw [same] at upper
    exact either (.inl upper)

/-- What is passed on begins with a parenthesis or a letter. -/
theorem Passed.begins {sql : List Char} (passed : Passed sql) :
    ∃ c rest, sql = c :: rest ∧ (c = '(' ∨ c.isAlpha ∨ c = 'ı' ∨ c = 'ſ') := by
  obtain ⟨verb, listed, first⟩ := passed.verb
  cases sql with
  | nil =>
    exfalso
    have none : ∀ verb ∈ readVerbs, verb.toList ≠ [] := by decide
    exact none verb listed first.symm
  | cons c rest =>
    refine ⟨c, rest, rfl, ?_⟩
    by_cases parenthesis : c = '('
    · exact .inl parenthesis
    · right
      have visible : isSpace c = false := passed.stripped c rfl
      have blank : ¬(c = '\t' ∨ c = '\r' ∨ c = '\n' ∨ c = ' ') := by
        rintro (rfl | rfl | rfl | rfl) <;> exact absurd visible (by decide)
      have upperCase : ∀ verb ∈ readVerbs, verb.toList.head?.all Char.isUpper := by decide
      have head : (upper c).isUpper := by
        have initial := upperCase verb listed
        simp only [not_or] at blank
        rw [← first, firstToken, List.dropWhile_cons_of_neg (by simp [parenthesis, blank]),
          List.dropWhile_cons_of_neg (by simp [visible]), List.takeWhile_cons_of_pos (by simp [visible])] at initial
        exact initial
      unfold upper at head
      split at head
      · rename_i same
        exact .inr (.inl same)
      · split at head
        · rename_i same
          exact .inr (.inr same)
        · exact .inl (isAlpha_of_toUpper head)

/-! ### What the engines read -/

/-- How the engines and their clients cut a text into tokens, as far as the check relies on it. -/
structure Usual (lex : List Char → List Token) : Prop where
  begins c text : c = '(' ∨ c.isAlpha ∨ c = 'ı' ∨ c = 'ſ' → lex (c :: text) ≠ []
  semicolon text : .semicolon ∈ lex text → ';' ∈ text

/-- The client of PostgreSQL takes a text for a command of its own only as a whole. -/
def PsqlCommands (lex : List Char → List Token) : Prop :=
  ∀ text, .command ∈ lex text → text.head? = some '\\'

/-- A single statement without a modifying command anywhere inside, and no command of the client. -/
def ReadOnly (lex : List Char → List Token) (sql : List Char) : Prop :=
  .command ∉ lex sql ∧ ∀ script : Script, lex sql = script.tokens →
    script.later = [] ∧ ∃ statement, script.first = some statement ∧ statement.modifies = false

variable {lex : List Char → List Token}

theorem Passed.tokens_ne_nil {sql : List Char} (passed : Passed sql) (usual : Usual lex) : lex sql ≠ [] := by
  obtain ⟨c, rest, rfl, begins⟩ := passed.begins
  exact usual.begins c rest begins

/-- Without anything that ends a statement a script is one statement or nothing. -/
theorem later_eq_nil {script : Script} (semicolon : Token.semicolon ∉ script.tokens)
    (command : Token.command ∉ script.tokens) : script.later = [] := by
  cases later : script.later with
  | nil => rfl
  | cons piece more =>
    exfalso
    obtain ⟨stop, statement⟩ := piece
    have member : stop.token ∈ script.tokens := by
      rw [Script.tokens, later]
      simp
    cases stop with
    | semicolon => exact semicolon member
    | command => exact command member

theorem tokens_of_single {script : Script} (single : script.later = []) {statement : Statement}
    (first : script.first = some statement) : script.tokens = statement.tokens := by
  rw [Script.tokens, single, first, List.flatMap_nil, List.append_nil]
  rfl

theorem offends_tokens (statement : Statement) : offends false statement.tokens = statement.modifies := by
  have words := Sql.offends_statement statement Sql.resets_nil
  rw [List.append_nil] at words
  rw [words]
  exact Bool.or_false _

def wordChar (c : Char) : Bool := c.isAlphanum || c = '_' || 0x80 ≤ c.toNat

def ended (raw : List Char) : List Token := if raw = [] then [] else [.word raw]

def symbol (c : Char) : List Token :=
  if isSpace c then [] else if c = '(' then [.open_] else if c = ')' then [.close]
  else if c = ';' then [.semicolon] else [.other]

/-- The tokens of a text after the letters of a word. -/
def lexFrom (raw : List Char) : List Char → List Token
  | [] => ended raw
  | c :: rest => if wordChar c then lexFrom (raw ++ [c]) rest else ended raw ++ (symbol c ++ lexFrom [] rest)

/-- What `psql -c` makes of a text without quotes and comments. -/
def psqlLex (text : List Char) : List Token :=
  if text.head? = some '\\' then [.command] else lexFrom [] text

theorem lexFrom_ne_nil {raw : List Char} (begun : raw ≠ []) (text : List Char) : lexFrom raw text ≠ [] := by
  induction text generalizing raw with
  | nil => simp [lexFrom, ended, begun]
  | cons c text ih =>
    rw [lexFrom]
    split
    · exact ih (List.append_ne_nil_of_left_ne_nil begun _)
    · simp [ended, begun]

theorem mem_lexFrom {token : Token} {raw text : List Char} (member : token ∈ lexFrom raw text) :
    (∃ word, token = .word word) ∨ ∃ c ∈ text, token ∈ symbol c := by
  have here : ∀ raw, token ∈ ended raw → ∃ word, token = .word word := by
    intro raw member
    unfold ended at member
    split at member
    · cases member
    · exact ⟨raw, List.mem_singleton.mp member⟩
  induction text generalizing raw with
  | nil => exact .inl (here raw member)
  | cons c text ih =>
    rw [lexFrom] at member
    split at member
    · rcases ih member with word | ⟨d, later, made⟩
      · exact .inl word
      · exact .inr ⟨d, List.mem_cons_of_mem _ later, made⟩
    · rcases List.mem_append.mp member with member | member
      · exact .inl (here raw member)
      · rcases List.mem_append.mp member with made | member
        · exact .inr ⟨c, List.mem_cons_self, made⟩
        · rcases ih member with word | ⟨d, later, made⟩
          · exact .inl word
          · exact .inr ⟨d, List.mem_cons_of_mem _ later, made⟩

theorem usual_psqlLex : Usual psqlLex where
  begins c text begins := by
    have other : (c :: text).head? ≠ some '\\' := by
      intro same
      obtain rfl : c = '\\' := Option.some.inj same
      exact absurd begins (by decide)
    rw [psqlLex, if_neg other, lexFrom]
    rcases begins with rfl | letter
    · simp [symbol, wordChar, isSpace]
    · have visible : wordChar c = true := by
        rcases letter with letter | rfl | rfl
        · simp [wordChar, Char.isAlphanum, letter]
        · decide
        · decide
      rw [if_pos visible]
      exact lexFrom_ne_nil (List.append_ne_nil_of_right_ne_nil _ (List.cons_ne_nil _ _)) text
  semicolon text member := by
    unfold psqlLex at member
    split at member
    · cases List.mem_singleton.mp member
    · rcases mem_lexFrom member with ⟨word, same⟩ | ⟨c, inside, made⟩
      · cases same
      · by_cases same : c = ';'
        · exact same ▸ inside
        · exfalso
          unfold symbol at made
          split_ifs at made <;> simp_all

theorem psqlCommands_psqlLex : PsqlCommands psqlLex := by
  intro text member
  unfold psqlLex at member
  split at member
  · assumption
  · exfalso
    rcases mem_lexFrom member with ⟨word, same⟩ | ⟨c, -, made⟩
    · cases same
    · unfold symbol at made
      split_ifs at made <;> simp_all

def wordItem (raw : String) (plain : (Token.word raw.toList).isPlain) : Sql.Leaf Token.isPlain :=
  ⟨.word raw.toList, plain⟩

/-- `SELECT a FROM t` -/
def plainSelect : Statement :=
  .run (.query (.select ⟨"SELECT".toList, rfl⟩ (.item (wordItem "a" rfl) (.item (wordItem "FROM" rfl)
    (.item (wordItem "t" rfl) .done)))))

/-- `DELETE FROM t RETURNING a` -/
def deletion : Sql.Command :=
  .modify ⟨"DELETE".toList, rfl⟩ ⟨.word "FROM".toList, rfl⟩ (.leaf ⟨.word "t".toList, rfl⟩
    (.leaf ⟨.word "RETURNING".toList, rfl⟩ (.leaf ⟨.word "a".toList, rfl⟩ .done)))

/-- `WITH d AS (DELETE FROM t RETURNING a) SELECT a FROM d` -/
def deletingWith : Statement :=
  .run (.query (.with_ ⟨"WITH".toList, rfl⟩ none
    (.last (.leaf (wordItem "d" rfl) .done) ⟨"AS".toList, rfl⟩ [] deletion)
    (.query (.select ⟨"SELECT".toList, rfl⟩ (.item (wordItem "a" rfl) (.item (wordItem "FROM" rfl)
      (.item (wordItem "d" rfl) .done)))))))

end SysDeck.Cockpit.DbQuery
