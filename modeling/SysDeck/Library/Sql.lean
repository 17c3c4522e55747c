import Mathlib.Data.List.Basic

/-! The usual grammar of SQL statements that read, and of those that may stand inside them: WITH lists,
EXPLAIN, and SELECT with an INTO. A statement is a tree that carries the words it is written with, so
that its tokens are a function of it. -/

namespace Sql

/-! ### Tokens -/

inductive Token where
  | word (raw : List Char)
  | open_
  | close
  | semicolon
  /-- a command of the client, which is not sent to the server -/
  | command
  /-- a number, an operator or quoted text -/
  | other
  deriving DecidableEq

/-- Keywords are ASCII, in any case. -/
def spells (words : List String) (raw : List Char) : Bool :=
  words.any fun word => raw.map Char.toUpper = word.toList

/-- The verbs of the statements that modify data or definitions. -/
def modifyingVerbs : List String :=
  ["INSERT", "UPDATE", "DELETE", "MERGE", "REPLACE", "TRUNCATE", "CREATE", "ALTER", "DROP", "RENAME",
    "GRANT", "REVOKE"]

/-- `FOR UPDATE` and `SHOW CREATE` modify nothing. -/
def excusing : List String := ["FOR", "SHOW"]

/-- A word that modifies where it stands is the word INTO, or a modifying verb that is no function and
does not come after an excusing word. -/
def offends : Bool → List Token → Bool
  | _, [] => false
  | excused, .word raw :: rest =>
    spells ["INTO"] raw || (spells modifyingVerbs raw && !excused && decide (rest.head? ≠ some .open_)) ||
      offends (spells excusing raw) rest
  | _, _ :: rest => offends false rest

/-! ### Trees -/

structure Keyword (words : List String) where
  raw : List Char
  spelled : spells words raw

structure Leaf (allowed : Token → Bool) where
  token : Token
  isAllowed : allowed token

/-- Text without statements inside: leaves, and groups in parentheses. -/
inductive Tree (allowed : Token → Bool) where
  | done
  | leaf (here : Leaf allowed) (rest : Tree allowed)
  | group (inner rest : Tree allowed)

/-- The verbs and INTO are reserved. -/
def Token.isPlain : Token → Bool
  | word raw => !spells modifyingVerbs raw && !spells ["INTO"] raw
  | other => true
  | _ => false

/-- After a modifying verb come all words. -/
def Token.isSent : Token → Bool
  | word _ => true
  | other => true
  | _ => false

def optionWords : List String :=
  ["ANALYZE", "VERBOSE", "COSTS", "SETTINGS", "BUFFERS", "WAL", "TIMING", "SUMMARY", "MEMORY", "FORMAT",
    "TEXT", "XML", "JSON", "YAML", "TREE", "TRADITIONAL", "EXTENDED", "PARTITIONS", "ON", "OFF", "TRUE",
    "FALSE", "PLAN", "AST", "SYNTAX", "PIPELINE", "ESTIMATE", "DISTSQL", "OPT", "TYPES", "DEBUG"]

def Token.isOption : Token → Bool
  | word raw => spells optionWords raw
  | other => true
  | _ => false

/-! ### Statements -/

mutual

inductive Query where
  | select (verb : Keyword ["SELECT", "VALUES", "TABLE"]) (body : Body)
  | with_ (verb : Keyword ["WITH"]) (recursive : Option (Keyword ["RECURSIVE"])) (parts : Parts)
    (main : Command)
  /-- `(query)`, and a set operation after it -/
  | nested (inner : Query) (tail : Body)

inductive Command where
  | query (query : Query)
  | modify (verb : Keyword modifyingVerbs) (first : Leaf Token.isSent) (rest : Tree Token.isSent)

inductive Body where
  | done
  | item (item : Leaf Token.isPlain) (rest : Body)
  | group (inner rest : Body)
  | subquery (query : Query) (rest : Body)
  /-- a function of the name of a verb, such as REPLACE -/
  | call (verb : Keyword modifyingVerbs) (arguments rest : Body)
  | forUpdate (for_ : Keyword ["FOR"]) (update : Keyword ["UPDATE"]) (rest : Body)
  | into (into : Keyword ["INTO"]) (rest : Body)

/-- `name (columns) AS MATERIALIZED (command)`, between commas. -/
inductive Parts where
  | last (header : Tree Token.isPlain) (as_ : Keyword ["AS"])
    (materialized : List (Keyword ["NOT", "MATERIALIZED"])) (command : Command)
  | more (header : Tree Token.isPlain) (as_ : Keyword ["AS"])
    (materialized : List (Keyword ["NOT", "MATERIALIZED"])) (command : Command) (rest : Parts)

end

inductive Statement where
  | run (command : Command)
  /-- with ANALYZE the command is also run -/
  | explain (verb : Keyword ["EXPLAIN", "DESCRIBE", "DESC", "ANALYZE"]) (options : Tree Token.isOption)
    (command : Command)
  | show_ (verb : Keyword ["SHOW"]) (create : Option (Keyword ["CREATE"])) (rest : Tree Token.isPlain)
  /-- of a table, or of the tables whose statistics are renewed -/
  | describe (verb : Keyword ["EXPLAIN", "DESCRIBE", "DESC", "PRAGMA", "ANALYZE"]) (rest : Tree Token.isPlain)

/-! ### What a statement is written with -/

variable {allowed : Token → Bool} {words : List String}

def Keyword.token (keyword : Keyword words) : Token := .word keyword.raw

def Tree.tokens : Tree allowed → List Token
  | done => []
  | leaf here rest => here.token :: rest.tokens
  | group inner rest => .open_ :: (inner.tokens ++ .close :: rest.tokens)

mutual

def Query.tokens : Query → List Token
  | .select verb body => verb.token :: body.tokens
  | .with_ verb recursive parts main =>
    verb.token :: ((recursive.map Keyword.token).toList ++ (parts.tokens ++ main.tokens))
  | .nested inner tail => .open_ :: (inner.tokens ++ .close :: tail.tokens)

def Command.tokens : Command → List Token
  | .query query => query.tokens
  | .modify verb first rest => verb.token :: first.token :: rest.tokens

def Body.tokens : Body → List Token
  | .done => []
  | .item item rest => item.token :: rest.tokens
  | .group inner rest => .open_ :: (inner.tokens ++ .close :: rest.tokens)
  | .subquery query rest => .open_ :: (query.tokens ++ .close :: rest.tokens)
  | .call verb arguments rest => verb.token :: .open_ :: (arguments.tokens ++ .close :: rest.tokens)
  | .forUpdate for_ update rest => for_.token :: update.token :: rest.tokens
  | .into into rest => into.token :: rest.tokens

def Parts.tokens : Parts → List Token
  | .last header as_ materialized command =>
    header.tokens ++ (as_.token :: (materialized.map Keyword.token ++ .open_ :: (command.tokens ++ [.close])))
  | .more header as_ materialized command rest =>
    header.tokens ++ (as_.token :: (materialized.map Keyword.token ++ .open_ :: (command.tokens ++
      .close :: .other :: rest.tokens)))

end

def Statement.tokens : Statement → List Token
  | run command => command.tokens
  | explain verb options command => verb.token :: (options.tokens ++ command.tokens)
  | show_ verb create rest => verb.token :: ((create.map Keyword.token).toList ++ rest.tokens)
  | describe verb rest => verb.token :: rest.tokens

/-! ### What a statement modifies -/

mutual

/-- A modifying command anywhere inside, or a SELECT with an INTO. -/
def Query.modifies : Query → Bool
  | .select _ body => body.modifies
  | .with_ _ _ parts main => parts.modifies || main.modifies
  | .nested inner tail => inner.modifies || tail.modifies

def Command.modifies : Command → Bool
  | .query query => query.modifies
  | .modify .. => true

def Body.modifies : Body → Bool
  | .done => false
  | .item _ rest => rest.modifies
  | .group inner rest => inner.modifies || rest.modifies
  | .subquery query rest => query.modifies || rest.modifies
  | .call _ arguments rest => arguments.modifies || rest.modifies
  | .forUpdate _ _ rest => rest.modifies
  | .into .. => true

def Parts.modifies : Parts → Bool
  | .last _ _ _ command => command.modifies
  | .more _ _ _ command rest => command.modifies || rest.modifies

end

def Statement.modifies : Statement → Bool
  | run command => command.modifies
  | explain _ _ command => command.modifies
  | show_ .. => false
  | describe .. => false

/-! ### Scripts -/

/-- What ends a statement of a script. -/
inductive Stop where
  | semicolon
  | command

def Stop.token : Stop → Token
  | semicolon => .semicolon
  | command => .command

/-- Statements with what ends them between them; there may be nothing before or after an end. -/
structure Script where
  first : Option Statement
  later : List (Stop × Option Statement)

def tokensOf (statement : Option Statement) : List Token :=
  match statement with
  | none => []
  | some statement => statement.tokens

def Script.tokens (script : Script) : List Token :=
  tokensOf script.first ++ script.later.flatMap fun (stop, statement) => stop.token :: tokensOf statement

/-! ### The words of a statement -/

@[simp] theorem offends_open (excused : Bool) (rest : List Token) :
    offends excused (.open_ :: rest) = offends false rest := rfl

@[simp] theorem offends_close (excused : Bool) (rest : List Token) :
    offends excused (.close :: rest) = offends false rest := rfl

/-- Nothing that comes before these tokens excuses them. -/
def Resets (rest : List Token) : Prop := ∀ excused, offends excused rest = offends false rest

theorem resets_nil : Resets [] := fun _ => rfl

theorem resets_close (rest : List Token) : Resets (.close :: rest) := fun _ => rfl

/-- A keyword is spelled as one of its words and no other. -/
theorem Keyword.spells_eq (keyword : Keyword words) {others : List String}
    (apart : ∀ word ∈ words, ∀ other ∈ others, word.toList ≠ other.toList) : spells others keyword.raw = false := by
  rw [spells, List.any_eq_false]
  intro other member same
  obtain ⟨word, listed, same'⟩ := List.any_eq_true.mp keyword.spelled
  rw [decide_eq_true_eq] at same same'
  exact apart word listed other member (same'.symm.trans same)

theorem offends_plain {leaf : Leaf Token.isPlain} (excused : Bool) (rest : List Token) :
    offends excused (leaf.token :: rest) = offends (match leaf.token with
      | .word raw => spells excusing raw
      | _ => false) rest := by
  obtain ⟨token, plain⟩ := leaf
  cases token with
  | word raw =>
    simp only [Token.isPlain, Bool.and_eq_true, Bool.not_eq_true'] at plain
    simp [offends, plain.1, plain.2]
  | other => rfl
  | _ => cases plain

theorem offends_tree (tree : Tree Token.isPlain) {rest : List Token} (resets : Resets rest) (excused : Bool) :
    offends excused (tree.tokens ++ rest) = offends false rest := by
  induction tree generalizing excused rest with
  | done => exact resets excused
  | leaf here later ih =>
    rw [Tree.tokens, List.cons_append, offends_plain]
    exact ih resets _
  | group inner later ihInner ihLater =>
    simp only [Tree.tokens, List.cons_append, List.append_assoc, offends_open]
    rw [ihInner (resets_close _), offends_close]
    exact ihLater resets false

/-- A keyword that is neither a verb nor INTO, and excuses nothing. -/
theorem offends_keyword (keyword : Keyword words)
    (apart : ∀ word ∈ words, ∀ other ∈ modifyingVerbs ++ ["INTO", "FOR", "SHOW"], word.toList ≠ other.toList)
    (excused : Bool) (rest : List Token) : offends excused (keyword.token :: rest) = offends false rest := by
  have verb : spells modifyingVerbs keyword.raw = false := keyword.spells_eq fun word listed other member =>
    apart word listed other (List.mem_append_left _ member)
  have into : spells ["INTO"] keyword.raw = false := keyword.spells_eq fun word listed other member =>
    apart word listed other (List.mem_append_right _ (by simp_all))
  have excuse : spells excusing keyword.raw = false := keyword.spells_eq fun word listed other member =>
    apart word listed other (List.mem_append_right _ (by simp_all [excusing]))
  simp [Keyword.token, offends, verb, into, excuse]

theorem resets_keyword (keyword : Keyword words)
    (apart : ∀ word ∈ words, ∀ other ∈ modifyingVerbs ++ ["INTO", "FOR", "SHOW"], word.toList ≠ other.toList)
    (rest : List Token) : Resets (keyword.token :: rest) := fun excused =>
  (offends_keyword keyword apart excused rest).trans (offends_keyword keyword apart false rest).symm

theorem offends_keywords (keywords : List (Keyword words))
    (apart : ∀ word ∈ words, ∀ other ∈ modifyingVerbs ++ ["INTO", "FOR", "SHOW"], word.toList ≠ other.toList)
    (rest : List Token) : offends false (keywords.map Keyword.token ++ rest) = offends false rest := by
  induction keywords with
  | nil => rfl
  | cons keyword keywords ih =>
    rw [List.map_cons, List.cons_append, offends_keyword keyword apart]
    exact ih

theorem offends_options (options : Tree Token.isOption) (rest : List Token) :
    offends false (options.tokens ++ rest) = offends false rest := by
  induction options generalizing rest with
  | done => rfl
  | leaf here later ih =>
    obtain ⟨token, allowed⟩ := here
    rw [Tree.tokens, List.cons_append]
    cases token with
    | word raw =>
      have apart : ∀ word ∈ optionWords, ∀ other ∈ modifyingVerbs ++ ["INTO", "FOR", "SHOW"],
          word.toList ≠ other.toList := by decide
      exact (offends_keyword ⟨raw, allowed⟩ apart false _).trans (ih rest)
    | other => exact ih rest
    | _ => cases allowed
  | group inner later ihInner ihLater =>
    simp only [Tree.tokens, List.cons_append, List.append_assoc, offends_open]
    rw [ihInner, offends_close]
    exact ihLater rest

/-- A modifying verb that a word follows. -/
theorem offends_verb (verb : Keyword modifyingVerbs) (first : Leaf Token.isSent) (rest : List Token) :
    offends false (verb.token :: first.token :: rest) = true := by
  have follows : first.token ≠ .open_ := by
    intro same
    have sent := first.isAllowed
    rw [same] at sent
    cases sent
  simp [Keyword.token, offends, verb.spelled, follows]

mutual

theorem offends_query (query : Query) {rest : List Token} (resets : Resets rest) (excused : Bool) :
    offends excused (query.tokens ++ rest) = (query.modifies || offends false rest) := by
  cases query with
  | select verb body =>
    rw [Query.tokens, List.cons_append, offends_keyword verb (by decide), Query.modifies]
    exact offends_body body resets false
  | with_ verb recursive parts main =>
    rw [Query.tokens, List.cons_append, offends_keyword verb (by decide), Query.modifies, List.append_assoc,
      List.append_assoc]
    have plain : ∀ rest, offends false ((recursive.map Keyword.token).toList ++ rest) = offends false rest := by
      intro rest
      cases recursive with
      | none => rfl
      | some keyword => exact offends_keyword keyword (by decide) false rest
    rw [plain, offends_parts parts, offends_command main resets, Bool.or_assoc]
  | nested inner tail =>
    simp only [Query.tokens, List.cons_append, List.append_assoc, offends_open, Query.modifies]
    rw [offends_query inner (resets_close _), offends_close, offends_body tail resets, Bool.or_assoc]

theorem offends_command (command : Command) {rest : List Token} (resets : Resets rest) :
    offends false (command.tokens ++ rest) = (command.modifies || offends false rest) := by
  cases command with
  | query query => exact offends_query query resets false
  | modify verb first more =>
    rw [Command.tokens, List.cons_append, List.cons_append, offends_verb, Command.modifies, Bool.true_or]

theorem offends_body (body : Body) {rest : List Token} (resets : Resets rest) (excused : Bool) :
    offends excused (body.tokens ++ rest) = (body.modifies || offends false rest) := by
  cases body with
  | done => exact resets excused
  | item item later =>
    rw [Body.tokens, List.cons_append, offends_plain, Body.modifies]
    exact offends_body later resets _
  | group inner later =>
    simp only [Body.tokens, List.cons_append, List.append_assoc, offends_open, Body.modifies]
    rw [offends_body inner (resets_close _), offends_close, offends_body later resets, Bool.or_assoc]
  | subquery query later =>
    simp only [Body.tokens, List.cons_append, List.append_assoc, offends_open, Body.modifies]
    rw [offends_query query (resets_close _), offends_close, offends_body later resets, Bool.or_assoc]
  | call verb arguments later =>
    have into : spells ["INTO"] verb.raw = false := verb.spells_eq (by decide)
    simp only [Body.tokens, List.cons_append, List.append_assoc, Body.modifies, Keyword.token]
    rw [offends, List.head?_cons, into, decide_eq_false (fun differ => differ rfl), Bool.and_false,
      Bool.false_or, Bool.false_or, offends_open, offends_body arguments (resets_close _), offends_close,
      offends_body later resets, Bool.or_assoc]
  | forUpdate for_ update later =>
    have into : spells ["INTO"] for_.raw = false := for_.spells_eq (by decide)
    have verb : spells modifyingVerbs for_.raw = false := for_.spells_eq (by decide)
    have excuse : spells excusing for_.raw = true := by
      have spelled := for_.spelled
      simp only [spells, List.any_cons, List.any_nil, Bool.or_false] at spelled
      rw [spells, excusing, List.any_cons, spelled, Bool.true_or]
    have into' : spells ["INTO"] update.raw = false := update.spells_eq (by decide)
    rw [Body.tokens, List.cons_append, List.cons_append, Keyword.token, Keyword.token, offends, into, verb,
      excuse, offends, into', Bool.not_true, Bool.and_false, Bool.false_and, Bool.false_and, Bool.false_or, Bool.false_or, Bool.false_or,
      Body.modifies]
    exact offends_body later resets _
  | into into later =>
    simp [Body.tokens, Body.modifies, Keyword.token, offends, into.spelled]

theorem offends_parts (parts : Parts) (rest : List Token) :
    offends false (parts.tokens ++ rest) = (parts.modifies || offends false rest) := by
  cases parts with
  | last header as_ materialized command =>
    simp only [Parts.tokens, List.append_assoc, List.cons_append, List.nil_append, Parts.modifies]
    rw [offends_tree header (resets_keyword as_ (by decide) _), offends_keyword as_ (by decide),
      offends_keywords materialized (by decide), offends_open, offends_command command (resets_close _),
      offends_close]
  | more header as_ materialized command later =>
    simp only [Parts.tokens, List.append_assoc, List.cons_append, Parts.modifies]
    rw [offends_tree header (resets_keyword as_ (by decide) _), offends_keyword as_ (by decide),
      offends_keywords materialized (by decide), offends_open, offends_command command (resets_close _),
      offends_close, Bool.or_assoc]
    exact congrArg _ (offends_parts later rest)

end

theorem offends_statement (statement : Statement) {rest : List Token} (resets : Resets rest) :
    offends false (statement.tokens ++ rest) = (statement.modifies || offends false rest) := by
  cases statement with
  | run command => exact offends_command command resets
  | explain verb options command =>
    rw [Statement.tokens, List.cons_append, offends_keyword verb (by decide), List.append_assoc,
      offends_options, Statement.modifies]
    exact offends_command command resets
  | show_ verb create later =>
    have into : spells ["INTO"] verb.raw = false := verb.spells_eq (by decide)
    have modifying : spells modifyingVerbs verb.raw = false := verb.spells_eq (by decide)
    have excuse : spells excusing verb.raw = true := by
      have spelled := verb.spelled
      simp only [spells, List.any_cons, List.any_nil, Bool.or_false] at spelled
      rw [spells, excusing, List.any_cons, List.any_cons, spelled, Bool.true_or, Bool.or_true]
    rw [Statement.tokens, List.cons_append, List.append_assoc, Keyword.token, offends, into, modifying, excuse,
      Statement.modifies]
    simp only [Bool.false_and, Bool.false_or]
    cases create with
    | none => exact offends_tree later resets true
    | some create =>
      have into' : spells ["INTO"] create.raw = false := create.spells_eq (by decide)
      simp only [Option.map_some, Option.toList_some, List.singleton_append, Keyword.token, offends, into',
        Bool.not_true, Bool.and_false, Bool.false_and, Bool.false_or]
      exact offends_tree later resets _
  | describe verb later =>
    rw [Statement.tokens, List.cons_append, offends_keyword verb (by decide), Statement.modifies,
      Bool.false_or]
    exact offends_tree later resets false

end Sql
