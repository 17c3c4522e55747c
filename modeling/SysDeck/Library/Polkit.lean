import SysDeck.Library.Lines

/-! Rules files of polkit: one function, a list of guarded answers, and an answer at its end. -/

namespace Polkit

/-- Who asks: the user, and the groups and netgroups the user is in. -/
structure Subject where
  user : String
  groups : List String
  netgroups : List String

inductive Result where
  | YES
  | NO
  | NOT_HANDLED
  deriving DecidableEq

inductive Test where
  /-- `!action.id.startsWith("…")` -/
  | outside (start : String)
  /-- `action.id === "…" && subject.user === "…"` -/
  | user (scope name : String)
  /-- `action.id === "…" && subject.isInGroup("…")` -/
  | group (scope name : String)
  deriving DecidableEq

def Test.holds (action : String) (subject : Subject) : Test → Bool
  | .outside start => !start.toList.isPrefixOf action.toList
  | .user scope name => action = scope && subject.user = name
  | .group scope name => action = scope && name ∈ subject.groups

inductive Statement where
  | comment
  | addRule
  | guard (test : Test)
  | answer (result : Result)
  | close
  | done
  deriving DecidableEq

/-- The statements without a text of their own. -/
def fixedStatements : List (List Char × Statement) :=
  [("polkit.addRule(function(action, subject) \x7b".toList, .addRule),
    ("return polkit.Result.YES;".toList, .answer .YES),
    ("return polkit.Result.NO;".toList, .answer .NO),
    ("return polkit.Result.NOT_HANDLED;".toList, .answer .NOT_HANDLED),
    ("\x7d".toList, .close),
    ("\x7d);".toList, .done)]

/-- A line of code, by its parts between quotes. -/
def readParts : List (List Char) → Option Statement
  | [whole] => fixedStatements.lookup whole
  | [head, start, tail] =>
    if head = "if (!action.id.startsWith(".toList ∧ tail = ")) \x7b".toList then
      some (.guard (.outside (String.ofList start)))
    else none
  | [head, scope, middle, name, tail] =>
    if head ≠ "if (action.id === ".toList then none
    else if middle = " && subject.user === ".toList ∧ tail = ") \x7b".toList then
      some (.guard (.user (String.ofList scope) (String.ofList name)))
    else if middle = " && subject.isInGroup(".toList ∧ tail = ")) \x7b".toList then
      some (.guard (.group (String.ofList scope) (String.ofList name)))
    else none
  | _ => none

/-- A line, where it is one of the statements above; a text with an escape is not read. -/
def readStatement (line : List Char) : Option Statement :=
  let text := line.dropWhile (· = ' ')
  if text = [] ∨ "//".toList.isPrefixOf text then some .comment
  else if '\\' ∈ text then none
  else readParts (text.splitOn '"')

/-- The body of the function: guarded answers, and the answer where no guard holds. -/
structure Body where
  clauses : List (Test × Result)
  last : Result

def readBody : List Statement → Option Body
  | .guard test :: .answer result :: .close :: rest =>
    (readBody rest).map fun body => { body with clauses := (test, result) :: body.clauses }
  | [.answer result, .done] => some ⟨[], result⟩
  | _ => none

/-- The function of a file; `none` where the file is not of this form. -/
def readFile (text : List Char) : Option Body := do
  let statements ← (text.splitOnP Lines.terminator).mapM readStatement
  match statements.filter (· ≠ .comment) with
  | .addRule :: body => readBody body
  | _ => none

def Body.answer (body : Body) (action : String) (subject : Subject) : Result :=
  ((body.clauses.find? (·.1.holds action subject)).map Prod.snd).getD body.last

/-- What the function of a file answers. -/
def evaluate (text : List Char) (action : String) (subject : Subject) : Option Result :=
  (readFile text).map (·.answer action subject)

/-! ### Reading what was written -/

theorem mapM_readStatement {lines : List (List Char)} {statements : List Statement}
    (read : lines.map readStatement = statements.map some) :
    lines.mapM readStatement = some statements := by
  induction lines generalizing statements with
  | nil =>
    obtain rfl := List.map_eq_nil_iff.mp read.symm
    rfl
  | cons line lines ih =>
    cases statements with
    | nil => cases read
    | cons statement statements =>
      rw [List.map_cons, List.map_cons, List.cons.injEq] at read
      rw [List.mapM_cons, read.1, ih read.2]
      rfl

theorem splitOn_quote {head : List Char} (free : '"' ∉ head) (rest : List Char) :
    (head ++ '"' :: rest).splitOn '"' = head :: rest.splitOn '"' := by
  refine List.splitOnP_append_cons_of_forall_mem ?_ _ (by simp) rest
  intro c member
  exact beq_eq_false_iff_ne.mpr fun same => free (same ▸ member)

theorem splitOn_unquoted {text : List Char} (free : '"' ∉ text) : text.splitOn '"' = [text] := by
  refine List.splitOnP_eq_singleton ?_
  intro c member
  exact beq_eq_false_iff_ne.mpr fun same => free (same ▸ member)

/-- A text that needs no escape between quotes. -/
def Plain (text : List Char) : Prop := '"' ∉ text ∧ '\\' ∉ text

/-- A guard of two texts, as its line has it. -/
theorem readStatement_guard {scope middle name tail : List Char}
    (scopePlain : Plain scope) (middlePlain : Plain middle) (namePlain : Plain name)
    (tailPlain : Plain tail) :
    readStatement ("    if (action.id === \"".toList ++ scope ++ '"' :: (middle ++ '"' ::
      (name ++ '"' :: tail))) = readParts ["if (action.id === ".toList, scope, middle, name, tail] := by
  have text : ("    if (action.id === \"".toList ++ scope ++ '"' :: (middle ++ '"' ::
      (name ++ '"' :: tail))).dropWhile (· = ' ') =
      "if (action.id === ".toList ++ '"' :: (scope ++ '"' :: (middle ++ '"' :: (name ++ '"' :: tail))) := by
    simp
  have parts : ("if (action.id === ".toList ++ '"' :: (scope ++ '"' :: (middle ++ '"' ::
      (name ++ '"' :: tail)))).splitOn '"' = ["if (action.id === ".toList, scope, middle, name, tail] := by
    rw [splitOn_quote (by decide), splitOn_quote scopePlain.1, splitOn_quote middlePlain.1,
      splitOn_quote namePlain.1, splitOn_unquoted tailPlain.1]
  have unescaped : '\\' ∉ "if (action.id === ".toList ++ '"' :: (scope ++ '"' :: (middle ++ '"' ::
      (name ++ '"' :: tail))) := by
    simp [scopePlain.2, middlePlain.2, namePlain.2, tailPlain.2]
  unfold readStatement
  simp only [text, if_neg unescaped, parts]
  rw [if_neg (by simp)]

theorem readStatement_user {scope name : String} (plain : Plain scope.toList)
    (plain' : Plain name.toList) :
    readStatement ("    if (action.id === \"" ++ scope ++ "\" && " ++ ("subject.user === \"" ++ name ++
      "\"") ++ ") \x7b").toList = some (.guard (.user scope name)) := by
  have line : ("    if (action.id === \"" ++ scope ++ "\" && " ++ ("subject.user === \"" ++ name ++
      "\"") ++ ") \x7b").toList = "    if (action.id === \"".toList ++ scope.toList ++ '"' ::
        (" && subject.user === ".toList ++ '"' :: (name.toList ++ '"' :: ") \x7b".toList)) := by
    simp [String.toList_append]
  rw [line, readStatement_guard plain ⟨by decide, by decide⟩ plain' ⟨by decide, by decide⟩]
  simp [readParts]

theorem readStatement_group {scope name : String} (plain : Plain scope.toList)
    (plain' : Plain name.toList) :
    readStatement ("    if (action.id === \"" ++ scope ++ "\" && " ++ ("subject.isInGroup(\"" ++ name ++
      "\")") ++ ") \x7b").toList = some (.guard (.group scope name)) := by
  have line : ("    if (action.id === \"" ++ scope ++ "\" && " ++ ("subject.isInGroup(\"" ++ name ++
      "\")") ++ ") \x7b").toList = "    if (action.id === \"".toList ++ scope.toList ++ '"' ::
        (" && subject.isInGroup(".toList ++ '"' :: (name.toList ++ '"' :: ")) \x7b".toList)) := by
    simp [String.toList_append]
  rw [line, readStatement_guard plain ⟨by decide, by decide⟩ plain' ⟨by decide, by decide⟩]
  simp [readParts]

theorem readStatement_comment (text : List Char) :
    readStatement ("    // ".toList ++ text) = some .comment := by
  simp [readStatement]

/-- Clauses, and the answer after them. -/
theorem readBody_clauses (clauses : List (Test × Result)) (result : Result) :
    readBody (clauses.flatMap (fun clause => [.guard clause.1, .answer clause.2, .close]) ++
      [.answer result, .done]) = some ⟨clauses, result⟩ := by
  induction clauses with
  | nil => rfl
  | cons clause clauses ih =>
    simp only [List.flatMap_cons, List.cons_append, List.nil_append, readBody, ih, Option.map_some]

/-- The file of a list of clauses, with comment lines between them. -/
theorem readFile_eq {text : List Char} {statements : List Statement} {body : Body}
    (read : (text.splitOnP Lines.terminator).map readStatement = statements.map some)
    (code : statements.filter (· ≠ .comment) = .addRule ::
      (body.clauses.flatMap (fun clause => [.guard clause.1, .answer clause.2, .close]) ++
        [.answer body.last, .done])) :
    readFile text = some body := by
  unfold readFile
  rw [mapM_readStatement read]
  simp only [bind, Option.bind_some, code]
  exact readBody_clauses body.clauses body.last

end Polkit
