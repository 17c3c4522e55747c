import SysDeck.Library.Json

/-! `json.dumps` and `json.loads` of Python. Strings are code units; a number is the text that it is
written as, so that what `float` and `int` do with a text stays a parameter. -/

namespace PythonJson

open Json (isSpace skip expect scanString scanMagnitude dumpUnit dumpQuote)

/-- The text of a number, with the three words that Python adds. -/
def scanNumeral : List Char → Option (List Char × List Char)
  | 'N' :: 'a' :: 'N' :: rest => some (['N', 'a', 'N'], rest)
  | 'I' :: 'n' :: 'f' :: 'i' :: 'n' :: 'i' :: 't' :: 'y' :: rest =>
    some (['I', 'n', 'f', 'i', 'n', 'i', 't', 'y'], rest)
  | '-' :: 'I' :: 'n' :: 'f' :: 'i' :: 'n' :: 'i' :: 't' :: 'y' :: rest =>
    some (['-', 'I', 'n', 'f', 'i', 'n', 'i', 't', 'y'], rest)
  | '-' :: rest => (scanMagnitude rest).map (Prod.map ('-' :: ·) id)
  | text => scanMagnitude text

/-- What may follow a value. -/
def Stops (rest : List Char) : Prop := ∀ c ∈ rest.head?, c = ',' ∨ c = ']' ∨ c = '}' ∨ c = '\n'

/-- The characters that `json.dumps` writes. -/
def Printable (c : Char) : Prop := 0x20 ≤ c.toNat ∧ c.toNat ≤ 0x7E
  deriving Decidable

def opensNumeral (c : Char) : Bool := c = '-' || c = 'N' || c = 'I' || c.isDigit

/-- A number as it is written, which is a number again wherever a value may end. -/
structure Numeral where
  text : List Char
  opens : ∀ c ∈ text.head?, opensNumeral c
  printable : ∀ c ∈ text, Printable c
  reads : ∀ rest, Stops rest → scanNumeral (text ++ rest) = some (text, rest)

/-- `0` -/
def Numeral.zero : Numeral where
  text := ['0']
  opens := by simp [opensNumeral, Char.isDigit]
  printable := by simp [Printable]
  reads := by
    intro rest stops
    cases rest with
    | nil => rfl
    | cons c tail =>
      rcases stops c rfl with rfl | rfl | rfl | rfl <;> rfl

inductive Value where
  | null
  | bool (value : Bool)
  | number (numeral : Numeral)
  | string (units : List CodeUnit)
  | array (items : List Value)
  | object (fields : List (List CodeUnit × Value))

namespace Value

/-- `entry.get(name)` -/
def get? (name : List CodeUnit) : Value → Option Value
  | object fields => (fields.reverse.find? fun field => field.1 = name).map (·.2)
  | _ => none

/-! ### The writer -/

mutual

/-- `json.dumps(value)` -/
def dumps : Value → List Char
  | null => ['n', 'u', 'l', 'l']
  | bool true => ['t', 'r', 'u', 'e']
  | bool false => ['f', 'a', 'l', 's', 'e']
  | number numeral => numeral.text
  | string units => dumpQuote units
  | array [] => ['[', ']']
  | array (item :: items) => '[' :: (dumps item ++ (dumpItems items ++ [']']))
  | object [] => ['{', '}']
  | object ((name, value) :: fields) =>
    '{' :: (dumpQuote name ++ ':' :: ' ' :: (dumps value ++ (dumpFields fields ++ ['}'])))

/-- The items after the first. -/
def dumpItems : List Value → List Char
  | [] => []
  | item :: items => ',' :: ' ' :: (dumps item ++ dumpItems items)

/-- The fields after the first. -/
def dumpFields : List (List CodeUnit × Value) → List Char
  | [] => []
  | (name, value) :: fields =>
    ',' :: ' ' :: (dumpQuote name ++ ':' :: ' ' :: (dumps value ++ dumpFields fields))

end

/-! ### The reader -/

section Reader

variable (numeral : List Char → Numeral)

/-- A value that holds no other. -/
def scanScalar : List Char → Option (Value × List Char)
  | '"' :: rest => (scanString rest).map (Prod.map string id)
  | 't' :: 'r' :: 'u' :: 'e' :: rest => some (bool true, rest)
  | 'f' :: 'a' :: 'l' :: 's' :: 'e' :: rest => some (bool false, rest)
  | 'n' :: 'u' :: 'l' :: 'l' :: rest => some (null, rest)
  | text => (scanNumeral text).map (Prod.map (fun word => number (numeral word)) id)

mutual

/-- The first value of a text, and the text after it. -/
def scan : ℕ → List Char → Option (Value × List Char)
  | 0, _ => none
  | n + 1, text =>
    match skip text with
    | '{' :: rest =>
      match skip rest with
      | '}' :: rest => some (object [], rest)
      | _ => (scanFields n rest).map (Prod.map object id)
    | '[' :: rest =>
      match skip rest with
      | ']' :: rest => some (array [], rest)
      | _ => (scanItems n rest).map (Prod.map array id)
    | text => scanScalar numeral text

def scanFields : ℕ → List Char → Option (List (List CodeUnit × Value) × List Char)
  | 0, _ => none
  | n + 1, text => do
    let text ← expect '"' (skip text)
    let (name, text) ← scanString text
    let text ← expect ':' (skip text)
    let (value, text) ← scan n text
    match skip text with
    | '}' :: rest => some ([(name, value)], rest)
    | ',' :: rest => (scanFields n rest).map (Prod.map ((name, value) :: ·) id)
    | _ => none

def scanItems : ℕ → List Char → Option (List Value × List Char)
  | 0, _ => none
  | n + 1, text => do
    let (value, text) ← scan n text
    match skip text with
    | ']' :: rest => some ([value], rest)
    | ',' :: rest => (scanItems n rest).map (Prod.map (value :: ·) id)
    | _ => none

end

/-- `json.loads(text)`; none is a `JSONDecodeError`. -/
def loads (text : List Char) : Option Value :=
  match scan numeral (2 * text.length + 1) text with
  | some (value, rest) => if (skip rest).isEmpty then some value else none
  | none => none

mutual

/-- A value after it was written and read: its numbers are read from their texts. -/
def reread : Value → Value
  | null => null
  | bool value => bool value
  | number written => number (numeral written.text)
  | string units => string units
  | array items => array (rereadItems items)
  | object fields => object (rereadFields fields)

def rereadItems : List Value → List Value
  | [] => []
  | item :: items => reread item :: rereadItems items

def rereadFields : List (List CodeUnit × Value) → List (List CodeUnit × Value)
  | [] => []
  | (name, value) :: fields => (name, reread value) :: rereadFields fields

end

end Reader

/-! ### What is written is read back -/

theorem printable_of_all {text : List Char}
    (all : text.all (fun c => 0x20 ≤ c.toNat && c.toNat ≤ 0x7E) = true) : ∀ c ∈ text, Printable c := by
  intro c member
  simpa [Printable] using List.all_eq_true.mp all c member

theorem printable_hexChar {n : ℕ} (digit : n < 16) : Printable (Json.hexChar n) := by
  have bounds := Json.hexChar_plain digit
  exact ⟨bounds.1, by omega⟩

theorem printable_dumpUnit {u : CodeUnit} {c : Char} (member : c ∈ dumpUnit u) : Printable c := by
  have bound := u.isLt
  unfold dumpUnit Json.writeUnitBy at member
  split at member
  · rename_i escape found
    have all : ∀ escape ∈ Json.shortEscapes, 0x20 ≤ escape.2.toNat ∧ escape.2.toNat ≤ 0x7E := by
      decide
    rcases List.mem_pair.mp member with rfl | rfl
    · exact ⟨by decide, by decide⟩
    · exact all escape (List.mem_of_find?_eq_some found)
  · split at member
    · simp only [Json.writeEscape, List.mem_cons, List.not_mem_nil, or_false] at member
      rcases member with rfl | rfl | rfl | rfl | rfl | rfl
      · exact ⟨by decide, by decide⟩
      · exact ⟨by decide, by decide⟩
      all_goals exact printable_hexChar (by omega)
    · rename_i shown
      simp only [Bool.not_eq_true, Bool.or_eq_false_iff, decide_eq_false_iff_not] at shown
      rw [List.mem_singleton] at member
      rw [Printable, member, Utf16.toNat_ofNat (by unfold Nat.isValidChar; omega)]
      omega

theorem printable_dumpQuote {units : List CodeUnit} : ∀ c ∈ dumpQuote units, Printable c := by
  have mark : Printable '"' := ⟨by decide, by decide⟩
  intro c member
  simp only [dumpQuote, List.mem_cons, List.mem_append, List.mem_flatMap, List.not_mem_nil,
    or_false] at member
  rcases member with rfl | ⟨u, -, member⟩ | rfl
  · exact mark
  · exact printable_dumpUnit member
  · exact mark

mutual

theorem printable_dumps (value : Value) : ∀ c ∈ dumps value, Printable c := by
  have marks : Printable '[' ∧ Printable ']' ∧ Printable '{' ∧ Printable '}' ∧ Printable ':' ∧
      Printable ' ' := by decide
  obtain ⟨bracket, bracket', brace, brace', colon, space⟩ := marks
  cases value with
  | null => exact printable_of_all rfl
  | bool value =>
    cases value with
    | true => exact printable_of_all rfl
    | false => exact printable_of_all rfl
  | number numeral => exact numeral.printable
  | string units => exact printable_dumpQuote
  | array items =>
    cases items with
    | nil => exact printable_of_all rfl
    | cons item items =>
      intro c member
      simp only [dumps, List.mem_cons, List.mem_append, List.not_mem_nil, or_false] at member
      rcases member with rfl | member | member | rfl
      · exact bracket
      · exact printable_dumps item c member
      · exact printable_dumpItems items c member
      · exact bracket'
  | object fields =>
    cases fields with
    | nil => exact printable_of_all rfl
    | cons field fields =>
      obtain ⟨name, value⟩ := field
      intro c member
      simp only [dumps, List.mem_cons, List.mem_append, List.not_mem_nil, or_false] at member
      rcases member with rfl | member | rfl | rfl | member | member | rfl
      · exact brace
      · exact printable_dumpQuote c member
      · exact colon
      · exact space
      · exact printable_dumps value c member
      · exact printable_dumpFields fields c member
      · exact brace'

theorem printable_dumpItems (items : List Value) : ∀ c ∈ dumpItems items, Printable c := by
  cases items with
  | nil => exact fun c member => absurd member List.not_mem_nil
  | cons item items =>
    intro c member
    simp only [dumpItems, List.mem_cons, List.mem_append] at member
    rcases member with rfl | rfl | member | member
    · exact ⟨by decide, by decide⟩
    · exact ⟨by decide, by decide⟩
    · exact printable_dumps item c member
    · exact printable_dumpItems items c member

theorem printable_dumpFields (fields : List (List CodeUnit × Value)) :
    ∀ c ∈ dumpFields fields, Printable c := by
  cases fields with
  | nil => exact fun c member => absurd member List.not_mem_nil
  | cons field fields =>
    obtain ⟨name, value⟩ := field
    intro c member
    simp only [dumpFields, List.mem_cons, List.mem_append] at member
    rcases member with rfl | rfl | member | rfl | rfl | member | member
    · exact ⟨by decide, by decide⟩
    · exact ⟨by decide, by decide⟩
    · exact printable_dumpQuote c member
    · exact ⟨by decide, by decide⟩
    · exact ⟨by decide, by decide⟩
    · exact printable_dumps value c member
    · exact printable_dumpFields fields c member

end

variable {numeral : List Char → Numeral}

/-- The first character of a written value. -/
def opensValue (c : Char) : Bool :=
  opensNumeral c || c = '"' || c = '{' || c = '[' || c = 't' || c = 'f' || c = 'n'

theorem dumps_opens (value : Value) : ∃ c tail, dumps value = c :: tail ∧ opensValue c := by
  cases value with
  | null => exact ⟨_, _, rfl, rfl⟩
  | bool value => cases value <;> exact ⟨_, _, rfl, rfl⟩
  | number written =>
    cases text : written.text with
    | nil =>
      have reads := written.reads [] (by simp [Stops])
      rw [text] at reads
      cases reads
    | cons c tail =>
      refine ⟨c, tail, text, ?_⟩
      have opens := written.opens c (by rw [text]; rfl)
      simp [opensValue, opens]
  | string units => exact ⟨_, _, rfl, rfl⟩
  | array items => cases items <;> exact ⟨_, _, rfl, rfl⟩
  | object fields => cases fields <;> exact ⟨_, _, rfl, rfl⟩

theorem visible_of_opensValue {c : Char} (opens : opensValue c) :
    isSpace c = false ∧ c ≠ ']' ∧ c ≠ '}' := by
  refine ⟨?_, ?_, ?_⟩
  · cases spaced : isSpace c with
    | false => rfl
    | true =>
      simp only [isSpace, Bool.or_eq_true, decide_eq_true_eq] at spaced
      rcases spaced with ((rfl | rfl) | rfl) | rfl <;> exact absurd opens (by decide)
  · rintro rfl
    exact absurd opens (by decide)
  · rintro rfl
    exact absurd opens (by decide)

theorem skip_dumps (value : Value) (rest : List Char) : skip (dumps value ++ rest) = dumps value ++ rest := by
  obtain ⟨c, tail, text, opens⟩ := dumps_opens value
  rw [text, List.cons_append]
  exact List.dropWhile_cons_of_neg (by simp [(visible_of_opensValue opens).1])

theorem scan_space (n : ℕ) (text : List Char) : scan numeral n (' ' :: text) = scan numeral n text := by
  cases n with
  | zero => rfl
  | succ n => rfl

theorem scanFields_space (n : ℕ) (text : List Char) :
    scanFields numeral n (' ' :: text) = scanFields numeral n text := by
  cases n with
  | zero => rfl
  | succ n => rfl

/-- A text that begins like a number is read as one. -/
theorem scan_opensNumeral {c : Char} (opens : opensNumeral c) (n : ℕ) (text : List Char) :
    scan numeral (n + 1) (c :: text) =
      (scanNumeral (c :: text)).map (Prod.map (fun word => number (numeral word)) id) := by
  have value : opensValue c := by simp [opensValue, opens]
  have skipped : skip (c :: text) = c :: text :=
    List.dropWhile_cons_of_neg (by simp [(visible_of_opensValue value).1])
  have differ : ∀ mark, opensNumeral mark = false → c ≠ mark := by
    rintro mark other rfl
    rw [opens] at other
    cases other
  rw [scan, skipped]
  split
  · rename_i same
    exact absurd (List.cons.inj same).1 (differ _ rfl)
  · rename_i same
    exact absurd (List.cons.inj same).1 (differ _ rfl)
  · rw [scanScalar.eq_def]
    split
    · rename_i same
      exact absurd (List.cons.inj same).1 (differ _ rfl)
    · rename_i same
      exact absurd (List.cons.inj same).1 (differ _ rfl)
    · rename_i same
      exact absurd (List.cons.inj same).1 (differ _ rfl)
    · rename_i same
      exact absurd (List.cons.inj same).1 (differ _ rfl)
    · rfl

/-- A written value is read back wherever it may end, with fuel for twice its length. -/
def Reads (numeral : List Char → Numeral) (value : Value) : Prop :=
  ∀ n rest, Stops rest → 2 * (dumps value).length ≤ n →
    scan numeral n (dumps value ++ rest) = some (reread numeral value, rest)

theorem scanItems_written {item : Value} {items : List Value} (first : Reads numeral item)
    (all : ∀ other ∈ items, Reads numeral other) (n : ℕ) (rest : List Char)
    (fuel : 2 * (dumps item ++ dumpItems items).length < n) :
    scanItems numeral n (dumps item ++ (dumpItems items ++ ']' :: rest)) =
      some (reread numeral item :: rereadItems numeral items, rest) := by
  induction items generalizing item n with
  | nil =>
    obtain ⟨n, rfl⟩ : ∃ k, n = k + 1 := ⟨n - 1, by omega⟩
    simp only [dumpItems, List.append_nil, List.nil_append] at fuel ⊢
    rw [scanItems, first n _ (by simp [Stops]) (by omega)]
    rfl
  | cons next items ih =>
    obtain ⟨n, rfl⟩ : ∃ k, n = k + 1 := ⟨n - 1, by omega⟩
    simp only [dumpItems, List.length_append, List.length_cons] at fuel
    have later := ih (all next List.mem_cons_self)
      (fun other member => all other (List.mem_cons_of_mem _ member)) n
      (by simp only [List.length_append]; omega)
    have spaced : scanItems numeral n (' ' :: (dumps next ++ (dumpItems items ++ ']' :: rest))) =
        scanItems numeral n (dumps next ++ (dumpItems items ++ ']' :: rest)) := by
      cases n with
      | zero => rfl
      | succ n => rw [scanItems, scanItems, scan_space]
    rw [scanItems, dumpItems, first n _ (by simp [Stops]) (by omega)]
    simp only [List.cons_append, List.append_assoc, Option.bind_eq_bind, Option.bind_some,
      show ∀ text, skip (',' :: text) = ',' :: text from fun _ => rfl, spaced, later]
    rfl

theorem scanFields_written (name : List CodeUnit) {value : Value}
    {fields : List (List CodeUnit × Value)} (first : Reads numeral value)
    (all : ∀ field ∈ fields, Reads numeral field.2) (n : ℕ) (rest : List Char)
    (fuel : 2 * (dumps value ++ dumpFields fields).length < n) :
    scanFields numeral n
        (dumpQuote name ++ ':' :: ' ' :: (dumps value ++ (dumpFields fields ++ '}' :: rest))) =
      some ((name, reread numeral value) :: rereadFields numeral fields, rest) := by
  have opened : ∀ name text, skip (dumpQuote name ++ text) =
      '"' :: (name.flatMap dumpUnit ++ '"' :: text) := by
    intro name text
    rw [dumpQuote, List.cons_append, List.append_assoc, List.singleton_append]
    rfl
  induction fields generalizing name value n with
  | nil =>
    obtain ⟨n, rfl⟩ : ∃ k, n = k + 1 := ⟨n - 1, by omega⟩
    simp only [dumpFields, List.append_nil, List.nil_append] at fuel ⊢
    rw [scanFields, opened]
    simp only [expect, if_true, Option.bind_eq_bind, Option.bind_some, Json.scanString_dump,
      show ∀ text, skip (':' :: text) = ':' :: text from fun _ => rfl, scan_space,
      first n _ (show Stops ('}' :: rest) by simp [Stops]) (by omega)]
    rfl
  | cons next fields ih =>
    obtain ⟨name', value'⟩ := next
    obtain ⟨n, rfl⟩ : ∃ k, n = k + 1 := ⟨n - 1, by omega⟩
    simp only [dumpFields, List.length_append, List.length_cons] at fuel
    have later := ih name' (all _ List.mem_cons_self)
      (fun other member => all other (List.mem_cons_of_mem _ member)) n
      (by simp only [List.length_append]; omega)
    rw [scanFields, opened]
    simp only [dumpFields, List.cons_append, List.append_assoc, expect, if_true, Option.bind_eq_bind,
      Option.bind_some, Json.scanString_dump,
      show ∀ text, skip (':' :: text) = ':' :: text from fun _ => rfl, scan_space]
    rw [first n _ (by simp [Stops]) (by omega)]
    simp only [Option.bind_some, show ∀ text, skip (',' :: text) = ',' :: text from fun _ => rfl,
      scanFields_space, later]
    rfl

mutual

theorem reads_dumps (value : Value) : Reads numeral value := by
  intro n rest stops fuel
  obtain ⟨c, tail, text, -⟩ := dumps_opens value
  have some_ : 0 < (dumps value).length := by simp [text]
  obtain ⟨n, rfl⟩ : ∃ k, n = k + 1 := ⟨n - 1, by omega⟩
  cases value with
  | null => rfl
  | bool value =>
    cases value with
    | true => rfl
    | false => rfl
  | number written =>
    have opens := written.opens
    have word := written.reads rest stops
    simp only [dumps] at text
    rw [text] at opens word
    rw [dumps, text, List.cons_append, scan_opensNumeral (opens c rfl), ← List.cons_append, word]
    simp [reread, text]
  | string units =>
    rw [dumps, dumpQuote, List.cons_append, List.append_assoc, List.singleton_append]
    change (scanString (units.flatMap dumpUnit ++ '"' :: rest)).map (Prod.map string id) = _
    rw [Json.scanString_dump]
    rfl
  | array items =>
    cases items with
    | nil => rfl
    | cons item items =>
      simp only [dumps, List.length_cons, List.length_append, List.length_nil] at fuel
      have inner := scanItems_written (reads_dumps item) (reads_dumpItems items) n rest
        (by simp only [List.length_append]; omega)
      obtain ⟨d, tail, opened, opens⟩ := dumps_opens item
      have visible := visible_of_opensValue opens
      have skipped := skip_dumps item (dumpItems items ++ ']' :: rest)
      rw [dumps, List.cons_append, List.append_assoc, List.append_assoc, List.singleton_append, scan,
        show ∀ text, skip ('[' :: text) = '[' :: text from fun _ => rfl]
      simp only [skipped]
      rw [opened] at inner ⊢
      rw [List.cons_append] at inner ⊢
      simp only [inner, Option.map_some]
      split
      · rename_i closes
        exact absurd (List.cons.inj closes).1 visible.2.1
      · rfl
  | object fields =>
    cases fields with
    | nil => rfl
    | cons field fields =>
      obtain ⟨name, value⟩ := field
      simp only [dumps, List.length_cons, List.length_append, List.length_nil] at fuel
      have inner := scanFields_written name (reads_dumps value) (reads_dumpFields fields) n
        rest (by simp only [List.length_append]; omega)
      rw [dumps]
      simp only [List.cons_append, List.append_assoc, List.nil_append]
      rw [scan, show ∀ text, skip ('{' :: text) = '{' :: text from fun _ => rfl]
      simp only [dumpQuote, List.cons_append] at inner ⊢
      rw [show ∀ text, skip ('"' :: text) = '"' :: text from fun _ => rfl]
      simp only [List.append_assoc, List.nil_append, List.cons_append] at inner ⊢
      rw [inner]
      rfl

theorem reads_dumpItems (items : List Value) : ∀ item ∈ items, Reads numeral item := by
  cases items with
  | nil => exact fun _ member => absurd member List.not_mem_nil
  | cons item items =>
    intro other member
    rcases List.mem_cons.mp member with same | member
    · rw [same]
      exact reads_dumps item
    · exact reads_dumpItems items other member

theorem reads_dumpFields (fields : List (List CodeUnit × Value)) :
    ∀ field ∈ fields, Reads numeral field.2 := by
  cases fields with
  | nil => exact fun _ member => absurd member List.not_mem_nil
  | cons field fields =>
    obtain ⟨name, value⟩ := field
    intro other member
    rcases List.mem_cons.mp member with same | member
    · rw [same]
      exact reads_dumps value
    · exact reads_dumpFields fields other member

end

/-- A written value is read back, whatever blanks stand after it. -/
theorem loads_dumps_append (value : Value) {rest : List Char} (stops : Stops rest) (blank : skip rest = []) :
    loads numeral (dumps value ++ rest) = some (reread numeral value) := by
  have enough : 2 * (dumps value).length ≤ 2 * (dumps value ++ rest).length + 1 := by
    rw [List.length_append]
    omega
  rw [loads, reads_dumps value _ rest stops enough]
  simp only [blank, List.isEmpty_nil, if_true]

/-- A written line is read back. -/
theorem loads_dumps (value : Value) :
    loads numeral (dumps value ++ ['\n']) = some (reread numeral value) :=
  loads_dumps_append value (by simp [Stops]) rfl

end Value

end PythonJson
