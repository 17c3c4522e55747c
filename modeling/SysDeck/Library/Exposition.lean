import SysDeck.Library.Fields
import SysDeck.Library.Numeral

/-! The text exposition format of metrics: lines of samples with their labels, and comments, some of
which give the type of a metric. -/

namespace Exposition

open Scan (fields)

structure Sample where
  name : List Char
  labels : List (List Char × List Char)
  value : List Char
  deriving DecidableEq

inductive Item where
  | typed (name kind : List Char)
  | sample (sample : Sample)
  deriving DecidableEq

/-! ### Reading -/

def isBlank (c : Char) : Bool := c = ' ' || c = '\t'

def skip (text : List Char) : List Char := text.dropWhile isBlank

def isLabelChar (c : Char) : Bool := c.isAlphanum || c = '_'

def isMetricChar (c : Char) : Bool := isLabelChar c || c = ':'

/-- A name does not begin with a digit. -/
def isName (p : Char → Bool) (name : List Char) : Bool := name.all p && name.head?.any (!·.isDigit)

def escaped (mark : Char) : Option Char :=
  if mark = '\\' then some '\\' else if mark = '"' then some '"' else if mark = 'n' then some '\n' else none

/-- The value up to the closing quote, and what follows the quote. -/
def readQuoted (escaping : Bool) : List Char → Option (List Char × List Char)
  | [] => none
  | c :: rest =>
    if escaping then
      (escaped c).bind fun d => (readQuoted false rest).map fun read => (d :: read.1, read.2)
    else if c = '"' then some ([], rest)
    else if c = '\\' then readQuoted true rest
    else (readQuoted false rest).map fun read => (c :: read.1, read.2)

def expect (mark : Char) (text : List Char) : Option (List Char) :=
  match skip text with
  | [] => none
  | c :: rest => if c = mark then some rest else none

def readLabel (text : List Char) : Option ((List Char × List Char) × List Char) :=
  let name := text.takeWhile isLabelChar
  if isName isLabelChar name then
    (expect '=' (text.dropWhile isLabelChar)).bind fun after =>
      (expect '"' after).bind fun quoted =>
        (readQuoted false quoted).map fun read => ((name, read.1), read.2)
  else none

/-- The labels up to the closing brace, no more than the bound. A comma may follow the last one. -/
def readLabels : ℕ → List Char → Option (List (List Char × List Char) × List Char)
  | 0, _ => none
  | bound + 1, text =>
    match expect '}' text with
    | some rest => some ([], rest)
    | none =>
      (readLabel (skip text)).bind fun read =>
        match expect ',' read.2 with
        | some more => (readLabels bound more).map fun labels => (read.1 :: labels.1, labels.2)
        | none => (expect '}' read.2).map fun rest => ([read.1], rest)

def isValue (text : List Char) : Bool :=
  ["NaN".toList, "+Inf".toList, "-Inf".toList].contains text || (Numeral.readDecimal text).isSome

/-- The value of a sample, and its time where there is one. -/
def readValue (text : List Char) : Option (List Char) :=
  match fields isBlank text with
  | [value] => if isValue value then some value else none
  | [value, time] => if isValue value && time.all Char.isDigit then some value else none
  | _ => none

def readSample (line : List Char) : Option Sample :=
  let name := line.takeWhile isMetricChar
  if isName isMetricChar name then
    let after := line.dropWhile isMetricChar
    let labels := match expect '{' after with
      | some inner => readLabels inner.length inner
      | none => some ([], after)
    labels.bind fun read =>
      if (read.1.map Prod.fst).Nodup then
        (readValue read.2).map fun value => ⟨name, read.1, value⟩
      else none
  else none

def kinds : List (List Char) :=
  ["counter".toList, "gauge".toList, "histogram".toList, "summary".toList, "untyped".toList]

/-- A comment, without its mark: only the type of a metric says something. -/
def readComment (text : List Char) : Option (List Item) :=
  match fields isBlank text with
  | mark :: words =>
    if mark = "TYPE".toList then
      match words with
      | [name, kind] => if isName isMetricChar name && kinds.contains kind then some [.typed name kind] else none
      | _ => none
    else some []
  | [] => some []

def readLine (line : List Char) : Option (List Item) :=
  match skip line with
  | [] => some []
  | c :: rest =>
    if c = '#' then readComment rest else (readSample (c :: rest)).map fun sample => [.sample sample]

def Item.name : Item → List Char
  | typed name _ => name
  | sample given => given.name

/-- The type of a metric is given once, before its samples. -/
def orderly (seen : List (List Char)) : List Item → Bool
  | [] => true
  | item :: rest =>
    (match item with
      | .typed name _ => !seen.contains name
      | .sample _ => true) && orderly (item.name :: seen) rest

def isNewline (c : Char) : Bool := c = '\n'

/-- The items of a text, whose last line is ended. -/
def parse (text : List Char) : Option (List Item) :=
  if text.getLast?.any (· ≠ '\n') then none
  else
    (((Lines.cut isNewline text).mapM readLine).map List.flatten).bind fun items =>
      if orderly [] items then some items else none

/-! ### Writing -/

/-- A value between its quotes. -/
def escape (value : List Char) : List Char :=
  value.flatMap fun c =>
    if c = '\\' then ['\\', '\\'] else if c = '"' then ['\\', '"'] else if c = '\n' then ['\\', 'n'] else [c]

def writeLabel (label : List Char × List Char) : List Char :=
  label.1 ++ '=' :: '"' :: (escape label.2 ++ ['"'])

def writeLabels : List (List Char × List Char) → List Char
  | [] => []
  | [label] => writeLabel label
  | label :: more => writeLabel label ++ ',' :: writeLabels more

def Sample.text (sample : Sample) : List Char :=
  sample.name ++ '{' :: (writeLabels sample.labels ++ '}' :: ' ' :: sample.value)

def Item.text : Item → List Char
  | typed name kind => '#' :: ' ' :: ("TYPE".toList ++ ' ' :: (name ++ ' ' :: kind))
  | sample given => given.text

def write (items : List Item) : List Char := items.flatMap fun item => item.text ++ ['\n']

structure Sample.Proper (sample : Sample) : Prop where
  name : isName isMetricChar sample.name
  labels : ∀ label ∈ sample.labels, isName isLabelChar label.1
  distinct : (sample.labels.map Prod.fst).Nodup
  value : isValue sample.value
  visible : ∀ c ∈ sample.value, isBlank c = false ∧ isNewline c = false
  written : sample.value ≠ []

def Item.Proper : Item → Prop
  | typed name kind => isName isMetricChar name ∧ kinds.contains kind
  | sample given => given.Proper

/-! ### Reading what is written -/

theorem readQuoted_escape (value rest : List Char) :
    readQuoted false (escape value ++ '"' :: rest) = some (value, rest) := by
  induction value with
  | nil => simp [escape, readQuoted]
  | cons c value ih =>
    have unfolded : escape (c :: value) ++ '"' :: rest =
        (if c = '\\' then ['\\', '\\'] else if c = '"' then ['\\', '"'] else
          if c = '\n' then ['\\', 'n'] else [c]) ++ (escape value ++ '"' :: rest) := by
      simp [escape]
    rw [unfolded]
    split
    · next backslash => simp [readQuoted, escaped, ih, backslash]
    · next plain =>
      split
      · next quote => simp [readQuoted, escaped, ih, quote]
      · next open_ =>
        split
        · next newline => simp [readQuoted, escaped, ih, newline]
        · simp [readQuoted, ih, plain, open_]

theorem skip_of_visible {c : Char} (visible : isBlank c = false) (rest : List Char) :
    skip (c :: rest) = c :: rest := List.dropWhile_cons_of_neg (by simp [visible])

theorem expect_self {mark : Char} (visible : isBlank mark = false) (rest : List Char) :
    expect mark (mark :: rest) = some rest := by
  rw [expect, skip_of_visible visible]
  simp

theorem expect_other {mark c : Char} (visible : isBlank c = false) (other : c ≠ mark) (rest : List Char) :
    expect mark (c :: rest) = none := by
  rw [expect, skip_of_visible visible]
  simp [other]

/-- The first character of a name is visible, and no mark of the format. -/
theorem head_of_isName {p : Char → Bool} {name : List Char} (named : isName p name) :
    ∃ c rest, name = c :: rest ∧ p c := by
  cases name with
  | nil => simp [isName] at named
  | cons c rest =>
    simp only [isName, List.all_cons, Bool.and_eq_true] at named
    exact ⟨c, rest, rfl, named.1.1⟩

theorem takeWhile_name {p : Char → Bool} {name : List Char} (named : isName p name) {mark : Char}
    (stop : p mark = false) (rest : List Char) :
    (name ++ mark :: rest).takeWhile p = name ∧ (name ++ mark :: rest).dropWhile p = mark :: rest := by
  have all : ∀ c ∈ name, p c := by
    simp only [isName, Bool.and_eq_true, List.all_eq_true] at named
    exact named.1
  constructor
  · rw [List.takeWhile_append_of_pos all, List.takeWhile_cons_of_neg (by simp [stop]), List.append_nil]
  · rw [List.dropWhile_append_of_pos all, List.dropWhile_cons_of_neg (by simp [stop])]

theorem visible_of_isMetricChar {c : Char} (metric : isMetricChar c) :
    isBlank c = false ∧ c ≠ '#' ∧ c ≠ '}' ∧ isNewline c = false := by
  refine ⟨?_, ?_, ?_, ?_⟩
  · cases blank : isBlank c with
    | false => rfl
    | true =>
      rcases (by simpa [isBlank] using blank : c = ' ' ∨ c = '\t') with rfl | rfl <;> cases metric
  · rintro rfl
    cases metric
  · rintro rfl
    cases metric
  · cases newline : isNewline c with
    | false => rfl
    | true =>
      obtain rfl : c = '\n' := by simpa [isNewline] using newline
      cases metric

theorem isMetricChar_of_isLabelChar {c : Char} (label : isLabelChar c) : isMetricChar c := by
  simp [isMetricChar, label]

theorem readLabel_writeLabel {label : List Char × List Char} (named : isName isLabelChar label.1)
    (rest : List Char) : readLabel (writeLabel label ++ rest) = some (label, rest) := by
  have unfolded : writeLabel label ++ rest = label.1 ++ '=' :: ('"' :: (escape label.2 ++ '"' :: rest)) := by
    simp [writeLabel]
  obtain ⟨taken, dropped⟩ := takeWhile_name named (by decide : isLabelChar '=' = false)
    ('"' :: (escape label.2 ++ '"' :: rest))
  rw [unfolded, readLabel, taken, dropped]
  simp [named, expect_self, readQuoted_escape, show isBlank '=' = false from rfl,
    show isBlank '"' = false from rfl]

theorem readLabels_writeLabels {labels : List (List Char × List Char)}
    (named : ∀ label ∈ labels, isName isLabelChar label.1) {bound : ℕ} (enough : labels.length < bound)
    (rest : List Char) : readLabels bound (writeLabels labels ++ '}' :: rest) = some (labels, rest) := by
  induction labels generalizing bound with
  | nil =>
    cases bound with
    | zero => cases enough
    | succ bound => simp [writeLabels, readLabels, expect_self, show isBlank '}' = false from rfl]
  | cons label more ih =>
    cases bound with
    | zero => cases enough
    | succ bound =>
      have first := named label List.mem_cons_self
      obtain ⟨c, after, head, letter⟩ := head_of_isName first
      obtain ⟨visible, -, brace, -⟩ := visible_of_isMetricChar (isMetricChar_of_isLabelChar letter)
      have begins (tail : List Char) : ∃ more, writeLabel label ++ tail = c :: more := by
        simp [writeLabel, head]
      have step (tail : List Char) : readLabels (bound + 1) (writeLabel label ++ tail) =
          match expect ',' tail with
          | some more => (readLabels bound more).map fun labels => (label :: labels.1, labels.2)
          | none => (expect '}' tail).map fun rest => ([label], rest) := by
        obtain ⟨front, starts⟩ := begins tail
        have read := readLabel_writeLabel first tail
        rw [starts] at read ⊢
        rw [readLabels, expect_other visible brace, skip_of_visible visible, read]
        rfl
      cases more with
      | nil =>
        rw [writeLabels, step, expect_other rfl (by decide), expect_self rfl]
        rfl
      | cons second others =>
        have tail := ih (fun label member => named label (List.mem_cons_of_mem _ member))
          (Nat.lt_of_succ_lt_succ enough)
        rw [writeLabels, List.append_assoc, List.cons_append, step, expect_self rfl]
        simp only [tail, Option.map_some]
        simp

theorem length_writeLabels (labels : List (List Char × List Char)) (rest : List Char) :
    labels.length < (writeLabels labels ++ '}' :: rest).length := by
  induction labels with
  | nil => simp [writeLabels]
  | cons label more ih =>
    cases more with
    | nil =>
      simp only [writeLabels, writeLabel, List.length_append, List.length_cons, List.length_nil]
      omega
    | cons second others =>
      simp only [writeLabels, writeLabel, List.length_append, List.length_cons, List.append_assoc,
        List.cons_append] at ih ⊢
      omega

theorem Sample.Proper.read {sample : Sample} (proper : sample.Proper) :
    readSample sample.text = some sample := by
  have unfolded : sample.text =
      sample.name ++ '{' :: (writeLabels sample.labels ++ '}' :: (' ' :: sample.value)) := rfl
  obtain ⟨taken, dropped⟩ := takeWhile_name proper.name (by decide : isMetricChar '{' = false)
    (writeLabels sample.labels ++ '}' :: (' ' :: sample.value))
  have labels := readLabels_writeLabels proper.labels (length_writeLabels sample.labels (' ' :: sample.value))
    (' ' :: sample.value)
  have value : readValue (' ' :: sample.value) = some sample.value := by
    have words : fields isBlank (' ' :: sample.value) = [sample.value] := by
      rw [Scan.fields_cons_blank rfl, Scan.fields_single proper.written fun c member => (proper.visible c member).1]
    rw [readValue, words]
    simp only [proper.value, if_true]
  rw [unfolded, readSample, taken, dropped]
  simp only [proper.name, if_true, expect_self (show isBlank '{' = false from rfl), labels, Option.bind_some,
    proper.distinct, value, Option.map_some]

theorem visible_of_isName {name : List Char} (named : isName isMetricChar name) :
    ∀ c ∈ name, isBlank c = false ∧ isNewline c = false := by
  intro c member
  simp only [isName, Bool.and_eq_true, List.all_eq_true] at named
  obtain ⟨blank, -, -, newline⟩ := visible_of_isMetricChar (named.1 c member)
  exact ⟨blank, newline⟩

theorem visible_of_kind {kind : List Char} (known : kinds.contains kind) :
    ∀ c ∈ kind, isBlank c = false ∧ isNewline c = false := by
  have all : ∀ kind ∈ kinds, ∀ c ∈ kind, isBlank c = false ∧ isNewline c = false := by
    simp [kinds, isBlank, isNewline]
  exact all kind (List.contains_iff_mem.mp known)

theorem ne_nil_of_isName {p : Char → Bool} {name : List Char} (named : isName p name) : name ≠ [] := by
  obtain ⟨c, rest, rfl, -⟩ := head_of_isName named
  exact List.cons_ne_nil _ _

theorem ne_nil_of_kind {kind : List Char} (known : kinds.contains kind) : kind ≠ [] := by
  rintro rfl
  revert known
  decide

theorem Item.Proper.read {item : Item} (proper : item.Proper) : readLine item.text = some [item] := by
  cases item with
  | typed name kind =>
    obtain ⟨named, known⟩ := proper
    have mark : ∀ c ∈ "TYPE".toList, isBlank c = false := by simp [isBlank]
    have words : fields isBlank (' ' :: ("TYPE".toList ++ ' ' :: (name ++ ' ' :: kind))) =
        ["TYPE".toList, name, kind] := by
      rw [Scan.fields_cons_blank rfl, Scan.fields_run (by decide) mark (by simp [isBlank]),
        Scan.fields_cons_blank rfl, Scan.fields_run (ne_nil_of_isName named)
          (fun c member => (visible_of_isName named c member).1) (by simp [isBlank]),
        Scan.fields_cons_blank rfl, Scan.fields_single (ne_nil_of_kind known)
          fun c member => (visible_of_kind known c member).1]
    have begun : skip (Item.typed name kind).text = (Item.typed name kind).text := skip_of_visible rfl _
    rw [readLine, begun, Item.text]
    simp only [↓reduceIte]
    rw [readComment, words]
    simp [named, List.contains_iff_mem.mp known]
  | sample sample =>
    obtain ⟨c, rest, head, letter⟩ := head_of_isName proper.name
    obtain ⟨visible, comment, -, -⟩ := visible_of_isMetricChar letter
    have text : sample.text = c :: (rest ++ '{' :: (writeLabels sample.labels ++ '}' :: ' ' :: sample.value)) := by
      rw [Sample.text, head, List.cons_append]
    have read := Sample.Proper.read proper
    rw [text] at read
    rw [Item.text, readLine, text, skip_of_visible visible]
    simp only [if_neg comment, read, Option.map_some]

theorem newline_free_escape (value : List Char) : ∀ c ∈ escape value, isNewline c = false := by
  intro c member
  obtain ⟨d, -, written⟩ := List.mem_flatMap.mp member
  split at written
  · rcases List.mem_pair.mp written with rfl | rfl <;> rfl
  · split at written
    · rcases List.mem_pair.mp written with rfl | rfl <;> rfl
    · split at written
      · rcases List.mem_pair.mp written with rfl | rfl <;> rfl
      · next plain =>
        rw [List.mem_singleton.mp written]
        simpa [isNewline] using plain

theorem newline_free_writeLabels {labels : List (List Char × List Char)}
    (named : ∀ label ∈ labels, isName isLabelChar label.1) :
    Lines.OneLine isNewline (writeLabels labels) := by
  have single (label : List Char × List Char) (named : isName isLabelChar label.1) :
      Lines.OneLine isNewline (writeLabel label) := by
    intro c member
    simp only [isName, Bool.and_eq_true, List.all_eq_true] at named
    rcases List.mem_append.mp member with name | value
    · exact (visible_of_isMetricChar (isMetricChar_of_isLabelChar (named.1 c name))).2.2.2
    · simp only [List.mem_cons, List.mem_append, List.not_mem_nil, or_false] at value
      rcases value with rfl | rfl | inside | rfl
      · rfl
      · rfl
      · exact newline_free_escape label.2 c inside
      · rfl
  induction labels with
  | nil => exact nofun
  | cons label more ih =>
    have first := single label (named label List.mem_cons_self)
    cases more with
    | nil => exact first
    | cons second others =>
      have rest := ih fun label member => named label (List.mem_cons_of_mem _ member)
      intro c member
      rcases List.mem_append.mp member with here | after
      · exact first c here
      · rcases List.mem_cons.mp after with rfl | later
        · rfl
        · exact rest c later

theorem Item.Proper.oneLine {item : Item} (proper : item.Proper) : Lines.OneLine isNewline item.text := by
  intro c member
  cases item with
  | typed name kind =>
    obtain ⟨named, known⟩ := proper
    simp only [Item.text, List.mem_cons, List.mem_append] at member
    rcases member with rfl | rfl | mark | rfl | inName | rfl | inKind
    · rfl
    · rfl
    · exact (by simp [isNewline] : ∀ c ∈ "TYPE".toList, isNewline c = false) c mark
    · rfl
    · exact (visible_of_isName named c inName).2
    · rfl
    · exact (visible_of_kind known c inKind).2
  | sample sample =>
    simp only [Item.text, Sample.text, List.mem_cons, List.mem_append] at member
    rcases member with inName | rfl | inLabels | rfl | rfl | inValue
    · exact (visible_of_isName proper.name c inName).2
    · rfl
    · exact newline_free_writeLabels proper.labels c inLabels
    · rfl
    · rfl
    · exact (proper.visible c inValue).2

theorem cut_write {items : List Item} (proper : ∀ item ∈ items, item.Proper) :
    Lines.cut isNewline (write items) = items.map Item.text := by
  induction items with
  | nil => rfl
  | cons item items ih =>
    have line := Lines.cut_line (proper item List.mem_cons_self).oneLine (show isNewline '\n' from rfl) (write items)
    have unfolded : write (item :: items) = item.text ++ '\n' :: write items := by simp [write]
    rw [unfolded, line, ih fun item member => proper item (List.mem_cons_of_mem _ member), List.map_cons]

/-- What is written of proper items is read as these items. -/
theorem parse_write {items : List Item} (proper : ∀ item ∈ items, item.Proper)
    (ordered : orderly [] items) : parse (write items) = some items := by
  have ended : (write items).getLast?.any (· ≠ '\n') = false := by
    cases items using List.reverseRecOn with
    | nil => rfl
    | append_singleton front last => simp [write]
  have read : (items.map Item.text).mapM readLine = some (items.map fun item => [item]) := by
    rw [List.mapM_map]
    clear ordered ended
    induction items with
    | nil => rfl
    | cons item items ih =>
      rw [List.mapM_cons, ih fun item member => proper item (List.mem_cons_of_mem _ member)]
      simp [(proper item List.mem_cons_self).read]
  have flat : (items.map fun item => [item]).flatten = items := by
    rw [← List.flatMap_def, List.flatMap_singleton']
  rw [parse, ended, cut_write proper, read]
  simp only [Bool.false_eq_true, if_false, Option.map_some, Option.bind_some, flat, ordered, if_true]

end Exposition
