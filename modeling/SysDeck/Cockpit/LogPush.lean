import SysDeck.Cockpit.Validators
import SysDeck.Library.Exposition

/-! The text that the Prometheus bridge pushes for a log entry, and what a reader of metrics finds in it. -/

namespace SysDeck.Cockpit.LogPush

open Exposition (Item Sample)
open Validators (validateFilename)

/-! ### push_log -/

/-- `value.replace(c, text)`, of a text of one character. -/
def replace (c : Char) (text value : List Char) : List Char :=
  value.flatMap fun d => if d = c then text else [d]

/-- `_esc` -/
def esc (value : List Char) : List Char :=
  replace '\n' [' '] (replace '"' ['\\', '"'] (replace '\\' ['\\', '\\'] value))

/-- `f"{ts:.3f}"`, of the time in thousandths of a second. -/
def seconds (ts : ℕ) : List Char :=
  Nat.toDigits 10 (ts / 1000) ++
    ['.', Nat.digitChar (ts / 100 % 10), Nat.digitChar (ts / 10 % 10), Nat.digitChar (ts % 10)]

/-- `metrics` -/
def metrics (moduleName level message : List Char) (ts : ℕ) : List Char :=
  let mod_l := esc moduleName
  let lvl_l := esc level
  let msg_l := esc (message.take 128)
  "# TYPE sysdeck_log_total counter\n".toList ++
  ("sysdeck_log_total\x7bmodule=\"".toList ++ mod_l ++ "\",level=\"".toList ++ lvl_l ++ "\"\x7d 1\n".toList) ++
  "# TYPE sysdeck_log_timestamp_seconds gauge\n".toList ++
  ("sysdeck_log_timestamp_seconds\x7bmodule=\"".toList ++ mod_l ++ "\",level=\"".toList ++ lvl_l ++
    "\"\x7d ".toList ++ seconds ts ++ "\n".toList) ++
  "# TYPE sysdeck_log_message_info gauge\n".toList ++
  ("sysdeck_log_message_info\x7bmodule=\"".toList ++ mod_l ++ "\",level=\"".toList ++ lvl_l ++
    "\",msg=\"".toList ++ msg_l ++ "\"\x7d 1\n".toList)

/-- What `push_log` posts: nothing for a module that is no file name. -/
def posted (moduleName level message : List Char) (ts : ℕ) : Option (List Char) :=
  if validateFilename moduleName then some (metrics moduleName level message ts) else none

/-! ### What the entry is as metrics -/

def blanks (value : List Char) : List Char := value.map fun c => if c = '\n' then ' ' else c

def labels (moduleName level : List Char) : List (List Char × List Char) :=
  [("module".toList, blanks moduleName), ("level".toList, blanks level)]

def entryItems (moduleName level message : List Char) (ts : ℕ) : List Item :=
  [.typed "sysdeck_log_total".toList "counter".toList,
    .sample ⟨"sysdeck_log_total".toList, labels moduleName level, ['1']⟩,
    .typed "sysdeck_log_timestamp_seconds".toList "gauge".toList,
    .sample ⟨"sysdeck_log_timestamp_seconds".toList, labels moduleName level, seconds ts⟩,
    .typed "sysdeck_log_message_info".toList "gauge".toList,
    .sample ⟨"sysdeck_log_message_info".toList,
      labels moduleName level ++ [("msg".toList, blanks (message.take 128))], ['1']⟩]

/-- The three replacements, one after the other, are the escapes of the format. -/
theorem esc_eq (value : List Char) : esc value = Exposition.escape (blanks value) := by
  induction value with
  | nil => rfl
  | cons c rest ih =>
    simp only [esc, replace, blanks, Exposition.escape, List.flatMap_cons, List.flatMap_append, List.map_cons]
      at ih ⊢
    rw [ih]
    congr 1
    by_cases backslash : c = '\\'
    · simp [backslash]
    · by_cases quote : c = '"'
      · simp [quote]
      · by_cases newline : c = '\n'
        · simp [newline]
        · simp [backslash, quote, newline]

/-- The literals of the source, cut into the parts of the format. -/
theorem literals :
    ("# TYPE sysdeck_log_total counter\n".toList =
        '#' :: ' ' :: ("TYPE".toList ++ ' ' :: ("sysdeck_log_total".toList ++ ' ' :: "counter".toList)) ++ ['\n'] ∧
      "# TYPE sysdeck_log_timestamp_seconds gauge\n".toList =
        '#' :: ' ' :: ("TYPE".toList ++ ' ' :: ("sysdeck_log_timestamp_seconds".toList ++ ' ' :: "gauge".toList)) ++ ['\n'] ∧
      "# TYPE sysdeck_log_message_info gauge\n".toList =
        '#' :: ' ' :: ("TYPE".toList ++ ' ' :: ("sysdeck_log_message_info".toList ++ ' ' :: "gauge".toList)) ++ ['\n']) ∧
    ("sysdeck_log_total\x7bmodule=\"".toList =
        "sysdeck_log_total".toList ++ '\x7b' :: ("module".toList ++ '=' :: ['"']) ∧
      "sysdeck_log_timestamp_seconds\x7bmodule=\"".toList =
        "sysdeck_log_timestamp_seconds".toList ++ '\x7b' :: ("module".toList ++ '=' :: ['"']) ∧
      "sysdeck_log_message_info\x7bmodule=\"".toList =
        "sysdeck_log_message_info".toList ++ '\x7b' :: ("module".toList ++ '=' :: ['"'])) ∧
    ("\",level=\"".toList = '"' :: ',' :: ("level".toList ++ '=' :: ['"']) ∧
      "\",msg=\"".toList = '"' :: ',' :: ("msg".toList ++ '=' :: ['"'])) ∧
    ("\"\x7d 1\n".toList = ['"', '\x7d', ' ', '1', '\n'] ∧ "\"\x7d ".toList = ['"', '\x7d', ' '] ∧
      "\n".toList = ['\n']) := by
  refine ⟨⟨?_, ?_, ?_⟩, ⟨?_, ?_, ?_⟩, ⟨?_, ?_⟩, ?_, ?_, ?_⟩
  all_goals repeat rw [String.toList_ofList]
  all_goals rfl

theorem metrics_eq (moduleName level message : List Char) (ts : ℕ) :
    metrics moduleName level message ts = Exposition.write (entryItems moduleName level message ts) := by
  obtain ⟨⟨total, stamp, info⟩, ⟨total', stamp', info'⟩, ⟨levelMark, msgMark⟩, one, close, newline⟩ := literals
  unfold metrics
  dsimp only
  rewrite [total, stamp, info, total', stamp', info', levelMark, msgMark, one, close, newline]
  simp only [entryItems, labels, esc_eq, Exposition.write, List.flatMap_cons, List.flatMap_nil, Item.text,
    Sample.text, Exposition.writeLabels, Exposition.writeLabel, List.append_assoc, List.cons_append,
    List.nil_append, List.append_nil]

theorem isDigit_digitChar (n : ℕ) : (Nat.digitChar (n % 10)).isDigit :=
  Nat.isDigit_digitChar.trans (decide_eq_true (Nat.mod_lt n (by decide)))

theorem isValue_seconds (ts : ℕ) : Exposition.isValue (seconds ts) := by
  have whole : ∀ c ∈ Nat.toDigits 10 (ts / 1000), c.isDigit := Numeral.isDigit_of_mem_toDigits
  have fraction : ∀ c ∈ [Nat.digitChar (ts / 100 % 10), Nat.digitChar (ts / 10 % 10), Nat.digitChar (ts % 10)],
      c.isDigit := by
    simp only [List.mem_cons, List.not_mem_nil, or_false, forall_eq_or_imp, forall_eq, isDigit_digitChar, and_self]
  have read := @Numeral.readDecimal_point _ _ [] whole fraction Nat.toDigits_ne_nil (by simp)
  rw [List.append_nil] at read
  have same : seconds ts = Nat.toDigits 10 (ts / 1000) ++ '.' ::
      [Nat.digitChar (ts / 100 % 10), Nat.digitChar (ts / 10 % 10), Nat.digitChar (ts % 10)] := rfl
  rw [Exposition.isValue, same, read]
  simp [Numeral.readExponent]

theorem visible_seconds (ts : ℕ) : ∀ c ∈ seconds ts, Exposition.isBlank c = false ∧ Exposition.isNewline c = false := by
  have plain : ∀ c, c.isDigit ∨ c = '.' → Exposition.isBlank c = false ∧ Exposition.isNewline c = false := by
    rintro c (digit | rfl)
    · obtain ⟨blank, -, -, newline⟩ := Exposition.visible_of_isMetricChar
        (show Exposition.isMetricChar c by simp [Exposition.isMetricChar, Exposition.isLabelChar, Char.isAlphanum, digit])
      exact ⟨blank, newline⟩
    · exact ⟨rfl, rfl⟩
  intro c member
  apply plain
  simp only [seconds, List.mem_append, List.mem_cons, List.not_mem_nil, or_false] at member
  rcases member with whole | rfl | rfl | rfl | rfl
  · exact .inl (Numeral.isDigit_of_mem_toDigits c whole)
  · exact .inr rfl
  all_goals exact .inl (isDigit_digitChar _)

/-- The names that the source gives to its metrics and labels are names of the format. -/
theorem names : (∀ name ∈ ["sysdeck_log_total".toList, "sysdeck_log_timestamp_seconds".toList,
      "sysdeck_log_message_info".toList], Exposition.isName Exposition.isMetricChar name) ∧
    (∀ name ∈ ["module".toList, "level".toList, "msg".toList], Exposition.isName Exposition.isLabelChar name) ∧
    ["module".toList, "level".toList, "msg".toList].Nodup ∧
    (∀ kind ∈ ["counter".toList, "gauge".toList], Exposition.kinds.contains kind) := by
  unfold Exposition.kinds
  repeat rw [String.toList_ofList]
  exact of_decide_eq_true rfl

theorem proper_of_labels {name value : List Char} {labels : List (List Char × List Char)}
    (named : Exposition.isName Exposition.isMetricChar name)
    (label : ∀ label ∈ labels.map Prod.fst, Exposition.isName Exposition.isLabelChar label)
    (distinct : (labels.map Prod.fst).Nodup) (reads : Exposition.isValue value)
    (visible : ∀ c ∈ value, Exposition.isBlank c = false ∧ Exposition.isNewline c = false) (written : value ≠ []) :
    (Sample.mk name labels value).Proper where
  name := named
  labels := fun given member => label given.1 (List.mem_map_of_mem member)
  distinct := distinct
  value := reads
  visible := visible
  written := written

theorem proper_entryItems (moduleName level message : List Char) (ts : ℕ) :
    ∀ item ∈ entryItems moduleName level message ts, item.Proper := by
  obtain ⟨metric, label, distinct, kind⟩ := names
  simp only [List.forall_mem_cons] at metric kind
  obtain ⟨total, stamp, info, -⟩ := metric
  obtain ⟨counter, gauge, -⟩ := kind
  have two : ∀ name ∈ (labels moduleName level).map Prod.fst, Exposition.isName Exposition.isLabelChar name :=
    fun name member => label name (List.mem_append_left ["msg".toList] member)
  have apart : ((labels moduleName level).map Prod.fst).Nodup :=
    distinct.sublist (List.sublist_append_left ["module".toList, "level".toList] ["msg".toList])
  have one : Exposition.isValue ['1'] ∧ ∀ c ∈ ['1'], Exposition.isBlank c = false ∧ Exposition.isNewline c = false := by
    have digits : ∀ c ∈ ['1'], c.isDigit := by simp
    have read : Numeral.readDecimal (['1'] ++ []) = _ := Numeral.readDecimal_whole digits (by simp) (by simp)
    rw [List.append_nil] at read
    refine ⟨?_, by simp [Exposition.isBlank, Exposition.isNewline]⟩
    rw [Exposition.isValue, read]
    simp [Numeral.readExponent]
  have written : seconds ts ≠ [] := by simp [seconds]
  simp only [entryItems, List.forall_mem_cons]
  refine ⟨⟨total, counter⟩, ?_, ⟨stamp, gauge⟩, ?_, ⟨info, gauge⟩, ?_, by simp⟩
  · exact proper_of_labels total two apart one.1 one.2 (by decide)
  · exact proper_of_labels stamp two apart (isValue_seconds ts) (visible_seconds ts) written
  · exact proper_of_labels info label distinct one.1 one.2 (by decide)

theorem orderly_entryItems (moduleName level message : List Char) (ts : ℕ) :
    Exposition.orderly [] (entryItems moduleName level message ts) := by
  simp [entryItems, Exposition.orderly, Exposition.Item.name]

/-- The text that is posted for an entry is read as the three samples of the entry, whatever its level and
its message are. -/
theorem posted_decodes {moduleName level message text : List Char} {ts : ℕ}
    (sent : posted moduleName level message ts = some text) :
    Exposition.parse text = some (entryItems moduleName level message ts) := by
  unfold posted at sent
  split at sent
  · obtain rfl := Option.some.inj sent
    rw [metrics_eq]
    exact Exposition.parse_write (proper_entryItems moduleName level message ts)
      (orderly_entryItems moduleName level message ts)
  · cases sent

theorem posted_decodes_quoted :
    Exposition.parse (metrics ['w', 'e', 'b'] ['i', '"', '\\'] ['o', 'n', 'e', '\n', '"', '\x7d', ' ', '2'] 1700000000123) =
      some (entryItems ['w', 'e', 'b'] ['i', '"', '\\'] ['o', 'n', 'e', '\n', '"', '\x7d', ' ', '2'] 1700000000123) := by
  have valid : validateFilename ['w', 'e', 'b'] = true := by decide
  exact posted_decodes (if_pos valid)

end SysDeck.Cockpit.LogPush
