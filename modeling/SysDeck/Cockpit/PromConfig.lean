import SysDeck.Cockpit.PackageText

/-! The intervals that the Prometheus bridge reads in the configuration that Prometheus serves. -/

namespace SysDeck.Cockpit.PromConfig

open Lines (OneLine)
open PackageFiles (unlines)
open Packages (isSpace lineEnd splitlines strip)

/-! ### The reader -/

structure Config where
  globalScrapeInterval : List Char
  globalEvaluationInterval : List Char
  retentionTime : List Char
  retentionSize : List Char
  storagePath : List Char
  configPath : List Char
  webListenAddress : List Char
  logLevel : List Char
  walCompression : Bool
  deriving DecidableEq

/-- `_default_config` -/
def defaultConfig : Config where
  globalScrapeInterval := "15s".toList
  globalEvaluationInterval := "15s".toList
  retentionTime := "15d".toList
  retentionSize := "0".toList
  storagePath := "/var/lib/prometheus".toList
  configPath := "/etc/prometheus/prometheus.yml".toList
  webListenAddress := "127.0.0.1:9095".toList
  logLevel := "info".toList
  walCompression := true

/-- The fields of `key_dispatch`. -/
inductive Field where
  | globalScrapeInterval
  | globalEvaluationInterval
  deriving DecidableEq

def Field.key : Field → List Char
  | globalScrapeInterval => "scrape_interval".toList
  | globalEvaluationInterval => "evaluation_interval".toList

def keyDispatch (key : List Char) : Option Field :=
  [Field.globalScrapeInterval, .globalEvaluationInterval].find? (·.key = key)

def Config.get (cfg : Config) : Field → List Char
  | .globalScrapeInterval => cfg.globalScrapeInterval
  | .globalEvaluationInterval => cfg.globalEvaluationInterval

def Config.set (cfg : Config) (field : Field) (value : List Char) : Config :=
  match field with
  | .globalScrapeInterval => { cfg with globalScrapeInterval := value }
  | .globalEvaluationInterval => { cfg with globalEvaluationInterval := value }

/-- What a line sets. -/
def setting (line : List Char) : Option (Field × List Char) :=
  let stripped := strip line
  if stripped.contains ':' then
    (keyDispatch (strip (stripped.takeWhile (· ≠ ':')))).map fun field =>
      (field, strip ((stripped.dropWhile (· ≠ ':')).drop 1))
  else none

def readLine (cfg : Config) (line : List Char) : Config :=
  match setting line with
  | some (field, value) => cfg.set field value
  | none => cfg

/-- `_parse_config` -/
def parseConfig (yaml : Option String) : Config := (splitlines (yaml.getD "")).foldl readLine defaultConfig

/-! ### Documents -/

/-- A value that is written in one line. -/
structure Scalar where
  text : List Char
  oneLine : OneLine lineEnd text
  tight : strip text = text

structure Key where
  text : List Char
  oneLine : OneLine lineEnd text
  tight : strip text = text
  begun : text ≠ []
  single : ':' ∉ text

mutual

inductive Node where
  | scalar (value : Scalar)
  | mapping (entries : Entries)
  | sequence (items : Items)

inductive Entries where
  | nil
  | cons (key : Key) (value : Node) (rest : Entries)

inductive Items where
  | nil
  | cons (item : Node) (rest : Items)

end

/-- What stands behind the colon of a key. -/
def Node.written : Node → List Char
  | .scalar value => value.text
  | .mapping .nil => ['{', '}']
  | .sequence .nil => ['[', ']']
  | _ => []

def behind : List Char → List Char
  | [] => []
  | text => ' ' :: text

def indent (lines : List (List Char)) : List (List Char) := lines.map ([' ', ' '] ++ ·)

/-- The lines of an item, after its dash. -/
def dash : List (List Char) → List (List Char)
  | [] => []
  | first :: more => ('-' :: ' ' :: first) :: indent more

def orEmpty (empty : List Char) (lines : List (List Char)) : List (List Char) :=
  if lines = [] then [empty] else lines

mutual

/-- The lines of a value below the line of its key. -/
def Node.body : Node → List (List Char)
  | .scalar _ => []
  | .mapping entries => indent entries.lines
  | .sequence items => items.lines

/-- The lines of a value that is an item. -/
def Node.block : Node → List (List Char)
  | .scalar value => [value.text]
  | .mapping entries => orEmpty ['{', '}'] entries.lines
  | .sequence items => orEmpty ['[', ']'] items.lines

def Entries.lines : Entries → List (List Char)
  | .nil => []
  | .cons key value rest => (key.text ++ ':' :: behind value.written) :: (value.body ++ rest.lines)

def Items.lines : Items → List (List Char)
  | .nil => []
  | .cons item rest => dash item.block ++ rest.lines

end

/-- The text of a configuration in block style. -/
def Entries.text (document : Entries) : String := String.ofList (unlines document.lines)

def Entries.find? (name : List Char) : Entries → Option Node
  | .nil => none
  | .cons key value rest => if key.text = name then some value else rest.find? name

/-- The value that the global block sets. -/
def Entries.globalValue (document : Entries) (field : Field) : Option (List Char) :=
  match document.find? "global".toList with
  | some (.mapping entries) => (entries.find? field.key).map Node.written
  | _ => none

/-- The setting of an entry. -/
def own (key : Key) (value : Node) : List (Field × List Char) :=
  ((keyDispatch key.text).map fun field => (field, value.written)).toList

mutual

/-- The settings in a value, at any depth and in their order, where those that a dash stands before are
left out. -/
def Node.settings : Node → List (Field × List Char)
  | .scalar _ => []
  | .mapping entries => entries.settings
  | .sequence items => items.settings

def Node.dashed : Node → List (Field × List Char)
  | .scalar _ => []
  | .mapping entries => entries.later
  | .sequence items => items.settings

def Entries.settings : Entries → List (Field × List Char)
  | .nil => []
  | .cons key value rest => own key value ++ (value.settings ++ rest.settings)

def Entries.later : Entries → List (Field × List Char)
  | .nil => []
  | .cons _ value rest => value.settings ++ rest.settings

def Items.settings : Items → List (Field × List Char)
  | .nil => []
  | .cons item rest => item.dashed ++ rest.settings

end

/-- The value of the last setting of a field, in the whole document. -/
def Entries.lastSetting (document : Entries) (field : Field) : Option (List Char) :=
  ((document.settings.filter (·.1 = field)).getLast?).map Prod.snd

/-! ### What the reader finds in a document -/

theorem Field.key_head (field : Field) : ∃ c rest, field.key = c :: rest ∧ c ≠ '-' := by
  have scrape : "scrape_interval".toList = 's' :: "crape_interval".toList := by
    rw [String.toList_ofList, String.toList_ofList]
  have evaluation : "evaluation_interval".toList = 'e' :: "valuation_interval".toList := by
    rw [String.toList_ofList, String.toList_ofList]
  cases field with
  | globalScrapeInterval => exact ⟨'s', _, scrape, by decide⟩
  | globalEvaluationInterval => exact ⟨'e', _, evaluation, by decide⟩

theorem keyDispatch_dash (rest : List Char) : keyDispatch ('-' :: rest) = none := by
  refine List.find?_eq_none.mpr fun field _ => ?_
  obtain ⟨c, later, key, other⟩ := field.key_head
  rw [key]
  simpa using fun same _ => absurd same other

/-- What begins with a visible character keeps it. -/
theorem strip_cons {c : Char} (visible : isSpace c = false) (text : List Char) :
    ∃ rest, strip (c :: text) = c :: rest := by
  have front : (c :: text).dropWhile isSpace = c :: text :=
    List.dropWhile_cons_of_neg (Bool.eq_false_iff.mp visible)
  obtain ⟨later, whole⟩ := List.rdropWhile_prefix isSpace (c :: text)
  rw [strip, front]
  cases kept : (c :: text).rdropWhile isSpace with
  | nil =>
    have all := List.rdropWhile_eq_nil_iff.mp kept c List.mem_cons_self
    rw [visible] at all
    cases all
  | cons d rest =>
    rw [kept] at whole
    obtain ⟨rfl, -⟩ := List.cons.inj whole
    exact ⟨rest, rfl⟩

theorem setting_dash (line : List Char) : setting ('-' :: line) = none := by
  obtain ⟨rest, stripped⟩ := strip_cons (c := '-') rfl line
  unfold setting
  rw [stripped]
  dsimp only
  split
  · rw [List.takeWhile_cons_of_pos (by decide)]
    obtain ⟨key, same⟩ := strip_cons (c := '-') rfl (rest.takeWhile (· ≠ ':'))
    rw [same, keyDispatch_dash]
    rfl
  · rfl

theorem strip_indent (line : List Char) : strip ([' ', ' '] ++ line) = strip line := by
  change strip (' ' :: ' ' :: line) = strip line
  rw [strip, List.dropWhile_cons_of_pos rfl, List.dropWhile_cons_of_pos rfl, strip]

theorem filterMap_indent (lines : List (List Char)) :
    (indent lines).filterMap setting = lines.filterMap setting := by
  have same : (setting ∘ ([' ', ' '] ++ ·)) = setting := by
    funext line
    simp only [Function.comp, setting, strip_indent]
  rw [indent, List.filterMap_map]
  exact congrArg (fun read => lines.filterMap read) same

theorem filterMap_dash (lines : List (List Char)) :
    (dash lines).filterMap setting = (lines.drop 1).filterMap setting := by
  cases lines with
  | nil => rfl
  | cons first more =>
    rw [dash, List.filterMap_cons, setting_dash, filterMap_indent]
    rfl

theorem setting_of_strip {line key tail : List Char} (stripped : strip line = key ++ ':' :: tail)
    (single : ':' ∉ key) (tight : strip key = key) :
    setting line = (keyDispatch key).map fun field => (field, strip tail) := by
  have marked : (key ++ ':' :: tail).contains ':' = true := List.contains_iff_mem.mpr (by simp)
  have before : ∀ c ∈ key, decide (c ≠ ':') = true := fun c member =>
    decide_eq_true fun same => single (same ▸ member)
  unfold setting
  rw [stripped]
  dsimp only
  rw [if_pos marked, List.takeWhile_append_of_pos before, List.dropWhile_append_of_pos before,
    List.takeWhile_cons_of_neg (by decide), List.dropWhile_cons_of_neg (by decide), List.append_nil, tight]
  rfl

theorem Key.head_visible (key : Key) : ∃ c rest, key.text = c :: rest ∧ isSpace c = false := by
  obtain ⟨c, rest, whole⟩ := List.exists_cons_of_ne_nil key.begun
  refine ⟨c, rest, whole, ?_⟩
  have starts := @Strip.head_stripBy isSpace key.text c
  have tight : Strip.stripBy isSpace key.text = key.text := key.tight
  rw [tight, whole] at starts
  exact starts rfl

/-- A line with a key and a text behind it. -/
theorem setting_entry (key : Key) {text : List Char} (tight : strip text = text) :
    setting (key.text ++ ':' :: behind text) = (keyDispatch key.text).map fun field => (field, text) := by
  obtain ⟨c, rest, whole, visible⟩ := key.head_visible
  have starts : ∀ tail, ∀ d ∈ (key.text ++ ':' :: tail).head?, isSpace d = false := by
    intro tail d head
    rw [whole] at head
    obtain rfl := Option.some.inj head
    exact visible
  have stripped : strip (key.text ++ ':' :: behind text) = key.text ++ ':' :: behind text := by
    refine Strip.stripBy_of_ends (starts _) ?_
    intro d last
    rw [List.getLast?_append_of_ne_nil _ (List.cons_ne_nil _ _)] at last
    cases text with
    | nil =>
      obtain rfl := Option.some.inj last
      rfl
    | cons e text =>
      have ends := @Strip.last_stripBy isSpace (e :: text) d
      have tight : Strip.stripBy isSpace (e :: text) = e :: text := tight
      rw [tight] at ends
      exact ends last
  rw [setting_of_strip stripped key.single key.tight]
  have value : strip (behind text) = text := by
    cases text with
    | nil => rfl
    | cons e text =>
      change strip (' ' :: e :: text) = e :: text
      rw [strip, List.dropWhile_cons_of_pos rfl]
      exact tight
  rw [value]

theorem Node.written_tight (value : Node) : strip value.written = value.written := by
  cases value with
  | scalar value => exact value.tight
  | mapping entries => cases entries <;> rfl
  | sequence items => cases items <;> rfl

theorem filterMap_entry (key : Key) (value : Node) (lines : List (List Char)) :
    ((key.text ++ ':' :: behind value.written) :: lines).filterMap setting =
      own key value ++ lines.filterMap setting := by
  rw [List.filterMap_cons, setting_entry key value.written_tight, own]
  cases keyDispatch key.text <;> rfl

theorem orEmpty_ne_nil (empty : List Char) (lines : List (List Char)) : orEmpty empty lines ≠ [] := by
  unfold orEmpty
  split
  · exact List.cons_ne_nil _ _
  · assumption

/-- An item has a line, which begins with its dash. -/
theorem dash_block (item : Node) : ∃ line more, dash item.block = ('-' :: line) :: more := by
  have some' : item.block ≠ [] := by
    cases item with
    | scalar value =>
      rw [Node.block]
      exact List.cons_ne_nil _ _
    | mapping entries | sequence items =>
      rw [Node.block]
      exact orEmpty_ne_nil _ _
  obtain ⟨first, more, block⟩ := List.exists_cons_of_ne_nil some'
  rw [block]
  exact ⟨_, _, rfl⟩

mutual

theorem Node.read_body : ∀ node : Node, node.body.filterMap setting = node.settings
  | .scalar _ => by
    rw [Node.body, Node.settings]
    rfl
  | .mapping entries => by
    rw [Node.body, Node.settings, filterMap_indent, Entries.read_lines entries]
  | .sequence items => by
    rw [Node.body, Node.settings, Items.read_lines items]

theorem Entries.read_lines : ∀ entries : Entries, entries.lines.filterMap setting = entries.settings
  | .nil => by
    rw [Entries.lines, Entries.settings]
    rfl
  | .cons key value rest => by
    rw [Entries.lines, Entries.settings, filterMap_entry, List.filterMap_append, Node.read_body value,
      Entries.read_lines rest]

theorem Entries.read_later : ∀ entries : Entries,
    ((orEmpty ['{', '}'] entries.lines).drop 1).filterMap setting = entries.later
  | .nil => by
    rw [Entries.lines, Entries.later]
    rfl
  | .cons key value rest => by
    rw [Entries.lines, Entries.later, orEmpty, if_neg (List.cons_ne_nil _ _), List.drop_succ_cons,
      List.drop_zero, List.filterMap_append, Node.read_body value, Entries.read_lines rest]

theorem Node.read_dashed : ∀ node : Node, (dash node.block).filterMap setting = node.dashed
  | .scalar _ => by
    rw [filterMap_dash, Node.block, Node.dashed]
    rfl
  | .mapping entries => by
    rw [filterMap_dash, Node.block, Node.dashed, Entries.read_later entries]
  | .sequence items => by
    rw [filterMap_dash, Node.block, Node.dashed, Items.read_later items]

theorem Items.read_lines : ∀ items : Items, items.lines.filterMap setting = items.settings
  | .nil => by
    rw [Items.lines, Items.settings]
    rfl
  | .cons item rest => by
    rw [Items.lines, Items.settings, List.filterMap_append, Node.read_dashed item, Items.read_lines rest]

theorem Items.read_later : ∀ items : Items,
    ((orEmpty ['[', ']'] items.lines).drop 1).filterMap setting = items.settings
  | .nil => by
    rw [Items.lines, Items.settings]
    rfl
  | .cons item rest => by
    have whole : (dash item.block ++ rest.lines).filterMap setting = item.dashed ++ rest.settings := by
      rw [List.filterMap_append, Node.read_dashed item, Items.read_lines rest]
    obtain ⟨line, more, dashed⟩ := dash_block item
    rw [Items.lines, Items.settings, orEmpty, dashed, List.cons_append, if_neg (List.cons_ne_nil _ _),
      List.drop_succ_cons, List.drop_zero, ← whole, dashed, List.cons_append, List.filterMap_cons, setting_dash]

end

/-! ### The lines of a document -/

theorem oneLine_cons {c : Char} (inside : lineEnd c = false) {text : List Char} (one : OneLine lineEnd text) :
    OneLine lineEnd (c :: text) := List.forall_mem_cons.mpr ⟨inside, one⟩

theorem oneLine_braces : OneLine lineEnd ['{', '}'] :=
  oneLine_cons rfl (oneLine_cons rfl (List.forall_mem_nil _))

theorem oneLine_brackets : OneLine lineEnd ['[', ']'] :=
  oneLine_cons rfl (oneLine_cons rfl (List.forall_mem_nil _))

theorem oneLine_indent {lines : List (List Char)} (one : ∀ line ∈ lines, OneLine lineEnd line) :
    ∀ line ∈ indent lines, OneLine lineEnd line := by
  intro line member
  obtain ⟨inner, inside, rfl⟩ := List.mem_map.mp member
  exact oneLine_cons rfl (oneLine_cons rfl (one inner inside))

theorem oneLine_dash {lines : List (List Char)} (one : ∀ line ∈ lines, OneLine lineEnd line) :
    ∀ line ∈ dash lines, OneLine lineEnd line := by
  cases lines with
  | nil => exact one
  | cons first more =>
    obtain ⟨head, tail⟩ := List.forall_mem_cons.mp one
    exact List.forall_mem_cons.mpr ⟨oneLine_cons rfl (oneLine_cons rfl head), oneLine_indent tail⟩

theorem oneLine_orEmpty {empty : List Char} (inside : OneLine lineEnd empty) {lines : List (List Char)}
    (one : ∀ line ∈ lines, OneLine lineEnd line) : ∀ line ∈ orEmpty empty lines, OneLine lineEnd line := by
  unfold orEmpty
  split
  · exact List.forall_mem_singleton.mpr inside
  · exact one

theorem Node.oneLine_written (value : Node) : OneLine lineEnd value.written := by
  cases value with
  | scalar value => exact value.oneLine
  | mapping entries =>
    cases entries with
    | nil => exact oneLine_braces
    | cons key value rest => exact List.forall_mem_nil _
  | sequence items =>
    cases items with
    | nil => exact oneLine_brackets
    | cons item rest => exact List.forall_mem_nil _

theorem oneLine_entry (key : Key) (value : Node) : OneLine lineEnd (key.text ++ ':' :: behind value.written) := by
  refine key.oneLine.append (oneLine_cons rfl ?_)
  have one := value.oneLine_written
  cases written : value.written with
  | nil => exact List.forall_mem_nil _
  | cons c text =>
    rw [written] at one
    exact oneLine_cons rfl one

mutual

theorem Node.oneLine_body : ∀ node : Node, ∀ line ∈ node.body, OneLine lineEnd line
  | .scalar _ => by
    rw [Node.body]
    exact List.forall_mem_nil _
  | .mapping entries => by
    rw [Node.body]
    exact oneLine_indent (Entries.oneLine_lines entries)
  | .sequence items => by
    rw [Node.body]
    exact Items.oneLine_lines items

theorem Node.oneLine_block : ∀ node : Node, ∀ line ∈ node.block, OneLine lineEnd line
  | .scalar value => by
    rw [Node.block]
    exact List.forall_mem_singleton.mpr value.oneLine
  | .mapping entries => by
    rw [Node.block]
    exact oneLine_orEmpty oneLine_braces (Entries.oneLine_lines entries)
  | .sequence items => by
    rw [Node.block]
    exact oneLine_orEmpty oneLine_brackets (Items.oneLine_lines items)

theorem Entries.oneLine_lines : ∀ entries : Entries, ∀ line ∈ entries.lines, OneLine lineEnd line
  | .nil => by
    rw [Entries.lines]
    exact List.forall_mem_nil _
  | .cons key value rest => by
    rw [Entries.lines]
    exact List.forall_mem_cons.mpr ⟨oneLine_entry key value,
      List.forall_mem_append.mpr ⟨Node.oneLine_body value, Entries.oneLine_lines rest⟩⟩

theorem Items.oneLine_lines : ∀ items : Items, ∀ line ∈ items.lines, OneLine lineEnd line
  | .nil => by
    rw [Items.lines]
    exact List.forall_mem_nil _
  | .cons item rest => by
    rw [Items.lines]
    exact List.forall_mem_append.mpr ⟨oneLine_dash (Node.oneLine_block item), Items.oneLine_lines rest⟩

end

/-! ### What is reported -/

theorem Config.get_set (cfg : Config) (field other : Field) (value : List Char) :
    (cfg.set field value).get other = if field = other then value else cfg.get other := by
  cases field <;> cases other <;> rfl

theorem get_foldl (cfg : Config) (lines : List (List Char)) (field : Field) :
    (lines.foldl readLine cfg).get field =
      ((((lines.filterMap setting).filter (·.1 = field)).getLast?).map Prod.snd).getD (cfg.get field) := by
  induction lines using List.reverseRecOn with
  | nil => rfl
  | append_singleton lines line ih =>
    rw [List.foldl_append, List.foldl_cons, List.foldl_nil, List.filterMap_append, List.filter_append]
    generalize lines.foldl readLine cfg = before at ih ⊢
    rw [readLine]
    have single : [line].filterMap setting = (setting line).toList := by
      rw [List.filterMap_cons]
      cases setting line <;> rfl
    rw [single]
    cases setting line with
    | none =>
      rw [Option.toList_none, List.filter_nil, List.append_nil]
      exact ih
    | some given =>
      obtain ⟨target, value⟩ := given
      dsimp only
      rw [Config.get_set, Option.toList_some]
      by_cases same : target = field
      · have kept : [(target, value)].filter (·.1 = field) = [(target, value)] := by simp [same]
        rw [if_pos same, kept, List.getLast?_concat]
        rfl
      · have left : [(target, value)].filter (·.1 = field) = [] := by simp [same]
        rw [if_neg same, left, List.append_nil]
        exact ih

/-- The value that is reported is the last that any undashed line sets. -/
theorem parseConfig_text (document : Entries) (field : Field) :
    (parseConfig (some document.text)).get field =
      (document.lastSetting field).getD (defaultConfig.get field) := by
  have lines : splitlines document.text = document.lines :=
    PackageFiles.splitlines_unlines document.oneLine_lines
  rw [parseConfig, Option.getD_some, lines, get_foldl, document.read_lines]
  rfl

/-- The global settings are reported exactly when the last undashed setting of each key, at whatever depth
of the document, has the value that holds globally. -/
theorem global_intervals_iff (document : Entries) :
    (∀ field, (parseConfig (some document.text)).get field =
        (document.globalValue field).getD (defaultConfig.get field)) ↔
      ∀ field, (document.lastSetting field).getD (defaultConfig.get field) =
        (document.globalValue field).getD (defaultConfig.get field) := by
  refine forall_congr' fun field => ?_
  rw [parseConfig_text]

/-- A job with an interval of its own, after a global interval. -/
def ownInterval : Entries :=
  let key : Key := ⟨"scrape_interval".toList, OneLine.literal (by decide), rfl, by decide, by decide⟩
  let interval (value : Scalar) : Entries := .cons key (.scalar value) .nil
  .cons ⟨"global".toList, OneLine.literal (by decide), rfl, by decide, by decide⟩
    (.mapping (interval ⟨"15s".toList, OneLine.literal (by decide), rfl⟩))
    (.cons ⟨"scrape_configs".toList, OneLine.literal (by decide), rfl, by decide, by decide⟩
      (.sequence (.cons (.mapping
        (.cons ⟨"job_name".toList, OneLine.literal (by decide), rfl, by decide, by decide⟩
          (.scalar ⟨"node".toList, OneLine.literal (by decide), rfl⟩)
          (interval ⟨"5s".toList, OneLine.literal (by decide), rfl⟩))) .nil)) .nil)

/-- The interval of the job is reported as the global one. -/
theorem global_intervals_fail : ¬ ∀ (document : Entries) (field : Field),
    (parseConfig (some document.text)).get field =
      (document.globalValue field).getD (defaultConfig.get field) := by
  intro all
  have same := all ownInterval .globalScrapeInterval
  rw [parseConfig_text] at same
  have reported : ownInterval.lastSetting .globalScrapeInterval = some "5s".toList := rfl
  have set : ownInterval.globalValue .globalScrapeInterval = some "15s".toList := rfl
  rw [reported, set] at same
  exact absurd same (by decide)

end SysDeck.Cockpit.PromConfig
