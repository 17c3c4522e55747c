import SysDeck.Library.OrderedMap
import SysDeck.Cockpit.Packages

/-! The theme bridge of the cockpit: the parser of `cockpit.conf`, its serializer, and the commands
that read and edit one key. -/

namespace SysDeck.Cockpit.Themes

open Packages (isSpace splitlines strip)

abbrev Text := List Char

abbrev Keys := OrderedMap Text Text

abbrev Sections := OrderedMap Text Keys

/-! ### The parser -/

/-- What the parser makes of a line. -/
inductive Line where
  | skipped
  | header (name : Text)
  | pair (key value : Text)
  deriving DecidableEq

/-- `SECTION_RE`: `^\[(?P<name>[^\]]+)\]\s*$` -/
def sectionName : Text → Option Text
  | '[' :: rest =>
    match rest.span (· ≠ ']') with
    | (c :: name, _ :: after) => if after.all isSpace then some (c :: name) else none
    | _ => none
  | _ => none

/-- `KV_RE`: `^\s*(?P<key>[^=\s]+)\s*=\s*(?P<val>.*)$`, with the value stripped -/
def keyValue (line : Text) : Option (Text × Text) :=
  match (line.dropWhile isSpace).span fun c => c ≠ '=' && !isSpace c with
  | (c :: key, rest) =>
    match rest.dropWhile isSpace with
    | '=' :: value => some (c :: key, strip value)
    | _ => none
  | _ => none

/-- `line.lstrip().startswith(("#", ";"))` -/
def isComment (line : Text) : Bool :=
  match line.dropWhile isSpace with
  | c :: _ => c = '#' || c = ';'
  | [] => false

def readLine (line : Text) : Line :=
  if (strip line).isEmpty || isComment line then .skipped
  else
    match sectionName line with
    | some name => .header name
    | none =>
      match keyValue line with
      | some (key, value) => .pair key value
      | none => .skipped

/-- The variables of the loop. -/
structure Parsing where
  sections : Sections
  currentName : Text
  current : Keys

def Parsing.start : Parsing := ⟨.empty, [], .empty⟩

def Parsing.close (parsing : Parsing) : Sections :=
  if parsing.currentName = [] then parsing.sections
  else parsing.sections.set parsing.currentName parsing.current

def Parsing.take (parsing : Parsing) : Line → Parsing
  | .skipped => parsing
  | .header name => ⟨parsing.close, name, .empty⟩
  | .pair key value =>
    if parsing.currentName = [] then parsing
    else { parsing with current := parsing.current.set key value }

/-- `_parse_conf` -/
def parseConf (text : String) : Sections :=
  (((splitlines text).map readLine).foldl Parsing.take .start).close

/-! ### The serializer -/

def headComment : Text := "# cockpit.conf — managed by SysDeck Theme Engine".toList

def headerLine (name : Text) : Text := '[' :: name ++ [']']

def pairLine (key value : Text) : Text := key ++ " = ".toList ++ value

def sectionLines (name : Text) (keys : Keys) : List Text :=
  [] :: headerLine name :: keys.entries.map fun pair => pairLine pair.1 pair.2

/-- `_serialize_conf` -/
def serializeConf (sections : Sections) : String :=
  String.ofList (['\n'].intercalate
    (headComment :: sections.entries.flatMap (fun entry => sectionLines entry.1 entry.2) ++ [[]]))

/-! ### The commands -/

inductive Reply where
  | usage
  | sectionNotFound (name : Text) (available : List Text)
  | keyNotFound (key name : Text) (available : List Text)
  | keys (name : Text) (keys : Keys)
  | value (name key value : Text)
  | notSingleLine
  | equalsInKey
  | done (name key value : Text)
  | notSet (key name : Text)
  | unset (name key : Text)

def cmdGet (text : String) : List Text → Reply
  | [] => .usage
  | [name] =>
    match (parseConf text).find? name with
    | none => .sectionNotFound name (parseConf text).keys
    | some keys => .keys name keys
  | name :: key :: _ =>
    match (parseConf text).find? name with
    | none => .sectionNotFound name (parseConf text).keys
    | some keys =>
      match keys.find? key with
      | none => .keyNotFound key name keys.keys
      | some value => .value name key value

def hasBreak (text : Text) : Bool := text.any fun c => c = '\r' || c = '\n' || c = '\x00'

/-- `sections.setdefault(section, {})[key] = value` -/
def setKey (sections : Sections) (name key value : Text) : Sections :=
  sections.set name ((sections.getD name .empty).set key value)

/-- The answer, and the text that the file is given. -/
def cmdSet (text : String) : List Text → Reply × String
  | name :: key :: value :: _ =>
    if hasBreak (name ++ key ++ value) ∨ name.any (fun c => c = '[' || c = ']') then
      (.notSingleLine, text)
    else if key.contains '=' then (.equalsInKey, text)
    else (.done name key value, serializeConf (setKey (parseConf text) name key value))
  | _ => (.usage, text)

/-- The key is deleted, and its section where nothing else is in it. -/
def unsetKey (sections : Sections) (name key : Text) (keys : Keys) : Sections :=
  if (keys.erase key).entries.isEmpty then sections.erase name
  else sections.set name (keys.erase key)

def cmdUnset (text : String) : List Text → Reply × String
  | name :: key :: _ =>
    match (parseConf text).find? name with
    | none => (.notSet key name, text)
    | some keys =>
      if keys.contains key then (.unset name key, serializeConf (unsetKey (parseConf text) name key keys))
      else (.notSet key name, text)
  | _ => (.usage, text)

end SysDeck.Cockpit.Themes
