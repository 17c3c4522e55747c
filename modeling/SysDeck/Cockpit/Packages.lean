import SysDeck.Web.Packages

/-! The packages bridge of the cockpit: how it reads what the package managers report. -/

namespace SysDeck.Cockpit.Packages

open Scan
open Web.Packages (UpdateRow SearchRow)

/-- `str.isspace` -/
def isSpace (c : Char) : Bool :=
  let n := c.toNat
  (0x9 ≤ n && n ≤ 0xD) || (0x1C ≤ n && n ≤ 0x20) || n = 0x85 || n = 0xA0 || n = 0x1680 ||
    (0x2000 ≤ n && n ≤ 0x200A) || n = 0x2028 || n = 0x2029 || n = 0x202F || n = 0x205F || n = 0x3000

/-- The line boundaries of `str.splitlines`. -/
def lineEnd (c : Char) : Bool :=
  let n := c.toNat
  (0xA ≤ n && n ≤ 0xD) || (0x1C ≤ n && n ≤ 0x1E) || n = 0x85 || n = 0x2028 || n = 0x2029

/-- A carriage return and a newline are one boundary. -/
def joinReturns : List Char → List Char
  | '\r' :: '\n' :: rest => '\n' :: joinReturns rest
  | c :: rest => c :: joinReturns rest
  | [] => []

/-- `raw.splitlines()`: there is no line after the last boundary. -/
def splitlines (raw : String) : List (List Char) :=
  let lines := (joinReturns raw.toList).splitOnP lineEnd
  if lines.getLast? = some [] then lines.dropLast else lines

def strip (text : List Char) : List Char := (text.dropWhile isSpace).rdropWhile isSpace

/-- `line.split()` -/
def split (line : List Char) : List (List Char) := fields isSpace line

/-! ### Updates -/

def pacmanUpdate (line : List Char) : Option UpdateRow :=
  match split line with
  | name :: current :: rest =>
    some { name := String.ofList name, current := String.ofList current,
           candidate := String.ofList (rest.headD current) }
  | _ => none

/-- `_pacman_list_updates` -/
def pacmanListUpdates (raw : String) : List UpdateRow := (splitlines raw).filterMap pacmanUpdate

/-- The name and the candidate of a row. -/
def aptUpdate (line : List Char) : Option (String × String) :=
  match split line with
  | first :: new :: _ => some (String.ofList (first.takeWhile (· ≠ '/')), String.ofList new)
  | _ => none

/-- `_apt_list_updates` -/
def aptListUpdates (raw : String) : List (String × String) := (splitlines raw).filterMap aptUpdate

/-- A name without a dot is the whole first part. -/
def rpmUpdate (line : List Char) : Option (String × String) :=
  match split line with
  | first :: new :: _ =>
    if "Last".toList <+: line ∨ [' '] <+: line then none
    else some (String.ofList (first.takeWhile (· ≠ '.')), String.ofList new)
  | _ => none

/-- `_parse_rpm_update_list` -/
def parseRpmUpdateList (raw : String) : List (String × String) := (splitlines raw).filterMap rpmUpdate

/-! ### Zypper -/

def columns (line : List Char) : List (List Char) := (line.splitOn '|').map strip

/-- A separator row of the table. -/
def separatorRow (cols : List (List Char)) : Bool :=
  cols.all fun c => c ≠ [] && c.all fun d => d = '-' || d = '+'

/-- `_zypper_table` -/
def zypperTable (raw : String) (wanted : List (List Char)) :
    Option (List ℕ) × List (List (List Char)) :=
  let table := ((splitlines raw).filter (·.contains '|')).map columns
  match table.dropWhile (fun cols => !wanted.all (cols.contains ·)) with
  | [] => (none, [])
  | head :: body =>
    let header := wanted.map (head.idxOf ·)
    (some header, body.filter fun cols =>
      !separatorRow cols &&
        !(wanted.zip header).any fun (column, i) => cols[i]? = some column)

def zypperUpdate (header : List ℕ) (cols : List (List Char)) : Option UpdateRow :=
  match header with
  | [iName, iCurrent, iAvailable] =>
    if cols.length ≤ max iName (max iCurrent iAvailable) then none
    else
      let name := cols.getD iName []
      if name = [] then none
      else some { name := String.ofList name, current := String.ofList (cols.getD iCurrent []),
                  candidate := String.ofList (cols.getD iAvailable []) }
  | _ => none

/-- `_zypper_list_updates` -/
def zypperListUpdates (raw : String) : List UpdateRow :=
  match zypperTable raw ["Name".toList, "Current".toList, "Available".toList] with
  | (none, _) => []
  | (some header, rows) => rows.filterMap (zypperUpdate header)

/-- The rows of a search, or `none` where a row has no summary and the reader raises. -/
def zypperFound (iName iSum : ℕ) : List (List (List Char)) → Option (List SearchRow)
  | [] => some []
  | cols :: rest =>
    if cols.length ≤ iName ∨ cols.getD iName [] = [] then zypperFound iName iSum rest
    else
      match cols[iSum]? with
      | none => none
      | some description =>
        (zypperFound iName iSum rest).map fun rows =>
          { name := String.ofList (cols.getD iName []), version := "",
            description := String.ofList description,
            installed := cols.head? = some ['i'] } :: rows

/-- `_zypper_search` -/
def zypperSearch (raw : String) : Option (List SearchRow) :=
  match zypperTable raw ["Name".toList, "Summary".toList] with
  | (some [iName, iSum], rows) => zypperFound iName iSum rows
  | _ => some []

end SysDeck.Cockpit.Packages
