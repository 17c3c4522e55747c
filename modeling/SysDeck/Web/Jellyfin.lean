import SysDeck.Library.Numeral
import SysDeck.Library.RealPath
import SysDeck.Library.TreeRegion

/-! The media listing of the jellyfin bridge: the files of a library, by a name that the caller gives. -/

namespace SysDeck.Web.Jellyfin

open FileTree

def MEDIA_ROOT : String := "/var/lib/jellyfin/root/default"

/-- The place of the root. -/
def mediaRoot : Location := ["default", "root", "jellyfin", "lib", "var"]

def VIDEO_EXT : List String := [".mkv", ".mp4", ".avi", ".mov", ".wmv", ".flv", ".webm", ".mpg", ".mpeg", ".m4v"]

def AUDIO_EXT : List String := [".mp3", ".flac", ".wav", ".aac", ".ogg", ".m4a", ".opus", ".wma"]

/-- The links that the kernel follows in one path. -/
def maxLinks : ℕ := 40

/-! ### The host -/

/-- What `stat` gives of a node; the time in whole milliseconds. -/
structure Stat where
  size : ℕ
  mtimeMs : ℤ

/-- The text of a name: no slash, and no zero byte. -/
def Clean (name : String) : Prop := '/' ∉ name.toList ∧ '\x00' ∉ name.toList

/-- The state of the file system: its tree, the names of each directory in the order of the host, and the
figures of each node. -/
structure Host where
  tree : Tree
  names : Location → List String
  stat : Location → Stat
  listed : ∀ here name, name ∈ names here ↔ tree (name :: here) ≠ none
  proper : ∀ here name, tree (name :: here) ≠ none → isName name ∧ Clean name
  parents : ∀ here name, tree (name :: here) ≠ none → tree here = some .directory
  top : tree [] = some .directory
  targets : ∀ place target, tree place = some (.link target) → ∀ part ∈ target.parts, Clean part

structure Dirent where
  name : String
  isDirectory : Bool

/-- The names of a path that begins with a slash. -/
def parts (path : String) : List String := (path.toList.splitOn '/').map String.ofList

def Host.lookup (host : Host) (path : String) : Except Errno Location :=
  FileTree.lookup host.tree false maxLinks [] (parts path)

/-- `readdir`, nothing where it throws; a path with a zero byte does not reach the host. -/
def Host.readdir (host : Host) (path : String) : Option (List Dirent) :=
  if '\x00' ∈ path.toList then none
  else
    match host.lookup path with
    | .ok place =>
      if host.tree place = some .directory then
        some ((host.names place).map fun name => ⟨name, host.tree (name :: place) = some .directory⟩)
      else none
    | .error _ => none

def Host.statOf (host : Host) (path : String) : Option Stat :=
  match host.lookup path with
  | .ok place => some (host.stat place)
  | .error _ => none

/-! ### The items -/

inductive Kind where
  | audio
  | video
  deriving DecidableEq

structure Item where
  id : String
  kind : Kind
  title : String
  library : String
  sizeMb : ℕ
  year : Option ℕ
  /-- The moment, whose text the answer has. -/
  addedAt : ℤ
  playCount : ℕ
  sizeHuman : String
  deriving DecidableEq

/-- The last dot of a name and what follows it. A name without a dot gives its last character, which is not
an extension of either set. -/
def extension (name : List Char) : Option (List Char) :=
  match name.reverse.span (· ≠ '.') with
  | (back, '.' :: _) => some ('.' :: back.reverse)
  | _ => none

/-- `toLowerCase()`, as far as the sets of extensions tell: of the characters beyond ASCII only the sign of
the kelvin has a small letter that they know. -/
def toLowerCase (c : Char) : Char := if c = '\u212a' then 'k' else c.toLower

def kind? (name : String) : Option Kind :=
  (extension name.toList).bind fun ext =>
    let ext := String.ofList (ext.map toLowerCase)
    if ext ∈ AUDIO_EXT then some .audio else if ext ∈ VIDEO_EXT then some .video else none

/-- `name.replace(/\.[^.]+$/, '')` -/
def title (name : List Char) : List Char :=
  match name.reverse.span (· ≠ '.') with
  | (_ :: _, '.' :: front) => front.reverse
  | _ => name

def digits (a b c d : Char) : ℕ :=
  [a, b, c, d].foldl (fun n digit => 10 * n + (digit.toNat - '0'.toNat)) 0

/-- `/\((19|20)\d{2}\)/`, the first of the name. -/
def year? : List Char → Option ℕ
  | [] => none
  | c :: rest =>
    match c, rest with
    | '(', a :: b :: x :: y :: ')' :: _ =>
      if (a = '1' ∧ b = '9' ∨ a = '2' ∧ b = '0') ∧ x.isDigit ∧ y.isDigit then some (digits a b x y)
      else year? rest
    | _, _ => year? rest

/-- `(n / unit).toFixed(1)`, where the quotient is exact. -/
def toFixed (n unit : ℕ) : String :=
  let tenths := (20 * n + unit) / (2 * unit)
  toString (tenths / 10) ++ "." ++ toString (tenths % 10)

def fmtSize (mb : ℕ) : String :=
  if 1024 * 1024 ≤ mb then toFixed mb (1024 * 1024) ++ " TB"
  else if 1024 ≤ mb then toFixed mb 1024 ++ " GB"
  else toString mb ++ " MB"

/-- `Math.round(size / 1048576)` -/
def sizeMb (size : ℕ) : ℕ := (2 * size + 1048576) / 2097152

/-- The moments that `toISOString` has a text for. -/
def validDate (ms : ℤ) : Bool := -8640000000000000 ≤ ms && ms ≤ 8640000000000000

/-- `full.slice(MEDIA_ROOT.length)` -/
def idOf (full : String) : String := String.ofList (full.toList.drop MEDIA_ROOT.toList.length)

/-- The item of a file of a directory, nothing where its figures cannot be read. -/
def item? (host : Host) (library d name : String) (kind : Kind) : Option Item :=
  (host.statOf (d ++ "/" ++ name)).bind fun s =>
    if validDate s.mtimeMs then
      some
        { id := idOf (d ++ "/" ++ name)
          kind
          title := String.ofList (title name.toList)
          library
          sizeMb := sizeMb s.size
          year := year? name.toList
          addedAt := s.mtimeMs
          playCount := 0
          sizeHuman := fmtSize (sizeMb s.size) }
    else none

/-- The items so far, and the paths that were opened. -/
structure Scan where
  items : List Item
  opened : List String

/-- The walk, with so many levels left. -/
def walk (host : Host) (library : String) (limit : ℚ) : ℕ → String → Scan → Scan
  | 0, _, scan => scan
  | levels + 1, d, scan =>
    if limit ≤ scan.items.length then scan
    else
      let scan := { scan with opened := scan.opened ++ [d] }
      match host.readdir d with
      | none => scan
      | some ents =>
        ents.foldl
          (fun scan e =>
            if limit ≤ scan.items.length then scan
            else
              let full := d ++ "/" ++ e.name
              if e.isDirectory then walk host library limit levels full scan
              else
                match kind? e.name with
                | none => scan
                | some kind =>
                  ⟨scan.items ++ (item? host library d e.name kind).toList, scan.opened ++ [full]⟩)
          scan

/-- `Math.max(1, Math.min(500, limit || 200))` -/
def limitOf : Number → ℚ
  | .nan => 200
  | .infinity negative => if negative then 1 else 500
  | .finite value => if value.value = 0 then 200 else max 1 (min 500 value.value)

inductive Answer where
  | failed (error : String)
  | listed (library : String) (items : List Item) (returned : ℕ) (note : String)
  deriving DecidableEq

def Answer.items : Answer → List Item
  | .failed _ => []
  | .listed _ items _ _ => items

def dirOf (library : String) : String := MEDIA_ROOT ++ "/" ++ library

/-- `jellyfin.items`: its answer, and the paths that it opens. -/
def items (host : Host) (library : String) (limit : Number) : Answer × List String :=
  let dir := dirOf library
  match host.readdir dir with
  | none =>
    (.failed ("library '" ++ library ++ "' not found under " ++ MEDIA_ROOT),
      if '\x00' ∈ dir.toList then [] else [dir])
  | some _ =>
    let scan := walk host library (limitOf limit) 5 dir ⟨[], [dir]⟩
    (.listed library scan.items scan.items.length ("real file scan of " ++ dir), scan.opened)

/-! ### Inside the root -/

/-- The path is the root or below it, when `.` and `..` are resolved in its text. -/
def Below (path : String) : Prop := mediaRoot <:+ (parts path).foldl step []

/-- The host states that have the root and what is below it as a state has them. -/
def SameBelow (host other : Host) : Prop :=
  ∀ place, mediaRoot <:+ place →
    other.tree place = host.tree place ∧ other.names place = host.names place ∧ other.stat place = host.stat place

/-- What is opened and reported lies below the root, and nothing outside it tells. -/
structure Contained (host : Host) (library : String) (limit : Number) : Prop where
  opened : ∀ path ∈ (items host library limit).2, Below path
  reported : ∀ item ∈ (items host library limit).1.items, Below (MEDIA_ROOT ++ item.id)
  same : ∀ other, SameBelow host other → (items other library limit).1 = (items host library limit).1

/-! ### When it is -/

/-- The root with what is above and below it; the top alone, where there is no root. -/
def Host.near (host : Host) (place : Location) : Bool :=
  if host.tree mediaRoot = none then place = [] else place.isSuffixOf mediaRoot || mediaRoot.isSuffixOf place

/-- The walk of a path looks a name up elsewhere; with `spare`, while a link more may be followed. -/
def Host.strays (host : Host) (spare : Bool) (path : String) : Bool :=
  leaves host.near host.tree spare maxLinks [] (parts path)

/-- A path strays, or ends above the root. -/
def Host.leadsOut (host : Host) (spare : Bool) (path : String) : Bool :=
  host.strays spare path ||
    !host.strays false path &&
      match host.lookup path with
      | .ok place => !mediaRoot.isSuffixOf place
      | .error _ => false

/-- A file that the walk comes to. -/
structure Media where
  dir : String
  name : String
  kind : Kind

def Media.path (media : Media) : String := media.dir ++ "/" ++ media.name

/-- The media files under a directory in the order of the walk, down so many levels. -/
def Host.media (host : Host) : ℕ → String → List Media
  | 0, _ => []
  | levels + 1, d =>
    ((host.readdir d).getD []).flatMap fun e =>
      if e.isDirectory then host.media levels (d ++ "/" ++ e.name)
      else ((kind? e.name).map fun kind => ⟨d, e.name, kind⟩).toList

/-- A file whose figures are shown. -/
def Host.shows (host : Host) (media : Media) : Bool :=
  (host.statOf media.path).any fun s => validDate s.mtimeMs

/-- The file after these is reached: fewer of them are shown than the limit. -/
def Host.reaches (host : Host) (limit : Number) (before : List Media) : Prop :=
  (before.countP host.shows : ℚ) < limitOf limit

instance (host : Host) (limit : Number) (before : List Media) : Decidable (host.reaches limit before) :=
  inferInstanceAs (Decidable ((before.countP host.shows : ℚ) < limitOf limit))

/-- The path of the library stays in the root, as a text and on the way over its links, and so do the links
to files that are reached. -/
def Confined (host : Host) (library : String) (limit : Number) : Prop :=
  '\x00' ∈ library.toList ∨
    Below (dirOf library) ∧ host.leadsOut false (dirOf library) = false ∧
      ∀ before media after, host.media 5 (dirOf library) = before ++ media :: after →
        host.reaches limit before → host.leadsOut false media.path = false

/-- The library's path leaves the root as a text or over a link, or the first file that leaves it, of those
that are reached, is a link; each with a link to spare. -/
def Escapes (host : Host) (library : String) (limit : Number) : Prop :=
  '\x00' ∉ library.toList ∧
    (¬ Below (dirOf library) ∨ host.leadsOut true (dirOf library) ∨
      host.leadsOut false (dirOf library) = false ∧
        ∃ before media after, host.media 5 (dirOf library) = before ++ media :: after ∧
          host.reaches limit before ∧ (∀ earlier ∈ before, host.leadsOut false earlier.path = false) ∧
          host.leadsOut true media.path)

end SysDeck.Web.Jellyfin
