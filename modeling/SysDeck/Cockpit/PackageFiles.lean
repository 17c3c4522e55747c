import SysDeck.Cockpit.Packages
import SysDeck.Cockpit.Profiles

/-! The package lists of the image builder's profiles, in the file of each backend. -/

namespace SysDeck.Cockpit.PackageFiles

open Scan
open Profiles (Backend)
open Packages (isSpace lineEnd splitlines strip split)

abbrev Name := List Char

theorem lawful_names : LawfulBEq Name := inferInstance

attribute [local instance] lawful_names

/-- The universal newlines of a file that is read as text. -/
def universal : List Char → List Char
  | '\r' :: '\n' :: rest => '\n' :: universal rest
  | '\r' :: rest => '\n' :: universal rest
  | c :: rest => c :: universal rest
  | [] => []

/-- `path.read_text() if path.is_file() else ""` -/
def readText (file : Option (List Char)) : List Char := universal (file.getD [])

/-- `splitlines(keepends=True)` of a text that is read, which has no carriage returns. -/
def keepends : List Char → List (List Char)
  | [] => []
  | c :: rest =>
    if lineEnd c then [c] :: keepends rest
    else
      match keepends rest with
      | [] => [[c]]
      | line :: later => (c :: line) :: later

/-! ### Names -/

/-- `if name not in seen: out.append(name)` -/
def addNew (names : List Name) (name : Name) : List Name :=
  if name ∈ names then names else names ++ [name]

/-- `if name and name not in names: names.append(name)` -/
def addName (names : List Name) (name : Name) : List Name :=
  if name = [] then names else addNew names name

/-- The names of a text, one a line, without what follows a hash. -/
def namesOf (text : List Char) : List Name :=
  (splitlines (String.ofList text)).foldl
    (fun out line => addName out (strip (line.takeWhile (· ≠ '#')))) []

/-- `_parse_packages_text` -/
def parsePackagesText (text : String) : List Name := namesOf text.toList

inductive Mode where
  | append | replace
  deriving DecidableEq

/-- What is written: the list so far with the new names, or the new names. -/
def final (mode : Mode) (existing packages : List Name) : List Name :=
  match mode with
  | .append => packages.foldl addNew existing
  | .replace => packages

/-! ### mkosi -/

/-- Where the reader of a `[Packages]` section is, and what it has found. -/
structure Reader where
  inPackages : Bool
  inValue : Bool
  found : List Name

/-- `line.startswith("[") and line.endswith("]")` -/
def header (line : List Char) : Bool := line.head? = some '[' && line.getLast? = some ']'

def Reader.read (reader : Reader) (line : List Char) : Reader :=
  if header line then
    { reader with inPackages := line = "[Packages]".toList, inValue := false }
  else if reader.inPackages ∧ "Packages=".toList <+: strip line then
    -- `line.split("=", 1)[1]`
    let inline := strip ((line.dropWhile (· ≠ '=')).drop 1)
    { reader with inValue := true, found := (split inline).foldl addName reader.found }
  else if reader.inPackages ∧ reader.inValue then
    if line.head?.any (!isSpace ·) then { reader with inValue := false }
    else { reader with found := addName reader.found (strip line) }
  else reader

def mkosiPackages (existing : List Char) : List Name :=
  if "[Packages]".toList <:+: existing then
    ((splitlines (String.ofList existing)).foldl Reader.read ⟨false, false, []⟩).found
  else []

/-- The section as one line of names. -/
def mkosiSection (packages : List Name) : List Char :=
  "[Packages]\nPackages=".toList ++ [' '].intercalate packages

/-- `line.startswith("[") and line.endswith("]\n")` -/
def keptHeader (line : List Char) : Bool := line.head? = some '[' && "]\n".toList.isSuffixOf line

/-- The lines with the section in the place of each `[Packages]` section. -/
def rewrite (new : List Char) : Bool → List (List Char) → List (List Char)
  | _, [] => []
  | inSection, line :: rest =>
    if keptHeader line then
      if strip line = "[Packages]".toList then new :: rewrite new true rest
      else line :: rewrite new false rest
    else if inSection then rewrite new true rest
    else line :: rewrite new false rest

def writeMkosi (existing : List Char) (packages : List Name) : List Char :=
  let new := mkosiSection packages ++ ['\n']
  if "[Packages]".toList <:+: existing then (rewrite new false (keepends existing)).flatten
  else existing.rdropWhile (· = '\n') ++ "\n\n".toList ++ new

/-! ### vmdb2 -/

/-- `\s+\- \S+\s*\n`, and the text after it. -/
def item (text : List Char) : Option (List Char) :=
  many1 isSpace (fun _ rest => literal "- ".toList (many1 (!isSpace ·) fun _ rest =>
    many isSpace (fun _ rest => literal ['\n'] some rest) rest) rest) text

/-- What is left after the items at the head of a text; each of them is longer than nothing. -/
def afterItems : ℕ → List Char → List Char
  | 0, text => text
  | fuel + 1, text =>
    match item text with
    | none => text
    | some rest => afterItems fuel rest

/-- `(\s+\- \S+\s*\n)+`: the items, and the text after them. -/
def items (text : List Char) : Option (List Char × List Char) :=
  if item text = none then none
  else
    let rest := afterItems text.length text
    some (text.take (text.length - rest.length), rest)

/-- The groups of `include_pat`. -/
structure Include where
  /-- The indent and the line of `include:`. -/
  heading : List Char
  indent : List Char
  listed : List Char
  after : List Char

/-- `(^(\s+)include:\s*\n)((?:\s+\- \S+\s*\n)+)` at the head of a text. -/
def includeAt (text : List Char) : Option Include :=
  many1 isSpace (fun indent rest => literal "include:".toList (many isSpace fun run rest =>
    literal ['\n'] (fun rest => (items rest).map fun (listed, after) =>
      { heading := indent ++ "include:".toList ++ run ++ ['\n'], indent := indent,
        listed := listed, after := after }) rest) rest) text

/-- The first place at the start of a line where the pattern matches, with what is before it. -/
def searchFrom (starts : Bool) : List Char → Option (List Char × Include)
  | [] => none
  | c :: rest =>
    match if starts then includeAt (c :: rest) else none with
    | some found => some ([], found)
    | none => (searchFrom (c = '\n') rest).map fun (before, found) => (c :: before, found)

def searchInclude (existing : List Char) : Option (List Char × Include) := searchFrom true existing

/-- The names of the third group. -/
def listedNames (listed : List Char) : List Name :=
  (splitlines (String.ofList listed)).foldl (fun names line =>
    let s := strip line
    if "- ".toList <+: s then addName names (strip (s.drop 2)) else names) []

def vmdb2Packages (existing : List Char) : List Name :=
  match searchInclude existing with
  | none => []
  | some (_, found) => listedNames found.listed

def includeLines (indent : List Char) (packages : List Name) : List Char :=
  (packages.map fun name => indent ++ "  - ".toList ++ name ++ ['\n']).flatten

def writeVmdb2 (existing : List Char) (packages : List Name) : List Char :=
  match searchInclude existing with
  | some (before, found) =>
    before ++ (found.heading ++ includeLines found.indent packages) ++ found.after
  | none =>
    let indent := "    ".toList
    existing.rdropWhile (· = '\n') ++ ['\n'] ++
      (['\n'] ++ indent ++ "include:\n".toList ++ includeLines indent packages)

/-! ### archiso and live-build -/

/-- `"\n".join(lines) + "\n"` -/
def joinLines (lines : List (List Char)) : List Char := ['\n'].intercalate lines ++ ['\n']

/-- A list that is written afresh, below a comment. -/
def freshList (packages : List Name) : List Char :=
  "# Package list (written by sysdeck-builder v0.0.49)\n".toList ++
    (packages.map fun name => name ++ ['\n']).flatten

/-- The comments at the head of a list, and a blank line after them. -/
def headerLines (existing : List Char) : List (List Char) :=
  let lines := (splitlines (String.ofList existing)).takeWhile fun line => (strip line).head? = some '#'
  if lines.getLast?.any fun last => strip last ≠ [] then lines ++ [[]] else lines

def writeArchiso (mode : Mode) (existing : List Char) (packages : List Name) : List Char :=
  match mode with
  | .append => joinLines (headerLines existing ++ packages)
  | .replace => freshList packages

/-! ### The dispatch -/

/-- A profile: its configuration file or the list in its directory, and the files of
`config/package-lists` by their names. -/
structure Profile where
  path : String
  isDir : Bool
  file : Option (List Char)
  lists : String → Option (List Char)

/-- The matches of `sysdeck*.list`. -/
def sysdeckList (name : String) : Bool :=
  "sysdeck".toList.isPrefixOf name.toList && ".list".toList.isSuffixOf name.toList

structure Written where
  path : String
  count : ℕ
  mode : Mode

/-- The list of a profile, as the writer of its backend reads it. -/
def packagesOf (backend : Backend) (profile : Profile) : List Name :=
  match backend with
  | .mkosi => mkosiPackages (readText profile.file)
  | .vmdb2 => vmdb2Packages (readText profile.file)
  | .archiso => namesOf (readText profile.file)
  | .liveBuild => namesOf (readText (profile.lists "sysdeck.list"))

def writeLiveBuild (mode : Mode) (lists : String → Option (List Char)) (packages : List Name) :
    String → Option (List Char) := fun name =>
  if name = "sysdeck.list" then some (freshList packages)
  else if mode = .replace ∧ sysdeckList name then none
  else lists name

/-- The writers, on a path that they can write. -/
def writeNames (backend : Backend) (mode : Mode) (profile : Profile) (packages : List Name) :
    Except String Written × Profile :=
  let existing := readText profile.file
  match backend with
  | .mkosi =>
    let names := final mode (mkosiPackages existing) packages
    (.ok ⟨profile.path, names.length, mode⟩, { profile with file := some (writeMkosi existing names) })
  | .vmdb2 =>
    let names := final mode (vmdb2Packages existing) packages
    (.ok ⟨profile.path, names.length, mode⟩, { profile with file := some (writeVmdb2 existing names) })
  | .archiso =>
    if profile.isDir then
      let names := final mode (namesOf existing) packages
      (.ok ⟨profile.path ++ "/packages.x86_64", names.length, mode⟩,
        { profile with file := some (writeArchiso mode existing names) })
    else (.error ("archiso profile path " ++ profile.path ++ " is not a directory"), profile)
  | .liveBuild =>
    if profile.isDir then
      (.ok ⟨profile.path ++ "/config/package-lists/sysdeck.list", packages.length, mode⟩,
        { profile with lists := writeLiveBuild mode profile.lists packages })
    else (.error ("live-build profile path " ++ profile.path ++ " is not a directory"), profile)

def modeOf (mode : String) : Option Mode :=
  if mode = "append" then some .append else if mode = "replace" then some .replace else none

/-- `_write_packages` -/
def writePackages (backend : Backend) (profile : Profile) (packagesText mode : String) :
    Except String Written × Profile :=
  match modeOf mode with
  | none => (.error ("invalid mode '" ++ mode ++ "' (must be 'append' or 'replace')"), profile)
  | some mode => writeNames backend mode profile (parsePackagesText packagesText)

end SysDeck.Cockpit.PackageFiles
