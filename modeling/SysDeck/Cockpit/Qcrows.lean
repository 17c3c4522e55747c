import SysDeck.Library.OrderedMap
import SysDeck.Library.PythonInt
import SysDeck.Library.PythonJson
import SysDeck.Library.Utf8
import SysDeck.Cockpit.Packages

/-! The verification of a QCrows image: its members, its metadata and its list of hashes. -/

namespace SysDeck.Cockpit.Qcrows

open Packages (splitlines strip)

/-! ### Members -/

/-- A byte of a name that is not UTF-8 is escaped. -/
abbrev Name := List (Char ⊕ Byte)

def nameOf (text : List Char) : Name := text.map .inl

/-- A `TarInfo` with its data. -/
structure Member where
  name : Name
  isfile : Bool
  content : List Byte

/-- The name without a `./` at its start. -/
def normalName (name : Name) : Name :=
  if (nameOf "./".toList).isPrefixOf name then name.drop 2 else name

/-- A failure that the bridge reports, or one that it does not catch. -/
inductive Failure where
  | refused
  | uncaught

def maxMembers : ℕ := 10000
def maxTextMemberBytes : ℕ := 2 ^ 20

def addMember (names : OrderedMap Name Member) (member : Member) : OrderedMap Name Member :=
  if member.isfile then names.set (normalName member.name) member else names

/-- `_qcrows_member_names` -/
def memberNames (members : List Member) : Except Failure (OrderedMap Name Member) :=
  if maxMembers < members.length then .error .refused else .ok (members.foldl addMember .empty)

/-- `_qcrows_read_member` -/
def readMember (member : Member) : Except Failure (List Byte) :=
  if maxTextMemberBytes < member.content.length then .error .refused else .ok member.content

/-- `decode("utf-8", errors="replace")` of a member that is read. -/
def readText (member : Member) : Except Failure (List Char) := (readMember member).map Utf8.decode

/-! ### Metadata -/

/-- A value of a section. Of an array only its size is looked at. -/
inductive Toml where
  | text (value : List Char)
  | flag (value : Bool)
  | integer (value : ℤ)
  | array (size : ℕ)
  | table (entries : List (List Char × Toml))

namespace Toml

abbrev Key := List Char

def put (key : Key) (value : Toml) (entries : List (Key × Toml)) : List (Key × Toml) :=
  if (entries.lookup key).isSome then entries.map fun entry => if entry.1 = key then (key, value) else entry
  else entries ++ [(key, value)]

/-- `current = current.setdefault(part, {})` for the parts of a section. -/
def openSection : List Key → Toml → Except Failure Toml
  | [], toml => .ok toml
  | part :: parts, table entries => do
    let child ← openSection parts ((entries.lookup part).getD (table []))
    return table (put part child entries)
  | _ :: _, _ => .error .uncaught

/-- `current[key] = value` in the section that was opened last. -/
def assign (key : Key) (value : Toml) : List Key → Toml → Except Failure Toml
  | [], table entries => .ok (table (put key value entries))
  | part :: parts, table entries => do
    let child ← assign key value parts ((entries.lookup part).getD (table []))
    return table (put part child entries)
  | _, _ => .error .uncaught

/-- `meta.get(key, default)` -/
def get (toml : Toml) (key : Key) (default : Toml) : Except Failure Toml :=
  match toml with
  | table entries => .ok ((entries.lookup key).getD default)
  | _ => .error .uncaught

/-- `.strip('"')` -/
def unquote (text : List Char) : List Char := (text.dropWhile (· = '"')).rdropWhile (· = '"')

/-- `value.strip("[]")` -/
def unbracket (text : List Char) : List Char :=
  (text.dropWhile fun c => c = '[' || c = ']').rdropWhile fun c => c = '[' || c = ']'

/-- The size of a list, as JSON or as the parts between its commas. -/
def arraySize (value : List Char) : ℕ :=
  match PythonJson.Value.loads (fun _ => .zero) (value.map fun c => if c = '\'' then '"' else c) with
  | some (.array items) => items.length
  | _ => (((unbracket value).splitOn ',').filter fun part => !(strip part).isEmpty).length

/-- `int(value)`, which refuses a text with too many digits. -/
def integerOf (value : List Char) : Option ℤ :=
  if value.countP PythonInt.isDigit ≤ 4300 then PythonInt.read value else none

def valueOf (value : List Char) : Toml :=
  if value.head? = some '"' then text ((value.drop 1).takeWhile (· ≠ '"'))
  else if value.head? = some '[' then array (arraySize value)
  else if value = "true".toList then flag true
  else if value = "false".toList then flag false
  else match integerOf value with
    | some n => integer n
    | none => text value

/-- `section.split(".")` -/
def sectionOf (line : List Char) : List Key :=
  ((unquote (strip (line.drop 1).dropLast)).splitOn '.').map fun part => unquote (strip part)

/-- One line, after which the section in use may be another one. -/
def readLine (state : List Key × Toml) (raw : List Char) : Except Failure (List Key × Toml) :=
  let line := strip raw
  if line.isEmpty || line.head? = some '#' then .ok state
  else if line.head? = some '[' && line.getLast? = some ']' then
    (openSection (sectionOf line) state.2).map (sectionOf line, ·)
  else if !line.contains '=' then .ok state
  else
    let key := unquote (strip (line.takeWhile (· ≠ '=')))
    let value := strip ((line.dropWhile (· ≠ '=')).drop 1)
    (assign key (valueOf value) state.1 state.2).map (state.1, ·)

/-- `_qcrows_parse_toml` -/
def parse (text : List Char) : Except Failure Toml :=
  ((splitlines (String.ofList text)).foldlM readLine ([], table [])).map (·.2)

/-- `bool(hypers)`, and that it can be listed. -/
def listed : Toml → Except Failure Bool
  | text value => .ok !value.isEmpty
  | array size => .ok (size ≠ 0)
  | table entries => .ok !entries.isEmpty
  | flag _ | integer _ => .error .uncaught

end Toml

/-! ### Hashes -/

/-- `[0-9a-f]` -/
def lowerHex (c : Char) : Bool := c.isDigit || ('a' ≤ c && c ≤ 'f')

/-- `[ *]` -/
def separator (c : Char) : Bool := c = ' ' || c = '*'

/-- `rel[2:] if rel.startswith("./") else rel` -/
def relative (rel : List Char) : List Char := if "./".toList.isPrefixOf rel then rel.drop 2 else rel

/-- `^([0-9a-f]{64})[ *]{2}(.+)$` of a line, which has no line end inside; the hash and the name. -/
def entryOf (line : List Char) : Option (List Char × List Char) :=
  match line.drop 64 with
  | first :: second :: rest =>
    if (line.take 64).all lowerHex && separator first && separator second && !rest.isEmpty then
      some (line.take 64, relative (strip rest))
    else none
  | _ => none

/-- The lines of a list that are neither blank nor comments. -/
def entryLines (text : List Char) : List (List Char) :=
  ((splitlines (String.ofList text)).map strip).filter fun line => !line.isEmpty && line.head? ≠ some '#'

section Verify

variable (sha256 : List Byte → List Char)

/-- One round of the hash walk. -/
def lineMatches (names : OrderedMap Name Member) (line : List Char) : Bool :=
  match entryOf line with
  | none => false
  | some (expect, rel) =>
    match names.find? (nameOf rel) with
    | none => false
    | some member => sha256 member.content = expect

/-! ### The checks -/

structure Check where
  name : String
  passed : Bool
  deriving DecidableEq

/-- `_qcrows_kernel_magic_ok` -/
def kernelMagicOk (blob : List Byte) : Bool :=
  blob.take 4 = [0x7F, 0x45, 0x4C, 0x46] ||
    (0x206 ≤ blob.length && (blob.drop 0x202).take 4 = [0x48, 0x64, 0x72, 0x53])

def requiredFiles : List String := ["metadata.toml", "menu.toml", "hashes.sha256"]

def requiredKataOpts : List String :=
  ["CONFIG_VSOCKETS", "CONFIG_VIRTIO", "CONFIG_VIRTIO_PCI", "CONFIG_DEVTMPFS", "CONFIG_DEVTMPFS_MOUNT"]

def initrdNames : List String :=
  ["initrd.img", "initrd.cpio.gz", "initrd.cpio.lz4", "initrd.cpio.xz", "initrd.cramfs"]

def find (names : OrderedMap Name Member) (name : String) : Option Member :=
  names.find? (nameOf name.toList)

def requiredChecks (names : OrderedMap Name Member) : List Check :=
  requiredFiles.map fun file => ⟨file ++ " present", (find names file).isSome⟩

def isRootfs (name : Name) : Bool := (nameOf "rootfs.tar".toList).isPrefixOf name

def rootfsCheck (names : OrderedMap Name Member) : Check :=
  ⟨"rootfs found", names.keys.any isRootfs⟩

/-- The kernel that is looked at, the compressed one first. -/
def kernelMember (names : OrderedMap Name Member) : Option Member :=
  ["kernel/vmlinuz", "kernel/vmlinux"].findSome? (find names)

def kernelCheck (names : OrderedMap Name Member) : Check :=
  match kernelMember names with
  | some member => ⟨"kernel binary format valid", kernelMagicOk (member.content.take 0x20A)⟩
  | none => ⟨"kernel binary found", false⟩

/-- With the options that are missing, for a warning. -/
def configCheck (names : OrderedMap Name Member) : Except Failure (Check × List String) :=
  match find names "kernel/config" with
  | none => .ok (⟨"kernel/config found", false⟩, [])
  | some member => do
    let text ← readText member
    let missing := requiredKataOpts.filter fun option => decide ¬(option ++ "=y").toList <:+: text
    return (⟨"kernel/config found", true⟩, missing)

def hasInitrd (names : OrderedMap Name Member) : Bool := initrdNames.any fun name => (find names name).isSome

def metadataChecks (names : OrderedMap Name Member) : Except Failure (List Check) :=
  match find names "metadata.toml" with
  | none => .ok []
  | some member => do
    let metadata ← Toml.parse (← readText member)
    let qcrows ← metadata.get "qcrows".toList (.table [])
    let versioned ← match qcrows with
      | .table entries => pure (entries.lookup "format_version".toList).isSome
      | _ => throw .uncaught
    let image ← metadata.get "image".toList (.table [])
    let compatibility ← image.get "compatibility".toList (.table [])
    let hypervisors ← compatibility.get "hypervisors".toList (.array 0)
    return [⟨"metadata format_version", versioned⟩,
      ⟨"hypervisor compatibility declared", ← hypervisors.listed⟩]

def hashCheck (names : OrderedMap Name Member) : Except Failure Check :=
  match find names "hashes.sha256" with
  | none => .ok ⟨"SHA-256 checksums", false⟩
  | some list => do
    let text ← readText list
    return ⟨"SHA-256 checksums", (entryLines text).all (lineMatches sha256 names)⟩

/-- What is answered; the warnings are the options and the initrd that are missing. -/
structure Answer where
  ok : Bool
  passed : ℕ
  failed : ℕ
  missingOptions : List String
  noInitrd : Bool
  checks : List Check

def answerOf (checks : List Check) (missing : List String) (noInitrd : Bool) : Answer :=
  let passed := checks.countP (·.passed)
  { ok := checks.length - passed = 0, passed, failed := checks.length - passed, missingOptions := missing,
    noInitrd, checks }

/-- `cmd_qcrows_verify` of an archive with these members. -/
def verify (members : List Member) : Except Failure Answer := do
  let names ← memberNames members
  let (config, missing) ← configCheck names
  let metadata ← metadataChecks names
  let hashes ← hashCheck sha256 names
  return answerOf (requiredChecks names ++ [rootfsCheck names, kernelCheck names, config] ++ metadata ++
    [hashes]) missing !hasInitrd names

/-- What the bundle directory has under a name: nothing that is a file, a file that is no archive, or
an archive. -/
inductive Bundle where
  | absent
  | unreadable
  | archive (members : List Member)

inductive Reply where
  | notFound
  | error
  | raised
  | answer (given : Answer)

def Reply.ok : Reply → Bool
  | answer given => given.ok
  | _ => false

/-- `cmd_qcrows_verify` -/
def cmdQcrowsVerify : Bundle → Reply
  | .absent => .notFound
  | .unreadable => .error
  | .archive members =>
    match verify sha256 members with
    | .ok answer => .answer answer
    | .error .refused => .error
    | .error .uncaught => .raised

end Verify

end SysDeck.Cockpit.Qcrows
