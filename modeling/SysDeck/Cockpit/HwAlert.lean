import SysDeck.Cockpit.Packages
import SysDeck.Library.RealPath

/-! The hardware alert bridge of the cockpit: the scans of the buses, and the two commands that write
to a device's `authorized`. -/

namespace SysDeck.Cockpit.HwAlert

open FileTree
open Packages (isSpace splitlines strip)

/-- The text of a path, cut at its slashes after the first. -/
def parse : List Char → Path
  | '/' :: text => ⟨true, (text.splitOn '/').map String.ofList⟩
  | text => ⟨false, (text.splitOn '/').map String.ofList⟩

/-- `os.path.join(path, name)`, of a name without a slash. -/
def join (path name : String) : String :=
  if path.toList = [] ∨ path.toList.getLast? = some '/' then path ++ name else path ++ "/" ++ name

inductive Bus where
  | usb
  | thunderbolt
  | pci
  deriving DecidableEq

def Bus.text : Bus → String
  | .usb => "usb"
  | .thunderbolt => "thunderbolt"
  | .pci => "pci"

/-- `/sys/bus/…/devices` -/
def Bus.base (bus : Bus) : String := "/sys/bus/" ++ bus.text ++ "/devices"

def Bus.place (bus : Bus) : Location := ["devices", bus.text, "bus", "sys"]

/-- The file system as a command meets it, with the limits of the kernel on links and of the
interpreter on calls, the text of its files, and the files that open for writing. -/
structure Host where
  tree : Tree
  names : Location → List String
  listed : ∀ here name, name ∈ names here ↔ tree (name :: here) ≠ none
  proper : ∀ here name, tree (name :: here) ≠ none → isName name ∧ '/' ∉ name.toList
  parents : ∀ here name, tree (name :: here) ≠ none → tree here = some .directory
  links : Nat
  depth : Nat
  contents : Location → Option String
  opens : Location → Bool
  /-- `lspci -mn` -/
  lspci : String

def Host.lookup (host : Host) (path : String) : Except Errno Location :=
  FileTree.lookup host.tree false host.links [] (parse path.toList).parts

def Host.isdir (host : Host) (path : String) : Bool :=
  match host.lookup path with
  | .ok place => host.tree place = some .directory
  | .error _ => false

/-- `os.listdir(path)` of a directory. -/
def Host.listdir (host : Host) (path : String) : List String :=
  match host.lookup path with
  | .ok place => host.names place
  | .error _ => []

def readFile (host : Host) (path : String) : String :=
  match host.lookup path with
  | .ok place => String.ofList (strip ((host.contents place).getD "").toList)
  | .error _ => ""

/-! ### The scans -/

structure Device where
  id : String
  vendorId : String
  productId : String
  serial : String
  deriving DecidableEq

/-- `re.match(r'^usb\d+', entry) and '-' not in entry` -/
def isHub (isDecimal : Char → Bool) (entry : String) : Bool :=
  match entry.toList with
  | 'u' :: 's' :: 'b' :: c :: _ => isDecimal c && !entry.toList.contains '-'
  | _ => false

def scanUsbDevice (isDecimal : Char → Bool) (host : Host) (entry : String) : Option Device :=
  let path := join Bus.usb.base entry
  if !host.isdir path then none
  else if isHub isDecimal entry then none
  else
    let vendorId := readFile host (join path "idVendor")
    let productId := readFile host (join path "idProduct")
    if vendorId = "" ∨ productId = "" then none
    else some ⟨path, vendorId, productId, readFile host (join path "serial")⟩

def scanUsbDevices (isDecimal : Char → Bool) (host : Host) : List Device :=
  if host.isdir Bus.usb.base then
    (host.listdir Bus.usb.base).filterMap (scanUsbDevice isDecimal host)
  else []

def scanThunderboltDevice (host : Host) (entry : String) : Option Device :=
  let path := join Bus.thunderbolt.base entry
  if !host.isdir path then none
  else if "domain".toList <+: entry.toList then none
  else some ⟨path, readFile host (join path "vendor_id"), readFile host (join path "device_id"),
    readFile host (join path "unique_id")⟩

def scanThunderboltDevices (host : Host) : List Device :=
  if host.isdir Bus.thunderbolt.base then
    (host.listdir Bus.thunderbolt.base).filterMap (scanThunderboltDevice host)
  else []

/-- A quoted text after blanks, and what follows it. -/
def quoted (text : List Char) : Option (List Char × List Char) :=
  match text.span isSpace with
  | (_ :: _, '"' :: rest) =>
    match rest.span (· ≠ '"') with
    | (c :: inner, _ :: rest) => some (c :: inner, rest)
    | _ => none
  | _ => none

/-- The address, the class, the vendor and the device of a line. -/
def pciFields (isDecimal : Char → Bool) (line : List Char) : Option (List (List Char)) :=
  match line.span fun c => isDecimal c || c = ':' || c = '.' with
  | ([], _) => none
  | (address, rest) => do
    let (pciClass, rest) ← quoted rest
    let (vendorId, rest) ← quoted rest
    let (deviceId, _) ← quoted rest
    return [address, pciClass, vendorId, deviceId]

def skipClasses : List String := ["0300", "0200", "0100", "0106", "0108", "0c03"]

def scanPciDevice (isDecimal : Char → Bool) (line : List Char) : Option Device :=
  match pciFields isDecimal line with
  | some [address, pciClass, vendorId, deviceId] =>
    if String.ofList (pciClass.filter (· ≠ ' ')) ∈ skipClasses then none
    else some ⟨Bus.pci.base ++ "/" ++ String.ofList address, String.ofList vendorId,
      String.ofList deviceId, ""⟩
  | _ => none

def scanPciDevices (isDecimal : Char → Bool) (host : Host) : List Device :=
  (splitlines (String.ofList (strip host.lspci.toList))).filterMap (scanPciDevice isDecimal)

/-- The devices that the three scans emit. -/
def scanned (isDecimal : Char → Bool) (host : Host) : List Device :=
  scanUsbDevices isDecimal host ++ scanThunderboltDevices host ++ scanPciDevices isDecimal host

/-! ### The commands -/

/-- `os.path.realpath`, whose calls stop at the limit of the interpreter. -/
def Host.realpath (host : Host) (path : String) : Option Location :=
  realPath host.tree (host.depth + 1) (parse path.toList).parts

def insideBases (p : Location) : Bool :=
  [Bus.usb, .thunderbolt, .pci].any fun bus => bus.place.isSuffixOf p

/-- `_device_path_ok` -/
def devicePathOk (host : Host) (deviceId : String) : Option Bool :=
  if deviceId.toList.head? ≠ some '/' then some false
  else (host.realpath deviceId).map insideBases

inductive Result where
  | invalidDevicePath
  | written
  | error
  | noMethodAvailable
  deriving DecidableEq

/-- What a command answers, and the file it wrote, with the text. -/
structure Outcome where
  result : Result
  write : Option (Location × String)
  deriving DecidableEq

/-- Both commands, which differ in what they write; nothing where the check is stopped. -/
def authorize (value : String) (host : Host) (deviceId : String) : Option Outcome :=
  (devicePathOk host deviceId).map fun ok =>
    if !ok then ⟨.invalidDevicePath, none⟩
    else match host.lookup (join deviceId "authorized") with
    | .error _ => ⟨.noMethodAvailable, none⟩
    | .ok place =>
      if host.tree place = some .file ∧ host.opens place then ⟨.written, some (place, value)⟩
      else ⟨.error, none⟩

def cmdBlock : Host → String → Option Outcome := authorize "0"

def cmdUnblock : Host → String → Option Outcome := authorize "1"

end SysDeck.Cockpit.HwAlert
