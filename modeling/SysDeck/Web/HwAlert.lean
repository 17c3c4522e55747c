import SysDeck.Library.OrderedMap
import SysDeck.Library.Lines
import SysDeck.Web.Firewall

/-! The hardware bridge: what stands on the buses, the registry of devices that the scans keep,
and the commands that block devices and let them in. -/

namespace SysDeck.Web.HwAlert

open Firewall (trim)

/-! ### The buses -/

inductive Bus where
  | usb
  | thunderbolt
  | pci
  | firewire
  deriving DecidableEq

def Bus.name : Bus → String
  | .usb => "usb"
  | .thunderbolt => "thunderbolt"
  | .pci => "pci"
  | .firewire => "firewire"

/-- `/sys/bus/<bus>/devices/<entry>` -/
structure SysfsPath where
  bus : Bus
  entry : String
  deriving DecidableEq

def SysfsPath.text (path : SysfsPath) : String :=
  "/sys/bus/" ++ path.bus.name ++ "/devices/" ++ path.entry

/-- An entry of a bus directory. -/
structure Entry where
  name : String
  /-- The texts of the attributes that can be read. -/
  files : String → Option String
  /-- `bInterfaceClass` of the interfaces below the entry, where they can be listed. -/
  interfaces : List String
  /-- The physical device; nothing reads it. -/
  device : Option ℕ

def Entry.attr (entry : Entry) (file : String) : String := trim ((entry.files file).getD "")

structure Buses where
  /-- The entries of a bus in the order of `readdir`, none where there is no such bus. -/
  entries : Bus → List Entry
  distinct : ∀ bus, ((entries bus).map Entry.name).Nodup
  /-- The lines of `bluetoothctl devices`, none where it fails, each with its physical device. -/
  bluetooth : List (String × Option ℕ)

inductive Kind where
  | usbStorage
  | usb
  | thunderbolt
  | bluetooth
  | pci
  | firewire
  deriving DecidableEq

def Kind.text : Kind → String
  | .usbStorage => "usb-storage"
  | .usb => "usb"
  | .thunderbolt => "thunderbolt"
  | .bluetooth => "bluetooth"
  | .pci => "pci"
  | .firewire => "firewire"

structure ScannedDevice where
  deviceId : String
  kind : Kind
  name : String
  vendor : String
  authorized : Bool
  sysfsPath : Option SysfsPath
  /-- The physical device; nothing reads it. -/
  device : Option ℕ

/-- `text || other` -/
def orElse (text other : String) : String := if text = "" then other else text

variable (toLowerCase : String → String)

def usbDevice (e : Entry) : Option ScannedDevice :=
  let vid := e.attr "idVendor"
  let pid := e.attr "idProduct"
  if e.name = "" ∨ ':' ∈ e.name.toList ∨ vid = "" ∨ pid = "" then none
  else
    let storage := e.interfaces.any fun cls => toLowerCase (trim cls) = "08"
    some {
      deviceId := "usb:" ++ vid ++ ":" ++ pid
      kind := if storage then .usbStorage else .usb
      name := orElse (e.attr "product") ("USB device " ++ vid ++ ":" ++ pid)
      vendor := orElse (e.attr "manufacturer") vid
      authorized := e.attr "authorized" ≠ "0"
      sysfsPath := some ⟨.usb, e.name⟩
      device := e.device }

def thunderboltDevice (e : Entry) : Option ScannedDevice :=
  let vendor := e.attr "vendor_name"
  let device := e.attr "device_name"
  let authorizedRaw := e.attr "authorized"
  if ".".toList <+: e.name.toList ∨ device = "" ∧ vendor = "" then none
  else some {
    deviceId := "tb:" ++ e.name
    kind := .thunderbolt
    name := orElse device e.name
    vendor := orElse vendor "unknown"
    authorized := if authorizedRaw = "" then e.attr "nvm_authenticate" ≠ "0" else authorizedRaw ≠ "0"
    sysfsPath := some ⟨.thunderbolt, e.name⟩
    device := e.device }

/-- `text.replace(/^0x/, '')` -/
def dropHex (text : String) : String :=
  if "0x".toList <+: text.toList then String.ofList (text.toList.drop 2) else text

def pciDevice (e : Entry) : Option ScannedDevice :=
  let vid := e.attr "vendor"
  let pid := e.attr "device"
  if vid = "" ∨ pid = "" then none
  else some {
    deviceId := "pci:" ++ dropHex vid ++ ":" ++ dropHex pid
    kind := .pci
    name := "PCI device " ++ e.name ++ " (class " ++ orElse (e.attr "class") "unknown" ++ ")"
    vendor := dropHex vid
    authorized := true
    sysfsPath := some ⟨.pci, e.name⟩
    device := e.device }

def firewireDevice (e : Entry) : Option ScannedDevice :=
  if "fw".toList <+: e.name.toList then
    some {
      deviceId := "fw:" ++ e.name
      kind := .firewire
      name := orElse (e.attr "model") e.name
      vendor := orElse (e.attr "vendor") "unknown"
      authorized := true
      sysfsPath := some ⟨.firewire, e.name⟩
      device := e.device }
  else none

/-- `[0-9A-Fa-f:]` -/
def addressChar (c : Char) : Bool :=
  c.isDigit || ('A' ≤ c && c ≤ 'F') || ('a' ≤ c && c ≤ 'f') || c = ':'

/-- The two groups of `^Device\s+([0-9A-Fa-f:]+)\s+(.*)$`. -/
def deviceLine (line : String) : Option (String × String) :=
  if "Device".toList <+: line.toList then
    let rest := line.toList.drop 6
    let body := rest.dropWhile Text.isBlank
    let address := body.takeWhile addressChar
    let tail := body.dropWhile addressChar
    let name := tail.dropWhile Text.isBlank
    if body.length < rest.length ∧ address ≠ [] ∧ name.length < tail.length ∧
        name.all fun c => !Lines.terminator c then
      some (String.ofList address, String.ofList name)
    else none
  else none

def bluetoothDevice (line : String × Option ℕ) : Option ScannedDevice :=
  (deviceLine line.1).map fun (address, name) =>
    { deviceId := "bt:" ++ address
      kind := .bluetooth
      name
      vendor := "bluetooth"
      authorized := false
      sysfsPath := none
      device := line.2 }

/-- What a scan makes of an entry of a bus. -/
def scanEntry : Bus → Entry → Option ScannedDevice
  | .usb => usbDevice toLowerCase
  | .thunderbolt => thunderboltDevice
  | .pci => pciDevice
  | .firewire => firewireDevice

def scanUsb (buses : Buses) : List ScannedDevice :=
  (buses.entries .usb).filterMap (usbDevice toLowerCase)

def scanThunderbolt (buses : Buses) : List ScannedDevice :=
  (buses.entries .thunderbolt).filterMap thunderboltDevice

def scanPci (buses : Buses) : List ScannedDevice :=
  ((buses.entries .pci).filterMap pciDevice).take 128

def scanBluetooth (buses : Buses) : List ScannedDevice := buses.bluetooth.filterMap bluetoothDevice

def scanFirewire (buses : Buses) : List ScannedDevice :=
  (buses.entries .firewire).filterMap firewireDevice

def scanAllBuses (buses : Buses) : List ScannedDevice :=
  scanUsb toLowerCase buses ++ scanThunderbolt buses ++ scanPci buses ++ scanBluetooth buses ++
    scanFirewire buses

/-! ### The registry -/

/-- A row of the registry; its key is the id of the device. -/
structure DeviceRow where
  kind : Kind
  name : String
  vendor : String
  authorized : Bool
  whitelisted : Bool
  /-- The physical device; nothing reads it. -/
  device : Option ℕ
  deriving DecidableEq

structure Alert where
  deviceId : String
  kind : String
  severity : String
  message : String
  state : String
  /-- The physical device; nothing reads it. -/
  device : Option ℕ

structure Store where
  registry : OrderedMap String DeviceRow
  alerts : List Alert
  /-- `hwalert.whitelist` -/
  whitelist : List String
  /-- The key `blockUnknownPCI` of the policy, the only one that a scan reads. -/
  blockUnknownPCI : Bool

def severity : Kind → String
  | .usbStorage => "danger"
  | .thunderbolt | .firewire => "warn"
  | _ => "info"

def reason : Kind → String
  | .usbStorage => "foreign USB mass storage"
  | .thunderbolt => "DMA-capable Thunderbolt device"
  | .bluetooth => "paired Bluetooth device"
  | .firewire => "DMA-capable FireWire device"
  | _ => "previously-unseen PCI device"

def newRow (whitelist : List String) (d : ScannedDevice) : DeviceRow :=
  { kind := d.kind, name := d.name, vendor := d.vendor,
    authorized := decide (d.deviceId ∈ whitelist) || d.authorized,
    whitelisted := d.deviceId ∈ whitelist, device := d.device }

def newAlert (d : ScannedDevice) : Alert :=
  { deviceId := d.deviceId
    kind := "new-" ++ d.kind.text
    severity := severity d.kind
    message := reason d.kind ++ ": " ++ d.name ++ " (" ++ d.vendor ++ ") — " ++
      (d.sysfsPath.map SysfsPath.text).getD "no sysfs path"
    state := "active"
    device := d.device }

/-- `reconcile`, for one scanned device. -/
def register (store : Store) (d : ScannedDevice) : Store :=
  match store.registry.find? d.deviceId with
  | some _ =>
    { store with
      registry := store.registry.modify d.deviceId fun row =>
        { row with
          authorized := if d.deviceId ∈ store.whitelist then true else d.authorized
          whitelisted := d.deviceId ∈ store.whitelist } }
  | none =>
    { store with
      registry := store.registry.set d.deviceId (newRow store.whitelist d)
      alerts := store.alerts ++
        if d.kind ≠ .pci ∨ store.blockUnknownPCI then [newAlert d] else [] }

def reconcile (buses : Buses) (store : Store) : Store :=
  (scanAllBuses toLowerCase buses).foldl register store

/-! ### Blocking -/

/-- The entry has the attribute `authorized`. -/
def Entry.writable (entry : Entry) : Bool := (entry.files "authorized").isSome

/-- What a write to `authorized` leaves of an entry. -/
def Entry.write (entry : Entry) (bus : Bus) (path : SysfsPath) (value : String) : Entry :=
  if bus = path.bus ∧ entry.name = path.entry ∧ entry.writable then
    { entry with files := Function.update entry.files "authorized" (some value) }
  else entry

theorem Entry.name_write (entry : Entry) (bus : Bus) (path : SysfsPath) (value : String) :
    (entry.write bus path value).name = entry.name := by
  unfold Entry.write
  split <;> rfl

def Buses.write (buses : Buses) (path : SysfsPath) (value : String) : Buses :=
  { buses with
    entries := fun bus => (buses.entries bus).map (·.write bus path value)
    distinct := by
      intro bus
      have names : (buses.entries bus).map (Entry.name ∘ (·.write bus path value)) =
          (buses.entries bus).map Entry.name :=
        List.map_congr_left fun entry _ => entry.name_write bus path value
      rw [List.map_map, names]
      exact buses.distinct bus }

/-- `writeAuthorized`: sysfs makes no files, so the attribute has to be there; and the process has
to be allowed to write it. -/
def writeAuthorized (granted : Bool) (buses : Buses) (path : SysfsPath) (value : String) :
    Option Buses :=
  if granted ∧ (buses.entries path.bus).any fun e => e.name = path.entry && e.writable then
    some (buses.write path value)
  else none

structure State where
  buses : Buses
  store : Store

inductive Reply where
  | failed
  | shown (devices : List (String × DeviceRow))
  | blocked
  | unblocked
  | done
  deriving DecidableEq

/-- The calls; a block or an unblock with whether its write is granted. `summary` and `scan`
answer from the same rows as `devices`. -/
inductive Call where
  | read
  | block (deviceId : String) (granted : Bool)
  | unblock (deviceId : String) (granted : Bool)
  | whitelist (deviceId : String)
  | unwhitelist (deviceId : String)

/-- `scanned.find((s) => s.deviceId === deviceId)` -/
def liveDevice (buses : Buses) (deviceId : String) : Option ScannedDevice :=
  (scanAllBuses toLowerCase buses).find? (·.deviceId = deviceId)

/-- `db.hwDevice.update` of the flag. -/
def authorize (state : State) (deviceId : String) (authorized : Bool) : State :=
  { state with store := { state.store with
    registry := state.store.registry.modify deviceId fun row => { row with authorized } } }

def block (state : State) (deviceId : String) (granted : Bool) : State × Reply :=
  match state.store.registry.find? deviceId with
  | none => (state, .failed)
  | some row =>
    if deviceId = "" ∨ row.authorized = false then (state, .failed)
    else match (liveDevice toLowerCase state.buses deviceId).bind (·.sysfsPath) with
      | none => (state, .failed)
      | some path =>
        match writeAuthorized granted state.buses path "0" with
        | none => (state, .failed)
        | some buses => (authorize { state with buses } deviceId false, .blocked)

def unblock (state : State) (deviceId : String) (granted : Bool) : State × Reply :=
  match state.store.registry.find? deviceId with
  | none => (state, .failed)
  | some row =>
    if deviceId = "" ∨ row.authorized = true then (state, .failed)
    else match (liveDevice toLowerCase state.buses deviceId).bind (·.sysfsPath) with
      | none => (authorize state deviceId true, .unblocked)
      | some path =>
        match writeAuthorized granted state.buses path "1" with
        | none => (state, .failed)
        | some buses => (authorize { state with buses } deviceId true, .unblocked)

def whitelist (state : State) (deviceId : String) : State × Reply :=
  match state.store.registry.find? deviceId with
  | none => (state, .failed)
  | some row =>
    if deviceId = "" ∨ row.whitelisted then (state, .failed)
    else
      let list := state.store.whitelist
      ({ state with store := { state.store with
          registry := state.store.registry.modify deviceId fun row =>
            { row with whitelisted := true, authorized := true }
          whitelist := if deviceId ∈ list then list else list ++ [deviceId] } }, .done)

def unwhitelist (state : State) (deviceId : String) : State × Reply :=
  match state.store.registry.find? deviceId with
  | none => (state, .failed)
  | some row =>
    if deviceId = "" ∨ row.whitelisted = false then (state, .failed)
    else
      ({ state with store := { state.store with
          registry := state.store.registry.modify deviceId fun row => { row with whitelisted := false }
          whitelist := state.store.whitelist.filter (· ≠ deviceId) } }, .done)

/-- A call, with what it answers. -/
def call (state : State) : Call → State × Reply
  | .read =>
    let store := reconcile toLowerCase state.buses state.store
    ({ state with store }, .shown store.registry.entries)
  | .block deviceId granted => block toLowerCase state deviceId granted
  | .unblock deviceId granted => unblock toLowerCase state deviceId granted
  | .whitelist deviceId => whitelist state deviceId
  | .unwhitelist deviceId => unwhitelist state deviceId

def step (state : State) (c : Call) : State := (call toLowerCase state c).1

end SysDeck.Web.HwAlert
