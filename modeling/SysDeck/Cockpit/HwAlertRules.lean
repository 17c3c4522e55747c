import SysDeck.Cockpit.HwWhitelist

/-! The alerts of the hardware alert bridge: which scanned devices it raises one for. -/

namespace SysDeck.Cockpit.HwAlertRules

inductive BusType where
  | usb
  | thunderbolt
  | bluetooth
  | pci
  deriving DecidableEq

/-- What the scans find out about a device, as far as an alert reads it. -/
structure Device extends HwAlert.Device where
  name : String
  vendor : String
  busType : BusType
  devPath : String
  authorized : Bool
  interfaces : List String
  dmaCapable : Bool
  whitelisted : Bool
  deriving DecidableEq

/-- An entry of the whitelist file, which may lack a key. -/
structure Entry where
  vendorId : Option String
  productId : Option String
  serial : Option String

/-- `entry.get("serial")` is true. -/
def Entry.numbered (entry : Entry) : Bool := entry.serial.getD "" ≠ ""

def isWhitelisted (device : HwAlert.Device) (whitelist : List Entry) : Bool :=
  whitelist.any fun entry =>
    (entry.numbered && device.serial ≠ "" && entry.serial = some device.serial) ||
      (entry.vendorId = some device.vendorId && entry.productId = some device.productId &&
        !entry.numbered)

/-- Which of the keys that an alert depends on are true in the policy file. -/
structure Policy where
  blockUsbStorage : Bool
  blockThunderboltDMA : Bool
  blockUnknownBluetooth : Bool
  blockUnknownPCI : Bool
  autoBlock : Bool

/-- `DEFAULT_POLICY` -/
def Policy.default : Policy where
  blockUsbStorage := true
  blockThunderboltDMA := true
  blockUnknownBluetooth := true
  blockUnknownPCI := false
  autoBlock := true

inductive Severity where
  | critical
  | high
  | medium
  deriving DecidableEq

inductive Status where
  | active
  deriving DecidableEq

structure Alert where
  id : String
  timestamp : String
  category : String
  severity : Severity
  status : Status
  message : String
  device : Device
  rule : String
  /-- No key, or a key that may be `None`. -/
  autoAction : Option (Option String)
  deriving DecidableEq

def alertId (n : ℕ) : String := "hw-alert-" ++ toString n

/-- What every rule appends, with its own texts; the device has the given number. -/
def newAlert (now : ℕ → String) (n : ℕ) (dev : Device) (category : String) (severity : Severity)
    (rule message : String) (autoAction : Option (Option String)) : Alert where
  id := alertId n
  timestamp := now n
  category := category
  severity := severity
  status := .active
  message := message
  device := dev
  rule := rule
  autoAction := autoAction

/-- `"blocked" if policy.get("autoBlock") else None` -/
def Policy.autoAction (policy : Policy) : Option String :=
  if policy.autoBlock then some "blocked" else none

def usbAlerts (now : ℕ → String) (policy : Policy) (n : ℕ) (dev : Device) : List Alert :=
  if dev.busType = .usb ∧ "mass-storage" ∈ dev.interfaces then
    if policy.blockUsbStorage && !dev.whitelisted then
      [newAlert now n dev "usb-storage" .critical "usb-storage-block"
        ("Foreign USB mass storage detected: " ++ dev.name ++ " (" ++ dev.vendor ++ ") at " ++
          if dev.devPath = "" then "unknown device" else dev.devPath) (some policy.autoAction)]
    else []
  else if dev.busType = .usb ∧ !dev.whitelisted then
    [newAlert now n dev "usb-device" .medium "usb-device-monitor"
      ("Unknown USB device connected: " ++ dev.name ++ " (" ++ dev.vendor ++ ")") none]
  else []

def thunderboltAlerts (now : ℕ → String) (policy : Policy) (n : ℕ) (dev : Device) : List Alert :=
  if dev.busType = .thunderbolt ∧ dev.dmaCapable then
    if policy.blockThunderboltDMA && !dev.authorized && !dev.whitelisted then
      [newAlert now n dev "thunderbolt-dma" .critical "thunderbolt-dma-block"
        ("Unauthorized DMA-capable Thunderbolt device: " ++ dev.name ++ " (" ++ dev.vendor ++ ")")
        (some policy.autoAction)]
    else []
  else []

/-- The one rule that does not ask for the whitelist. -/
def bluetoothAlerts (now : ℕ → String) (policy : Policy) (n : ℕ) (dev : Device) : List Alert :=
  if dev.busType = .bluetooth ∧ !dev.authorized ∧ policy.blockUnknownBluetooth then
    [newAlert now n dev "bluetooth" .high "bluetooth-untrusted"
      ("Untrusted Bluetooth device paired: " ++ dev.name ++ " (" ++ dev.serial ++ ")") none]
  else []

def pciAlerts (now : ℕ → String) (policy : Policy) (n : ℕ) (dev : Device) : List Alert :=
  if dev.busType = .pci ∧ !dev.whitelisted ∧ policy.blockUnknownPCI then
    [newAlert now n dev "pci-device" .medium "pci-device-monitor"
      ("Unknown PCI device present: " ++ dev.name ++ " (vendor=" ++ dev.vendorId ++ ")") none]
  else []

/-- One round of the second loop. -/
def alertsFor (now : ℕ → String) (policy : Policy) (n : ℕ) (dev : Device) : List Alert :=
  usbAlerts now policy n dev ++ thunderboltAlerts now policy n dev ++
    bluetoothAlerts now policy n dev ++ pciAlerts now policy n dev

def mark (whitelist : List Entry) (dev : Device) : Device :=
  { dev with whitelisted := isWhitelisted dev.toDevice whitelist }

/-- The devices with their flags, and the alerts. -/
def generateAlerts (now : ℕ → String) (allDevices : List Device) (policy : Policy)
    (whitelist : List Entry) : List Device × List Alert :=
  let marked := allDevices.map (mark whitelist)
  let step (state : List Alert × ℕ) (dev : Device) : List Alert × ℕ :=
    (state.1 ++ alertsFor now policy (state.2 + 1) dev, state.2 + 1)
  (marked, (marked.foldl step ([], 0)).1)

/-! ### What is to be reported -/

/-- A switch of the policy is on, and the device is what it is about; no scan finds a FireWire device. -/
def Policy.Violated (policy : Policy) (dev : Device) : Prop :=
  match dev.busType with
  | .usb => policy.blockUsbStorage ∧ "mass-storage" ∈ dev.interfaces
  | .thunderbolt => policy.blockThunderboltDMA ∧ dev.dmaCapable ∧ !dev.authorized
  | .bluetooth => policy.blockUnknownBluetooth ∧ !dev.authorized
  | .pci => policy.blockUnknownPCI

/-- A USB device that is no storage, which has a switch of its own. -/
def Device.UnknownUsb (dev : Device) : Prop :=
  dev.busType = .usb ∧ "mass-storage" ∉ dev.interfaces

def Policy.Offended (policy : Policy) (dev : Device) : Prop :=
  policy.Violated dev ∨ dev.UnknownUsb

/-- An unauthorized Bluetooth device, where these are to be blocked. -/
def Policy.Untrusted (policy : Policy) (dev : Device) : Prop :=
  dev.busType = .bluetooth ∧ !dev.authorized ∧ policy.blockUnknownBluetooth

instance (policy : Policy) (dev : Device) : Decidable (policy.Offended dev) := by
  unfold Policy.Offended Policy.Violated Device.UnknownUsb
  cases dev.busType <;> infer_instance

instance (policy : Policy) (dev : Device) : Decidable (policy.Untrusted dev) :=
  inferInstanceAs (Decidable (_ ∧ _ ∧ _))

/-- An answer to a list of devices: the flags are right, no alert is about a device on the whitelist,
every other device that offends has one alert for each time that it was scanned, and the ids differ. -/
structure Right (allDevices : List Device) (policy : Policy) (whitelist : List Entry)
    (answer : List Device × List Alert) : Prop where
  flags : answer.1 = allDevices.map (mark whitelist)
  silent : ∀ alert ∈ answer.2, isWhitelisted alert.device.toDevice whitelist = false
  once : ∀ dev ∈ allDevices, isWhitelisted dev.toDevice whitelist = false → policy.Offended dev →
    answer.2.countP (·.device = mark whitelist dev) = answer.1.count (mark whitelist dev)
  distinct : (answer.2.map (·.id)).Nodup

/-! ### One device -/

theorem alertId_injective : Function.Injective alertId := by
  intro n m same
  have digits : Nat.toDigits 10 n = Nat.toDigits 10 m := by
    have texts := congrArg String.toList ((String.append_right_inj _).mp same)
    rwa [Nat.toString_eq_repr, Nat.toString_eq_repr, Nat.toList_repr, Nat.toList_repr] at texts
  have values := congrArg (Nat.ofDigitChars 10 · 0) digits
  simpa [Nat.ofDigitChars_ten_toDigits] using values

/-- What the rules raise an alert for. -/
def Policy.Reported (policy : Policy) (dev : Device) : Prop :=
  policy.Offended dev ∧ (dev.whitelisted = false ∨ policy.Untrusted dev)

instance (policy : Policy) (dev : Device) : Decidable (policy.Reported dev) :=
  inferInstanceAs (Decidable (_ ∧ _))

section Rules

variable (now : ℕ → String) (policy : Policy) (n : ℕ) (dev : Device)

/-- What an alert says of its device. -/
def Alert.about (alert : Alert) : String × Device := (alert.id, alert.device)

@[simp] theorem about_newAlert (category : String) (severity : Severity) (rule message : String)
    (autoAction : Option (Option String)) :
    (newAlert now n dev category severity rule message autoAction).about = (alertId n, dev) := rfl

theorem usbAlerts_about : (usbAlerts now policy n dev).map Alert.about =
    if dev.busType = .usb ∧ dev.whitelisted = false ∧
      ("mass-storage" ∈ dev.interfaces → policy.blockUsbStorage) then [(alertId n, dev)] else [] := by
  unfold usbAlerts
  by_cases storage : "mass-storage" ∈ dev.interfaces
  · by_cases bus : dev.busType = .usb
    · cases policy.blockUsbStorage <;> cases dev.whitelisted <;> simp [storage, bus]
    · simp [bus]
  · by_cases bus : dev.busType = .usb ∧ dev.whitelisted = false
    · simp [storage, bus]
    · rw [if_neg (by simp [storage]), if_neg (by simpa using bus), if_neg (by tauto), List.map_nil]

theorem thunderboltAlerts_about : (thunderboltAlerts now policy n dev).map Alert.about =
    if dev.busType = .thunderbolt ∧ dev.dmaCapable ∧ policy.blockThunderboltDMA ∧
      dev.authorized = false ∧ dev.whitelisted = false then [(alertId n, dev)] else [] := by
  unfold thunderboltAlerts
  by_cases bus : dev.busType = .thunderbolt ∧ dev.dmaCapable
  · cases policy.blockThunderboltDMA <;> cases dev.authorized <;> cases dev.whitelisted <;> simp [bus]
  · rw [if_neg bus, if_neg (by tauto), List.map_nil]

theorem bluetoothAlerts_about : (bluetoothAlerts now policy n dev).map Alert.about =
    if policy.Untrusted dev then [(alertId n, dev)] else [] := by
  unfold bluetoothAlerts
  by_cases untrusted : policy.Untrusted dev
  · rw [if_pos (show _ ∧ _ ∧ _ from untrusted), if_pos untrusted, List.map_singleton, about_newAlert]
  · rw [if_neg (show ¬ (_ ∧ _ ∧ _) from untrusted), if_neg untrusted, List.map_nil]

theorem pciAlerts_about : (pciAlerts now policy n dev).map Alert.about =
    if dev.busType = .pci ∧ dev.whitelisted = false ∧ policy.blockUnknownPCI then [(alertId n, dev)]
      else [] := by
  unfold pciAlerts
  cases policy.blockUnknownPCI <;> cases dev.whitelisted <;> by_cases bus : dev.busType = .pci <;>
    simp [bus]

/-- The rules of the buses exclude each other, so that a device has one alert or none. -/
theorem alertsFor_about : (alertsFor now policy n dev).map Alert.about =
    if policy.Reported dev then [(alertId n, dev)] else [] := by
  rw [alertsFor, List.map_append, List.map_append, List.map_append, usbAlerts_about,
    thunderboltAlerts_about, bluetoothAlerts_about, pciAlerts_about]
  have bus : dev.busType = .usb ∨ dev.busType = .thunderbolt ∨ dev.busType = .bluetooth ∨
      dev.busType = .pci := by cases dev.busType <;> simp
  rcases bus with bus | bus | bus | bus
  · have reported : policy.Reported dev ↔ dev.whitelisted = false ∧
        ("mass-storage" ∈ dev.interfaces → policy.blockUsbStorage) := by
      simp [Policy.Reported, Policy.Offended, Policy.Violated, Device.UnknownUsb, Policy.Untrusted, bus]
      tauto
    simp [bus, reported, Policy.Untrusted]
  · have reported : policy.Reported dev ↔ dev.dmaCapable ∧ policy.blockThunderboltDMA ∧
        dev.authorized = false ∧ dev.whitelisted = false := by
      simp [Policy.Reported, Policy.Offended, Policy.Violated, Device.UnknownUsb, Policy.Untrusted, bus]
      tauto
    simp [bus, reported, Policy.Untrusted]
  · have reported : policy.Reported dev ↔ policy.Untrusted dev := by
      simp [Policy.Reported, Policy.Offended, Policy.Violated, Device.UnknownUsb, Policy.Untrusted, bus]
      tauto
    simp [bus, reported]
  · have reported : policy.Reported dev ↔ dev.whitelisted = false ∧ policy.blockUnknownPCI := by
      simp [Policy.Reported, Policy.Offended, Policy.Violated, Device.UnknownUsb, Policy.Untrusted, bus]
      tauto
    simp [bus, reported, Policy.Untrusted]

end Rules

/-! ### All devices -/

/-- The number that the loop counts is the place of the device, from one. -/
theorem alerts_eq_flatMap (now : ℕ → String) (policy : Policy) (devs : List Device)
    (alerts : List Alert) (n : ℕ) :
    (devs.foldl (fun (state : List Alert × ℕ) dev =>
      (state.1 ++ alertsFor now policy (state.2 + 1) dev, state.2 + 1)) (alerts, n)).1 =
      alerts ++ (devs.zipIdx (n + 1)).flatMap fun place => alertsFor now policy place.2 place.1 := by
  induction devs generalizing alerts n with
  | nil => simp
  | cons dev devs ih =>
    rw [List.foldl_cons, ih, List.zipIdx_cons, List.flatMap_cons, List.append_assoc]

/-- The alerts are those of the devices that are reported, each with the number of its place. -/
theorem generateAlerts_about (now : ℕ → String) (allDevices : List Device) (policy : Policy)
    (whitelist : List Entry) :
    (generateAlerts now allDevices policy whitelist).2.map Alert.about =
      (((allDevices.map (mark whitelist)).zipIdx 1).filter fun place =>
        decide (policy.Reported place.1)).map fun place => (alertId place.2, place.1) := by
  unfold generateAlerts
  dsimp only
  rw [alerts_eq_flatMap, List.nil_append]
  generalize (allDevices.map (mark whitelist)).zipIdx (0 + 1) = places
  induction places with
  | nil => rfl
  | cons place places ih =>
    rw [List.flatMap_cons, List.map_append, alertsFor_about, ih, List.filter_cons]
    by_cases reported : policy.Reported place.1 <;> simp [reported]

theorem generateAlerts_ids (now : ℕ → String) (allDevices : List Device) (policy : Policy)
    (whitelist : List Entry) :
    ((generateAlerts now allDevices policy whitelist).2.map (·.id)).Nodup := by
  have ids := congrArg (List.map Prod.fst) (generateAlerts_about now allDevices policy whitelist)
  rw [List.map_map, List.map_map] at ids
  rw [show (fun alert : Alert => alert.id) = Prod.fst ∘ Alert.about from rfl,
    ids]
  -- The places of a list are distinct, and so are their numbers' texts.
  have places : (((allDevices.map (mark whitelist)).zipIdx 1).map Prod.snd).Nodup := by
    rw [List.zipIdx_map_snd]
    exact List.nodup_range' ..
  have kept := (List.filter_sublist (p := fun place => decide (policy.Reported place.1))
    (l := (allDevices.map (mark whitelist)).zipIdx 1)).map Prod.snd
  rw [show Prod.fst ∘ (fun place : Device × ℕ => (alertId place.2, place.1)) = alertId ∘ Prod.snd
    from rfl, ← List.map_map]
  exact (places.sublist kept).map alertId_injective

theorem generateAlerts_devices (now : ℕ → String) (allDevices : List Device) (policy : Policy)
    (whitelist : List Entry) :
    (generateAlerts now allDevices policy whitelist).2.map (·.device) =
      (allDevices.map (mark whitelist)).filter fun dev => decide (policy.Reported dev) := by
  have devices := congrArg (List.map Prod.snd) (generateAlerts_about now allDevices policy whitelist)
  rw [List.map_map, List.map_map] at devices
  rw [show (fun alert : Alert => alert.device) = Prod.snd ∘ Alert.about
    from rfl, devices]
  generalize allDevices.map (mark whitelist) = marked
  have names : marked = (marked.zipIdx 1).map Prod.fst := by simp
  conv_rhs => rw [names, List.filter_map]
  rfl

@[simp] theorem toDevice_mark (whitelist : List Entry) (dev : Device) :
    (mark whitelist dev).toDevice = dev.toDevice := rfl

@[simp] theorem whitelisted_mark (whitelist : List Entry) (dev : Device) :
    (mark whitelist dev).whitelisted = isWhitelisted dev.toDevice whitelist := rfl

theorem Policy.Untrusted.offended {policy : Policy} {dev : Device} (untrusted : policy.Untrusted dev) :
    policy.Offended dev := by
  obtain ⟨bus, foreign, on⟩ := untrusted
  left
  simp only [Policy.Violated, bus]
  exact ⟨on, foreign⟩

/-- The alerts are right just when no Bluetooth device on the whitelist is untrusted by the policy. -/
theorem alerts_right_iff (now : ℕ → String) (allDevices : List Device) (policy : Policy)
    (whitelist : List Entry) :
    Right allDevices policy whitelist (generateAlerts now allDevices policy whitelist) ↔
      ∀ dev ∈ allDevices, isWhitelisted dev.toDevice whitelist → ¬ policy.Untrusted dev := by
  have about := generateAlerts_devices now allDevices policy whitelist
  constructor
  · intro right dev member listed untrusted
    have reported : mark whitelist dev ∈
        (generateAlerts now allDevices policy whitelist).2.map (·.device) := by
      rw [about, List.mem_filter, decide_eq_true_eq]
      exact ⟨List.mem_map_of_mem member, untrusted.offended, .inr untrusted⟩
    obtain ⟨alert, raised, is⟩ := List.mem_map.mp reported
    have quiet := right.silent alert raised
    rw [is, toDevice_mark, listed] at quiet
    cases quiet
  · intro trusted
    refine ⟨rfl, ?_, ?_, generateAlerts_ids now allDevices policy whitelist⟩
    · intro alert raised
      have reported : alert.device ∈ (allDevices.map (mark whitelist)).filter fun dev =>
          decide (policy.Reported dev) := about ▸ List.mem_map_of_mem raised
      obtain ⟨scanned, reported⟩ := List.mem_filter.mp reported
      obtain ⟨dev, member, is⟩ := List.mem_map.mp scanned
      rw [← is, toDevice_mark]
      by_contra listed
      rw [Bool.not_eq_false] at listed
      rw [decide_eq_true_eq, ← is] at reported
      rcases reported.2 with unlisted | untrusted
      · rw [whitelisted_mark, listed] at unlisted
        cases unlisted
      · exact trusted dev member listed untrusted
    · intro dev member unlisted offended
      have reported : policy.Reported (mark whitelist dev) := ⟨offended, .inl unlisted⟩
      rw [show (generateAlerts now allDevices policy whitelist).1 = allDevices.map (mark whitelist)
        from rfl, ← List.count_filter (p := fun dev => decide (policy.Reported dev))
          (decide_eq_true reported), ← about, List.count, List.countP_map]
      refine List.countP_congr fun alert _ => ?_
      simp

/-- A paired headset that nobody marked as trusted. -/
def headset : Device where
  id := "/sys/bluetooth/38:18:4C:12:9A:01"
  vendorId := ""
  productId := "38:18:4C:12:9A:01"
  serial := "38:18:4C:12:9A:01"
  name := "WH-1000XM4"
  vendor := "Bluetooth"
  busType := .bluetooth
  devPath := ""
  authorized := false
  interfaces := ["bluetooth"]
  dmaCapable := false
  whitelisted := false

/-- The headset is on the whitelist by its address, and is reported all the same. -/
theorem alerts_headset :
    ¬ Right [headset] .default [⟨some "", some "38:18:4C:12:9A:01", some "38:18:4C:12:9A:01"⟩]
      (generateAlerts (fun _ => "2024-05-01T10:00:00+00:00") [headset] .default
        [⟨some "", some "38:18:4C:12:9A:01", some "38:18:4C:12:9A:01"⟩]) := by
  intro right
  have quiet := right.silent
  revert quiet
  exact of_decide_eq_true rfl

end SysDeck.Cockpit.HwAlertRules
