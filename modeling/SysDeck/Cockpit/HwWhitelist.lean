import Mathlib.Data.List.Nodup
import SysDeck.Library.Execution
import SysDeck.Cockpit.HwAlert

/-! The whitelist file of the hardware alert bridge. -/

namespace SysDeck.Cockpit.HwAlert

/-- What the whitelist takes over from a scanned device. -/
structure Connected extends Device where
  name : String
  busType : String
  deriving DecidableEq

structure Entry where
  id : String
  vendorId : String
  productId : String
  serial : String
  name : String
  busType : String
  addedAt : String
  addedBy : String
  deriving DecidableEq

/-- `entry.get(key)`; an entry is never written with a `deviceId`. -/
def Entry.get (entry : Entry) : String → Option String
  | "id" => some entry.id
  | "vendorId" => some entry.vendorId
  | "productId" => some entry.productId
  | "serial" => some entry.serial
  | "name" => some entry.name
  | "busType" => some entry.busType
  | "addedAt" => some entry.addedAt
  | "addedBy" => some entry.addedBy
  | _ => none

/-- One round of the loop in `is_whitelisted`. -/
def Entry.admits (entry : Entry) (device : Device) : Bool :=
  (entry.serial ≠ "" && device.serial ≠ "" && entry.serial = device.serial) ||
    (entry.vendorId = device.vendorId && entry.productId = device.productId && entry.serial = "")

def isWhitelisted (device : Device) (whitelist : List Entry) : Bool :=
  whitelist.any (·.admits device)

inductive WhitelistReply where
  | added (device : String) (entry : Entry)
  | notFound (deviceId : String)

/-- The entry that a device is given. -/
def entryOf (whitelist : List Entry) (device : Connected) (now : String) : Entry where
  id := "wl-" ++ toString (whitelist.length + 1)
  vendorId := device.vendorId
  productId := device.productId
  serial := device.serial
  name := device.name
  busType := device.busType
  addedAt := now
  addedBy := "sysdeck"

def cmdWhitelist (devices : List Connected) (now : String) (whitelist : List Entry)
    (deviceId : String) : List Entry × WhitelistReply :=
  match devices.find? (·.id = deviceId) with
  | some device =>
    let entry := entryOf whitelist device now
    (whitelist ++ [entry], .added device.name entry)
  | none => (whitelist, .notFound deviceId)

/-- The identities by which `cmd_unwhitelist` knows an entry. -/
def Entry.named (entry : Entry) (deviceId : String) : Bool :=
  some deviceId = entry.get "serial" || some deviceId = entry.get "id" ||
    some deviceId = entry.get "deviceId" ||
    deviceId = (entry.get "vendorId").getD "" ++ ":" ++ (entry.get "productId").getD ""

/-- What is left, and the number of entries in the answer. -/
def cmdUnwhitelist (whitelist : List Entry) (deviceId : String) : List Entry × ℕ :=
  let newWl := whitelist.filter fun entry => !entry.named deviceId
  (newWl, newWl.length)

/-! ### The registry over its calls -/

inductive Call where
  | whitelist (deviceId now : String)
  | unwhitelist (deviceId : String)

/-- The file, and the device ids that were whitelisted and not unwhitelisted since. -/
structure Registry where
  entries : List Entry
  passed : List String

def Registry.empty : Registry := ⟨[], []⟩

def Registry.step (devices : List Connected) (registry : Registry) : Call → Registry
  | .whitelist deviceId now =>
    ⟨(cmdWhitelist devices now registry.entries deviceId).1, deviceId :: registry.passed⟩
  | .unwhitelist deviceId =>
    ⟨(cmdUnwhitelist registry.entries deviceId).1, registry.passed.filter (· ≠ deviceId)⟩

/-- What one call is to do. -/
structure Exact (devices : List Connected) (before : Registry) (call : Call) (after : Registry) :
    Prop where
  distinct : (after.entries.map (·.id)).Nodup
  removes : ∀ entry ∈ before.entries, call = .unwhitelist entry.id →
    after.entries = before.entries.filter (· ≠ entry)
  admits : ∀ device now, devices.find? (·.id = device.id) = some device →
    call = .whitelist device.id now → isWhitelisted device.toDevice after.entries
  forgets : ∀ device, devices.find? (·.id = device.id) = some device →
    device.id ∈ before.passed → call = .unwhitelist device.id →
      isWhitelisted device.toDevice after.entries = false ∧
      ∀ other ∈ devices, other.id ≠ device.id →
        isWhitelisted other.toDevice after.entries = isWhitelisted other.toDevice before.entries

/-- The number of entries gives an id that no entry has. An entry's id is no other identity of
another entry; the id of a whitelisted device is the serial number or the product of all that
admits the device, and of nothing that another device needs. -/
def Registry.Allowed (devices : List Connected) (registry : Registry) : Call → Prop
  | .whitelist deviceId _ => (devices.find? (·.id = deviceId)).isSome →
      "wl-" ++ toString (registry.entries.length + 1) ∉ registry.entries.map (·.id)
  | .unwhitelist deviceId =>
      (deviceId ∈ registry.entries.map (·.id) →
        ∀ entry ∈ registry.entries, entry.named deviceId → entry.id = deviceId) ∧
      ∀ device, devices.find? (·.id = deviceId) = some device → deviceId ∈ registry.passed →
        (∀ entry ∈ registry.entries, entry.admits device.toDevice → entry.named deviceId) ∧
        ∀ other ∈ devices, other.id ≠ deviceId →
          ∀ entry ∈ registry.entries, entry.admits other.toDevice → entry.named deviceId →
            ∃ spare ∈ registry.entries, spare.admits other.toDevice ∧ ¬ spare.named deviceId

variable {devices : List Connected}

theorem named_id (entry : Entry) : entry.named entry.id := by
  simp [Entry.named, Entry.get]

theorem admits_entryOf (whitelist : List Entry) (device : Connected) (now : String) :
    (entryOf whitelist device now).admits device.toDevice := by
  by_cases numbered : device.serial = ""
  · simp [Entry.admits, entryOf, numbered]
  · simp [Entry.admits, entryOf, numbered]

theorem not_isWhitelisted_iff {device : Device} {whitelist : List Entry} :
    isWhitelisted device whitelist = false ↔ ∀ entry ∈ whitelist, ¬ entry.admits device := by
  simp [isWhitelisted]

theorem mem_cmdUnwhitelist {whitelist : List Entry} {deviceId : String} {entry : Entry} :
    entry ∈ (cmdUnwhitelist whitelist deviceId).1 ↔ entry ∈ whitelist ∧ ¬ entry.named deviceId := by
  simp [cmdUnwhitelist]

/-- What an entry admits is admitted after a removal as before, unless it needs what is removed. -/
theorem isWhitelisted_unwhitelist_iff {device : Device} {whitelist : List Entry} {deviceId : String} :
    isWhitelisted device (cmdUnwhitelist whitelist deviceId).1 = isWhitelisted device whitelist ↔
      ∀ entry ∈ whitelist, entry.admits device → entry.named deviceId →
        ∃ spare ∈ whitelist, spare.admits device ∧ ¬ spare.named deviceId := by
  have left : isWhitelisted device (cmdUnwhitelist whitelist deviceId).1 ↔
      ∃ spare ∈ whitelist, spare.admits device ∧ ¬ spare.named deviceId := by
    simp only [isWhitelisted, List.any_eq_true, mem_cmdUnwhitelist]
    exact exists_congr fun entry => by tauto
  have right : isWhitelisted device whitelist ↔ ∃ entry ∈ whitelist, entry.admits device := by
    simp [isWhitelisted]
  rw [Bool.eq_iff_iff, left, right]
  constructor
  · intro same entry member admits _
    exact same.mpr ⟨entry, member, admits⟩
  · intro spared
    constructor
    · rintro ⟨spare, member, admits, -⟩
      exact ⟨spare, member, admits⟩
    · rintro ⟨entry, member, admits⟩
      by_cases named : entry.named deviceId
      · exact spared entry member admits named
      · exact ⟨entry, member, admits, named⟩

/-- A removal by an entry's id takes that entry alone just when nothing else has the id. -/
theorem unwhitelist_eq_erase_iff {whitelist : List Entry} {entry : Entry}
    (distinct : (whitelist.map (·.id)).Nodup) (member : entry ∈ whitelist) :
    (cmdUnwhitelist whitelist entry.id).1 = whitelist.filter (· ≠ entry) ↔
      ∀ other ∈ whitelist, other.named entry.id → other.id = entry.id := by
  constructor
  · intro same other belongs named
    by_contra apart
    have kept : other ∈ whitelist.filter (· ≠ entry) := by
      refine List.mem_filter.mpr ⟨belongs, ?_⟩
      simp only [ne_eq, decide_eq_true_eq]
      rintro rfl
      exact apart rfl
    rw [← same] at kept
    exact (mem_cmdUnwhitelist.mp kept).2 named
  · intro alone
    refine List.filter_congr fun other belongs => ?_
    by_cases named : other.named entry.id
    · obtain rfl := List.inj_on_of_nodup_map distinct belongs member (alone other belongs named)
      simp [named]
    · have apart : other ≠ entry := by
        rintro rfl
        exact named (named_id other)
      simp [named, apart]

theorem exact_whitelist_iff {registry : Registry} (distinct : (registry.entries.map (·.id)).Nodup)
    (deviceId now : String) :
    Exact devices registry (.whitelist deviceId now) (registry.step devices (.whitelist deviceId now)) ↔
      registry.Allowed devices (.whitelist deviceId now) := by
  cases found : devices.find? (·.id = deviceId) with
  | none =>
    refine iff_of_true ⟨?_, ?_, ?_, ?_⟩ ?_
    · simpa [Registry.step, cmdWhitelist, found] using distinct
    · intro entry _ same
      cases same
    · intro device other here same
      obtain ⟨rfl, -⟩ := Call.whitelist.inj same
      rw [found] at here
      cases here
    · intro device _ _ same
      cases same
    · simp [Registry.Allowed, found]
  | some device =>
    have stored : (registry.step devices (.whitelist deviceId now)).entries =
        registry.entries ++ [entryOf registry.entries device now] := by
      simp [Registry.step, cmdWhitelist, found]
    have ids : ((registry.step devices (.whitelist deviceId now)).entries.map (·.id)).Nodup ↔
        "wl-" ++ toString (registry.entries.length + 1) ∉ registry.entries.map (·.id) := by
      rw [stored, List.map_append, List.map_singleton, List.nodup_append]
      constructor
      · rintro ⟨-, -, apart⟩ member
        exact apart _ member _ (List.mem_singleton_self _) rfl
      · intro fresh
        refine ⟨distinct, List.nodup_singleton _, ?_⟩
        rintro id member other (single : other ∈ [_]) rfl
        obtain rfl := List.mem_singleton.mp single
        exact fresh member
    constructor
    · intro exact_ _
      exact ids.mp exact_.distinct
    · intro allowed
      refine ⟨ids.mpr (allowed (by simp [found])), ?_, ?_, ?_⟩
      · intro entry _ same
        cases same
      · intro other time here same
        obtain ⟨rfl, -⟩ := Call.whitelist.inj same
        obtain rfl : device = other := by simpa [found] using here
        rw [stored]
        simp [isWhitelisted, admits_entryOf]
      · intro other _ _ same
        cases same

theorem exact_unwhitelist_iff {registry : Registry} (distinct : (registry.entries.map (·.id)).Nodup)
    (deviceId : String) :
    Exact devices registry (.unwhitelist deviceId) (registry.step devices (.unwhitelist deviceId)) ↔
      registry.Allowed devices (.unwhitelist deviceId) := by
  have stored : (registry.step devices (.unwhitelist deviceId)).entries =
      (cmdUnwhitelist registry.entries deviceId).1 := rfl
  have less : ((registry.step devices (.unwhitelist deviceId)).entries.map (·.id)).Nodup :=
    distinct.sublist (List.Sublist.map _ List.filter_sublist)
  constructor
  · intro exact_
    constructor
    · intro member
      obtain ⟨entry, belongs, rfl⟩ := List.mem_map.mp member
      exact (unwhitelist_eq_erase_iff distinct belongs).mp (exact_.removes entry belongs rfl)
    · intro device found passed
      obtain rfl : device.id = deviceId := by simpa using List.find?_some found
      obtain ⟨forgotten, others⟩ := exact_.forgets device found passed rfl
      refine ⟨fun entry member admits => ?_, fun other member apart => ?_⟩
      · by_contra kept
        exact not_isWhitelisted_iff.mp forgotten entry (mem_cmdUnwhitelist.mpr ⟨member, kept⟩) admits
      · exact isWhitelisted_unwhitelist_iff.mp (others other member apart)
  · rintro ⟨alone, devicesApart⟩
    refine ⟨less, ?_, ?_, ?_⟩
    · intro entry member same
      obtain rfl := Call.unwhitelist.inj same
      exact (unwhitelist_eq_erase_iff distinct member).mpr (alone (List.mem_map_of_mem member))
    · intro device now _ same
      cases same
    · intro device found passed same
      obtain rfl := Call.unwhitelist.inj same
      obtain ⟨covered, spared⟩ := devicesApart device found passed
      refine ⟨not_isWhitelisted_iff.mpr fun entry member admits => ?_, fun other member apart => ?_⟩
      · obtain ⟨member, kept⟩ := mem_cmdUnwhitelist.mp member
        exact kept (covered entry member admits)
      · exact isWhitelisted_unwhitelist_iff.mpr (spared other member apart)

theorem exact_iff {registry : Registry} (distinct : (registry.entries.map (·.id)).Nodup) (call : Call) :
    Exact devices registry call (registry.step devices call) ↔ registry.Allowed devices call := by
  cases call with
  | whitelist deviceId now => exact exact_whitelist_iff distinct deviceId now
  | unwhitelist deviceId => exact exact_unwhitelist_iff distinct deviceId

/-- All calls of a history are exact just when all are allowed. -/
theorem registry_exact_iff (devices : List Connected) (calls : List Call) :
    (∀ before call after, calls = before ++ call :: after →
      Exact devices (Execution.run (Registry.step devices) .empty before) call
        (Execution.run (Registry.step devices) .empty (before ++ [call]))) ↔
      Execution.Along (Registry.step devices) (Registry.Allowed devices) .empty calls :=
  Execution.each_iff_along
    (fun registry call (distinct : (registry.entries.map (·.id)).Nodup) => exact_iff distinct call)
    (fun _ _ _ exact_ => exact_.distinct) List.nodup_nil

/-- A stick and two mice, without serial numbers. -/
def desk : List Connected :=
  [⟨⟨"/sys/bus/usb/devices/1-1", "0781", "5567", ""⟩, "Cruzer Blade", "usb"⟩,
    ⟨⟨"/sys/bus/usb/devices/1-2", "046d", "c077", ""⟩, "M105", "usb"⟩,
    ⟨⟨"/sys/bus/usb/devices/1-3", "046d", "c05a", ""⟩, "M90", "usb"⟩]

/-- The id of the second entry is given again after the first is gone, and a stick that is
unwhitelisted as it was whitelisted stays on the list. -/
theorem registry_inexact :
    (Execution.run (Registry.step desk) .empty
      [.whitelist "/sys/bus/usb/devices/1-1" "", .whitelist "/sys/bus/usb/devices/1-2" "",
        .unwhitelist "wl-1", .whitelist "/sys/bus/usb/devices/1-3" ""]).entries.map (·.id) =
        ["wl-2", "wl-2"] ∧
      isWhitelisted ⟨"/sys/bus/usb/devices/1-1", "0781", "5567", ""⟩
        (Execution.run (Registry.step desk) .empty
          [.whitelist "/sys/bus/usb/devices/1-1" "",
            .unwhitelist "/sys/bus/usb/devices/1-1"]).entries := by
  exact of_decide_eq_true rfl

end SysDeck.Cockpit.HwAlert
