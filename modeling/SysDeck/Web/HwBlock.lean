import SysDeck.Library.Execution
import SysDeck.Web.HwAlert

/-! What the bridge shows of a device, against what was last done to it. -/

namespace SysDeck.Web.HwAlert

open Firewall (trim)

variable {toLowerCase : String → String}

/-! ### What a scan sees after a write -/

@[simp] theorem attr_update_ne {e : Entry} {file value : String} (other : file ≠ "authorized") :
    Entry.attr { e with files := Function.update e.files "authorized" (some value) } file =
      e.attr file := by
  simp [Entry.attr, other]

@[simp] theorem attr_update_self (e : Entry) (value : String) :
    Entry.attr { e with files := Function.update e.files "authorized" (some value) } "authorized" =
      trim value := by
  simp [Entry.attr]

/-- The values that `block` and `unblock` write. -/
def flagText (authorized : Bool) : String := if authorized then "1" else "0"

theorem trim_flagText (authorized : Bool) : trim (flagText authorized) = flagText authorized := by
  cases authorized with
  | false => decide
  | true => decide

theorem flagText_ne_zero (authorized : Bool) : decide (flagText authorized ≠ "0") = authorized := by
  cases authorized with
  | false => rfl
  | true => rfl

theorem flagText_ne_empty (authorized : Bool) : flagText authorized ≠ "" := by
  cases authorized with
  | false => decide
  | true => decide

theorem usbDevice_update (e : Entry) (authorized : Bool) :
    usbDevice toLowerCase
        { e with files := Function.update e.files "authorized" (some (flagText authorized)) } =
      (usbDevice toLowerCase e).map ({ · with authorized }) := by
  unfold usbDevice
  simp only [attr_update_ne (by decide : "idVendor" ≠ "authorized"),
    attr_update_ne (by decide : "idProduct" ≠ "authorized"),
    attr_update_ne (by decide : "product" ≠ "authorized"),
    attr_update_ne (by decide : "manufacturer" ≠ "authorized"), attr_update_self, trim_flagText,
    flagText_ne_zero]
  split
  · rfl
  · simp only [Option.map_some]

theorem thunderboltDevice_update (e : Entry) (authorized : Bool) :
    thunderboltDevice
        { e with files := Function.update e.files "authorized" (some (flagText authorized)) } =
      (thunderboltDevice e).map ({ · with authorized }) := by
  unfold thunderboltDevice
  simp only [attr_update_ne (by decide : "vendor_name" ≠ "authorized"),
    attr_update_ne (by decide : "device_name" ≠ "authorized"),
    attr_update_ne (by decide : "nvm_authenticate" ≠ "authorized"), attr_update_self, trim_flagText,
    if_neg (flagText_ne_empty authorized), flagText_ne_zero]
  split
  · rfl
  · simp only [Option.map_some]

/-- Linux has the attribute `authorized` for USB and Thunderbolt only. -/
def Plain (buses : Buses) : Prop :=
  ∀ e ∈ buses.entries .pci ++ buses.entries .firewire, e.writable = false

def ScannedDevice.write (d : ScannedDevice) (path : SysfsPath) (authorized : Bool) : ScannedDevice :=
  if d.sysfsPath = some path then { d with authorized } else d

@[simp] theorem ScannedDevice.deviceId_write (d : ScannedDevice) (path : SysfsPath) (authorized : Bool) :
    (d.write path authorized).deviceId = d.deviceId := by
  unfold ScannedDevice.write
  split <;> rfl

theorem scanEntry_path {bus : Bus} {e : Entry} {d : ScannedDevice}
    (found : scanEntry toLowerCase bus e = some d) : d.sysfsPath = some ⟨bus, e.name⟩ := by
  cases bus <;>
  · simp only [scanEntry, usbDevice, thunderboltDevice, pciDevice, firewireDevice] at found
    split at found
    all_goals cases found
    all_goals rfl

theorem Entry.write_here {e : Entry} {bus : Bus} {path : SysfsPath} (here : ⟨bus, e.name⟩ = path)
    (writable : e.writable) (value : String) :
    e.write bus path value =
      { e with files := Function.update e.files "authorized" (some value) } := by
  rw [Entry.write, if_pos ⟨by rw [← here], by rw [← here], writable⟩]

theorem Entry.write_elsewhere {e : Entry} {bus : Bus} {path : SysfsPath}
    (elsewhere : (⟨bus, e.name⟩ : SysfsPath) ≠ path) (value : String) : e.write bus path value = e := by
  refine if_neg ?_
  rintro ⟨rfl, name, -⟩
  exact elsewhere (by rw [name])

theorem scanEntry_write {buses : Buses} (plain : Plain buses) {bus : Bus} {e : Entry}
    (member : e ∈ buses.entries bus) {path : SysfsPath}
    (writable : (⟨bus, e.name⟩ : SysfsPath) = path → e.writable) (authorized : Bool) :
    scanEntry toLowerCase bus (e.write bus path (flagText authorized)) =
      (scanEntry toLowerCase bus e).map (·.write path authorized) := by
  have elsewhere {other : ScannedDevice → ScannedDevice}
      (same : ∀ d, d.sysfsPath = some ⟨bus, e.name⟩ → d.write path authorized = other d) :
      (scanEntry toLowerCase bus e).map (·.write path authorized) =
        (scanEntry toLowerCase bus e).map other := by
    cases found : scanEntry toLowerCase bus e with
    | none => rfl
    | some d => simp [same d (scanEntry_path found)]
  by_cases here : (⟨bus, e.name⟩ : SysfsPath) = path
  · have has := writable here
    rw [Entry.write_here here has, @elsewhere ({ · with authorized }) fun d at' => by
      rw [ScannedDevice.write, if_pos (at'.trans (congrArg some here))]]
    cases bus with
    | usb => exact usbDevice_update e authorized
    | thunderbolt => exact thunderboltDevice_update e authorized
    | pci => exact absurd has (by simp [plain e (List.mem_append_left _ member)])
    | firewire => exact absurd has (by simp [plain e (List.mem_append_right _ member)])
  · rw [Entry.write_elsewhere here, @elsewhere id fun d at' => by
      rw [ScannedDevice.write, if_neg (fun same => here (Option.some.inj (at'.symm.trans same))), id]]
    simp

theorem writeAuthorized_eq_some {granted : Bool} {buses after : Buses} {path : SysfsPath} {value : String}
    (wrote : writeAuthorized granted buses path value = some after) :
    after = buses.write path value ∧
      ∀ e ∈ buses.entries path.bus, e.name = path.entry → e.writable := by
  unfold writeAuthorized at wrote
  split at wrote
  · rename_i may
    refine ⟨(Option.some.inj wrote).symm, ?_⟩
    obtain ⟨target, inside, is⟩ := List.any_eq_true.mp may.2
    rw [Bool.and_eq_true, decide_eq_true_eq] at is
    intro e member named
    have same : e = target :=
      List.inj_on_of_nodup_map (buses.distinct path.bus) member inside (named.trans is.1.symm)
    exact same ▸ is.2
  · cases wrote

theorem filterMap_write {buses : Buses} (plain : Plain buses) {path : SysfsPath}
    (writable : ∀ e ∈ buses.entries path.bus, e.name = path.entry → e.writable) (authorized : Bool)
    (bus : Bus) :
    ((buses.write path (flagText authorized)).entries bus).filterMap (scanEntry toLowerCase bus) =
      ((buses.entries bus).filterMap (scanEntry toLowerCase bus)).map (·.write path authorized) := by
  rw [Buses.write, List.filterMap_map, List.map_filterMap]
  refine List.filterMap_congr fun e member => ?_
  refine scanEntry_write plain member ?_ authorized
  rintro rfl
  exact writable e member rfl

/-- A granted write changes the flag of what is scanned at the path, and nothing else. -/
theorem scanAllBuses_write {buses : Buses} (plain : Plain buses) {path : SysfsPath}
    (writable : ∀ e ∈ buses.entries path.bus, e.name = path.entry → e.writable) (authorized : Bool) :
    scanAllBuses toLowerCase (buses.write path (flagText authorized)) =
      (scanAllBuses toLowerCase buses).map (·.write path authorized) := by
  have parts := @filterMap_write toLowerCase buses plain path writable authorized
  have bluetooth : (scanBluetooth buses).map (·.write path authorized) = scanBluetooth buses := by
    refine List.map_congr_left (g := id) (fun d member => ?_) |>.trans (List.map_id _)
    obtain ⟨line, -, found⟩ := List.mem_filterMap.mp member
    obtain ⟨_, -, rfl⟩ := Option.map_eq_some_iff.mp found
    rfl
  unfold scanAllBuses
  rw [List.map_append, List.map_append, List.map_append, List.map_append, bluetooth]
  refine congrArg₂ _ (congrArg₂ _ (congrArg₂ _ (congrArg₂ _ ?_ ?_) ?_) rfl) ?_
  · exact parts .usb
  · exact parts .thunderbolt
  · rw [scanPci, scanPci, List.map_take]
    exact congrArg (List.take 128) (parts .pci)
  · exact parts .firewire

/-! ### What a read leaves in the registry -/

/-- The flag of the row of a device. -/
def Store.flag (store : Store) (deviceId : String) : Option Bool :=
  (store.registry.find? deviceId).map (·.authorized)

@[simp] theorem whitelist_register (store : Store) (d : ScannedDevice) :
    (register store d).whitelist = store.whitelist := by
  unfold register
  split <;> rfl

theorem flag_register (store : Store) (d : ScannedDevice) (deviceId : String) :
    (register store d).flag deviceId =
      if deviceId = d.deviceId then some (decide (deviceId ∈ store.whitelist) || d.authorized)
      else store.flag deviceId := by
  unfold register Store.flag
  split
  · rename_i row found
    rw [OrderedMap.find?_modify]
    by_cases same : deviceId = d.deviceId
    · rw [if_pos same, if_pos same, same, found]
      by_cases listed : d.deviceId ∈ store.whitelist
      · simp [listed]
      · simp [listed]
    · rw [if_neg same, if_neg same]
  · rw [OrderedMap.find?_set]
    by_cases same : deviceId = d.deviceId
    · rw [if_pos same, if_pos same, same]
      rfl
    · rw [if_neg same, if_neg same]

@[simp] theorem whitelist_registerAll (store : Store) (ds : List ScannedDevice) :
    (ds.foldl register store).whitelist = store.whitelist := by
  induction ds generalizing store with
  | nil => rfl
  | cons d ds ih => rw [List.foldl_cons, ih, whitelist_register]

/-- Devices with other ids leave the row as it is. -/
theorem flag_of_absent {ds : List ScannedDevice} {deviceId : String}
    (absent : ∀ d ∈ ds, d.deviceId ≠ deviceId) (store : Store) :
    (ds.foldl register store).flag deviceId = store.flag deviceId := by
  induction ds generalizing store with
  | nil => rfl
  | cons d ds ih =>
    rw [List.foldl_cons, ih fun other member => absent other (List.mem_cons_of_mem _ member),
      flag_register, if_neg (absent d List.mem_cons_self).symm]

/-- A device that shares its id with no other has the flag that was scanned, or is let in by the
whitelist. -/
theorem flag_of_mem {ds : List ScannedDevice} (nodup : (ds.map (·.deviceId)).Nodup)
    {d : ScannedDevice} (member : d ∈ ds) (store : Store) :
    (ds.foldl register store).flag d.deviceId =
      some (decide (d.deviceId ∈ store.whitelist) || d.authorized) := by
  induction ds generalizing store with
  | nil => cases member
  | cons first ds ih =>
    rw [List.map_cons, List.nodup_cons] at nodup
    rw [List.foldl_cons]
    rcases List.mem_cons.mp member with rfl | later
    · rw [flag_of_absent ?_ (register store d), flag_register, if_pos rfl]
      intro other inside same
      exact nodup.1 (List.mem_map.mpr ⟨other, inside, same⟩)
    · rw [ih nodup.2 later, whitelist_register]

/-! ### What the calls do -/

/-- The flag that a read shows of a device. -/
def shown (toLowerCase : String → String) (state : State) (deviceId : String) : Option Bool :=
  (reconcile toLowerCase state.buses state.store).flag deviceId

/-- The attribute of the device says that it is not authorized. -/
def Deauthorized (toLowerCase : String → String) (buses : Buses) (deviceId : String) : Prop :=
  ∃ bus, ∃ e ∈ buses.entries bus, e.attr "authorized" = "0" ∧
    ∃ d, scanEntry toLowerCase bus e = some d ∧ d.deviceId = deviceId

/-- What the reads need: devices have ids of their own, and none that the whitelist lets in is
blocked by its attribute. -/
structure Settled (toLowerCase : String → String) (state : State) : Prop where
  plain : Plain state.buses
  distinct : ((scanAllBuses toLowerCase state.buses).map (·.deviceId)).Nodup
  admitted : ∀ deviceId ∈ state.store.whitelist, ¬ Deauthorized toLowerCase state.buses deviceId

theorem find?_live {buses : Buses} (nodup : ((scanAllBuses toLowerCase buses).map (·.deviceId)).Nodup)
    {d : ScannedDevice} (member : d ∈ scanAllBuses toLowerCase buses) :
    liveDevice toLowerCase buses d.deviceId = some d := by
  unfold liveDevice
  cases found : (scanAllBuses toLowerCase buses).find? (·.deviceId = d.deviceId) with
  | none => exact absurd (decide_eq_true rfl) (List.find?_eq_none.mp found d member)
  | some other =>
    have same : other.deviceId = d.deviceId := by simpa using List.find?_some found
    have inside := List.mem_of_find?_eq_some found
    rw [List.inj_on_of_nodup_map nodup inside member same]

/-- A scanned device is that of an entry, or that of a line of `bluetoothctl`. -/
theorem mem_scanAllBuses {buses : Buses} {d : ScannedDevice}
    (member : d ∈ scanAllBuses toLowerCase buses) :
    (∃ bus, ∃ e ∈ buses.entries bus, scanEntry toLowerCase bus e = some d) ∨
      ∃ line ∈ buses.bluetooth, bluetoothDevice line = some d := by
  simp only [scanAllBuses, List.mem_append] at member
  rcases member with (((usb | thunderbolt) | pci) | bluetooth) | firewire
  · exact .inl ⟨.usb, List.mem_filterMap.mp usb⟩
  · exact .inl ⟨.thunderbolt, List.mem_filterMap.mp thunderbolt⟩
  · exact .inl ⟨.pci, List.mem_filterMap.mp (List.mem_of_mem_take pci)⟩
  · exact .inr (List.mem_filterMap.mp bluetooth)
  · exact .inl ⟨.firewire, List.mem_filterMap.mp firewire⟩

theorem mem_scan_path {buses : Buses} {d : ScannedDevice} (member : d ∈ scanAllBuses toLowerCase buses)
    {path : SysfsPath} (at' : d.sysfsPath = some path) :
    ∃ e ∈ buses.entries path.bus, e.name = path.entry ∧ scanEntry toLowerCase path.bus e = some d := by
  rcases mem_scanAllBuses member with ⟨bus, e, listed, found⟩ | ⟨line, -, found⟩
  · obtain rfl := Option.some.inj (at'.symm.trans (scanEntry_path found))
    exact ⟨e, listed, rfl, found⟩
  · obtain ⟨_, -, rfl⟩ := Option.map_eq_some_iff.mp found
    cases at'

/-- Two scanned devices with one path are one. -/
theorem scan_path_inj {buses : Buses} {d other : ScannedDevice}
    (member : d ∈ scanAllBuses toLowerCase buses) (member' : other ∈ scanAllBuses toLowerCase buses)
    {path : SysfsPath} (at' : d.sysfsPath = some path) (at'' : other.sysfsPath = some path) :
    d = other := by
  obtain ⟨e, listed, name, found⟩ := mem_scan_path member at'
  obtain ⟨e', listed', name', found'⟩ := mem_scan_path member' at''
  obtain rfl := List.inj_on_of_nodup_map (buses.distinct path.bus) listed listed' (name.trans name'.symm)
  exact Option.some.inj (found.symm.trans found')

/-- The flag of a device was written to its attribute, and to its row. -/
structure Written (toLowerCase : String → String) (before : State) (deviceId : String)
    (authorized : Bool) (after : State) : Prop where
  plain : Plain after.buses
  ids : (scanAllBuses toLowerCase after.buses).map (·.deviceId) =
    (scanAllBuses toLowerCase before.buses).map (·.deviceId)
  scanned : ∀ d ∈ scanAllBuses toLowerCase before.buses,
    ∃ d' ∈ scanAllBuses toLowerCase after.buses, d'.deviceId = d.deviceId ∧
      d'.authorized = if d.deviceId = deviceId then authorized else d.authorized
  live : ∃ d ∈ scanAllBuses toLowerCase before.buses, d.deviceId = deviceId
  whitelist : after.store.whitelist = before.store.whitelist
  flag : ∀ other, after.store.flag other =
    if other = deviceId then (before.store.flag other).map fun _ => authorized
    else before.store.flag other
  deauthorized : ∀ other, Deauthorized toLowerCase after.buses other →
    Deauthorized toLowerCase before.buses other ∨ (authorized = false ∧ other = deviceId)

theorem flag_authorize (state : State) (deviceId : String) (authorized : Bool) (other : String) :
    (authorize state deviceId authorized).store.flag other =
      if other = deviceId then (state.store.flag other).map fun _ => authorized
      else state.store.flag other := by
  simp only [authorize, Store.flag, OrderedMap.find?_modify]
  split
  · rw [Option.map_map, Option.map_map]
    rfl
  · rfl

theorem writable_write (e : Entry) (bus : Bus) (path : SysfsPath) (value : String) :
    (e.write bus path value).writable = e.writable := by
  unfold Entry.write
  split
  · rename_i has
    rw [has.2.2]
    simp [Entry.writable]
  · rfl

/-- A write to the path of a device, and to its row. -/
theorem written {state : State} (settled : Settled toLowerCase state) {d : ScannedDevice}
    (member : d ∈ scanAllBuses toLowerCase state.buses) {path : SysfsPath}
    (at' : d.sysfsPath = some path)
    (writable : ∀ e ∈ state.buses.entries path.bus, e.name = path.entry → e.writable)
    (authorized : Bool) :
    Written toLowerCase state d.deviceId authorized
      (authorize { state with buses := state.buses.write path (flagText authorized) } d.deviceId
        authorized) where
  plain := by
    intro e' inside
    simp only [authorize, Buses.write, List.mem_append, List.mem_map] at inside
    rcases inside with ⟨e, listed, rfl⟩ | ⟨e, listed, rfl⟩
    · rw [writable_write]
      exact settled.plain e (List.mem_append_left _ listed)
    · rw [writable_write]
      exact settled.plain e (List.mem_append_right _ listed)
  ids := by
    simp only [authorize]
    rw [scanAllBuses_write settled.plain writable, List.map_map]
    exact List.map_congr_left fun other _ => other.deviceId_write path authorized
  scanned := by
    intro other inside
    refine ⟨other.write path authorized, ?_, other.deviceId_write path authorized, ?_⟩
    · simp only [authorize]
      rw [scanAllBuses_write settled.plain writable]
      exact List.mem_map_of_mem inside
    · by_cases same : other.deviceId = d.deviceId
      · obtain rfl := List.inj_on_of_nodup_map settled.distinct inside member same
        rw [if_pos rfl, ScannedDevice.write, if_pos at']
      · rw [if_neg same, ScannedDevice.write, if_neg]
        intro there
        exact same (congrArg _ (scan_path_inj inside member there at'))
  live := ⟨d, member, rfl⟩
  whitelist := rfl
  flag := flag_authorize _ d.deviceId authorized
  deauthorized := by
    rintro other ⟨bus, e', listed, zero, d', found, rfl⟩
    obtain ⟨e, inside, rfl⟩ := List.mem_map.mp listed
    by_cases here : (⟨bus, e.name⟩ : SysfsPath) = path
    · have has : e.writable := by
        subst here
        exact writable e inside rfl
      refine .inr ⟨?_, ?_⟩
      · rw [Entry.write_here here has, attr_update_self, trim_flagText] at zero
        cases authorized with
        | false => rfl
        | true => exact absurd zero (by decide)
      · rw [scanEntry_write settled.plain inside (fun _ => has)] at found
        obtain ⟨d₀, scanned, rfl⟩ := Option.map_eq_some_iff.mp found
        obtain ⟨e₀, listed₀, name, found₀⟩ := mem_scan_path member at'
        subst here
        obtain rfl := List.inj_on_of_nodup_map (state.buses.distinct bus) inside listed₀ name.symm
        rw [ScannedDevice.deviceId_write, Option.some.inj (scanned.symm.trans found₀)]
    · rw [Entry.write_elsewhere here] at zero found
      exact .inl ⟨bus, e, inside, zero, d', found, rfl⟩

/-- A block that is done wrote to the path of the first device with the id. -/
theorem block_path {state after : State} {deviceId : String} {granted : Bool}
    (done : block toLowerCase state deviceId granted = (after, .blocked)) :
    ∃ d path, liveDevice toLowerCase state.buses deviceId = some d ∧ d.sysfsPath = some path ∧
      (∀ e ∈ state.buses.entries path.bus, e.name = path.entry → e.writable) ∧
      after = authorize { state with buses := state.buses.write path "0" } deviceId false := by
  unfold block at done
  split at done
  · cases done
  · split at done
    · cases done
    · cases live : (liveDevice toLowerCase state.buses deviceId).bind (·.sysfsPath) with
      | none =>
        rw [live] at done
        cases done
      | some path =>
        rw [live] at done
        cases wrote : writeAuthorized granted state.buses path "0" with
        | none =>
          simp only [wrote] at done
          cases done
        | some buses =>
          simp only [wrote, Prod.mk.injEq, and_true] at done
          obtain ⟨rfl, writable⟩ := writeAuthorized_eq_some wrote
          obtain ⟨d, found, at'⟩ := Option.bind_eq_some_iff.mp live
          exact ⟨d, path, found, at', writable, done.symm⟩

theorem block_failed {state : State} {deviceId : String} {granted : Bool} :
    block toLowerCase state deviceId granted = (state, .failed) ∨
      ∃ after, block toLowerCase state deviceId granted = (after, .blocked) := by
  unfold block
  split
  · exact .inl rfl
  · split
    · exact .inl rfl
    · split
      · exact .inl rfl
      · split
        · exact .inl rfl
        · exact .inr ⟨_, rfl⟩

theorem block_cases {state : State} (settled : Settled toLowerCase state) (deviceId : String)
    (granted : Bool) :
    block toLowerCase state deviceId granted = (state, .failed) ∨
      ∃ after, block toLowerCase state deviceId granted = (after, .blocked) ∧
        Written toLowerCase state deviceId false after := by
  rcases @block_failed toLowerCase state deviceId granted with failed | ⟨after, done⟩
  · exact .inl failed
  · obtain ⟨d, path, live, at', writable, rfl⟩ := block_path done
    have member := List.mem_of_find?_eq_some live
    obtain rfl : d.deviceId = deviceId := by simpa using List.find?_some live
    exact .inr ⟨_, done, written settled member at' writable false⟩

theorem unblock_cases {state : State} (settled : Settled toLowerCase state) (deviceId : String)
    (granted : Bool) :
    unblock toLowerCase state deviceId granted = (state, .failed) ∨
      (∃ after, unblock toLowerCase state deviceId granted = (after, .unblocked) ∧
        Written toLowerCase state deviceId true after) ∨
      unblock toLowerCase state deviceId granted = (authorize state deviceId true, .unblocked) ∧
        state.store.flag deviceId = some false ∧
        ∀ d ∈ scanAllBuses toLowerCase state.buses, d.deviceId = deviceId → d.sysfsPath = none := by
  unfold unblock
  split
  · exact .inl rfl
  · rename_i row found
    split
    · exact .inl rfl
    · rename_i barred
      cases live : (liveDevice toLowerCase state.buses deviceId).bind (·.sysfsPath) with
      | none =>
        refine .inr (.inr ⟨rfl, ?_, ?_⟩)
        · have closed : row.authorized = false := by simpa using (not_or.mp barred).2
          rw [Store.flag, found, Option.map_some, closed]
        · rintro d member rfl
          rw [find?_live settled.distinct member] at live
          exact live
      | some path =>
        cases wrote : writeAuthorized granted state.buses path "1" with
        | none =>
          simp only [wrote]
          exact .inl trivial
        | some buses =>
          simp only [wrote]
          obtain ⟨rfl, writable⟩ := writeAuthorized_eq_some wrote
          obtain ⟨d, live, at'⟩ := Option.bind_eq_some_iff.mp live
          have member := List.mem_of_find?_eq_some live
          obtain rfl : d.deviceId = deviceId := by simpa using List.find?_some live
          exact .inr (.inl ⟨_, rfl, written settled member at' writable true⟩)

theorem whitelist_cases (state : State) (deviceId : String) :
    whitelist state deviceId = (state, .failed) ∨
      ∃ after, whitelist state deviceId = (after, .done) ∧ after.buses = state.buses ∧
        (∀ other, other ∈ after.store.whitelist ↔ other ∈ state.store.whitelist ∨ other = deviceId) ∧
        ∀ other, after.store.flag other =
          if other = deviceId then (state.store.flag other).map fun _ => true
          else state.store.flag other := by
  unfold whitelist
  split
  · exact .inl rfl
  · split
    · exact .inl rfl
    · refine .inr ⟨_, rfl, rfl, ?_, ?_⟩
      · intro other
        by_cases listed : deviceId ∈ state.store.whitelist
        · simp only [if_pos listed]
          exact ⟨.inl, fun either => either.elim id fun same => same ▸ listed⟩
        · simp only [if_neg listed, List.mem_append, List.mem_singleton]
      · intro other
        simp only [Store.flag, OrderedMap.find?_modify]
        split
        · rw [Option.map_map, Option.map_map]
          rfl
        · rfl

theorem unwhitelist_cases (state : State) (deviceId : String) :
    unwhitelist state deviceId = (state, .failed) ∨
      ∃ after, unwhitelist state deviceId = (after, .done) ∧ after.buses = state.buses ∧
        (∀ other, other ∈ after.store.whitelist ↔ other ∈ state.store.whitelist ∧ other ≠ deviceId) ∧
        ∀ other, after.store.flag other = state.store.flag other := by
  unfold unwhitelist
  split
  · exact .inl rfl
  · split
    · exact .inl rfl
    · refine .inr ⟨_, rfl, rfl, fun other => by simp, ?_⟩
      intro other
      simp only [Store.flag, OrderedMap.find?_modify]
      split
      · rw [Option.map_map]
        rfl
      · rfl

/-! ### Runs -/

def reply (toLowerCase : String → String) (state : State) (c : Call) : Reply :=
  (call toLowerCase state c).2

/-- The calls that do not part the flag of a device from its attribute. -/
def Allowed (toLowerCase : String → String) (state : State) : Call → Prop
  | .block deviceId _ => deviceId ∉ state.store.whitelist
  | .unblock deviceId _ =>
    ∀ d ∈ scanAllBuses toLowerCase state.buses, d.deviceId = deviceId → d.sysfsPath ≠ none
  | .whitelist deviceId => ¬ Deauthorized toLowerCase state.buses deviceId
  | _ => True

/-- The call blocks the device. -/
def Blocks (toLowerCase : String → String) (deviceId : String) (state : State) (c : Call) : Prop :=
  (∃ granted, c = .block deviceId granted) ∧ reply toLowerCase state c = .blocked

/-- The call lets the device in. -/
def Frees (toLowerCase : String → String) (deviceId : String) (state : State) (c : Call) : Prop :=
  ((∃ granted, c = .unblock deviceId granted) ∧ reply toLowerCase state c = .unblocked) ∨
    (c = .whitelist deviceId ∧ reply toLowerCase state c = .done)

/-- After the calls, a read shows what was last done to a device, and what its attribute says. -/
structure Truthful (toLowerCase : String → String) (start : State) (calls : List Call) : Prop where
  blocked : ∀ deviceId before granted after, calls = before ++ .block deviceId granted :: after →
    let state := Execution.run (step toLowerCase) start before
    reply toLowerCase state (.block deviceId granted) = .blocked →
    Execution.Along (step toLowerCase) (fun s c => ¬ Frees toLowerCase deviceId s c)
      (step toLowerCase state (.block deviceId granted)) after →
    shown toLowerCase (Execution.run (step toLowerCase) start calls) deviceId = some false
  unblocked : ∀ deviceId before granted after, calls = before ++ .unblock deviceId granted :: after →
    let state := Execution.run (step toLowerCase) start before
    reply toLowerCase state (.unblock deviceId granted) = .unblocked →
    Execution.Along (step toLowerCase) (fun s c => ¬ Blocks toLowerCase deviceId s c)
      (step toLowerCase state (.unblock deviceId granted)) after →
    shown toLowerCase (Execution.run (step toLowerCase) start calls) deviceId = some true
  sysfs : ∀ bus, ∀ e ∈ (Execution.run (step toLowerCase) start calls).buses.entries bus,
    ∀ d, scanEntry toLowerCase bus e = some d → e.attr "authorized" ≠ "" →
    shown toLowerCase (Execution.run (step toLowerCase) start calls) d.deviceId =
      some (decide (e.attr "authorized" ≠ "0"))

/-- A device that every read shows as blocked. -/
def Barred (toLowerCase : String → String) (deviceId : String) (state : State) : Prop :=
  deviceId ∉ state.store.whitelist ∧
    ∃ d ∈ scanAllBuses toLowerCase state.buses, d.deviceId = deviceId ∧ d.authorized = false

/-- A device that every read shows as let in. -/
def Open (toLowerCase : String → String) (deviceId : String) (state : State) : Prop :=
  (∃ d ∈ scanAllBuses toLowerCase state.buses, d.deviceId = deviceId ∧ d.authorized = true) ∨
    (∀ d ∈ scanAllBuses toLowerCase state.buses, d.deviceId ≠ deviceId) ∧
      state.store.flag deviceId = some true

theorem Barred.shown {state : State} {deviceId : String} (settled : Settled toLowerCase state)
    (barred : Barred toLowerCase deviceId state) : shown toLowerCase state deviceId = some false := by
  obtain ⟨unlisted, d, member, rfl, closed⟩ := barred
  rw [HwAlert.shown, reconcile, flag_of_mem settled.distinct member, closed, decide_eq_false unlisted]
  rfl

theorem Open.shown {state : State} {deviceId : String} (settled : Settled toLowerCase state)
    (admitted : Open toLowerCase deviceId state) : shown toLowerCase state deviceId = some true := by
  rw [HwAlert.shown, reconcile]
  rcases admitted with ⟨d, member, rfl, opened⟩ | ⟨absent, flag⟩
  · rw [flag_of_mem settled.distinct member, opened, Bool.or_true]
  · rw [flag_of_absent absent, flag]

theorem Written.settled {state after : State} {deviceId : String} {authorized : Bool}
    (settled : Settled toLowerCase state) (wrote : Written toLowerCase state deviceId authorized after)
    (unlisted : authorized = false → deviceId ∉ state.store.whitelist) : Settled toLowerCase after where
  plain := wrote.plain
  distinct := wrote.ids ▸ settled.distinct
  admitted := by
    intro other listed zero
    rw [wrote.whitelist] at listed
    rcases wrote.deauthorized other zero with before | ⟨closed, rfl⟩
    · exact settled.admitted other listed before
    · exact unlisted closed listed

theorem settled_step {state : State} {c : Call} (settled : Settled toLowerCase state)
    (allowed : Allowed toLowerCase state c) : Settled toLowerCase (step toLowerCase state c) := by
  cases c with
  | read =>
    refine ⟨settled.plain, settled.distinct, ?_⟩
    intro deviceId listed
    simp only [step, call, reconcile, whitelist_registerAll] at listed
    exact settled.admitted deviceId listed
  | block deviceId granted =>
    rcases block_cases settled deviceId granted with failed | ⟨after, done, wrote⟩
    · rw [step, call, failed]
      exact settled
    · rw [step, call, done]
      exact wrote.settled settled fun _ => allowed
  | unblock deviceId granted =>
    rcases unblock_cases settled deviceId granted with failed | ⟨after, done, wrote⟩ | ⟨done, -⟩
    · rw [step, call, failed]
      exact settled
    · rw [step, call, done]
      exact wrote.settled settled nofun
    · rw [step, call, done]
      exact ⟨settled.plain, settled.distinct, settled.admitted⟩
  | whitelist deviceId =>
    rcases whitelist_cases state deviceId with failed | ⟨after, done, buses, list, -⟩
    · rw [step, call, failed]
      exact settled
    · rw [step, call, done]
      refine ⟨buses ▸ settled.plain, buses ▸ settled.distinct, ?_⟩
      intro other listed
      rw [buses]
      rcases (list other).mp listed with before | rfl
      · exact settled.admitted other before
      · exact allowed
  | unwhitelist deviceId =>
    rcases unwhitelist_cases state deviceId with failed | ⟨after, done, buses, list, -⟩
    · rw [step, call, failed]
      exact settled
    · rw [step, call, done]
      refine ⟨buses ▸ settled.plain, buses ▸ settled.distinct, ?_⟩
      intro other listed
      rw [buses]
      exact settled.admitted other ((list other).mp listed).1

/-- What the scan sees of the device after a write for it, or for another one. -/
theorem Written.scanned_as {state after : State} {deviceId other : String} {authorized : Bool}
    (wrote : Written toLowerCase state deviceId authorized after) {flag : Bool}
    (before : ∃ d ∈ scanAllBuses toLowerCase state.buses, d.deviceId = other ∧ d.authorized = flag)
    (same : other = deviceId → authorized = flag) :
    ∃ d ∈ scanAllBuses toLowerCase after.buses, d.deviceId = other ∧ d.authorized = flag := by
  obtain ⟨d, member, rfl, is⟩ := before
  obtain ⟨d', member', id, is'⟩ := wrote.scanned d member
  refine ⟨d', member', id, ?_⟩
  rw [is']
  split
  · rename_i here
    exact same here
  · exact is

theorem Written.absent {state after : State} {deviceId other : String} {authorized : Bool}
    (wrote : Written toLowerCase state deviceId authorized after)
    (absent : ∀ d ∈ scanAllBuses toLowerCase state.buses, d.deviceId ≠ other) :
    ∀ d ∈ scanAllBuses toLowerCase after.buses, d.deviceId ≠ other := by
  intro d member same
  have listed : other ∈ (scanAllBuses toLowerCase after.buses).map (·.deviceId) :=
    List.mem_map.mpr ⟨d, member, same⟩
  rw [wrote.ids] at listed
  obtain ⟨d', member', same'⟩ := List.mem_map.mp listed
  exact absent d' member' same'

theorem barred_step {state : State} {c : Call} {deviceId : String} (settled : Settled toLowerCase state)
    (barred : Barred toLowerCase deviceId state) (stays : ¬ Frees toLowerCase deviceId state c) :
    Barred toLowerCase deviceId (step toLowerCase state c) := by
  obtain ⟨unlisted, scanned⟩ := barred
  cases c with
  | read =>
    refine ⟨?_, scanned⟩
    simpa only [step, call, reconcile, whitelist_registerAll] using unlisted
  | block other granted =>
    rcases block_cases settled other granted with failed | ⟨after, done, wrote⟩
    · rw [step, call, failed]
      exact ⟨unlisted, scanned⟩
    · rw [step, call, done]
      exact ⟨wrote.whitelist ▸ unlisted, wrote.scanned_as scanned fun _ => rfl⟩
  | unblock other granted =>
    rcases unblock_cases settled other granted with failed | ⟨after, done, wrote⟩ | ⟨done, -⟩
    · rw [step, call, failed]
      exact ⟨unlisted, scanned⟩
    · rw [step, call, done]
      refine ⟨wrote.whitelist ▸ unlisted, wrote.scanned_as scanned ?_⟩
      rintro rfl
      exact absurd (.inl ⟨⟨granted, rfl⟩, by rw [reply, call, done]⟩) stays
    · rw [step, call, done]
      exact ⟨unlisted, scanned⟩
  | whitelist other =>
    rcases whitelist_cases state other with failed | ⟨after, done, buses, list, -⟩
    · rw [step, call, failed]
      exact ⟨unlisted, scanned⟩
    · rw [step, call, done]
      refine ⟨?_, buses ▸ scanned⟩
      intro listed
      rcases (list deviceId).mp listed with before | rfl
      · exact unlisted before
      · exact stays (.inr ⟨rfl, by rw [reply, call, done]⟩)
  | unwhitelist other =>
    rcases unwhitelist_cases state other with failed | ⟨after, done, buses, list, -⟩
    · rw [step, call, failed]
      exact ⟨unlisted, scanned⟩
    · rw [step, call, done]
      exact ⟨fun listed => unlisted ((list deviceId).mp listed).1, buses ▸ scanned⟩

theorem open_step {state : State} {c : Call} {deviceId : String} (settled : Settled toLowerCase state)
    (admitted : Open toLowerCase deviceId state) (stays : ¬ Blocks toLowerCase deviceId state c) :
    Open toLowerCase deviceId (step toLowerCase state c) := by
  cases c with
  | read =>
    rcases admitted with scanned | ⟨absent, flag⟩
    · exact .inl scanned
    · exact .inr ⟨absent, (flag_of_absent absent _).trans flag⟩
  | block other granted =>
    rcases block_cases settled other granted with failed | ⟨after, done, wrote⟩
    · rw [step, call, failed]
      exact admitted
    · rw [step, call, done]
      have apart : deviceId ≠ other := by
        rintro rfl
        exact stays ⟨⟨granted, rfl⟩, by rw [reply, call, done]⟩
      rcases admitted with scanned | ⟨absent, flag⟩
      · exact .inl (wrote.scanned_as scanned fun same => absurd same apart)
      · exact .inr ⟨wrote.absent absent, by rw [wrote.flag, if_neg apart, flag]⟩
  | unblock other granted =>
    rcases unblock_cases settled other granted with failed | ⟨after, done, wrote⟩ | ⟨done, -⟩
    · rw [step, call, failed]
      exact admitted
    · rw [step, call, done]
      rcases admitted with scanned | ⟨absent, flag⟩
      · exact .inl (wrote.scanned_as scanned fun _ => rfl)
      · refine .inr ⟨wrote.absent absent, ?_⟩
        rw [wrote.flag, flag]
        split <;> rfl
    · rw [step, call, done]
      rcases admitted with scanned | ⟨absent, flag⟩
      · exact .inl scanned
      · refine .inr ⟨absent, ?_⟩
        rw [flag_authorize, flag]
        split <;> rfl
  | whitelist other =>
    rcases whitelist_cases state other with failed | ⟨after, done, buses, -, flags⟩
    · rw [step, call, failed]
      exact admitted
    · rw [step, call, done]
      rcases admitted with scanned | ⟨absent, flag⟩
      · exact .inl (buses ▸ scanned)
      · refine .inr ⟨buses ▸ absent, ?_⟩
        rw [flags, flag]
        split <;> rfl
  | unwhitelist other =>
    rcases unwhitelist_cases state other with failed | ⟨after, done, buses, -, flags⟩
    · rw [step, call, failed]
      exact admitted
    · rw [step, call, done]
      rcases admitted with scanned | ⟨absent, flag⟩
      · exact .inl (buses ▸ scanned)
      · exact .inr ⟨buses ▸ absent, by rw [flags, flag]⟩

theorem run_settled {start : State} {calls : List Call} (settled : Settled toLowerCase start)
    (allowed : Execution.Along (step toLowerCase) (Allowed toLowerCase) start calls) :
    Settled toLowerCase (Execution.run (step toLowerCase) start calls) :=
  Execution.invariant_along (fun _ _ allowed settled => settled_step settled allowed) settled allowed

/-- A property that settled states keep, along allowed calls that do not end it. -/
theorem run_kept {Kept : State → Prop} {Ends : State → Call → Prop}
    (kept : ∀ state c, Settled toLowerCase state → Kept state → ¬ Ends state c →
      Kept (step toLowerCase state c)) {start : State} {calls : List Call}
    (settled : Settled toLowerCase start) (initial : Kept start)
    (allowed : Execution.Along (step toLowerCase) (Allowed toLowerCase) start calls)
    (lasts : Execution.Along (step toLowerCase) (fun s c => ¬ Ends s c) start calls) :
    Kept (Execution.run (step toLowerCase) start calls) := by
  induction calls generalizing start with
  | nil => exact initial
  | cons c calls ih =>
    exact ih (settled_step settled allowed.1) (kept start c settled initial lasts.1) allowed.2 lasts.2

theorem barred_of_blocked {state : State} {deviceId : String} {granted : Bool}
    (settled : Settled toLowerCase state)
    (allowed : Allowed toLowerCase state (.block deviceId granted))
    (done : reply toLowerCase state (.block deviceId granted) = .blocked) :
    Barred toLowerCase deviceId (step toLowerCase state (.block deviceId granted)) := by
  rcases block_cases settled deviceId granted with failed | ⟨after, blocked, wrote⟩
  · rw [reply, call, failed] at done
    cases done
  · rw [step, call, blocked]
    obtain ⟨d, member, id⟩ := wrote.live
    obtain ⟨d', member', id', closed⟩ := wrote.scanned d member
    exact ⟨wrote.whitelist ▸ allowed, d', member', id'.trans id, closed.trans (if_pos id)⟩

theorem open_of_unblocked {state : State} {deviceId : String} {granted : Bool}
    (settled : Settled toLowerCase state)
    (allowed : Allowed toLowerCase state (.unblock deviceId granted))
    (done : reply toLowerCase state (.unblock deviceId granted) = .unblocked) :
    Open toLowerCase deviceId (step toLowerCase state (.unblock deviceId granted)) := by
  rcases unblock_cases settled deviceId granted with
    failed | ⟨after, unblocked, wrote⟩ | ⟨unblocked, barred, pathless⟩
  · rw [reply, call, failed] at done
    cases done
  · rw [step, call, unblocked]
    obtain ⟨d, member, id⟩ := wrote.live
    obtain ⟨d', member', id', opened⟩ := wrote.scanned d member
    exact .inl ⟨d', member', id'.trans id, opened.trans (if_pos id)⟩
  · rw [step, call, unblocked]
    refine .inr ⟨fun d member same => allowed d member same (pathless d member same), ?_⟩
    rw [flag_authorize, if_pos rfl, barred]
    rfl

/-- The flag of a device with an attribute is the attribute. -/
theorem shown_attribute {state : State} (settled : Settled toLowerCase state) {bus : Bus} {e : Entry}
    (listed : e ∈ state.buses.entries bus) {d : ScannedDevice}
    (found : scanEntry toLowerCase bus e = some d) (has : e.attr "authorized" ≠ "") :
    shown toLowerCase state d.deviceId = some (decide (e.attr "authorized" ≠ "0")) := by
  have bare {other : Entry} (plain : other.writable = false) : other.attr "authorized" = "" := by
    have missing : other.files "authorized" = none := by simpa [Entry.writable] using plain
    rw [Entry.attr, missing]
    rfl
  have flagged : d ∈ scanAllBuses toLowerCase state.buses ∧
      d.authorized = decide (e.attr "authorized" ≠ "0") := by
    have inside : d ∈ (state.buses.entries bus).filterMap (scanEntry toLowerCase bus) :=
      List.mem_filterMap.mpr ⟨e, listed, found⟩
    simp only [scanAllBuses, List.mem_append]
    cases bus with
    | usb =>
      refine ⟨.inl (.inl (.inl (.inl inside))), ?_⟩
      simp only [scanEntry, usbDevice] at found
      split at found
      · cases found
      · rw [← Option.some.inj found]
    | thunderbolt =>
      refine ⟨.inl (.inl (.inl (.inr inside))), ?_⟩
      simp only [scanEntry, thunderboltDevice, if_neg has] at found
      split at found
      · cases found
      · rw [← Option.some.inj found]
    | pci => exact absurd (bare (settled.plain e (List.mem_append_left _ listed))) has
    | firewire => exact absurd (bare (settled.plain e (List.mem_append_right _ listed))) has
  rw [shown, reconcile, flag_of_mem settled.distinct flagged.1, flagged.2]
  by_cases member : d.deviceId ∈ state.store.whitelist
  · have free : e.attr "authorized" ≠ "0" := by
      intro zero
      exact settled.admitted _ member ⟨bus, e, listed, zero, d, found, rfl⟩
    simp [free]
  · rw [decide_eq_false member, Bool.false_or]

/-- Along calls that do not part the flag of a device from its attribute, every read shows what was
last done to a device, and what its attribute says. -/
theorem reads_truthful {start : State} {calls : List Call} (settled : Settled toLowerCase start)
    (allowed : Execution.Along (step toLowerCase) (Allowed toLowerCase) start calls) :
    Truthful toLowerCase start calls where
  blocked := by
    rintro deviceId before granted after rfl state done stays
    obtain ⟨front, here, back⟩ := Execution.along_append.mp allowed
    have reached : Settled toLowerCase state := run_settled settled front
    have barred := run_kept (fun s c settled' barred => barred_step settled' barred)
      (settled_step reached here) (barred_of_blocked reached here done) back stays
    rw [Execution.run_append, Execution.run_cons]
    exact barred.shown (run_settled (settled_step reached here) back)
  unblocked := by
    rintro deviceId before granted after rfl state done stays
    obtain ⟨front, here, back⟩ := Execution.along_append.mp allowed
    have reached : Settled toLowerCase state := run_settled settled front
    have admitted := run_kept (fun s c settled' admitted => open_step settled' admitted)
      (settled_step reached here) (open_of_unblocked reached here done) back stays
    rw [Execution.run_append, Execution.run_cons]
    exact admitted.shown (run_settled (settled_step reached here) back)
  sysfs := by
    intro bus e listed d found has
    exact shown_attribute (run_settled settled allowed) listed found has

/-- A memory stick, let in by its attribute. -/
def stick : Entry where
  name := "1-1"
  files := fun file => List.lookup file
    [("idVendor", "0781\n"), ("idProduct", "5567\n"), ("authorized", "1\n")]
  interfaces := ["08\n"]
  device := some 0

def stickId : String := "usb:0781:5567"

/-- A host with the stick, and an empty registry. -/
def stickStart : State where
  buses := {
    entries := fun bus => if bus = .usb then [stick] else []
    distinct := by
      intro bus
      cases bus <;> decide
    bluetooth := [] }
  store := { registry := .empty, alerts := [], whitelist := [], blockUnknownPCI := false }

theorem stickStart_settled : Settled id stickStart where
  plain := by
    intro e member
    cases member
  distinct := by exact of_decide_eq_true rfl
  admitted := by
    intro deviceId listed
    cases listed

theorem reads_truthful_stick : Truthful id stickStart [.read, .block stickId true, .read] :=
  reads_truthful stickStart_settled
    ⟨trivial, (by exact of_decide_eq_true rfl : stickId ∉ (step id stickStart .read).store.whitelist), trivial, trivial⟩

/-- A device that was let in by the whitelist is blocked; the next read shows it as let in. -/
theorem whitelisted_block_lost : ¬ Truthful id stickStart [.read, .whitelist stickId, .block stickId true] := by
  intro truthful
  have shown := truthful.blocked stickId [.read, .whitelist stickId] true [] rfl (by rfl) trivial
  exact absurd shown (by exact of_decide_eq_true rfl)

end SysDeck.Web.HwAlert
