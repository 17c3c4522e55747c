import SysDeck.Web.HwBlock

/-! Which physical devices the scans have noticed. -/

namespace SysDeck.Web.HwAlert

variable {toLowerCase : String → String}

/-! ### What one scanned device does to the registry -/

theorem find?_register_isSome (store : Store) (d : ScannedDevice) (deviceId : String) :
    ((register store d).registry.find? deviceId).isSome ↔
      deviceId = d.deviceId ∨ (store.registry.find? deviceId).isSome := by
  have flag := flag_register store d deviceId
  have some_iff (store : Store) : (store.registry.find? deviceId).isSome ↔ (store.flag deviceId).isSome := by
    rw [Store.flag, Option.isSome_map]
  rw [some_iff, some_iff, flag]
  split
  · rename_i same
    simp [same]
  · rename_i other
    simp [other]

/-- The rows and the alerts are about devices that were scanned. -/
structure Scanned (seen : List ScannedDevice) (store : Store) : Prop where
  row : ∀ deviceId row, store.registry.find? deviceId = some row →
    ∃ d ∈ seen, d.deviceId = deviceId ∧ d.device = row.device
  kept : ∀ d ∈ seen, (store.registry.find? d.deviceId).isSome
  alert : ∀ a ∈ store.alerts, ∃ d ∈ seen, d.device = a.device

theorem Scanned.register {seen : List ScannedDevice} {store : Store} (scanned : Scanned seen store)
    (d : ScannedDevice) : Scanned (seen ++ [d]) (register store d) where
  row := by
    intro deviceId row found
    have old {row : DeviceRow} (before : store.registry.find? deviceId = some row) :
        ∃ d' ∈ seen ++ [d], d'.deviceId = deviceId ∧ d'.device = row.device := by
      obtain ⟨d', member, same⟩ := scanned.row deviceId row before
      exact ⟨d', List.mem_append_left _ member, same⟩
    unfold HwAlert.register at found
    split at found
    · rcases OrderedMap.find?_modify_eq_some found with ⟨rfl, before, is, rfl⟩ | ⟨-, before⟩
      · obtain ⟨d', member, same⟩ := old is
        exact ⟨d', member, same⟩
      · exact old before
    · rw [OrderedMap.find?_set] at found
      split at found
      · rename_i same
        cases found
        exact ⟨d, by simp, same.symm, rfl⟩
      · exact old found
  kept := by
    intro d' member
    rw [find?_register_isSome]
    rcases List.mem_append.mp member with before | last
    · exact .inr (scanned.kept d' before)
    · exact .inl (congrArg _ (List.mem_singleton.mp last))
  alert := by
    intro a member
    have old (before : a ∈ store.alerts) : ∃ d' ∈ seen ++ [d], d'.device = a.device := by
      obtain ⟨d', inside, same⟩ := scanned.alert a before
      exact ⟨d', List.mem_append_left _ inside, same⟩
    unfold HwAlert.register at member
    split at member
    · exact old member
    · rcases List.mem_append.mp member with before | last
      · exact old before
      · split at last
        · obtain rfl := List.mem_singleton.mp last
          exact ⟨d, by simp, rfl⟩
        · cases last

theorem Scanned.registerAll {seen : List ScannedDevice} {store : Store} (scanned : Scanned seen store)
    (ds : List ScannedDevice) : Scanned (seen ++ ds) (ds.foldl HwAlert.register store) := by
  induction ds generalizing seen store with
  | nil => simpa using scanned
  | cons d ds ih =>
    rw [List.foldl_cons, List.append_cons]
    exact ih (scanned.register d)

theorem registerAll_isSome {store : Store} {ds : List ScannedDevice} {deviceId : String}
    (before : (store.registry.find? deviceId).isSome) :
    ((ds.foldl register store).registry.find? deviceId).isSome := by
  induction ds generalizing store with
  | nil => exact before
  | cons d ds ih => exact ih ((find?_register_isSome store d deviceId).mpr (.inr before))

/-- The active alerts about a physical device. -/
def Store.alertsOf (store : Store) (x : ℕ) : ℕ :=
  store.alerts.countP fun a => a.device = some x && a.state = "active"

/-- A device with a row raises no alert. -/
theorem alertsOf_known {store : Store} {d : ScannedDevice} {x : ℕ}
    (known : d.device = some x → (store.registry.find? d.deviceId).isSome) :
    (register store d).alertsOf x = store.alertsOf x := by
  unfold register
  split
  · rfl
  · rename_i fresh
    have other : d.device ≠ some x := by
      intro same
      simp [fresh] at known
      exact known same
    rw [Store.alertsOf, List.countP_append]
    split
    · simp [newAlert, other, Store.alertsOf]
    · rfl

/-- A new device raises one alert, or none where it is a PCI device that the policy lets pass. -/
theorem alertsOf_new {store : Store} {d : ScannedDevice} {x : ℕ} (is : d.device = some x)
    (fresh : store.registry.find? d.deviceId = none) :
    (register store d).alertsOf x =
      store.alertsOf x + if d.kind ≠ .pci ∨ store.blockUnknownPCI then 1 else 0 := by
  unfold register
  split
  · rename_i row found
    cases fresh.symm.trans found
  · rw [Store.alertsOf, List.countP_append]
    split
    · simp [newAlert, is, Store.alertsOf]
    · rfl

theorem alertsOf_registerAll {ds : List ScannedDevice} {store : Store} {x : ℕ}
    (known : ∀ d ∈ ds, d.device = some x → (store.registry.find? d.deviceId).isSome) :
    (ds.foldl register store).alertsOf x = store.alertsOf x := by
  induction ds generalizing store with
  | nil => rfl
  | cons d ds ih =>
    rw [List.foldl_cons, ih ?_, alertsOf_known (known d List.mem_cons_self)]
    intro other member is
    exact (find?_register_isSome store d _).mpr
      (.inr (known other (List.mem_cons_of_mem _ member) is))

@[simp] theorem blockUnknownPCI_registerAll (store : Store) (ds : List ScannedDevice) :
    (ds.foldl register store).blockUnknownPCI = store.blockUnknownPCI := by
  induction ds generalizing store with
  | nil => rfl
  | cons d ds ih =>
    rw [List.foldl_cons, ih]
    unfold register
    split <;> rfl

/-! ### Histories of bus states -/

/-- What a scan finds: the buses, and the settings at the time. -/
structure Moment where
  buses : Buses
  blockUnknownPCI : Bool
  whitelist : List String

def scanAt (toLowerCase : String → String) (store : Store) (m : Moment) : Store :=
  reconcile toLowerCase m.buses
    { store with blockUnknownPCI := m.blockUnknownPCI, whitelist := m.whitelist }

def emptyStore : Store :=
  { registry := .empty, alerts := [], whitelist := [], blockUnknownPCI := false }

/-- The physical device has an entry on a bus. -/
def OnBus (buses : Buses) (x : ℕ) (bus : Bus) : Prop := ∃ e ∈ buses.entries bus, e.device = some x

def Present (buses : Buses) (x : ℕ) : Prop :=
  (∃ bus, OnBus buses x bus) ∨ ∃ line ∈ buses.bluetooth, line.2 = some x

/-- The entries of physical devices pass the tests of their scans, and the cap. -/
structure Recognised (toLowerCase : String → String) (buses : Buses) : Prop where
  entry : ∀ bus, ∀ e ∈ buses.entries bus, e.device.isSome → (scanEntry toLowerCase bus e).isSome
  line : ∀ line ∈ buses.bluetooth, line.2.isSome → (deviceLine line.1).isSome
  cap : ((buses.entries .pci).filterMap pciDevice).length ≤ 128

/-- Whatever was scanned, ids and physical devices belong together. -/
structure OwnIds (scanned : List ScannedDevice) : Prop where
  device : ∀ d ∈ scanned, ∀ d' ∈ scanned, d.deviceId = d'.deviceId → d.device = d'.device
  id : ∀ d ∈ scanned, ∀ d' ∈ scanned, ∀ x, d.device = some x → d'.device = some x →
    d.deviceId = d'.deviceId

/-- Everything that the history scans. -/
def allScanned (toLowerCase : String → String) (history : List Moment) : List ScannedDevice :=
  history.flatMap fun m => scanAllBuses toLowerCase m.buses

theorem scanEntry_device {bus : Bus} {e : Entry} {d : ScannedDevice}
    (found : scanEntry toLowerCase bus e = some d) : d.device = e.device := by
  cases bus <;>
  · simp only [scanEntry, usbDevice, thunderboltDevice, pciDevice, firewireDevice] at found
    split at found
    all_goals cases found
    all_goals rfl

/-- The ids of PCI devices begin as no other ids do. -/
theorem scanEntry_kind {bus : Bus} {e : Entry} {d : ScannedDevice}
    (found : scanEntry toLowerCase bus e = some d) :
    (d.kind = .pci ↔ bus = .pci) ∧ (d.deviceId.toList.head? = some 'p' ↔ bus = .pci) := by
  cases bus with
  | usb =>
    simp only [scanEntry, usbDevice] at found
    split at found
    · cases found
    · cases found
      split
      · simp
      · simp
  | thunderbolt =>
    simp only [scanEntry, thunderboltDevice] at found
    split at found
    · cases found
    · cases found
      simp
  | pci =>
    simp only [scanEntry, pciDevice] at found
    split at found
    · cases found
    · cases found
      simp
  | firewire =>
    simp only [scanEntry, firewireDevice] at found
    split at found
    · cases found
      simp
    · cases found

theorem exists_scanned {buses : Buses} (recognised : Recognised toLowerCase buses) {x : ℕ}
    (present : Present buses x) : ∃ d ∈ scanAllBuses toLowerCase buses, d.device = some x := by
  rcases present with ⟨bus, e, listed, is⟩ | ⟨line, listed, is⟩
  · obtain ⟨d, found⟩ := Option.isSome_iff_exists.mp (recognised.entry bus e listed (by simp [is]))
    refine ⟨d, ?_, (scanEntry_device found).trans is⟩
    have inside : d ∈ (buses.entries bus).filterMap (scanEntry toLowerCase bus) :=
      List.mem_filterMap.mpr ⟨e, listed, found⟩
    simp only [scanAllBuses, List.mem_append]
    cases bus with
    | usb => exact .inl (.inl (.inl (.inl inside)))
    | thunderbolt => exact .inl (.inl (.inl (.inr inside)))
    | pci =>
      rw [scanPci, List.take_of_length_le recognised.cap]
      exact .inl (.inl (.inr inside))
    | firewire => exact .inr inside
  · have scanned : (bluetoothDevice line).isSome := by
      rw [bluetoothDevice, Option.isSome_map]
      exact recognised.line line listed (by simp [is])
    obtain ⟨d, found⟩ := Option.isSome_iff_exists.mp scanned
    have device : d.device = some x := by
      obtain ⟨_, -, rfl⟩ := Option.map_eq_some_iff.mp found
      exact is
    refine ⟨d, ?_, device⟩
    simp only [scanAllBuses, List.mem_append]
    exact .inl (.inr (List.mem_filterMap.mpr ⟨line, listed, found⟩))

theorem present_of_scanned {buses : Buses} {d : ScannedDevice}
    (member : d ∈ scanAllBuses toLowerCase buses) {x : ℕ} (is : d.device = some x) :
    Present buses x := by
  rcases mem_scanAllBuses member with ⟨bus, e, listed, found⟩ | ⟨line, listed, found⟩
  · exact .inl ⟨bus, e, listed, (scanEntry_device found).symm.trans is⟩
  · obtain ⟨_, -, rfl⟩ := Option.map_eq_some_iff.mp found
    exact .inr ⟨line, listed, is⟩

theorem scanned_kind {buses : Buses} {d : ScannedDevice}
    (member : d ∈ scanAllBuses toLowerCase buses) :
    d.kind = .pci ↔ d.deviceId.toList.head? = some 'p' := by
  rcases mem_scanAllBuses member with ⟨bus, e, listed, found⟩ | ⟨line, listed, found⟩
  · obtain ⟨kind, id⟩ := scanEntry_kind found
    rw [kind, id]
  · obtain ⟨_, -, rfl⟩ := Option.map_eq_some_iff.mp found
    simp

/-! ### Every device has a row, and one alert -/

/-- What the history has noticed, and whom a block on the buses of now is for. -/
structure Detected (toLowerCase : String → String) (history : List Moment) (now : Buses) : Prop where
  row : ∀ m ∈ history, ∀ x, Present m.buses x → ∃ deviceId row,
    (Execution.run (scanAt toLowerCase) emptyStore history).registry.find? deviceId = some row ∧
      row.device = some x
  alert : ∀ before m after x, history = before ++ m :: after → Present m.buses x →
    (∀ earlier ∈ before, ¬ Present earlier.buses x) →
    (¬ OnBus m.buses x .pci ∨ m.blockUnknownPCI →
      (Execution.run (scanAt toLowerCase) emptyStore history).alertsOf x = 1) ∧
    (OnBus m.buses x .pci → m.blockUnknownPCI = false →
      (Execution.run (scanAt toLowerCase) emptyStore history).alertsOf x = 0)
  block : ∀ deviceId granted row after,
    (Execution.run (scanAt toLowerCase) emptyStore history).registry.find? deviceId = some row →
    block toLowerCase ⟨now, Execution.run (scanAt toLowerCase) emptyStore history⟩ deviceId granted =
      (after, .blocked) →
    ∃ path, after.buses = now.write path "0" ∧
      ∀ e ∈ now.entries path.bus, e.name = path.entry → e.device = row.device

theorem Scanned.run {seen : List ScannedDevice} {store : Store} (scanned : Scanned seen store)
    (history : List Moment) :
    Scanned (seen ++ allScanned toLowerCase history)
      (Execution.run (scanAt toLowerCase) store history) := by
  induction history generalizing seen store with
  | nil => simpa [allScanned] using scanned
  | cons m history ih =>
    have settings : Scanned seen
        { store with blockUnknownPCI := m.blockUnknownPCI, whitelist := m.whitelist } :=
      ⟨scanned.row, scanned.kept, scanned.alert⟩
    have later := ih (settings.registerAll (scanAllBuses toLowerCase m.buses))
    rwa [List.append_assoc] at later

theorem scanned_empty : Scanned [] emptyStore where
  row := by
    intro deviceId row found
    cases found
  kept := by
    intro d member
    cases member
  alert := by
    intro a member
    cases member

theorem scanned_run (history : List Moment) :
    Scanned (allScanned toLowerCase history)
      (Execution.run (scanAt toLowerCase) emptyStore history) :=
  scanned_empty.run history

theorem alertsOf_run {history : List Moment} {store : Store} {x : ℕ}
    (known : ∀ d ∈ allScanned toLowerCase history, d.device = some x →
      (store.registry.find? d.deviceId).isSome) :
    (Execution.run (scanAt toLowerCase) store history).alertsOf x = store.alertsOf x := by
  induction history generalizing store with
  | nil => rfl
  | cons m history ih =>
    have first : (scanAt toLowerCase store m).alertsOf x = store.alertsOf x :=
      alertsOf_registerAll fun d member => known d (List.mem_append_left _ member)
    rw [Execution.run_cons, ih ?_, first]
    intro d member is
    have before := known d (List.mem_append_right _ member) is
    exact registerAll_isSome before

theorem alertsOf_eq_zero {seen : List ScannedDevice} {store : Store} (scanned : Scanned seen store)
    {x : ℕ} (never : ∀ d ∈ seen, d.device ≠ some x) : store.alertsOf x = 0 := by
  refine List.countP_eq_zero.mpr fun a member => ?_
  obtain ⟨d, inside, same⟩ := scanned.alert a member
  have other : a.device ≠ some x := same ▸ never d inside
  simp [other]

theorem OwnIds.mono {scanned more : List ScannedDevice} (own : OwnIds more)
    (subset : scanned ⊆ more) : OwnIds scanned where
  device := fun d member d' member' => own.device d (subset member) d' (subset member')
  id := fun d member d' member' => own.id d (subset member) d' (subset member')

/-- The scan in which a device is seen for the first time raises its alert. -/
theorem alertsOf_first {seen pre post : List ScannedDevice} {store : Store} {d : ScannedDevice} {x : ℕ}
    (scanned : Scanned seen store) (own : OwnIds (seen ++ (pre ++ d :: post))) (is : d.device = some x)
    (never : ∀ d' ∈ seen ++ pre, d'.device ≠ some x) :
    ((pre ++ d :: post).foldl register store).alertsOf x =
      if d.kind ≠ .pci ∨ store.blockUnknownPCI then 1 else 0 := by
  have front := scanned.registerAll pre
  have here : d ∈ seen ++ (pre ++ d :: post) := by simp
  have earlier : seen ++ pre ⊆ seen ++ (pre ++ d :: post) := by
    rw [← List.append_assoc]
    exact List.subset_append_left _ _
  have fresh : (pre.foldl register store).registry.find? d.deviceId = none := by
    refine Option.eq_none_iff_forall_ne_some.mpr fun row found => ?_
    obtain ⟨d', member, same, -⟩ := front.row _ _ found
    exact never d' member ((own.device d' (earlier member) d here same).trans is)
  rw [List.foldl_append, List.foldl_cons, alertsOf_registerAll ?_, alertsOf_new is fresh,
    alertsOf_eq_zero front never, blockUnknownPCI_registerAll, Nat.zero_add]
  intro other member is'
  have inside : other ∈ seen ++ (pre ++ d :: post) := by simp [member]
  exact (find?_register_isSome _ d _).mpr (.inl (own.id other inside d here x is' is))

/-- The first element of a list with a property. -/
theorem exists_first {ds : List ScannedDevice} {x : ℕ} (found : ∃ d ∈ ds, d.device = some x) :
    ∃ pre d post, ds = pre ++ d :: post ∧ d.device = some x ∧ ∀ d' ∈ pre, d'.device ≠ some x := by
  induction ds with
  | nil => simp at found
  | cons first ds ih =>
    by_cases here : first.device = some x
    · exact ⟨[], first, ds, rfl, here, by simp⟩
    · obtain ⟨pre, d, post, rfl, is, none⟩ := ih (by simpa [here] using found)
      exact ⟨first :: pre, d, post, rfl, is, List.forall_mem_cons.mpr ⟨here, none⟩⟩

theorem mem_allScanned {history : List Moment} {m : Moment} (member : m ∈ history) {d : ScannedDevice}
    (scanned : d ∈ scanAllBuses toLowerCase m.buses) : d ∈ allScanned toLowerCase history :=
  List.mem_flatMap.mpr ⟨m, member, scanned⟩

/-- The kind of a scanned device, by the bus of the physical one. -/
theorem kind_iff_onBus {buses : Buses} (recognised : Recognised toLowerCase buses)
    (own : OwnIds (scanAllBuses toLowerCase buses)) {d : ScannedDevice}
    (member : d ∈ scanAllBuses toLowerCase buses) {x : ℕ} (is : d.device = some x) :
    d.kind = .pci ↔ OnBus buses x .pci := by
  constructor
  · intro pci
    rcases mem_scanAllBuses member with ⟨bus, e, listed, found⟩ | ⟨line, -, found⟩
    · obtain rfl := (scanEntry_kind found).1.mp pci
      exact ⟨e, listed, (scanEntry_device found).symm.trans is⟩
    · obtain ⟨_, -, rfl⟩ := Option.map_eq_some_iff.mp found
      cases pci
  · rintro ⟨e, listed, is'⟩
    obtain ⟨d', found⟩ := Option.isSome_iff_exists.mp (recognised.entry .pci e listed (by simp [is']))
    have inside : d' ∈ scanAllBuses toLowerCase buses := by
      simp only [scanAllBuses, List.mem_append]
      rw [scanPci, List.take_of_length_le recognised.cap]
      exact .inl (.inl (.inr (List.mem_filterMap.mpr ⟨e, listed, found⟩)))
    rw [scanned_kind member, own.id d member d' inside x is ((scanEntry_device found).trans is')]
    exact (scanEntry_kind found).2.mpr rfl

/-- The alerts of a device, from the scan that saw it first. -/
theorem alertsOf_history {before after : List Moment} {m : Moment} {x : ℕ}
    (recognised : Recognised toLowerCase m.buses)
    (own : OwnIds (allScanned toLowerCase (before ++ m :: after))) (present : Present m.buses x)
    (unseen : ∀ earlier ∈ before, ¬ Present earlier.buses x) [Decidable (OnBus m.buses x .pci)] :
    (Execution.run (scanAt toLowerCase) emptyStore (before ++ m :: after)).alertsOf x =
      if ¬ OnBus m.buses x .pci ∨ m.blockUnknownPCI then 1 else 0 := by
  have scanned := @scanned_run toLowerCase before
  have everything : allScanned toLowerCase (before ++ m :: after) =
      allScanned toLowerCase before ++ (scanAllBuses toLowerCase m.buses ++
        allScanned toLowerCase after) := by
    simp [allScanned]
  rw [everything] at own
  obtain ⟨pre, d, post, split, is, first⟩ := exists_first (exists_scanned recognised present)
  have member : d ∈ scanAllBuses toLowerCase m.buses := by simp [split]
  have never : ∀ d' ∈ allScanned toLowerCase before ++ pre, d'.device ≠ some x := by
    intro d' member is'
    rcases List.mem_append.mp member with inside | inside
    · obtain ⟨earlier, listed, scanned'⟩ := List.mem_flatMap.mp inside
      exact unseen earlier listed (present_of_scanned scanned' is')
    · exact first d' inside is'
  have count : (scanAt toLowerCase (Execution.run (scanAt toLowerCase) emptyStore before) m).alertsOf x =
      if d.kind ≠ .pci ∨ m.blockUnknownPCI then 1 else 0 := by
    unfold scanAt reconcile
    rw [split]
    refine @alertsOf_first _ pre post _ d x ⟨scanned.row, scanned.kept, scanned.alert⟩ (own.mono ?_) is never
    rw [← split, ← List.append_assoc]
    exact List.subset_append_left _ _
  have kept : (scanAt toLowerCase (Execution.run (scanAt toLowerCase) emptyStore before)
      m).registry.find? d.deviceId |>.isSome := by
    have seen := @scanned_run toLowerCase (before ++ [m])
    rw [Execution.run_append] at seen
    exact seen.kept d (mem_allScanned (by simp) member)
  have here : d ∈ allScanned toLowerCase before ++ (scanAllBuses toLowerCase m.buses ++
      allScanned toLowerCase after) := by simp [member]
  rw [Execution.run_append, Execution.run_cons, alertsOf_run ?_, count]
  · have kind := kind_iff_onBus recognised (own.mono ?_) member is
    · exact if_congr (or_congr (not_congr kind) Iff.rfl) rfl rfl
    · intro d' inside
      simp [inside]
  · intro d' inside is'
    rw [own.id d' (by simp [inside]) d here x is' is]
    exact kept

/-- Where ids and physical devices belong together, and no scan leaves a device out, every device
has a row and one alert, and a block is for the device of the row. -/
theorem scans_detect {history : List Moment} {now : Buses}
    (recognised : ∀ m ∈ history, Recognised toLowerCase m.buses)
    (own : OwnIds (allScanned toLowerCase history ++ scanAllBuses toLowerCase now)) :
    Detected toLowerCase history now where
  row := by
    intro m member x present
    have seen := @scanned_run toLowerCase history
    obtain ⟨d, scanned, is⟩ := exists_scanned (recognised m member) present
    have inside := mem_allScanned member scanned
    obtain ⟨row, found⟩ := Option.isSome_iff_exists.mp (seen.kept d inside)
    obtain ⟨d', member', same, device⟩ := seen.row _ row found
    refine ⟨d.deviceId, row, found, ?_⟩
    rw [← device, ← is]
    exact own.device d' (List.mem_append_left _ member') d (List.mem_append_left _ inside) same
  alert := by
    rintro before m after x rfl present unseen
    have count := @alertsOf_history toLowerCase before after m x (recognised m (by simp))
      (own.mono (List.subset_append_left _ _)) present unseen (Classical.dec _)
    constructor
    · intro alerted
      rw [count, if_pos alerted]
    · intro pci off
      rw [count, if_neg (by simp [pci, off])]
  block := by
    intro deviceId granted row after found done
    have seen := @scanned_run toLowerCase history
    obtain ⟨d, path, live, at', -, rfl⟩ := block_path done
    have member := List.mem_of_find?_eq_some live
    obtain rfl : d.deviceId = deviceId := by simpa using List.find?_some live
    obtain ⟨d', member', same, device⟩ := seen.row _ row found
    refine ⟨path, rfl, ?_⟩
    intro e listed name
    obtain ⟨e', listed', name', found'⟩ := mem_scan_path member at'
    obtain rfl := List.inj_on_of_nodup_map (now.distinct path.bus) listed listed' (name.trans name'.symm)
    rw [← device, ← scanEntry_device found']
    exact own.device d (List.mem_append_right _ member) d' (List.mem_append_left _ member') same.symm

def stickMoment (entries : List Entry) (distinct : (entries.map Entry.name).Nodup) : Moment where
  buses := {
    entries := fun bus => if bus = .usb then entries else []
    distinct := by
      intro bus
      cases bus with
      | usb => exact distinct
      | thunderbolt | pci | firewire => exact List.nodup_nil
    bluetooth := [] }
  blockUnknownPCI := false
  whitelist := []

/-- A memory stick is plugged in. -/
def oneStick : Moment := stickMoment [stick] (by decide)

/-- And another one of its model. -/
def twoSticks : Moment := stickMoment [stick, { stick with name := "1-2", device := some 1 }] (by decide)

theorem scans_detect_stick : Detected id [oneStick] oneStick.buses := by
  have scan : (scanAllBuses id oneStick.buses).map (fun d => (d.deviceId, d.device)) =
      [(stickId, some 0)] := by decide +kernel
  have single : ∀ d ∈ allScanned id [oneStick] ++ scanAllBuses id oneStick.buses,
      d.deviceId = stickId ∧ d.device = some 0 := by
    intro d member
    have inside : d ∈ scanAllBuses id oneStick.buses := by simpa [allScanned] using member
    have image := List.mem_map_of_mem (f := fun d : ScannedDevice => (d.deviceId, d.device)) inside
    rw [scan, List.mem_singleton, Prod.mk.injEq] at image
    exact image
  refine scans_detect (List.forall_mem_singleton.mpr ⟨?_, ?_, ?_⟩) ⟨?_, ?_⟩
  · intro bus e listed
    cases bus with
    | usb =>
      obtain rfl := List.mem_singleton.mp listed
      decide +kernel
    | thunderbolt | pci | firewire => cases listed
  · intro line listed
    cases listed
  · decide +kernel
  · intro d member d' member' _
    rw [(single d member).2, (single d' member').2]
  · intro d member d' member' x _ _
    rw [(single d member).1, (single d' member').1]

/-- The second stick of a model has no row of its own. -/
theorem second_stick_unseen : ¬ Detected id [oneStick, twoSticks] twoSticks.buses := by
  intro detected
  have present : Present twoSticks.buses 1 := .inl ⟨.usb, { stick with name := "1-2", device := some 1 },
    List.mem_cons_of_mem _ List.mem_cons_self, rfl⟩
  obtain ⟨deviceId, row, found, is⟩ := detected.row twoSticks (by simp) 1 present
  have rows : ∀ row ∈ (Execution.run (scanAt id) emptyStore [oneStick, twoSticks]).registry.values,
      row.device = some 0 := by decide +kernel
  exact absurd ((rows row (OrderedMap.mem_values found)).symm.trans is) (by decide)

end SysDeck.Web.HwAlert
