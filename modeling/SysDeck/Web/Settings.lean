import Mathlib.Data.List.Permutation
import Mathlib.Data.List.Lex
import Mathlib.Order.Fin.Basic
import SysDeck.Library.Execution
import SysDeck.Library.OrderedMap
import SysDeck.Library.Utf16
import SysDeck.Web.Firewall

/-! The commands that read a stored list or map, change it and write it back, and requests that
run them at the same time: every await is a point where another request may go on. -/

namespace SysDeck.Web.Settings

open Firewall (trim)

/-! ### What is stored -/

/-- The keys `shell.disabled`, `hwalert.whitelist`, `hwalert.policy` and `vault.keyfiles`. -/
inductive SettingKey where
  | disabled
  | whitelist
  | policy
  | keyfiles
  deriving DecidableEq

abbrev SettingKey.Value : SettingKey → Type
  | .policy => OrderedMap String Bool
  | _ => List String

/-- The values of `SdKv`, none where a key has no row. -/
abbrev SdKv := (key : SettingKey) → Option key.Value

inductive Request where
  | setToggle (id : String) (enabled : Bool)
  | whitelist (deviceId : String)
  | unwhitelist (deviceId : String)
  | setPolicy (key : String) (value : Option String)
  | registerKeyfile (path : String)
  deriving DecidableEq

abbrev Request.key : Request → SettingKey
  | .setToggle .. => .disabled
  | .whitelist _ | .unwhitelist _ => .whitelist
  | .setPolicy .. => .policy
  | .registerKeyfile _ => .keyfiles

/-! ### The changes -/

def PROTECTED : List String := ["overview"]

def DEFAULT_POLICY : List (String × Bool) :=
  [("blockUsbStorage", true), ("blockThunderboltDMA", true), ("blockFirewireDMA", true),
    ("blockUnknownBluetooth", true), ("blockUnknownPCI", false), ("autoBlock", true),
    ("alertOnly", false), ("whitelistEnforced", true)]

def POLICY_KEYS : List String := DEFAULT_POLICY.map Prod.fst

/-- `[...ids].sort()`: by code units. -/
def sort (ids : List String) : List String :=
  ids.mergeSort fun a b => decide (Utf16.encode a.toList ≤ Utf16.encode b.toList)

/-- `if (!list.includes(id)) list.push(id)` -/
def pushNew (ids : List String) (id : String) : List String := if id ∈ ids then ids else ids ++ [id]

/-- `new Set(ids)`, in the order of its iteration. -/
def setOf (ids : List String) : List String := ids.foldl pushNew []

section
variable (moduleMap : String → Bool)

def readDisabled (stored : Option (List String)) : List String := (stored.getD []).filter moduleMap

def getPolicy (stored : Option (OrderedMap String Bool)) : OrderedMap String Bool :=
  (stored.getD .empty).entries.foldl (fun policy entry => policy.set entry.1 entry.2)
    (.ofList DEFAULT_POLICY)

/-- The value that a request writes, from the value that it read. -/
def Request.change : (r : Request) → Option r.key.Value → r.key.Value
  | .setToggle id enabled, stored =>
    let disabled := setOf (readDisabled moduleMap stored)
    sort (sort (if enabled then disabled.filter (· ≠ id) else pushNew disabled id))
  | .whitelist deviceId, stored => pushNew (stored.getD []) deviceId
  | .unwhitelist deviceId, stored => (stored.getD []).filter (· ≠ deviceId)
  | .setPolicy key value, stored => (getPolicy stored).set key (value.getD "true" = "true")
  | .registerKeyfile path, stored => pushNew (stored.getD []) (trim path)

/-! ### Requests that run at the same time -/

/-- What a request waits for. -/
inductive Stage (r : Request) where
  /-- `db.hwDevice.findUnique` -/
  | device
  /-- `db.hwDevice.update` -/
  | mark
  | stat
  | read
  | write (seen : Option r.key.Value)
  | audit
  | finished (acknowledged : Bool)

structure Database where
  settings : SdKv
  /-- The column `whitelisted` of the registry of devices. -/
  whitelisted : String → Option Bool

/-- A request up to its first await. -/
def Request.start : (r : Request) → Stage r
  | .setToggle id _ => if moduleMap id ∧ id ∉ PROTECTED then .read else .finished false
  | .whitelist deviceId | .unwhitelist deviceId =>
    if deviceId = "" then .finished false else .device
  | .setPolicy key _ => if key ∈ POLICY_KEYS then .read else .finished false
  | .registerKeyfile path =>
    if "/".toList <+: (trim path).toList then .stat else .finished false

/-- The value that `whitelist` and `unwhitelist` want in the row of the device. -/
def Request.mark : Request → Option (String × Bool)
  | .whitelist deviceId => some (deviceId, true)
  | .unwhitelist deviceId => some (deviceId, false)
  | _ => none

/-- A request from one await to the next. The file of a key may be missing. -/
def Stage.resume (db : Database) (r : Request) (found : Bool) : Stage r → Database × Stage r
  | .device =>
    match r.mark with
    | some (deviceId, wanted) =>
      (db, if db.whitelisted deviceId = some (!wanted) then .mark else .finished false)
    | none => (db, .finished false)
  | .mark =>
    match r.mark with
    | some (deviceId, wanted) =>
      ({ db with whitelisted := Function.update db.whitelisted deviceId (some wanted) }, .read)
    | none => (db, .finished false)
  | .stat => (db, if found then .read else .finished false)
  | .read => (db, .write (db.settings r.key))
  | .write seen =>
    ({ db with settings := Function.update db.settings r.key (some (r.change moduleMap seen)) }, .audit)
  | .audit => (db, .finished true)
  | .finished acknowledged => (db, .finished acknowledged)

structure Task where
  request : Request
  stage : Stage request

structure Server where
  db : Database
  tasks : List Task

inductive Event where
  | arrive (request : Request)
  | resume (index : ℕ) (found : Bool)

def Server.step (server : Server) : Event → Server
  | .arrive request =>
    { server with tasks := server.tasks ++ [⟨request, request.start moduleMap⟩] }
  | .resume index found =>
    match server.tasks[index]? with
    | none => server
    | some task =>
      let (db, stage) := task.stage.resume moduleMap server.db task.request found
      { db, tasks := server.tasks.set index ⟨task.request, stage⟩ }

end

/-! ### The changes one after another -/

variable {moduleMap : String → Bool}

/-- A request that runs alone. -/
def change (moduleMap : String → Bool) (settings : SdKv) (r : Request) : SdKv :=
  Function.update settings r.key (some (r.change moduleMap (settings r.key)))

/-- The request has written. -/
def Stage.committed {r : Request} : Stage r → Bool
  | .audit => true
  | .finished acknowledged => acknowledged
  | _ => false

def Stage.acknowledged {r : Request} : Stage r → Bool
  | .finished acknowledged => acknowledged
  | _ => false

def Stage.returned {r : Request} : Stage r → Bool
  | .finished _ => true
  | _ => false

def Server.acknowledged (server : Server) : List Request :=
  (server.tasks.filter (·.stage.acknowledged)).map Task.request

def Server.committed (server : Server) : List Request :=
  (server.tasks.filter (·.stage.committed)).map Task.request

/-- The stored values are those of the acknowledged changes, one after another. -/
def Serial (moduleMap : String → Bool) (start : SdKv) (server : Server) : Prop :=
  ∃ order : List Request, order.Perm server.acknowledged ∧
    server.db.settings = order.foldl (change moduleMap) start

/-- A request that writes now has read the value that is still stored. -/
def Fresh (server : Server) : Event → Prop
  | .arrive _ => True
  | .resume index _ => ∀ task ∈ server.tasks[index]?, ∀ seen, task.stage = .write seen →
    server.db.settings task.request.key = seen

/-- What has been written is what the requests that have written wrote, one after another. -/
def Committed (moduleMap : String → Bool) (start : SdKv) (server : Server) : Prop :=
  ∃ order : List Request, order.Perm server.committed ∧
    server.db.settings = order.foldl (change moduleMap) start

theorem committed_start (r : Request) : (r.start moduleMap).committed = false := by
  cases r with
  | setToggle | setPolicy | registerKeyfile =>
    simp only [Request.start]
    split <;> rfl
  | whitelist | unwhitelist =>
    simp only [Request.start]
    split <;> rfl

/-- A resumed request writes its change of the value that it read, or none. -/
theorem resume_cases (db : Database) {r : Request} (found : Bool) (stage : Stage r) :
    ((stage.resume moduleMap db r found).1.settings = db.settings ∧
        (stage.resume moduleMap db r found).2.committed = stage.committed) ∨
      ∃ seen, stage = .write seen ∧
        (stage.resume moduleMap db r found).1.settings =
          Function.update db.settings r.key (some (r.change moduleMap seen)) ∧
        (stage.resume moduleMap db r found).2.committed = true ∧ stage.committed = false := by
  cases stage with
  | device =>
    refine .inl ?_
    simp only [Stage.resume]
    split
    · refine ⟨rfl, ?_⟩
      simp only
      split <;> rfl
    · exact ⟨rfl, rfl⟩
  | mark =>
    refine .inl ?_
    simp only [Stage.resume]
    split <;> exact ⟨rfl, rfl⟩
  | stat => cases found <;> exact .inl ⟨rfl, rfl⟩
  | read => exact .inl ⟨rfl, rfl⟩
  | write seen => exact .inr ⟨seen, rfl, rfl, rfl, rfl⟩
  | audit => exact .inl ⟨rfl, rfl⟩
  | finished acknowledged => exact .inl ⟨rfl, rfl⟩

/-- A task that is replaced stands between the same tasks. -/
theorem tasks_set {tasks : List Task} {index : ℕ} {task : Task} (here : tasks[index]? = some task)
    (next : Task) : ∃ before after, tasks = before ++ task :: after ∧
      tasks.set index next = before ++ next :: after := by
  obtain ⟨inside, rfl⟩ := List.getElem?_eq_some_iff.mp here
  obtain ⟨before, after, split, -, set⟩ := List.exists_of_set inside
  exact ⟨before, after, split, set⟩

theorem committed_step {start : SdKv} {server : Server} {event : Event}
    (committed : Committed moduleMap start server) (fresh : Fresh server event) :
    Committed moduleMap start (server.step moduleMap event) := by
  obtain ⟨order, perm, stored⟩ := committed
  cases event with
  | arrive request =>
    refine ⟨order, ?_, stored⟩
    simpa [Server.step, Server.committed, committed_start] using perm
  | resume index found =>
    cases here : server.tasks[index]? with
    | none =>
      rw [Server.step, here]
      exact ⟨order, perm, stored⟩
    | some task =>
      obtain ⟨request, stage⟩ := task
      have stepped : server.step moduleMap (.resume index found) =
          { db := (stage.resume moduleMap server.db request found).1
            tasks := server.tasks.set index
              ⟨request, (stage.resume moduleMap server.db request found).2⟩ } := by
        rw [Server.step, here]
      obtain ⟨before, after, split, set⟩ :=
        tasks_set here ⟨request, (stage.resume moduleMap server.db request found).2⟩
      rw [stepped]
      unfold Committed Server.committed at *
      simp only [set]
      rw [split, List.filter_append, List.map_append] at perm
      rw [List.filter_append, List.map_append]
      rcases resume_cases server.db found stage with ⟨settings, same⟩ | ⟨seen, rfl, wrote, now, not⟩
      · refine ⟨order, ?_, settings.trans stored⟩
        rw [List.filter_cons] at perm ⊢
        simp only [same]
        split at perm
        · rename_i yes
          rwa [if_pos yes]
        · rename_i no
          rwa [if_neg no]
      · refine ⟨order ++ [request], ?_, ?_⟩
        · rw [List.filter_cons_of_neg (by simp [not])] at perm
          rw [List.filter_cons_of_pos (by simpa using now), List.map_cons]
          refine (List.perm_append_singleton request order).trans ?_
          exact (perm.cons request).trans List.perm_middle.symm
        · have read : server.db.settings request.key = seen :=
            fresh ⟨request, .write seen⟩ (by rw [here]; rfl) seen rfl
          rw [List.foldl_append, ← stored, wrote, ← read]
          rfl

/-- In every run in which a request writes only what it made of the value that is still stored, the
stored values are, once all have returned, those of the acknowledged changes one after another. -/
theorem changes_serial {db : Database} {events : List Event}
    (fresh : Execution.Along (Server.step moduleMap) Fresh ⟨db, []⟩ events)
    (returned : ∀ task ∈ (Execution.run (Server.step moduleMap) ⟨db, []⟩ events).tasks,
      task.stage.returned) :
    Serial moduleMap db.settings (Execution.run (Server.step moduleMap) ⟨db, []⟩ events) := by
  have committed : Committed moduleMap db.settings
      (Execution.run (Server.step moduleMap) ⟨db, []⟩ events) :=
    Execution.invariant_along (fun _ _ fresh committed => committed_step committed fresh)
      ⟨[], List.Perm.nil, rfl⟩ fresh
  obtain ⟨order, perm, stored⟩ := committed
  refine ⟨order, ?_, stored⟩
  have same : (Execution.run (Server.step moduleMap) ⟨db, []⟩ events).acknowledged =
      (Execution.run (Server.step moduleMap) ⟨db, []⟩ events).committed := by
    refine congrArg _ (List.filter_congr fun task member => ?_)
    have done := returned task member
    obtain ⟨request, stage⟩ := task
    cases stage with
    | finished acknowledged => rfl
    | _ => cases done
  rwa [same]

/-- Only a request that is about to write has something to compare. -/
def freshTask (db : Database) : Option Task → Prop
  | some ⟨r, .write seen⟩ => db.settings r.key = seen
  | _ => True

theorem fresh_of_task {server : Server} {index : ℕ} {found : Bool}
    (task : freshTask server.db server.tasks[index]?) : Fresh server (.resume index found) := by
  intro ⟨r, stage⟩ here
  rw [Option.mem_def.mp here] at task
  show ∀ seen : Option r.key.Value, stage = .write seen → server.db.settings r.key = seen
  rintro seen rfl
  exact task

/-- Nothing is stored. -/
def emptyDatabase : Database where
  settings := fun _ => none
  whitelisted := fun _ => none

def keyA : Request := .registerKeyfile "/root/a.key"

def keyB : Request := .registerKeyfile "/root/b.key"

/-- The first request has returned when the second one comes. -/
def oneByOne : List Event :=
  [.arrive keyA, .resume 0 true, .resume 0 true, .resume 0 true, .resume 0 true,
    .arrive keyB, .resume 1 true, .resume 1 true, .resume 1 true, .resume 1 true]

/-- Both requests read before one of them writes. -/
def together : List Event :=
  [.arrive keyA, .arrive keyB, .resume 0 true, .resume 1 true, .resume 0 true, .resume 1 true,
    .resume 0 true, .resume 1 true, .resume 0 true, .resume 1 true]

def afterwards (events : List Event) : Server :=
  Execution.run (Server.step fun _ => true) ⟨emptyDatabase, []⟩ events

theorem changes_serial_oneByOne :
    Serial (fun _ => true) emptyDatabase.settings (afterwards oneByOne) :=
  changes_serial
    ⟨trivial, fresh_of_task trivial, fresh_of_task trivial, fresh_of_task rfl, fresh_of_task trivial,
      trivial, fresh_of_task trivial, fresh_of_task trivial, fresh_of_task rfl, fresh_of_task trivial,
      trivial⟩
    (by decide +kernel)

/-- The key that was written first is gone. -/
theorem together_loses_key :
    (∀ task ∈ (afterwards together).tasks, task.stage.returned) ∧
      ¬ Serial (fun _ => true) emptyDatabase.settings (afterwards together) := by
  refine ⟨by decide +kernel, ?_⟩
  rintro ⟨order, perm, stored⟩
  have both : (afterwards together).acknowledged = [keyA, keyB] := by decide +kernel
  have kept : (afterwards together).db.settings .keyfiles = some ["/root/b.key"] := by decide +kernel
  rw [both, List.perm_pair] at perm
  rw [stored] at kept
  rcases perm with rfl | rfl
  · exact absurd kept (by decide +kernel)
  · exact absurd kept (by decide +kernel)

end SysDeck.Web.Settings
