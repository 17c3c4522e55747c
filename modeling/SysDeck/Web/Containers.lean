import SysDeck.Library.Json
import SysDeck.Library.Lines
import SysDeck.Web.Firewall

/-! The containers bridge: the rows of all runtimes in one list, and the commands that act on the
instance of an id. -/

namespace SysDeck.Web.Containers

open Firewall (trim)

inductive Driver where
  | podman
  | docker
  | incus
  | lxc
  | libvirt
  | firecracker
  deriving DecidableEq

def Driver.text : Driver → String
  | .podman => "podman"
  | .docker => "docker"
  | .incus => "incus"
  | .lxc => "lxc"
  | .libvirt => "libvirt"
  | .firecracker => "firecracker"

inductive RowState where
  | running
  | stopped
  | frozen
  deriving DecidableEq

/-- A row of the list, with the fields that the actions read. -/
structure CtrRow where
  id : String
  name : String
  driver : Driver
  vm : Bool
  state : RowState
  deriving DecidableEq

/-! ### What the runtimes report -/

/-- An element of `podman ps`, or a line of `docker ps`. -/
structure ContainerItem where
  id : String
  names : List String
  state : String

/-- An element of `incus list`. -/
structure IncusItem where
  name : String
  status : String
  type : String

/-- What the runtimes of a host report, nothing where one is absent. -/
structure Inventory where
  podman : List ContainerItem
  docker : List ContainerItem
  /-- `lxc` stands in where there is no `incus`. -/
  hasIncus : Bool
  incus : List IncusItem
  /-- The lines of `virsh list --all`. -/
  libvirt : List String
  /-- `/run/firecracker` can be read; else the sockets are those of `/var/run/firecracker`. -/
  hasRun : Bool
  sockets : List String

variable (toLowerCase : String → String)

def slice12 (text : String) : String := String.ofList (Text.slice 12 text.toList)

def containerState (state : String) : RowState :=
  let state := toLowerCase state
  if state = "running" then .running else if state = "paused" then .frozen else .stopped

def podmanRow (it : ContainerItem) : CtrRow :=
  let short := slice12 it.id
  { id := if short = "" then it.names.headD "" else short
    name := it.names.headD short
    driver := .podman
    vm := false
    state := containerState toLowerCase it.state }

/-- `Names` is one text, which is split at its commas. -/
def dockerRow (it : ContainerItem) : CtrRow :=
  { id := slice12 it.id
    name := it.names.headD ""
    driver := .docker
    vm := false
    state := containerState toLowerCase it.state }

def incusRow (hasIncus : Bool) (it : IncusItem) : CtrRow :=
  let status := toLowerCase it.status
  { id := it.name
    name := it.name
    driver := if hasIncus then .incus else .lxc
    vm := it.type = "virtual-machine"
    state := if status = "running" then .running
      else if "frozen".toList <:+: status.toList then .frozen else .stopped }

/-- The name and the state of `^(-|\d+)\s+(\S+)(?:\s+(.*))?$`. -/
def libvirtFields (text : List Char) : Option (List Char × List Char) :=
  let visible (c : Char) : Bool := !Text.isBlank c
  let number := text.takeWhile visible
  let rest := (text.dropWhile visible).dropWhile Text.isBlank
  let name := rest.takeWhile visible
  let state := (rest.dropWhile visible).dropWhile Text.isBlank
  if (number = ['-'] ∨ number ≠ [] ∧ number.all Char.isDigit) ∧ name ≠ [] ∧
      state.all fun c => !Lines.terminator c then
    some (name, state)
  else none

def libvirtRow (line : String) : Option CtrRow :=
  if trim line = "" ∨ " ".toList <+: line.toList then none
  else (libvirtFields (Text.trim line.toList)).map fun (name, state) =>
    let state := (toLowerCase (String.ofList state)).toList
    { id := String.ofList name
      name := String.ofList name
      driver := .libvirt
      vm := true
      state := if "running".toList <:+: state then .running
        else if "paused".toList <:+: state then .frozen else .stopped }

def firecrackerRow (entry : String) : Option CtrRow :=
  if ".sock".toList <:+ entry.toList then
    let name := String.ofList (entry.toList.take (entry.toList.length - 5))
    some { id := name, name, driver := .firecracker, vm := true, state := .running }
  else none

/-- The rows in the order in which the runtimes are asked. -/
def parts (inventory : Inventory) : List CtrRow :=
  inventory.podman.map (podmanRow toLowerCase) ++ inventory.docker.map (dockerRow toLowerCase) ++
    inventory.incus.map (incusRow toLowerCase inventory.hasIncus) ++
    (inventory.libvirt.drop 2).filterMap (libvirtRow toLowerCase) ++
    inventory.sockets.filterMap firecrackerRow

/-- The rows of `containers.list`. -/
def aggregate (localeCompare : String → String → Ordering) (inventory : Inventory) : List CtrRow :=
  (parts toLowerCase inventory).mergeSort fun a b =>
    (localeCompare a.driver.text b.driver.text).then (localeCompare a.name b.name) ≠ .gt

def findInstance (rows : List CtrRow) (id : String) : Option CtrRow :=
  rows.find? fun r => r.id = id || r.name = id

/-! ### The actions -/

inductive Action where
  | start
  | stop
  | freeze
  | delete
  | exec (command : String)

/-- The binary of a driver. -/
def Driver.bin : Driver → String
  | .podman => "podman"
  | .docker => "docker"
  | .incus => "incus"
  | .lxc => "lxc"
  | .libvirt => "virsh"
  | .firecracker => "curl"

/-- The words before the name in a command of `driverAction`. -/
def lifecycleWords : Driver → Action → List String
  | .libvirt, .stop => ["shutdown"]
  | .libvirt, .freeze => ["suspend"]
  | .libvirt, .delete => ["undefine"]
  | _, .start => ["start"]
  | _, .stop => ["stop"]
  | _, .freeze => ["pause"]
  | .incus, .delete | .lxc, .delete => ["delete", "--force"]
  | _, .delete => ["rm", "-f"]
  | _, .exec _ => []

/-- `JSON.stringify` of the guest command. -/
def guestExec (command : String) : String :=
  "\x7b\"execute\":\"guest-exec\",\"arguments\":\x7b\"path\":\"/bin/sh\",\"arg\":[\"-c\"," ++
    String.ofList (Json.quote (Utf16.encode command.toList)) ++ "],\"capture-output\":true\x7d\x7d"

def runDirectory : String := "/run/firecracker"

/-- The command of an action on a row, where its driver has one; the sockets of firecracker stand in
the directory. -/
def rowCommand (directory : String) (row : CtrRow) : Action → Option (String × List String)
  | .exec command =>
    match row.driver with
    | .podman | .docker => some (row.driver.bin, ["exec", row.name, "sh", "-c", command])
    | .incus | .lxc => some (row.driver.bin, ["exec", row.name, "--", "sh", "-c", command])
    | .libvirt => some ("virsh", ["qemu-agent-command", row.name, guestExec command])
    | .firecracker => none
  | action =>
    match row.driver, action with
    | .firecracker, .start => none
    | .firecracker, _ =>
      some ("curl", ["--unix-socket", directory ++ "/" ++ row.id ++ ".sock", "-X", "PUT",
        "http://localhost/actions", "-H", "Content-Type: application/json", "-d",
        "\x7b\"action_type\":\"InstanceStop\"\x7d"])
    | driver, action => some (driver.bin, lifecycleWords driver action ++ [row.name])

/-- The state of the row allows the action. -/
def allows (row : CtrRow) : Action → Bool
  | .start => row.state ≠ .running
  | .stop => row.state ≠ .stopped
  | .freeze => !row.vm && row.state = .running
  | .delete => row.state ≠ .running
  | .exec command => trim command ≠ "" && row.state = .running

/-- The command that an action runs for an id, where it runs one. -/
def perform (rows : List CtrRow) (action : Action) (id : String) : Option (String × List String) :=
  if id = "" then none
  else match findInstance rows id with
  | none => none
  | some row => if allows row action then rowCommand runDirectory row action else none

/-- The directory that the sockets were listed from. -/
def Inventory.directory (inventory : Inventory) : String :=
  if inventory.hasRun then runDirectory else "/var/run/firecracker"

/-- An action for the row's id runs the command of the row itself, whenever its state allows it. -/
def ActsOn (inventory : Inventory) (rows : List CtrRow) (row : CtrRow) : Prop :=
  ∀ action, perform rows action row.id =
    if allows row action then rowCommand inventory.directory row action else none

/-- No id has the instance of a running row deleted. -/
def Spares (inventory : Inventory) (rows : List CtrRow) (row : CtrRow) : Prop :=
  row.state = .running → ∀ id command, perform rows .delete id = some command →
    rowCommand inventory.directory row .delete ≠ some command

/-! ### What a command says of its instance -/

theorem Driver.bin_inj {a b : Driver} (same : a.bin = b.bin) : a = b := by
  cases a <;> cases b <;> first | rfl | exact absurd same (by decide)

/-- Outside firecracker an action other than exec ends in the name. -/
theorem rowCommand_named {directory : String} {row : CtrRow} {action : Action}
    (other : row.driver ≠ .firecracker) (plain : ∀ command, action ≠ .exec command) :
    rowCommand directory row action =
      some (row.driver.bin, lifecycleWords row.driver action ++ [row.name]) := by
  cases action with
  | exec command => exact absurd rfl (plain command)
  | start | stop | freeze | delete =>
    cases h : row.driver <;> first | exact absurd h other | simp [rowCommand, h]

theorem rowCommand_socket {directory : String} {row : CtrRow} (socket : row.driver = .firecracker) :
    rowCommand directory row .stop =
      some ("curl", ["--unix-socket", directory ++ "/" ++ row.id ++ ".sock", "-X", "PUT",
        "http://localhost/actions", "-H", "Content-Type: application/json", "-d",
        "\x7b\"action_type\":\"InstanceStop\"\x7d"]) := by
  simp only [rowCommand, socket]

theorem rowCommand_bin {directory : String} {row : CtrRow} {action : Action}
    {command : String × List String} (runs : rowCommand directory row action = some command) :
    command.1 = row.driver.bin := by
  cases action <;> cases h : row.driver <;> simp only [rowCommand, h] at runs <;>
    first | cases runs; rfl | cases runs

/-- One command of two rows makes them rows of one driver. -/
theorem same_driver {directory directory' : String} {row row' : CtrRow} {action action' : Action}
    {command : String × List String} (runs : rowCommand directory row action = some command)
    (runs' : rowCommand directory' row' action' = some command) : row.driver = row'.driver :=
  Driver.bin_inj ((rowCommand_bin runs).symm.trans (rowCommand_bin runs'))

theorem same_name {directory directory' : String} {row row' : CtrRow} {action : Action}
    {command : String × List String} (plain : ∀ text, action ≠ .exec text)
    (other : row.driver ≠ .firecracker) (runs : rowCommand directory row action = some command)
    (runs' : rowCommand directory' row' action = some command) : row.name = row'.name := by
  have driver := same_driver runs runs'
  rw [rowCommand_named other plain] at runs
  rw [rowCommand_named (driver ▸ other) plain, ← driver, ← runs, Option.some.injEq,
    Prod.mk.injEq] at runs'
  simpa using runs'.2.symm

/-- A socket's path gives its directory and its id. -/
theorem socket_inj {inventory : Inventory} {id id' : String}
    (same : runDirectory ++ "/" ++ id ++ ".sock" = inventory.directory ++ "/" ++ id' ++ ".sock") :
    inventory.hasRun = true ∧ id = id' := by
  have chars := congrArg String.toList same
  unfold Inventory.directory runDirectory at chars
  cases h : inventory.hasRun with
  | true =>
    simp only [h, String.toList_append, if_true, List.append_cancel_right_eq,
      List.append_cancel_left_eq] at chars
    exact ⟨rfl, String.toList_inj.mp chars⟩
  | false =>
    simp [h, String.toList_append] at chars

/-! ### The rows of the list -/

variable (localeCompare : String → String → Ordering)

/-- A row of firecracker is running, under its id as its name. -/
theorem socket_row {inventory : Inventory} {row : CtrRow}
    (member : row ∈ aggregate toLowerCase localeCompare inventory)
    (socket : row.driver = .firecracker) : row.state = .running ∧ row.name = row.id := by
  unfold aggregate at member
  rw [List.mem_mergeSort] at member
  simp only [parts, List.mem_append, List.mem_map, List.mem_filterMap] at member
  obtain (((⟨it, _, rfl⟩ | ⟨it, _, rfl⟩) | ⟨it, _, rfl⟩) | ⟨line, _, made⟩) | ⟨entry, _, made⟩ :=
    member
  · cases socket
  · cases socket
  · simp only [incusRow] at socket
    split at socket <;> cases socket
  · unfold libvirtRow at made
    split at made
    · cases made
    · obtain ⟨fields, _, rfl⟩ := Option.map_eq_some_iff.mp made
      cases socket
  · unfold firecrackerRow at made
    split at made
    · cases made
      exact ⟨rfl, rfl⟩
    · cases made

/-- The instance that an id finds is the first row of that id or name. -/
theorem findInstance_first {before after : List CtrRow} {row : CtrRow} {id : String}
    (none : ∀ other ∈ before, other.id ≠ id ∧ other.name ≠ id) (hit : row.id = id) :
    findInstance (before ++ row :: after) id = some row := by
  refine List.find?_eq_some_iff_append.mpr ⟨by simp [hit], before, after, rfl, fun other at_ => ?_⟩
  simpa using none other at_

/-- Another row of the id or name that stands before is found in place of the row. -/
theorem findInstance_before {before after : List CtrRow} {row other : CtrRow} {id : String}
    (member : other ∈ before) (hit : other.id = id ∨ other.name = id) :
    ∃ found ∈ before, findInstance (before ++ row :: after) id = some found := by
  unfold findInstance
  cases search : before.find? fun r => r.id = id || r.name = id with
  | none => exact absurd hit (by simpa using List.find?_eq_none.mp search other member)
  | some found =>
    exact ⟨found, List.mem_of_find?_eq_some search, by rw [List.find?_append, search]; rfl⟩

/-- The action that a row's state allows, whatever the state is. -/
theorem allowed_action (row : CtrRow) :
    ∃ action, (action = .start ∧ row.state ≠ .running ∨ action = .stop) ∧ allows row action := by
  cases h : row.state with
  | running => exact ⟨.stop, .inr rfl, by simp [allows, h]⟩
  | stopped => exact ⟨.start, .inl ⟨rfl, by simp⟩, by simp [allows, h]⟩
  | frozen => exact ⟨.stop, .inr rfl, by simp [allows, h]⟩

section Listed

variable {inventory : Inventory} {rows before after : List CtrRow} {row : CtrRow}

/-- A running row is safe from every deletion where the runtimes name their instances apart. -/
theorem spares (listed : aggregate toLowerCase localeCompare inventory = rows)
    (named : (rows.map fun r => (r.driver, r.name)).Nodup) (member : row ∈ rows) :
    Spares inventory rows row := by
  intro running id command deletes same
  unfold perform at deletes
  split at deletes
  · cases deletes
  cases search : findInstance rows id with
  | none => rw [search] at deletes; cases deletes
  | some found =>
    have at_ : found ∈ rows := List.mem_of_find?_eq_some search
    simp only [search] at deletes
    split at deletes
    · rename_i allowed
      have driver := same_driver deletes same
      have stopped : found.state ≠ .running := by simpa [allows] using allowed
      by_cases socket : found.driver = .firecracker
      · exact stopped (socket_row toLowerCase localeCompare (listed ▸ at_) socket).1
      · have name := same_name (by simp) socket deletes same
        have equal := List.inj_on_of_nodup_map named at_ member (Prod.ext driver name)
        exact stopped (equal ▸ running)
    · cases deletes

/-- The row that is found runs the command of the row asked for only if they are one row. -/
theorem found_same (listed : aggregate toLowerCase localeCompare inventory = rows)
    (named : (rows.map fun r => (r.driver, r.name)).Nodup) {found : CtrRow} (at_ : found ∈ rows)
    (member : row ∈ rows) (search : findInstance rows row.id = some found)
    (acts : ActsOn inventory rows row) :
    found = row ∧ (row.driver = .firecracker → inventory.hasRun = true) := by
  obtain ⟨action, plain, allowed⟩ := allowed_action row
  have runs := acts action
  unfold perform at runs
  rw [search, if_pos allowed] at runs
  have noExec : ∀ text, action ≠ .exec text := by rintro text rfl; simp at plain
  by_cases socket : row.driver = .firecracker
  · have state := socket_row toLowerCase localeCompare (listed ▸ member) socket
    obtain rfl : action = .stop := by
      rcases plain with ⟨_, other⟩ | stop
      · exact absurd state.1 other
      · exact stop
    rw [rowCommand_socket socket] at runs
    split at runs
    · cases runs
    simp only at runs
    split at runs
    · have found_socket : found.driver = .firecracker := by
        exact (same_driver runs (rowCommand_socket socket)).trans socket
      rw [rowCommand_socket found_socket] at runs
      simp only [Option.some.injEq, Prod.mk.injEq, List.cons.injEq, true_and, and_true] at runs
      obtain ⟨run, id⟩ := socket_inj runs
      have name := (socket_row toLowerCase localeCompare (listed ▸ at_) found_socket).2
      refine ⟨List.inj_on_of_nodup_map named at_ member ?_, fun _ => run⟩
      exact Prod.ext (found_socket.trans socket.symm) (by rw [name, id, state.2])
    · cases runs
  · rw [rowCommand_named socket noExec] at runs
    split at runs
    · cases runs
    simp only at runs
    split at runs
    · have own := @rowCommand_named inventory.directory _ _ socket noExec
      have driver := same_driver runs own
      have name := same_name noExec (driver ▸ socket) runs own
      exact ⟨List.inj_on_of_nodup_map named at_ member (Prod.ext driver name),
        fun other => absurd other socket⟩
    · cases runs

/-- Where the runtimes name their instances apart, every action for a row's id runs the command of
that row, and no deletion meets it while it runs, exactly when the row has an id, no row before it
has that id or name, and a socket of firecracker was listed from `/run`. -/
theorem actions_hit_iff (listed : aggregate toLowerCase localeCompare inventory = rows)
    (named : (rows.map fun r => (r.driver, r.name)).Nodup) (place : rows = before ++ row :: after) :
    ActsOn inventory rows row ∧ Spares inventory rows row ↔
      row.id ≠ "" ∧ (∀ other ∈ before, other.id ≠ row.id ∧ other.name ≠ row.id) ∧
        (row.driver = .firecracker → inventory.hasRun = true) := by
  have member : row ∈ rows := place ▸ List.mem_append_right before List.mem_cons_self
  refine ⟨fun ⟨acts, _⟩ => ?_, fun ⟨id, first, socket⟩ =>
    ⟨fun action => ?_, spares toLowerCase localeCompare listed named member⟩⟩
  · have id : row.id ≠ "" := by
      intro empty
      obtain ⟨action, plain, allowed⟩ := allowed_action row
      have runs := acts action
      unfold perform at runs
      rw [if_pos empty, if_pos allowed] at runs
      by_cases socket : row.driver = .firecracker
      · have state := socket_row toLowerCase localeCompare (listed ▸ member) socket
        obtain ⟨_, other⟩ | rfl := plain
        · exact other state.1
        · rw [rowCommand_socket socket] at runs
          cases runs
      · rw [rowCommand_named socket (by rintro text rfl; simp at plain)] at runs
        cases runs
    have first : ∀ other ∈ before, other.id ≠ row.id ∧ other.name ≠ row.id := by
      intro other at_
      by_contra hit
      obtain ⟨found, found_at, search⟩ := @findInstance_before before after row _ _ at_
        (Decidable.or_iff_not_not_and_not.mpr hit)
      rw [← place] at search
      have equal := (found_same toLowerCase localeCompare listed named
        (place ▸ List.mem_append_left _ found_at) member search acts).1
      -- the row would stand twice in the list
      rw [place, List.map_append, List.map_cons] at named
      exact (List.nodup_append.mp named).2.2 _ (List.mem_map_of_mem found_at) _
        List.mem_cons_self (by rw [equal])
    refine ⟨id, first, ?_⟩
    exact (found_same toLowerCase localeCompare listed named member member
      (place ▸ findInstance_first first rfl) acts).2
  · unfold perform
    rw [if_neg id, place, findInstance_first first rfl]
    simp only
    split
    · by_cases fc : row.driver = .firecracker
      · unfold Inventory.directory
        rw [if_pos (socket fc)]
      · cases action with
        | exec text => rfl
        | start | stop | freeze | delete =>
          rw [rowCommand_named fc (by simp), rowCommand_named fc (by simp)]
    · rfl

end Listed

/-- Lower case of ASCII letters. -/
def asciiLower (text : String) : String := String.ofList (text.toList.map Char.toLower)

/-- A host with a container of docker and one of incus, under the names given. -/
def twoRuntimes (docker incus : String) : Inventory where
  podman := []
  docker := [⟨"4f1c0e9a7b32", [docker], "running"⟩]
  hasIncus := true
  incus := [⟨incus, "Running", "container"⟩]
  libvirt := []
  hasRun := true
  sockets := []

def dockerWeb : CtrRow := ⟨"4f1c0e9a7b32", "web", .docker, false, .running⟩

def incusNamed (name : String) : CtrRow := ⟨name, name, .incus, false, .running⟩

theorem twoRuntimes_rows (incus : String) (differ : incus = "web" ∨ incus = "mail") :
    aggregate asciiLower compare (twoRuntimes "web" incus) = [dockerWeb, incusNamed incus] := by
  unfold aggregate
  have rows : parts asciiLower (twoRuntimes "web" incus) = [dockerWeb, incusNamed incus] := by
    obtain rfl | rfl := differ <;> rfl
  rw [rows]
  exact List.mergeSort_of_pairwise (by obtain rfl | rfl := differ <;> exact of_decide_eq_true rfl)

theorem actions_hit_mail :
    ActsOn (twoRuntimes "web" "mail") [dockerWeb, incusNamed "mail"] (incusNamed "mail") ∧
      Spares (twoRuntimes "web" "mail") [dockerWeb, incusNamed "mail"] (incusNamed "mail") :=
  (@actions_hit_iff asciiLower compare _ _ [dockerWeb] [] _ (twoRuntimes_rows "mail" (.inr rfl))
    (by decide) rfl).mpr ⟨by decide, by decide, by decide⟩

/-- Stopping the `web` of incus stops the `web` of docker, which comes first in the list. -/
theorem other_instance_stopped :
    aggregate asciiLower compare (twoRuntimes "web" "web") = [dockerWeb, incusNamed "web"] ∧
      perform [dockerWeb, incusNamed "web"] .stop "web" = some ("docker", ["stop", "web"]) ∧
      ¬ ActsOn (twoRuntimes "web" "web") [dockerWeb, incusNamed "web"] (incusNamed "web") := by
  refine ⟨twoRuntimes_rows "web" (.inl rfl), by decide, fun acts => ?_⟩
  exact absurd (acts .stop) (by decide)

end SysDeck.Web.Containers
