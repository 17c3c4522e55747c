import Mathlib.Data.List.Nodup
import SysDeck.Web.Cached
import SysDeck.Web.Firewall

/-! The fleet bridge: the registry of nodes and the inventory that is made of it, while nodes are added
and removed. Every await is a point where another request may go on. -/

namespace SysDeck.Web.Fleet

open Firewall (trim)

inductive Role where
  | compute
  | storage
  | edge
  | control
  | cockpitPeer
  deriving DecidableEq

/-- The role that a caller gives, by its text. -/
def Role.ofText (role : String) : Role :=
  if role = "storage" then .storage
  else if role = "edge" then .edge
  else if role = "control" then .control
  else .compute

structure FleetRow where
  id : ℕ
  name : String
  host : String
  role : Role
  online : Bool
  isLocal : Bool
  deriving DecidableEq

/-- The table of nodes. A row gets an id that no row had before. -/
structure Registry where
  rows : List FleetRow
  nextId : ℕ
  nodup : (rows.map FleetRow.id).Nodup
  bound : ∀ row ∈ rows, row.id < nextId

namespace Registry

def insert (registry : Registry) (name host : String) (role : Role) (online isLocal : Bool) :
    Registry where
  rows := registry.rows ++ [⟨registry.nextId, name, host, role, online, isLocal⟩]
  nextId := registry.nextId + 1
  nodup := by
    rw [List.map_append, List.map_singleton, List.nodup_append]
    refine ⟨registry.nodup, List.nodup_singleton _, ?_⟩
    intro id member other (single : other ∈ [_]) same
    obtain ⟨row, inside, rfl⟩ := List.mem_map.mp member
    rw [List.mem_singleton.mp single] at same
    exact Nat.ne_of_lt (registry.bound row inside) same
  bound := by
    intro row member
    rcases List.mem_append.mp member with old | new
    · exact Nat.lt_succ_of_lt (registry.bound row old)
    · rw [List.mem_singleton.mp new]
      exact Nat.lt_succ_self _

/-- `deleteMany`, of the rows that are not kept. -/
def keep (registry : Registry) (kept : FleetRow → Bool) : Registry where
  rows := registry.rows.filter kept
  nextId := registry.nextId
  nodup := registry.nodup.sublist (List.filter_sublist.map _)
  bound := fun row member => registry.bound row (List.mem_of_mem_filter member)

def named (registry : Registry) (name : String) : Bool := registry.rows.any (·.name = name)

def hasLocal (registry : Registry) : Bool := registry.rows.any (·.isLocal)

end Registry

/-- The id of a row is made by the database, and has no colon. -/
inductive NodeId where
  | row (id : ℕ)
  | cockpit (name : String)
  deriving DecidableEq

/-- A node of the inventory. -/
structure Node where
  id : NodeId
  name : String
  host : String
  role : Role
  online : Bool
  isLocal : Bool
  deriving DecidableEq

/-! ### The probe -/

/-- An entry of a file of machines. -/
structure Machine where
  name : String
  visible : Option Bool
  address : Option String

structure MachinePeer where
  name : String
  host : String

def cockpitPeers (machines : List Machine) : List MachinePeer :=
  machines.filterMap fun machine =>
    if machine.visible = some false then none else some ⟨machine.name, machine.address.getD machine.name⟩

def legacyNames : List String := ["helios-01", "helios-02", "theia", "selene", "ares"]

/-- The rows that purgeLegacyCatalogRows deletes. -/
def FleetRow.legacy (row : FleetRow) : Bool := row.name ∈ legacyNames && !row.isLocal

/-- What a probe awaits. Past the read of the table it has the moment of that read. -/
inductive Body where
  | findLocal
  | createLocal
  | located
  | purge
  | findMany
  | probing (read : ℕ) (rows : List FleetRow)
  | discovering (read : ℕ) (out : List Node)
  | probingPeers (read : ℕ) (out : List Node) (newPeers : List MachinePeer)
  | done (read : ℕ) (out : List Node)
  | failed

/-- What the promise of a probe has come to. -/
def Body.outcome : Body → Outcome (List Node)
  | .done _ out => .resolved out
  | .failed => .rejected
  | _ => .pending

/-- What the outside answers: the hosts that can be reached, and the files of machines. -/
structure Input where
  reachable : String → Bool
  machines : List Machine

def nodeOf (reachable : String → Bool) (row : FleetRow) : Node where
  id := .row row.id
  name := row.name
  host := row.host
  role := row.role
  online := row.isLocal || reachable row.host
  isLocal := row.isLocal

def peerNode (reachable : String → Bool) (peer : MachinePeer) : Node where
  id := .cockpit peer.name
  name := peer.name
  host := peer.host
  role := .cockpitPeer
  online := reachable peer.host
  isLocal := false

/-- The peers whose host is not in the inventory. -/
def newPeers (out : List Node) (machines : List Machine) : List MachinePeer :=
  (cockpitPeers machines).filter fun peer => peer.host ∉ out.map (·.host)

/-! ### The requests -/

/-- An addNode or a removeNode that has not answered yet, by what it awaits. -/
inductive Request where
  | addProbe (name host : String) (role : Role)
  | addAudit (id : ℕ)
  | removeDelete (id : ℕ)
  | removeAudit (id : ℕ)
  | answered

/-- A success that was answered. -/
inductive Change where
  | added (id : ℕ)
  | removed (id : ℕ)
  deriving DecidableEq

structure Answer where
  change : Change
  moment : ℕ
  deriving DecidableEq

/-- The process, its table, and what happened so far: the rows that addNode stored and those that
removeNode deleted, and the changes that were answered. The cache is seen at the one key of the
inventory. -/
structure State where
  cache : Cache (List Node)
  bodies : List Body
  registry : Registry
  migrationDone : Bool
  requests : List Request
  added : List ℕ
  removed : List ℕ
  answers : List Answer

def key : String := "fleet:nodes"

/-- `/^[a-zA-Z0-9][a-zA-Z0-9._-]*$/` -/
def validNodeName (name : String) : Bool :=
  match name.toList with
  | [] => false
  | c :: rest => c.isAlphanum && rest.all fun d => d.isAlphanum || d = '.' || d = '_' || d = '-'

/-- addNode up to its first await. -/
def addNode (name host role : String) : Request :=
  let name := trim name
  let host := trim host
  if name = "" ∨ host = "" then .answered
  else if !validNodeName name then .answered
  else .addProbe name host (Role.ofText role)

/-- removeNode up to its first await; no id is the empty text. -/
def removeNode : Option NodeId → Request
  | none => .answered
  | some (.cockpit _) => .answered
  | some (.row id) => .removeDelete id

inductive Event where
  | nodes (now : ℤ)
  | probe (index : ℕ) (input : Input)
  | resume (now : ℤ) (index : ℕ)
  | evict
  | addNode (name host role : String)
  | removeNode (id : Option NodeId)
  | request (place : ℕ) (reachable : Bool)

namespace State

/-- A call of nodes or summary, which starts a probe where none is in flight. -/
def nodes (state : State) (now : ℤ) : State :=
  let cache := cached state.cache now key 10000
  { state with
    cache
    bodies := if cache.probes.length = state.cache.probes.length then state.bodies
      else state.bodies ++ [.findLocal] }

/-- A probe goes on. -/
def advance (hostname : String) (state : State) (input : Input) : Body → State × Body
  | .findLocal => (state, if state.registry.hasLocal then .located else .createLocal)
  | .createLocal =>
    -- The name of a node is unique.
    if state.registry.named hostname then (state, .failed)
    else ({ state with registry := state.registry.insert hostname "127.0.0.1" .control true true }, .located)
  | .located =>
    if state.migrationDone then (state, .findMany) else ({ state with migrationDone := true }, .purge)
  | .purge => ({ state with registry := state.registry.keep (!·.legacy) }, .findMany)
  | .findMany =>
    (state, .probing state.cache.moment (state.registry.rows.mergeSort (·.name ≤ ·.name)))
  | .probing read rows => (state, .discovering read (rows.map (nodeOf input.reachable)))
  | .discovering read out => (state, .probingPeers read out (newPeers out input.machines))
  | .probingPeers read out newPeers =>
    (state, .done read (out ++ newPeers.map (peerNode input.reachable)))
  | .done read out => (state, .done read out)
  | .failed => (state, .failed)

/-- The promise of a probe settles with the end of its body. -/
def probe (hostname : String) (state : State) (index : ℕ) (input : Input) : State :=
  match state.bodies[index]? with
  | none => state
  | some body =>
    let (next, after) := state.advance hostname input body
    { next with
      bodies := next.bodies.set index after
      cache := next.cache.complete index after.outcome }

/-- An addNode or a removeNode goes on. -/
def request (state : State) (place : ℕ) (reachable : Bool) : State :=
  match state.requests[place]? with
  | some (.addProbe name host role) =>
    if state.registry.named name then { state with requests := state.requests.set place .answered }
    else
      { state with
        registry := state.registry.insert name host role reachable false
        requests := state.requests.set place (.addAudit state.registry.nextId)
        added := state.registry.nextId :: state.added }
  | some (.addAudit id) =>
    { state with
      requests := state.requests.set place .answered
      answers := ⟨.added id, state.cache.moment⟩ :: state.answers }
  | some (.removeDelete id) =>
    if state.registry.rows.any (·.id = id) then
      { state with
        registry := state.registry.keep (·.id ≠ id)
        requests := state.requests.set place (.removeAudit id)
        removed := id :: state.removed }
    else { state with requests := state.requests.set place .answered }
  | some (.removeAudit id) =>
    { state with
      requests := state.requests.set place .answered
      answers := ⟨.removed id, state.cache.moment⟩ :: state.answers }
  | some .answered | none => state

def act (hostname : String) (state : State) : Event → State
  | .nodes now => state.nodes now
  | .probe index input => state.probe hostname index input
  | .resume now index => { state with cache := state.cache.resume now index }
  | .evict => { state with cache := { state.cache with settled := state.cache.settled.erase key } }
  | .addNode name host role => { state with requests := state.requests ++ [addNode name host role] }
  | .removeNode id => { state with requests := state.requests ++ [removeNode id] }
  | .request place reachable => state.request place reachable

/-- An event, and the clock of moments moves on. -/
def step (hostname : String) (state : State) (event : Event) : State :=
  let next := state.act hostname event
  { next with cache := { next.cache with moment := state.cache.moment + 1 } }

/-- The process as it starts, on a table of nodes. -/
def start (registry : Registry) : State where
  cache := {}
  bodies := []
  registry := registry
  migrationDone := false
  requests := []
  added := []
  removed := []
  answers := []

end State

/-! ### What a list is to show -/

/-- A list shows every node whose addNode was answered before a moment, unless a removeNode deleted it,
and none whose removeNode was answered before; its ids are distinct, and one node is the local one. -/
structure ReadsWrites (state : State) (before : ℕ) (marks : List (NodeId × Bool)) : Prop where
  added : ∀ id moment, ⟨.added id, moment⟩ ∈ state.answers → moment < before →
    .row id ∈ marks.map Prod.fst ∨ id ∈ state.removed
  removed : ∀ id moment, ⟨.removed id, moment⟩ ∈ state.answers → moment < before →
    .row id ∉ marks.map Prod.fst
  distinct : (marks.map Prod.fst).Nodup
  one : marks.countP Prod.snd = 1

/-- The ids of a list, with the local one marked. -/
def marksOf (out : List Node) : List (NodeId × Bool) := out.map fun node => (node.id, node.isLocal)

/-- Every call of nodes or summary that has answered gave a list, which shows the changes that were
answered before the call. -/
def Correct (state : State) : Prop :=
  ∀ call ∈ state.cache.calls, call.reply ≠ .thrown ∧
    ∀ produced, call.reply = .value produced →
      ReadsWrites state call.started (marksOf produced.value)

/-! ### When it does -/

def Body.read? : Body → Option ℕ
  | .probing read _ | .discovering read _ | .probingPeers read _ _ | .done read _ => some read
  | _ => none

/-- A probe between its look for the local node and its read of the table. -/
def Body.relies : Body → Bool
  | .located | .purge | .findMany => true
  | _ => false

/-- The probe has not read the table yet, or read it after all changes that were answered. -/
def State.UpToDate (state : State) (index : ℕ) : Prop :=
  ∀ body ∈ state.bodies[index]?, ∀ read ∈ body.read?, ∀ answer ∈ state.answers, answer.moment < read

/-- A probe finds the name of the host free when it creates the local node, deletes no row of an old
catalog's name that addNode stored, and does not find two new peers of one name. -/
def Body.Allowed (hostname : String) (state : State) (input : Input) : Body → Prop
  | .createLocal => state.registry.named hostname = false
  | .purge => ∀ row ∈ state.registry.rows, row.legacy → row.id ∉ state.added
  | .discovering _ out => ((newPeers out input.machines).map (·.name)).Nodup
  | _ => True

/-- A removeNode does not delete the local node between a probe's look for it and its read. -/
def Request.Allowed (state : State) : Request → Prop
  | .removeDelete id =>
    (∃ row ∈ state.registry.rows, row.id = id ∧ row.isLocal) → ∀ body ∈ state.bodies, body.relies = false
  | _ => True

/-- A call is not served a list, or a probe in flight, whose read of the table is older than a change
that was answered. -/
def State.Allowed (hostname : String) (state : State) : Event → Prop
  | .nodes now =>
    (∀ hit ∈ state.cache.hit? now key, state.UpToDate hit.produced.probe) ∧
      (state.cache.hit? now key = none → ∀ index ∈ state.cache.inflight.find? key, state.UpToDate index)
  | .probe index input => ∀ body ∈ state.bodies[index]?, body.Allowed hostname state input
  | .request place _ => ∀ request ∈ state.requests[place]?, request.Allowed state
  | _ => True

instance (state : State) (index : ℕ) : Decidable (state.UpToDate index) :=
  inferInstanceAs (Decidable (∀ body ∈ state.bodies[index]?, ∀ read ∈ body.read?, ∀ answer ∈ state.answers,
    answer.moment < read))

instance (hostname : String) (state : State) (input : Input) :
    ∀ body : Body, Decidable (body.Allowed hostname state input)
  | .createLocal => inferInstanceAs (Decidable (state.registry.named hostname = false))
  | .purge =>
    inferInstanceAs (Decidable (∀ row ∈ state.registry.rows, row.legacy → row.id ∉ state.added))
  | .discovering _ out => inferInstanceAs (Decidable ((newPeers out input.machines).map (·.name)).Nodup)
  | .findLocal | .located | .findMany | .probing _ _ | .probingPeers _ _ _ | .done _ _ | .failed =>
    inferInstanceAs (Decidable True)

instance (state : State) : ∀ request : Request, Decidable (request.Allowed state)
  | .removeDelete id =>
    inferInstanceAs (Decidable ((∃ row ∈ state.registry.rows, row.id = id ∧ row.isLocal) →
      ∀ body ∈ state.bodies, body.relies = false))
  | .addProbe _ _ _ | .addAudit _ | .removeAudit _ | .answered => inferInstanceAs (Decidable True)

instance (hostname : String) (state : State) : ∀ event, Decidable (state.Allowed hostname event)
  | .nodes now =>
    inferInstanceAs (Decidable ((∀ hit ∈ state.cache.hit? now key, state.UpToDate hit.produced.probe) ∧
      (state.cache.hit? now key = none →
        ∀ index ∈ state.cache.inflight.find? key, state.UpToDate index)))
  | .probe index input =>
    inferInstanceAs (Decidable (∀ body ∈ state.bodies[index]?, body.Allowed hostname state input))
  | .request place _ => inferInstanceAs (Decidable (∀ request ∈ state.requests[place]?, request.Allowed state))
  | .resume _ _ | .evict | .addNode _ _ _ | .removeNode _ => inferInstanceAs (Decidable True)

end SysDeck.Web.Fleet
