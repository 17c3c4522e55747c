import SysDeck.Library.Execution
import SysDeck.Web.FirewallCommands

/-! Requests of the firewall bridge that run at the same time: every await is a point where
another request may go on. -/

namespace SysDeck.Web.Firewall

/-- A row of the ruleset table. -/
structure Entry where
  id : ℕ
  row : Ruleset
  deriving DecidableEq

inductive Request where
  | apply (name : Option String) (dryRun : Bool)
  | create (args : CreateArgs)
  | delete (name : Option String)

/-- What a request waits for. -/
inductive Phase where
  | finished
  | applyFind (name : String) (dryRun : Bool)
  | applyRules (entry : Entry) (dryRun : Bool)
  | applyProbe (entry : Entry) (dryRun : Bool)
  | applyRun (entry : Entry)
  | applyAudit (entry : Entry) (loaded : Bool)
  | applyClear (entry : Entry)
  | applySet (entry : Entry)
  | deleteFind (name : String)
  | deleteRules (name : String)
  | deleteRow (name : String)
  | deleteAudit
  | createFind (row : Ruleset)
  | createRow (row : Ruleset) (seeds : List FwRuleSeed)
  | createRules
  | createAudit

/-- The ruleset table, and the row whose script the kernel loaded last. -/
structure Database where
  entries : List Entry
  nextId : ℕ
  loaded : Option ℕ
  deriving DecidableEq

def Database.find? (db : Database) (name : String) : Option Entry :=
  db.entries.find? (·.row.name = name)

/-- A request up to its first await. -/
def Request.start : Request → Phase
  | .apply name dryRun =>
    let name := trim (name.getD "")
    if name = "" then .finished else .applyFind name dryRun
  | .create args =>
    let name := trim (args.name.getD "")
    let backend := trim (args.backend.getD "nftables")
    let template := (truthy args.template).map trim
    if name = "" ∨ validRulesetName name = false ∨ backend ∉ backends then .finished
    else .createFind { name, backend, template, active := false, appliedAt := none }
  | .delete name =>
    let name := trim (name.getD "")
    if name = "" then .finished else .deleteFind name

/-- `updateMany`: every other active ruleset is inactive. -/
def Database.clearOthers (db : Database) (name : String) : Database :=
  { db with entries := db.entries.map fun entry =>
      if entry.row.active ∧ entry.row.name ≠ name then
        { entry with row := { entry.row with active := false } }
      else entry }

/-- `update`: the ruleset of the name is active, if it is still there. -/
def Database.setActive (db : Database) (name : String) (now : Int) : Database :=
  { db with entries := db.entries.map fun entry =>
      if entry.row.name = name then
        { entry with row := { entry.row with active := true, appliedAt := some now } }
      else entry }

/-- A request from one await to the next. A program that is run may fail. -/
def Phase.resume (db : Database) (succeeds : Bool) (now : Int) : Phase → Database × Phase
  | .finished => (db, .finished)
  | .applyFind name dryRun =>
    match db.find? name with
    | none => (db, .finished)
    | some entry => (db, .applyRules entry dryRun)
  | .applyRules entry dryRun => (db, .applyProbe entry dryRun)
  | .applyProbe entry dryRun => (db, if dryRun then .finished else .applyRun entry)
  | .applyRun entry =>
    if succeeds then ({ db with loaded := some entry.id }, .applyAudit entry true)
    else (db, .applyAudit entry false)
  | .applyAudit entry loaded => (db, if loaded then .applyClear entry else .finished)
  | .applyClear entry => (db.clearOthers entry.row.name, .applySet entry)
  | .applySet entry => (db.setActive entry.row.name now, .finished)
  | .deleteFind name =>
    match db.find? name with
    | none => (db, .finished)
    | some entry => (db, if entry.row.active then .finished else .deleteRules name)
  | .deleteRules name => (db, .deleteRow name)
  | .deleteRow name =>
    ({ db with entries := db.entries.filter (·.row.name ≠ name) }, .deleteAudit)
  | .deleteAudit => (db, .finished)
  | .createFind row =>
    match db.find? row.name, templateSeeds row.template with
    | none, some seeds => (db, .createRow row seeds)
    | _, _ => (db, .finished)
  | .createRow row seeds =>
    -- the name is unique in the table
    if (db.find? row.name).isSome then (db, .finished)
    else
      ({ db with entries := db.entries ++ [⟨db.nextId, row⟩], nextId := db.nextId + 1 },
        if seeds = [] then .createAudit else .createRules)
  | .createRules => (db, .createAudit)
  | .createAudit => (db, .finished)

/-- The server: its database, and the requests in the order in which they came. -/
structure Server where
  db : Database
  requests : List Phase

inductive Event where
  | arrive (request : Request)
  | resume (place : ℕ) (succeeds : Bool) (now : Int)

def Server.step (server : Server) : Event → Server
  | .arrive request => { server with requests := server.requests ++ [request.start] }
  | .resume place succeeds now =>
    match server.requests[place]? with
    | none => server
    | some phase =>
      let (db, next) := phase.resume server.db succeeds now
      { db, requests := server.requests.set place next }

def idleServer : Server where
  db := { entries := [], nextId := 0, loaded := none }
  requests := []

namespace Phase

def isApply : Phase → Bool
  | applyFind _ _ | applyRules _ _ | applyProbe _ _ | applyRun _ | applyAudit _ _ | applyClear _
  | applySet _ => true
  | _ => false

/-- An application that has loaded its script and will still clear the ruleset of the name. -/
def clears (name : String) : Phase → Bool
  | applyAudit entry true => entry.row.name ≠ name
  | applyClear entry => entry.row.name ≠ name
  | _ => false

/-- An application that has loaded its script and will still write the ruleset of the name. -/
def claims (name : String) : Phase → Bool
  | applyAudit _ true => true
  | applyClear _ => true
  | applySet entry => entry.row.name = name
  | _ => false

theorem claims_of_clears {name : String} {phase : Phase} (clears : phase.clears name) :
    phase.claims name := by
  unfold Phase.clears at clears
  split at clears
  · rfl
  · rfl
  · cases clears

/-- The ruleset that a create is about to store. -/
def created? : Phase → Option Ruleset
  | createFind row => some row
  | createRow row _ => some row
  | _ => none

/-- A delete that found its ruleset inactive, and has not removed it yet. -/
def deletes (name : String) : Phase → Bool
  | deleteRules target => target = name
  | deleteRow target => target = name
  | _ => false

end Phase

/-- No application is on its way. -/
def Server.Settled (server : Server) : Prop := ∀ phase ∈ server.requests, phase.isApply = false

/-- At most one ruleset is active, and its script is the one that was loaded last. -/
structure SingleActive (db : Database) : Prop where
  one : ∀ entry ∈ db.entries, ∀ other ∈ db.entries,
    entry.row.active → other.row.active → entry = other
  loaded : ∀ entry ∈ db.entries, entry.row.active → db.loaded = some entry.id

/-- An application sets its ruleset active only while the script that the kernel loaded last
is that ruleset's, or another application has loaded its own and still has to clear the
rest; and only while no delete has found that ruleset inactive. -/
def Phase.Ordered (server : Server) : Phase → Prop
  | .applySet entry =>
    ∀ other ∈ server.db.entries, other.row.name = entry.row.name →
      (server.db.loaded = some other.id ∨
        ∃ phase ∈ server.requests, phase.clears other.row.name) ∧
      ∀ phase ∈ server.requests, phase.deletes other.row.name = false
  | _ => True

instance (server : Server) : ∀ phase, Decidable (Phase.Ordered server phase)
  | .applySet entry => inferInstanceAs (Decidable (∀ other ∈ server.db.entries,
      other.row.name = entry.row.name →
        (server.db.loaded = some other.id ∨
          ∃ phase ∈ server.requests, phase.clears other.row.name) ∧
        ∀ phase ∈ server.requests, phase.deletes other.row.name = false))
  | .finished | .applyFind _ _ | .applyRules _ _ | .applyProbe _ _ | .applyRun _
  | .applyAudit _ _ | .applyClear _ | .deleteFind _ | .deleteRules _ | .deleteRow _
  | .deleteAudit | .createFind _ | .createRow _ _ | .createRules | .createAudit =>
    .isTrue trivial

def Server.Ordered (server : Server) : Event → Prop
  | .arrive _ => True
  | .resume place _ _ => ∀ phase ∈ server.requests[place]?, phase.Ordered server

instance (server : Server) : ∀ event, Decidable (server.Ordered event)
  | .arrive _ => .isTrue trivial
  | .resume place _ _ =>
    inferInstanceAs (Decidable (∀ phase ∈ server.requests[place]?, Phase.Ordered server phase))

/-- What the ordered interleavings keep: an active ruleset is the loaded one, or there is an
application that will write it; and no ruleset becomes active that a delete will remove. -/
structure Guarded (server : Server) : Prop where
  names : (server.db.entries.map (·.row.name)).Nodup
  ids : (server.db.entries.map Entry.id).Nodup
  fresh : ∀ entry ∈ server.db.entries, entry.id < server.db.nextId
  inactive : ∀ phase ∈ server.requests, ∀ row ∈ phase.created?, row.active = false
  owed : ∀ entry ∈ server.db.entries, entry.row.active →
    server.db.loaded = some entry.id ∨ ∃ phase ∈ server.requests, phase.claims entry.row.name
  spared : ∀ entry ∈ server.db.entries, ∀ phase ∈ server.requests,
    phase.deletes entry.row.name → entry.row.active = false

section Requests

variable {requests : List Phase} {place : ℕ} {phase next : Phase}

theorem mem_set_self (found : requests[place]? = some phase) : next ∈ requests.set place next := by
  obtain ⟨inside, -⟩ := List.getElem?_eq_some_iff.mp found
  exact List.mem_set inside next

theorem mem_set_of_ne (found : requests[place]? = some phase) {other : Phase}
    (member : other ∈ requests) (differ : other ≠ phase) : other ∈ requests.set place next := by
  obtain ⟨i, inside, rfl⟩ := List.getElem_of_mem member
  have apart : place ≠ i := by
    rintro rfl
    rw [List.getElem?_eq_getElem inside] at found
    exact differ (Option.some.inj found)
  rw [List.mem_iff_getElem?]
  exact ⟨i, by rw [List.getElem?_set_ne apart, List.getElem?_eq_getElem inside]⟩

/-- What another request claims, or this one goes on to claim, stays claimed. -/
theorem claimed_set (found : requests[place]? = some phase) {name : String}
    (kept : phase.claims name → next.claims name)
    (claimed : ∃ phase ∈ requests, phase.claims name) :
    ∃ phase ∈ requests.set place next, phase.claims name := by
  obtain ⟨other, member, claims⟩ := claimed
  by_cases same : other = phase
  · exact ⟨next, mem_set_self found, kept (same ▸ claims)⟩
  · exact ⟨other, mem_set_of_ne found member same, claims⟩

end Requests

/-- A request that goes on without a write. -/
theorem Guarded.goOn {server : Server} (guarded : Guarded server) {place : ℕ} {phase next : Phase}
    (found : server.requests[place]? = some phase)
    (creates : ∀ row ∈ next.created?, row ∈ phase.created?)
    (claims : ∀ name, phase.claims name → next.claims name)
    (deletes : ∀ entry ∈ server.db.entries, next.deletes entry.row.name →
      phase.deletes entry.row.name ∨ entry.row.active = false) :
    Guarded { server with requests := server.requests.set place next } where
  names := guarded.names
  ids := guarded.ids
  fresh := guarded.fresh
  inactive := by
    intro other member row created
    rcases List.mem_or_eq_of_mem_set member with old | rfl
    · exact guarded.inactive other old row created
    · exact guarded.inactive phase (List.mem_of_getElem? found) row (creates row created)
  owed := by
    intro entry member active
    exact (guarded.owed entry member active).imp_right (claimed_set found (claims _))
  spared := by
    intro entry member other inside removes
    rcases List.mem_or_eq_of_mem_set inside with old | rfl
    · exact guarded.spared entry member other old removes
    · rcases deletes entry member removes with before | inactive
      · exact guarded.spared entry member phase (List.mem_of_getElem? found) before
      · exact inactive

/-! The writes of the table keep the names and the ids of its rows. -/

theorem names_map {entries : List Entry} {change : Entry → Entry}
    (kept : ∀ entry, (change entry).row.name = entry.row.name) :
    (entries.map change).map (·.row.name) = entries.map (·.row.name) := by
  rw [List.map_map]
  exact List.map_congr_left fun entry _ => kept entry

theorem ids_map {entries : List Entry} {change : Entry → Entry}
    (kept : ∀ entry, (change entry).id = entry.id) :
    (entries.map change).map Entry.id = entries.map Entry.id := by
  rw [List.map_map]
  exact List.map_congr_left fun entry _ => kept entry

theorem mem_clearOthers {db : Database} {name : String} {entry : Entry}
    (member : entry ∈ (db.clearOthers name).entries) :
    ∃ before ∈ db.entries, entry.id = before.id ∧ entry.row.name = before.row.name ∧
      (entry.row.active → before.row.active ∧ before.row.name = name) := by
  obtain ⟨before, inside, rfl⟩ := List.mem_map.mp member
  refine ⟨before, inside, ?_⟩
  split
  · refine ⟨rfl, rfl, ?_⟩
    intro active
    cases active
  · rename_i kept
    refine ⟨rfl, rfl, fun active => ⟨active, ?_⟩⟩
    exact Classical.byContradiction fun differ => kept ⟨active, differ⟩

theorem mem_setActive {db : Database} {name : String} {now : Int} {entry : Entry}
    (member : entry ∈ (db.setActive name now).entries) :
    ∃ before ∈ db.entries, entry.id = before.id ∧ entry.row.name = before.row.name ∧
      (entry.row.active → before.row.active ∨ before.row.name = name) := by
  obtain ⟨before, inside, rfl⟩ := List.mem_map.mp member
  refine ⟨before, inside, ?_⟩
  split
  · rename_i named
    exact ⟨rfl, rfl, fun _ => .inr named⟩
  · exact ⟨rfl, rfl, .inl⟩

section Resume

variable {server : Server} {place : ℕ} {entry : Entry}

/-- The phases of an application store nothing and remove nothing. -/
theorem Guarded.inactive_set (guarded : Guarded server) {next : Phase} (creates : next.created? = none) :
    ∀ phase ∈ server.requests.set place next, ∀ row ∈ phase.created?, row.active = false := by
  intro other member row created
  rcases List.mem_or_eq_of_mem_set member with old | rfl
  · exact guarded.inactive other old row created
  · rw [creates] at created
    cases created

theorem Guarded.load (guarded : Guarded server)
    (found : server.requests[place]? = some (.applyRun entry)) :
    Guarded { db := { server.db with loaded := some entry.id }
              requests := server.requests.set place (.applyAudit entry true) } where
  names := guarded.names
  ids := guarded.ids
  fresh := guarded.fresh
  inactive := guarded.inactive_set rfl
  owed := fun _ _ _ => .inr ⟨_, mem_set_self found, rfl⟩
  spared := by
    intro other member phase inside removes
    rcases List.mem_or_eq_of_mem_set inside with old | rfl
    · exact guarded.spared other member phase old removes
    · cases removes

theorem Guarded.clear (guarded : Guarded server)
    (found : server.requests[place]? = some (.applyClear entry)) :
    Guarded { db := server.db.clearOthers entry.row.name
              requests := server.requests.set place (.applySet entry) } where
  names := by
    refine (names_map fun other => ?_).symm ▸ guarded.names
    split <;> rfl
  ids := by
    refine (ids_map fun other => ?_).symm ▸ guarded.ids
    split <;> rfl
  fresh := by
    intro other member
    obtain ⟨before, inside, id, -, -⟩ := mem_clearOthers member
    exact id ▸ guarded.fresh before inside
  inactive := guarded.inactive_set rfl
  owed := by
    -- what is left active has the name that this application goes on to set
    intro other member active
    obtain ⟨before, inside, -, name, kept⟩ := mem_clearOthers member
    exact .inr ⟨_, mem_set_self found, decide_eq_true (name.trans (kept active).2).symm⟩
  spared := by
    intro other member phase inside removes
    obtain ⟨before, here, -, name, kept⟩ := mem_clearOthers member
    rw [name] at removes
    rcases List.mem_or_eq_of_mem_set inside with old | rfl
    · have spared := guarded.spared before here phase old removes
      by_cases active : other.row.active = true
      · rw [(kept active).1] at spared
        cases spared
      · exact Bool.eq_false_iff.mpr active
    · cases removes

/-- The one write that can go wrong. -/
theorem Guarded.set (guarded : Guarded server) {now : Int}
    (found : server.requests[place]? = some (.applySet entry))
    (ordered : ∀ other ∈ server.db.entries, other.row.name = entry.row.name →
      (server.db.loaded = some other.id ∨ ∃ phase ∈ server.requests, phase.clears other.row.name) ∧
      ∀ phase ∈ server.requests, phase.deletes other.row.name = false) :
    Guarded { db := server.db.setActive entry.row.name now
              requests := server.requests.set place .finished } where
  names := by
    refine (names_map fun other => ?_).symm ▸ guarded.names
    split <;> rfl
  ids := by
    refine (ids_map fun other => ?_).symm ▸ guarded.ids
    split <;> rfl
  fresh := by
    intro other member
    obtain ⟨before, inside, id, -, -⟩ := mem_setActive member
    exact id ▸ guarded.fresh before inside
  inactive := guarded.inactive_set rfl
  owed := by
    intro other member active
    obtain ⟨before, inside, id, name, kept⟩ := mem_setActive member
    rw [id, name]
    by_cases named : before.row.name = entry.row.name
    · refine (ordered before inside named).1.imp_right ?_
      rintro ⟨phase, waiting, clears⟩
      have apart : phase ≠ .applySet entry := by
        rintro rfl
        cases clears
      exact ⟨phase, mem_set_of_ne found waiting apart, Phase.claims_of_clears clears⟩
    · refine (guarded.owed before inside ((kept active).resolve_right named)).imp_right ?_
      refine claimed_set found fun claims => ?_
      exact absurd (of_decide_eq_true claims).symm named
  spared := by
    intro other member phase inside removes
    obtain ⟨before, here, -, name, kept⟩ := mem_setActive member
    rw [name] at removes
    rcases List.mem_or_eq_of_mem_set inside with old | rfl
    · have spared := guarded.spared before here phase old removes
      by_cases active : other.row.active = true
      · rcases kept active with before' | named
        · rw [before'] at spared
          cases spared
        · rw [(ordered before here named).2 phase old] at removes
          cases removes
      · exact Bool.eq_false_iff.mpr active
    · cases removes

theorem Guarded.remove (guarded : Guarded server) {name : String}
    (found : server.requests[place]? = some (.deleteRow name)) :
    Guarded { db := { server.db with
                entries := server.db.entries.filter (·.row.name ≠ name) }
              requests := server.requests.set place .deleteAudit } where
  names := guarded.names.sublist ((List.filter_sublist).map _)
  ids := guarded.ids.sublist ((List.filter_sublist).map _)
  fresh := fun other member => guarded.fresh other (List.mem_of_mem_filter member)
  inactive := guarded.inactive_set rfl
  owed := by
    intro other member active
    refine (guarded.owed other (List.mem_of_mem_filter member) active).imp_right ?_
    exact claimed_set found fun claims => by cases claims
  spared := by
    intro other member phase inside removes
    rcases List.mem_or_eq_of_mem_set inside with old | rfl
    · exact guarded.spared other (List.mem_of_mem_filter member) phase old removes
    · cases removes

theorem Guarded.insert (guarded : Guarded server) {row : Ruleset} {seeds : List FwRuleSeed}
    {next : Phase} (found : server.requests[place]? = some (.createRow row seeds))
    (absent : server.db.find? row.name = none)
    (next' : next = .createAudit ∨ next = .createRules) :
    Guarded { db := { server.db with
                entries := server.db.entries ++ [⟨server.db.nextId, row⟩]
                nextId := server.db.nextId + 1 }
              requests := server.requests.set place next } := by
  have inactive : row.active = false :=
    guarded.inactive _ (List.mem_of_getElem? found) row rfl
  have unnamed : row.name ∉ server.db.entries.map (·.row.name) := by
    intro member
    obtain ⟨other, inside, same⟩ := List.mem_map.mp member
    exact List.find?_eq_none.mp absent other inside (decide_eq_true same)
  have unused : server.db.nextId ∉ server.db.entries.map Entry.id := by
    intro member
    obtain ⟨other, inside, same⟩ := List.mem_map.mp member
    exact absurd (guarded.fresh other inside) (same ▸ Nat.lt_irrefl _)
  constructor
  · rw [List.map_append, List.nodup_append]
    refine ⟨guarded.names, by simp, fun first member second only same => unnamed ?_⟩
    have named : first = row.name := same.trans (List.mem_singleton.mp only)
    exact named ▸ member
  · rw [List.map_append, List.nodup_append]
    refine ⟨guarded.ids, by simp, fun first member second only same => unused ?_⟩
    have numbered : first = server.db.nextId := same.trans (List.mem_singleton.mp only)
    exact numbered ▸ member
  · intro other member
    rcases List.mem_append.mp member with old | new
    · exact Nat.lt_succ_of_lt (guarded.fresh other old)
    · rw [List.mem_singleton.mp new]
      exact Nat.lt_succ_self _
  · rcases next' with rfl | rfl <;> exact guarded.inactive_set rfl
  · intro other member active
    rcases List.mem_append.mp member with old | new
    · refine (guarded.owed other old active).imp_right ?_
      exact claimed_set found fun claims => by cases claims
    · rw [List.mem_singleton.mp new, inactive] at active
      cases active
  · intro other member phase inside removes
    rcases List.mem_append.mp member with old | new
    · rcases List.mem_or_eq_of_mem_set inside with before | rfl
      · exact guarded.spared other old phase before removes
      · rcases next' with rfl | rfl <;> cases removes
    · rw [List.mem_singleton.mp new]
      exact inactive

end Resume

theorem start_quiet (request : Request) (name : String) :
    request.start.claims name = false ∧ request.start.deletes name = false := by
  cases request with
  | apply target dryRun =>
    simp only [Request.start]
    split <;> exact ⟨rfl, rfl⟩
  | create args =>
    simp only [Request.start]
    split <;> exact ⟨rfl, rfl⟩
  | delete target =>
    simp only [Request.start]
    split <;> exact ⟨rfl, rfl⟩

theorem start_inactive (request : Request) :
    ∀ row ∈ request.start.created?, row.active = false := by
  cases request with
  | apply target dryRun =>
    simp only [Request.start]
    split <;> exact fun _ created => by cases created
  | create args =>
    simp only [Request.start]
    split
    · exact fun _ created => by cases created
    · rintro row ⟨⟩
      rfl
  | delete target =>
    simp only [Request.start]
    split <;> exact fun _ created => by cases created

theorem Guarded.arrive {server : Server} (guarded : Guarded server) (request : Request) :
    Guarded (server.step (.arrive request)) where
  names := guarded.names
  ids := guarded.ids
  fresh := guarded.fresh
  inactive := by
    intro phase member
    rcases List.mem_append.mp member with old | new
    · exact guarded.inactive phase old
    · rw [List.mem_singleton.mp new]
      exact start_inactive request
  owed := by
    intro entry member active
    refine (guarded.owed entry member active).imp_right ?_
    rintro ⟨phase, waiting, claims⟩
    exact ⟨phase, List.mem_append_left _ waiting, claims⟩
  spared := by
    intro entry member phase inside removes
    rcases List.mem_append.mp inside with old | new
    · exact guarded.spared entry member phase old removes
    · rw [List.mem_singleton.mp new, (start_quiet request entry.row.name).2] at removes
      cases removes

/-- The entry of a name is the one that is found. -/
theorem Guarded.find_eq {server : Server} (guarded : Guarded server) {name : String} {found entry : Entry}
    (lookup : server.db.find? name = some found) (member : entry ∈ server.db.entries)
    (named : entry.row.name = name) : entry = found := by
  subst named
  exact Option.some.inj ((find?_of_nodup guarded.names member).symm.trans lookup)

theorem Guarded.resume {server : Server} (guarded : Guarded server) {place : ℕ} {succeeds : Bool}
    {now : Int} (ordered : server.Ordered (.resume place succeeds now)) :
    Guarded (server.step (.resume place succeeds now)) := by
  unfold Server.step
  dsimp only
  cases found : server.requests[place]? with
  | none => exact guarded
  | some phase =>
    have quiet {next : Phase} (creates : next.created? = none)
        (claims : ∀ name, phase.claims name = false)
        (deletes : ∀ name, next.deletes name = false) :
        Guarded { server with requests := server.requests.set place next } := by
      refine guarded.goOn found ?_ ?_ ?_
      · rw [creates]
        exact fun _ created => by cases created
      · intro name claimed
        rw [claims] at claimed
        cases claimed
      · intro entry _ removes
        rw [deletes] at removes
        cases removes
    cases phase with
    | finished => exact quiet rfl (fun _ => rfl) fun _ => rfl
    | applyFind name dryRun =>
      simp only [Phase.resume]
      split <;> exact quiet rfl (fun _ => rfl) fun _ => rfl
    | applyRules entry dryRun => exact quiet rfl (fun _ => rfl) fun _ => rfl
    | applyProbe entry dryRun =>
      cases dryRun <;> exact quiet rfl (fun _ => rfl) fun _ => rfl
    | applyRun entry =>
      cases succeeds with
      | true => exact guarded.load found
      | false => exact quiet rfl (fun _ => rfl) fun _ => rfl
    | applyAudit entry loaded =>
      cases loaded with
      | false => exact quiet rfl (fun _ => rfl) fun _ => rfl
      | true =>
        refine guarded.goOn found (fun _ created => by cases created) (fun _ _ => rfl) ?_
        exact fun _ _ removes => by cases removes
    | applyClear entry => exact guarded.clear found
    | applySet entry => exact guarded.set found (ordered _ found)
    | deleteFind name =>
      simp only [Phase.resume]
      split
      · exact quiet rfl (fun _ => rfl) fun _ => rfl
      · rename_i entry lookup
        by_cases active : entry.row.active = true
        · rw [if_pos active]
          exact quiet rfl (fun _ => rfl) fun _ => rfl
        · rw [if_neg active]
          refine guarded.goOn found (fun _ created => by cases created) (fun _ claims => by cases claims) ?_
          intro other member removes
          right
          rw [guarded.find_eq lookup member (of_decide_eq_true removes).symm]
          exact Bool.eq_false_iff.mpr active
    | deleteRules name =>
      refine guarded.goOn found (fun _ created => by cases created) (fun _ claims => by cases claims) ?_
      exact fun _ _ removes => .inl removes
    | deleteRow name => exact guarded.remove found
    | deleteAudit => exact quiet rfl (fun _ => rfl) fun _ => rfl
    | createFind row =>
      simp only [Phase.resume]
      split
      · refine guarded.goOn found (fun _ created => created) (fun _ claims => by cases claims) ?_
        exact fun _ _ removes => by cases removes
      · exact quiet rfl (fun _ => rfl) fun _ => rfl
    | createRow row seeds =>
      simp only [Phase.resume]
      split
      · exact quiet rfl (fun _ => rfl) fun _ => rfl
      · rename_i absent
        refine guarded.insert found (Option.not_isSome_iff_eq_none.mp absent) ?_
        split
        · exact .inl rfl
        · exact .inr rfl
    | createRules => exact quiet rfl (fun _ => rfl) fun _ => rfl
    | createAudit => exact quiet rfl (fun _ => rfl) fun _ => rfl

theorem Guarded.step {server : Server} (event : Event) (ordered : server.Ordered event)
    (guarded : Guarded server) : Guarded (server.step event) := by
  cases event with
  | arrive request => exact guarded.arrive request
  | resume place succeeds now => exact guarded.resume ordered

/-- No request removes an active ruleset. -/
theorem Guarded.keeps_active {server : Server} (guarded : Guarded server) (event : Event)
    {entry : Entry} (member : entry ∈ server.db.entries) (active : entry.row.active) :
    ∃ after ∈ (server.step event).db.entries, after.id = entry.id := by
  cases event with
  | arrive request => exact ⟨entry, member, rfl⟩
  | resume place succeeds now =>
    unfold Server.step
    dsimp only
    cases found : server.requests[place]? with
    | none => exact ⟨entry, member, rfl⟩
    | some phase =>
      have same {db : Database} (kept : db.entries = server.db.entries) :
          ∃ after ∈ db.entries, after.id = entry.id := ⟨entry, kept ▸ member, rfl⟩
      cases phase with
      | applyFind name dryRun =>
        simp only [Phase.resume]
        split <;> exact same rfl
      | applyRun target =>
        simp only [Phase.resume]
        split <;> exact same rfl
      | applyClear target =>
        refine ⟨_, List.mem_map_of_mem member, ?_⟩
        dsimp only
        split <;> rfl
      | applySet target =>
        refine ⟨_, List.mem_map_of_mem member, ?_⟩
        dsimp only
        split <;> rfl
      | deleteFind name =>
        simp only [Phase.resume]
        split <;> exact same rfl
      | deleteRow name =>
        refine ⟨entry, List.mem_filter.mpr ⟨member, ?_⟩, rfl⟩
        rw [decide_eq_true_eq]
        intro named
        have spared := guarded.spared entry member _ (List.mem_of_getElem? found)
          (decide_eq_true named.symm)
        rw [active] at spared
        cases spared
      | createFind row =>
        simp only [Phase.resume]
        split <;> exact same rfl
      | createRow row seeds =>
        simp only [Phase.resume]
        split
        · exact same rfl
        · exact ⟨entry, List.mem_append_left _ member, rfl⟩
      | finished => exact same rfl
      | applyRules target dryRun => exact same rfl
      | applyProbe target dryRun => exact same rfl
      | applyAudit target loaded => exact same rfl
      | deleteRules name => exact same rfl
      | deleteAudit => exact same rfl
      | createRules => exact same rfl
      | createAudit => exact same rfl

theorem Guarded.singleActive {server : Server} (guarded : Guarded server) (settled : server.Settled) :
    SingleActive server.db := by
  have loaded : ∀ entry ∈ server.db.entries, entry.row.active → server.db.loaded = some entry.id := by
    intro entry member active
    refine (guarded.owed entry member active).resolve_right ?_
    rintro ⟨phase, waiting, claims⟩
    have idle := settled phase waiting
    unfold Phase.claims at claims
    split at claims
    · cases idle
    · cases idle
    · cases idle
    · cases claims
  refine ⟨?_, loaded⟩
  intro entry member other member' active active'
  have same : entry.id = other.id :=
    Option.some.inj ((loaded entry member active).symm.trans (loaded other member' active'))
  have found := find?_of_nodup guarded.ids member
  rw [same, find?_of_nodup guarded.ids member'] at found
  exact (Option.some.inj found).symm

theorem guarded_idle : Guarded idleServer where
  names := List.nodup_nil
  ids := List.nodup_nil
  fresh := fun _ member => by cases member
  inactive := fun _ member => by cases member
  owed := fun _ member => by cases member
  spared := fun _ member => by cases member

/-- A request that goes on for so many awaits, with every program succeeding. -/
def proceed (place steps : ℕ) : List Event := List.replicate steps (.resume place true 7)

/-- Two rulesets, applied one after the other, and the first deleted. -/
def oneAfterTheOther : List Event :=
  [.arrive (.create ⟨some "edge", none, none⟩), .arrive (.create ⟨some "lan", none, none⟩),
    .arrive (.apply (some "edge") false), .arrive (.apply (some "lan") false),
    .arrive (.delete (some "edge"))] ++
  proceed 0 3 ++ proceed 1 3 ++ proceed 2 7 ++ proceed 3 7 ++ proceed 4 4

/-- Two applications that both clear the other rulesets before either sets its own. -/
def bothAtOnce : List Event :=
  [.arrive (.create ⟨some "edge", none, none⟩), .arrive (.create ⟨some "lan", none, none⟩),
    .arrive (.apply (some "edge") false), .arrive (.apply (some "lan") false)] ++
  proceed 0 3 ++ proceed 1 3 ++ proceed 2 6 ++ proceed 3 6 ++ proceed 2 1 ++ proceed 3 1

end SysDeck.Web.Firewall
