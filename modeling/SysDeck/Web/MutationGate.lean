import SysDeck.Library.Execution
import SysDeck.Web.Accounts
import SysDeck.Web.BridgeRoute

/-! Who may run a mutation. A session carries a name only; the rights behind it are
looked up on every request in the group file, the passwd file and the local accounts,
with the two files behind a cache of a minute. The console is in its default posture,
where a mutation asks for an admin. -/

namespace SysDeck.Web

/-- The account stores as they are at one moment; a file may be missing. -/
structure AccountData where
  passwd : Option (List Char)
  group : Option (List Char)
  accounts : LocalAccounts

def cacheMs : ℤ := 60000

/-- A parsed file, stamped with the start of its read, and the time its text was taken. -/
structure FileCache (Value : Type) where
  value : Value
  readAt : ℤ
  loaded : ℤ

def FileCache.fresh {Value : Type} (cache : FileCache Value) (now : ℤ) : Bool :=
  now - cache.readAt < cacheMs

/-- What a lookup was given when it asked, and the time that comes from. -/
structure Reading (Value : Type) where
  value : Value
  asked : ℤ
  loaded : ℤ

/-- What a lookup has decided on; the local accounts are not asked for a unix name. -/
structure Verdict where
  admins : Reading (List (List Char))
  rows : Reading PasswdRows
  account : Option (Reading (Option LocalAccount))

def Verdict.profile (verdict : Verdict) (user : List Char) : Option ConsoleUser :=
  consoleUser user verdict.admins.value verdict.rows.value
    (verdict.account.bind fun reading => reading.value)

/-- consoleUser() between its awaits. -/
inductive LookupPhase where
  | groups
  | groupFile (startedAt : ℤ)
  | groupText (startedAt : ℤ) (text : Option (List Char)) (loaded : ℤ)
  | passwd (admins : Reading (List (List Char)))
  | passwdFile (admins : Reading (List (List Char))) (startedAt : ℤ)
  | passwdText (admins : Reading (List (List Char))) (startedAt : ℤ) (text : Option (List Char))
    (loaded : ℤ)
  | account (admins : Reading (List (List Char))) (rows : Reading PasswdRows)
  | decided (verdict : Verdict)

/-- A lookup of a name, for a mutation or for a page that shows the user. -/
structure Lookup where
  user : List Char
  mutation : Option Dispatch
  phase : LookupPhase

structure MutationRun where
  moment : ℤ
  user : List Char
  call : Dispatch
  verdict : Verdict

/-- The mutation that a lookup runs when it resumes, with the verdict behind it. -/
def Lookup.run? (lookup : Lookup) : Option (Dispatch × Verdict) :=
  match lookup.mutation, lookup.phase with
  | some call, .decided verdict =>
    match verdict.profile lookup.user with
    | some profile => if profile.isAdmin then some (call, verdict) else none
    | none => none
  | _, _ => none

structure Console where
  clock : ℤ
  data : AccountData
  groupCache : Option (FileCache (List (List Char)))
  passwdCache : Option (FileCache PasswdRows)
  lookups : OrderedMap ℕ Lookup
  /-- The handlers of mutations that ran. -/
  ran : List MutationRun
  /-- The account data of every moment so far. -/
  seen : List (ℤ × AccountData)

inductive ConsoleLabel where
  | tick (ms : ℕ)
  | editPasswd (text : Option (List Char))
  | editGroup (text : Option (List Char))
  | manage (command : ManageCommand)
  | seed (name : List Char)
  | request (id : ℕ) (raw : Option (List Char)) (token : Option (List Char))
  | look (id : ℕ) (user : List Char)
  | resume (id : ℕ)
  | queryFails (id : ℕ)

namespace Console

def init (clock : ℤ) (data : AccountData) : Console where
  clock
  data
  groupCache := none
  passwdCache := none
  lookups := .empty
  ran := []
  seen := [(clock, data)]

def begin (console : Console) (id : ℕ) (user : List Char) (mutation : Option Dispatch) : Console :=
  if console.lookups.contains id then console
  else { console with lookups := console.lookups.set id { user, mutation, phase := .groups } }

def become (console : Console) (id : ℕ) (lookup : Lookup) (phase : LookupPhase) : Console :=
  { console with lookups := console.lookups.set id { lookup with phase } }

/-- The rows are there: a unix name is decided, and another one asks the local accounts. -/
def withRows (user : List Char) (admins : Reading (List (List Char))) (rows : Reading PasswdRows) :
    LookupPhase :=
  if (rows.value.find? user).isSome then .decided { admins, rows, account := none }
  else .account admins rows

def resumeLookup (console : Console) (id : ℕ) (lookup : Lookup) : Console :=
  match lookup.phase with
  | .groups =>
    match console.groupCache.filter (·.fresh console.clock) with
    | some cache => console.become id lookup (.passwd ⟨cache.value, console.clock, cache.loaded⟩)
    | none => console.become id lookup (.groupFile console.clock)
  | .groupFile startedAt =>
    console.become id lookup (.groupText startedAt console.data.group console.clock)
  | .groupText startedAt text loaded =>
    { console with groupCache := some ⟨adminUsernames text, startedAt, loaded⟩ }.become id lookup
      (.passwd ⟨adminUsernames text, startedAt, loaded⟩)
  | .passwd admins =>
    match console.passwdCache.filter (·.fresh console.clock) with
    | some cache => console.become id lookup
        (withRows lookup.user admins ⟨cache.value, console.clock, cache.loaded⟩)
    | none => console.become id lookup (.passwdFile admins console.clock)
  | .passwdFile admins startedAt =>
    console.become id lookup (.passwdText admins startedAt console.data.passwd console.clock)
  | .passwdText admins startedAt text loaded =>
    { console with passwdCache := some ⟨passwdRows text, startedAt, loaded⟩ }.become id lookup
      (withRows lookup.user admins ⟨passwdRows text, startedAt, loaded⟩)
  | .account admins rows => console.become id lookup (.decided
      { admins, rows
        account := some ⟨console.data.accounts.find? lookup.user, console.clock, console.clock⟩ })
  | .decided _ =>
    { console with
      lookups := console.lookups.erase id
      ran := match lookup.run? with
        | some (call, verdict) => ⟨console.clock, lookup.user, call, verdict⟩ :: console.ran
        | none => console.ran }

/-- The database does not answer, and the name stays unknown. -/
def failQuery (console : Console) (id : ℕ) (lookup : Lookup) : Console :=
  match lookup.phase with
  | .account admins rows => console.become id lookup (.decided
      { admins, rows, account := some ⟨none, console.clock, console.clock⟩ })
  | _ => console

def request (hmac : Hmac) (secret : List Char) (console : Console) (id : ℕ)
    (raw token : Option (List Char)) : Console :=
  match planRequest raw with
  | .run call true =>
    match (verifySessionToken hmac secret console.clock token).bind (·.user) with
    | some user => console.begin id user (some call)
    | none => console
  | .run _ false | .reply _ => console

def act (hmac : Hmac) (secret : List Char) (console : Console) : ConsoleLabel → Console
  | .tick ms => { console with clock := console.clock + ms }
  | .editPasswd text => { console with data := { console.data with passwd := text } }
  | .editGroup text => { console with data := { console.data with group := text } }
  | .manage command =>
    { console with data := { console.data with accounts := manage console.data.accounts command } }
  | .seed name =>
    { console with data :=
      { console.data with accounts := seedDefaultLocalAccount console.data.accounts name } }
  | .request id raw token => console.request hmac secret id raw token
  | .look id user => console.begin id user none
  | .resume id =>
    match console.lookups.find? id with
    | some lookup => console.resumeLookup id lookup
    | none => console
  | .queryFails id =>
    match console.lookups.find? id with
    | some lookup => console.failQuery id lookup
    | none => console

def record (console : Console) : Console :=
  { console with seen := (console.clock, console.data) :: console.seen }

def step (hmac : Hmac) (secret : List Char) (console : Console) (label : ConsoleLabel) : Console :=
  (console.act hmac secret label).record

end Console

/-! What a lookup has read is account data of some moment, and of less than a minute
before it asked. -/

abbrev Seen := List (ℤ × AccountData)

/-- The value is what the read gives on the account data of the time. -/
def Taken {Value : Type} (seen : Seen) (read : AccountData → Value) (value : Value) (loaded : ℤ) :
    Prop :=
  ∃ data, (loaded, data) ∈ seen ∧ read data = value

theorem Taken.mono {Value : Type} {seen later : Seen} {read : AccountData → Value} {value : Value}
    {loaded : ℤ} (taken : Taken seen read value loaded) (more : seen ⊆ later) :
    Taken later read value loaded := by
  obtain ⟨data, member, same⟩ := taken
  exact ⟨data, more member, same⟩

def readAdmins (data : AccountData) : List (List Char) := adminUsernames data.group

def readRows (data : AccountData) : PasswdRows := passwdRows data.passwd

structure FileCache.Sound {Value : Type} (cache : FileCache Value) (seen : Seen)
    (read : AccountData → Value) : Prop where
  taken : Taken seen read cache.value cache.loaded
  stamped : cache.readAt ≤ cache.loaded

structure Reading.Sound {Value : Type} (reading : Reading Value) (seen : Seen)
    (read : AccountData → Value) : Prop where
  taken : Taken seen read reading.value reading.loaded
  young : reading.asked - cacheMs < reading.loaded

theorem FileCache.Sound.mono {Value : Type} {cache : FileCache Value} {seen later : Seen}
    {read : AccountData → Value} (sound : cache.Sound seen read) (more : seen ⊆ later) :
    cache.Sound later read :=
  ⟨sound.taken.mono more, sound.stamped⟩

theorem Reading.Sound.mono {Value : Type} {reading : Reading Value} {seen later : Seen}
    {read : AccountData → Value} (sound : reading.Sound seen read) (more : seen ⊆ later) :
    reading.Sound later read :=
  ⟨sound.taken.mono more, sound.young⟩

/-- A fresh cache answers with data of the last minute. -/
theorem FileCache.Sound.reading {Value : Type} {cache : FileCache Value} {seen : Seen}
    {read : AccountData → Value} (sound : cache.Sound seen read) {now : ℤ}
    (fresh : cache.fresh now) : (⟨cache.value, now, cache.loaded⟩ : Reading Value).Sound seen read := by
  have stamped := sound.stamped
  simp only [FileCache.fresh, decide_eq_true_eq] at fresh
  refine ⟨sound.taken, ?_⟩
  dsimp only
  omega

/-- A file that was read for the lookup is of a time after it asked. -/
theorem FileCache.Sound.own {Value : Type} {cache : FileCache Value} {seen : Seen}
    {read : AccountData → Value} (sound : cache.Sound seen read) :
    (⟨cache.value, cache.readAt, cache.loaded⟩ : Reading Value).Sound seen read := by
  have stamped := sound.stamped
  refine ⟨sound.taken, ?_⟩
  unfold cacheMs
  dsimp only
  omega

structure Verdict.Sound (verdict : Verdict) (seen : Seen) (user : List Char) : Prop where
  admins : verdict.admins.Sound seen readAdmins
  rows : verdict.rows.Sound seen readRows
  account : ∀ reading ∈ verdict.account, ∀ row ∈ reading.value,
    Taken seen (fun data => data.accounts.find? user) (some row) reading.loaded

theorem Verdict.Sound.mono {verdict : Verdict} {seen later : Seen} {user : List Char}
    (sound : verdict.Sound seen user) (more : seen ⊆ later) : verdict.Sound later user :=
  ⟨sound.admins.mono more, sound.rows.mono more, fun reading given row found =>
    (sound.account reading given row found).mono more⟩

/-- What a lookup holds between two awaits. -/
def LookupPhase.Sound (phase : LookupPhase) (clock : ℤ) (seen : Seen) (user : List Char) : Prop :=
  match phase with
  | .groups => True
  | .groupFile startedAt => startedAt ≤ clock
  | .groupText startedAt text loaded =>
    startedAt ≤ loaded ∧ Taken seen AccountData.group text loaded
  | .passwd admins => admins.Sound seen readAdmins
  | .passwdFile admins startedAt => admins.Sound seen readAdmins ∧ startedAt ≤ clock
  | .passwdText admins startedAt text loaded =>
    admins.Sound seen readAdmins ∧ startedAt ≤ loaded ∧ Taken seen AccountData.passwd text loaded
  | .account admins rows => admins.Sound seen readAdmins ∧ rows.Sound seen readRows
  | .decided verdict => verdict.Sound seen user

theorem LookupPhase.Sound.mono {phase : LookupPhase} {clock next : ℤ} {seen later : Seen}
    {user : List Char} (sound : phase.Sound clock seen user) (passed : clock ≤ next)
    (more : seen ⊆ later) : phase.Sound next later user := by
  cases phase with
  | groups => trivial
  | groupFile startedAt => exact le_trans sound passed
  | groupText startedAt text loaded => exact ⟨sound.1, sound.2.mono more⟩
  | passwd admins => exact Reading.Sound.mono sound more
  | passwdFile admins startedAt => exact ⟨sound.1.mono more, le_trans sound.2 passed⟩
  | passwdText admins startedAt text loaded =>
    exact ⟨sound.1.mono more, sound.2.1, sound.2.2.mono more⟩
  | account admins rows => exact ⟨sound.1.mono more, sound.2.mono more⟩
  | decided verdict => exact Verdict.Sound.mono sound more

/-- A verdict that a mutation ran on. -/
structure MutationRun.Sound (run : MutationRun) (seen : Seen) : Prop where
  verdict : run.verdict.Sound seen run.user
  admin : ∃ profile, run.verdict.profile run.user = some profile ∧ profile.isAdmin
  mutation : isMutation run.call.module run.call.command = .ok true

theorem Lookup.run?_eq_some {lookup : Lookup} {call : Dispatch} {verdict : Verdict}
    (runs : lookup.run? = some (call, verdict)) :
    lookup.mutation = some call ∧ lookup.phase = .decided verdict ∧
      ∃ profile, verdict.profile lookup.user = some profile ∧ profile.isAdmin := by
  unfold Lookup.run? at runs
  split at runs
  · rename_i asked decided mutation phase
    split at runs
    · rename_i profile known
      split at runs
      · rename_i admin
        cases runs
        exact ⟨mutation, phase, profile, known, admin⟩
      · cases runs
    · cases runs
  · cases runs

namespace Console

structure Sound (console : Console) : Prop where
  times : ∀ entry ∈ console.seen, entry.1 ≤ console.clock
  groupCache : ∀ cache ∈ console.groupCache, cache.Sound console.seen readAdmins
  passwdCache : ∀ cache ∈ console.passwdCache, cache.Sound console.seen readRows
  lookups : ∀ id lookup, console.lookups.find? id = some lookup →
    lookup.phase.Sound console.clock console.seen lookup.user ∧
      ∀ call ∈ lookup.mutation, isMutation call.module call.command = .ok true
  ran : ∀ run ∈ console.ran, run.Sound console.seen

/-- The account data of now is on record. -/
def Current (console : Console) : Prop := (console.clock, console.data) ∈ console.seen

theorem init_sound (clock : ℤ) (data : AccountData) : (init clock data).Sound := by
  refine ⟨?_, ?_, ?_, ?_, ?_⟩
  · intro entry member
    rw [List.mem_singleton.mp member]
    exact le_refl clock
  · intro cache held
    cases held
  · intro cache held
    cases held
  · intro id lookup found
    cases found
  · intro run member
    cases member

theorem init_current (clock : ℤ) (data : AccountData) : (init clock data).Current :=
  List.mem_cons_self ..

theorem record_current (console : Console) : console.record.Current := List.mem_cons_self ..

theorem Sound.record {console : Console} (sound : console.Sound) : console.record.Sound := by
  have more : console.seen ⊆ console.record.seen := List.subset_cons_self _ _
  refine ⟨?_, ?_, ?_, ?_, ?_⟩
  · intro entry member
    rcases List.mem_cons.mp member with rfl | member
    · exact le_refl _
    · exact sound.times entry member
  · exact fun cache held => (sound.groupCache cache held).mono more
  · exact fun cache held => (sound.passwdCache cache held).mono more
  · intro id lookup found
    obtain ⟨phase, call⟩ := sound.lookups id lookup found
    exact ⟨phase.mono (le_refl _) more, call⟩
  · intro run member
    obtain ⟨verdict, admin, mutation⟩ := sound.ran run member
    exact ⟨verdict.mono more, admin, mutation⟩

/-- A lookup moves to a phase that is sound. -/
theorem Sound.become {console : Console} (sound : console.Sound) {id : ℕ} {lookup : Lookup}
    (found : console.lookups.find? id = some lookup) {phase : LookupPhase}
    (next : phase.Sound console.clock console.seen lookup.user) :
    (console.become id lookup phase).Sound := by
  refine ⟨sound.times, sound.groupCache, sound.passwdCache, ?_, sound.ran⟩
  intro other held present
  simp only [Console.become] at present
  rw [OrderedMap.find?_set] at present
  split at present
  · cases present
    exact ⟨next, (sound.lookups id lookup found).2⟩
  · exact sound.lookups other held present

theorem Sound.begin {console : Console} (sound : console.Sound) (id : ℕ) (user : List Char)
    {mutation : Option Dispatch}
    (registered : ∀ call ∈ mutation, isMutation call.module call.command = .ok true) :
    (console.begin id user mutation).Sound := by
  unfold Console.begin
  split
  · exact sound
  · refine ⟨sound.times, sound.groupCache, sound.passwdCache, ?_, sound.ran⟩
    intro other held present
    rw [OrderedMap.find?_set] at present
    split at present
    · cases present
      exact ⟨trivial, registered⟩
    · exact sound.lookups other held present

theorem withRows_sound {clock : ℤ} {seen : Seen} {user : List Char}
    {admins : Reading (List (List Char))} {rows : Reading PasswdRows}
    (groups : admins.Sound seen readAdmins) (passwd : rows.Sound seen readRows) :
    (withRows user admins rows).Sound clock seen user := by
  unfold withRows
  split
  · refine ⟨groups, passwd, ?_⟩
    intro reading given
    cases given
  · exact ⟨groups, passwd⟩

theorem Sound.resumeLookup {console : Console} (sound : console.Sound) (current : console.Current)
    {id : ℕ} {lookup : Lookup} (found : console.lookups.find? id = some lookup) :
    (console.resumeLookup id lookup).Sound := by
  obtain ⟨phase, registered⟩ := sound.lookups id lookup found
  unfold Console.resumeLookup
  cases held : lookup.phase with
  | groups =>
    dsimp only
    split
    · rename_i cache kept
      obtain ⟨cached, fresh⟩ := Option.filter_eq_some_iff.mp kept
      exact sound.become found ((sound.groupCache cache cached).reading fresh)
    · exact sound.become found (le_refl console.clock)
  | groupFile startedAt =>
    rw [held] at phase
    exact sound.become found ⟨phase, console.data, current, rfl⟩
  | groupText startedAt text loaded =>
    rw [held] at phase
    obtain ⟨stamped, data, member, rfl⟩ := phase
    have read : (⟨adminUsernames data.group, startedAt, loaded⟩ :
        FileCache (List (List Char))).Sound console.seen readAdmins :=
      ⟨⟨data, member, rfl⟩, stamped⟩
    have cached : Sound { console with groupCache := some ⟨adminUsernames data.group, startedAt, loaded⟩ } := by
      refine ⟨sound.times, ?_, sound.passwdCache, sound.lookups, sound.ran⟩
      rintro cache ⟨⟩
      exact read
    exact cached.become found read.own
  | passwd admins =>
    rw [held] at phase
    dsimp only
    split
    · rename_i cache kept
      obtain ⟨cached, fresh⟩ := Option.filter_eq_some_iff.mp kept
      exact sound.become found (withRows_sound phase ((sound.passwdCache cache cached).reading fresh))
    · exact sound.become found ⟨phase, le_refl console.clock⟩
  | passwdFile admins startedAt =>
    rw [held] at phase
    exact sound.become found ⟨phase.1, phase.2, console.data, current, rfl⟩
  | passwdText admins startedAt text loaded =>
    rw [held] at phase
    obtain ⟨groups, stamped, data, member, rfl⟩ := phase
    have read : (⟨passwdRows data.passwd, startedAt, loaded⟩ : FileCache PasswdRows).Sound
        console.seen readRows :=
      ⟨⟨data, member, rfl⟩, stamped⟩
    have cached : Sound { console with passwdCache := some ⟨passwdRows data.passwd, startedAt, loaded⟩ } := by
      refine ⟨sound.times, sound.groupCache, ?_, sound.lookups, sound.ran⟩
      rintro cache ⟨⟩
      exact read
    exact cached.become found (withRows_sound groups read.own)
  | account admins rows =>
    rw [held] at phase
    refine sound.become found ⟨phase.1, phase.2, ?_⟩
    rintro reading ⟨⟩ row present
    exact ⟨console.data, current, present⟩
  | decided verdict =>
    rw [held] at phase
    refine ⟨sound.times, sound.groupCache, sound.passwdCache, ?_, ?_⟩
    · intro other kept present
      rw [OrderedMap.find?_erase] at present
      split at present
      · cases present
      · exact sound.lookups other kept present
    · intro run member
      dsimp only at member
      split at member
      · rename_i call decided runs
        obtain ⟨asked, same, admin⟩ := Lookup.run?_eq_some runs
        rw [held] at same
        cases same
        rcases List.mem_cons.mp member with rfl | member
        · exact ⟨phase, admin, registered call asked⟩
        · exact sound.ran run member
      · exact sound.ran run member

theorem Sound.failQuery {console : Console} (sound : console.Sound) {id : ℕ} {lookup : Lookup}
    (found : console.lookups.find? id = some lookup) : (console.failQuery id lookup).Sound := by
  obtain ⟨phase, -⟩ := sound.lookups id lookup found
  unfold Console.failQuery
  split
  · rename_i admins rows held
    rw [held] at phase
    refine sound.become found ⟨phase.1, phase.2, ?_⟩
    rintro reading ⟨⟩ row ⟨⟩
  · exact sound

theorem Sound.request {hmac : Hmac} {secret : List Char} {console : Console}
    (sound : console.Sound) (id : ℕ) (raw token : Option (List Char)) :
    (console.request hmac secret id raw token).Sound := by
  unfold Console.request
  split
  · rename_i call planned
    split
    · rename_i user signed
      refine sound.begin id user ?_
      rintro call ⟨⟩
      exact planRequest_run planned
    · exact sound
  · exact sound
  · exact sound

theorem Sound.act {hmac : Hmac} {secret : List Char} {console : Console} (sound : console.Sound)
    (current : console.Current) (label : ConsoleLabel) : (console.act hmac secret label).Sound := by
  cases label with
  | tick ms =>
    refine ⟨?_, sound.groupCache, sound.passwdCache, ?_, sound.ran⟩
    · intro entry member
      have past := sound.times entry member
      simp only [Console.act]
      omega
    · intro id lookup found
      obtain ⟨phase, registered⟩ := sound.lookups id lookup found
      refine ⟨phase.mono ?_ (List.Subset.refl _), registered⟩
      simp only [Console.act]
      omega
  | editPasswd text =>
    exact ⟨sound.times, sound.groupCache, sound.passwdCache, sound.lookups, sound.ran⟩
  | editGroup text =>
    exact ⟨sound.times, sound.groupCache, sound.passwdCache, sound.lookups, sound.ran⟩
  | manage command =>
    exact ⟨sound.times, sound.groupCache, sound.passwdCache, sound.lookups, sound.ran⟩
  | seed name =>
    exact ⟨sound.times, sound.groupCache, sound.passwdCache, sound.lookups, sound.ran⟩
  | request id raw token => exact sound.request id raw token
  | look id user =>
    refine sound.begin id user ?_
    intro call asked
    cases asked
  | resume id =>
    simp only [Console.act]
    split
    · rename_i lookup found
      exact sound.resumeLookup current found
    · exact sound
  | queryFails id =>
    simp only [Console.act]
    split
    · rename_i lookup found
      exact sound.failQuery found
    · exact sound

/-- Every reached state is sound, and has the data of now on record. -/
theorem reached_sound (hmac : Hmac) (secret : List Char) (clock : ℤ) (data : AccountData)
    (labels : List ConsoleLabel) :
    (Execution.run (step hmac secret) (init clock data) labels).Sound ∧
      (Execution.run (step hmac secret) (init clock data) labels).Current := by
  refine Execution.invariant (motive := fun console : Console => console.Sound ∧ console.Current)
    ⟨init_sound clock data, init_current clock data⟩ ?_ labels
  rintro console label ⟨sound, current⟩
  exact ⟨(sound.act current label).record, record_current _⟩

end Console

/-! A mutation and the accounts of the minute before it. -/

/-- The account data of some moment of the last minute. -/
def Recent (seen : Seen) (moment : ℤ) (data : AccountData) : Prop :=
  ∃ time, (time, data) ∈ seen ∧ moment - 60000 ≤ time ∧ time ≤ moment

/-- A name has been, in the last minute, a unix account or else an enabled local one,
and an admin. -/
inductive LiveAdmin (seen : Seen) (moment : ℤ) (user : List Char) : Prop where
  | unix {groups passwd : AccountData} {row : UnixAccount}
    (groupsRecent : Recent seen moment groups) (passwdRecent : Recent seen moment passwd)
    (found : (passwdRows passwd.passwd).find? user = some row)
    (admin : row.isAdmin user (adminUsernames groups.group))
  | localStore {groups passwd accounts : AccountData} {row : LocalAccount}
    (groupsRecent : Recent seen moment groups) (passwdRecent : Recent seen moment passwd)
    (accountsRecent : Recent seen moment accounts)
    (absent : (passwdRows passwd.passwd).find? user = none)
    (found : accounts.accounts.find? user = some row) (enabled : row.disabled = false)
    (admin : LocalAccount.isAdmin user (adminUsernames groups.group))

theorem Recent.mono {seen later : Seen} {moment : ℤ} {data : AccountData}
    (recent : Recent seen moment data) (more : seen ⊆ later) : Recent later moment data := by
  obtain ⟨time, member, bounds⟩ := recent
  exact ⟨time, more member, bounds⟩

theorem LiveAdmin.mono {seen later : Seen} {moment : ℤ} {user : List Char}
    (live : LiveAdmin seen moment user) (more : seen ⊆ later) : LiveAdmin later moment user := by
  cases live with
  | unix groups passwd found admin => exact .unix (groups.mono more) (passwd.mono more) found admin
  | localStore groups passwd accounts absent found enabled admin =>
    exact .localStore (groups.mono more) (passwd.mono more) (accounts.mono more) absent found
      enabled admin

/-- No account of the name is left, or only a disabled one. -/
def Gone (user : List Char) (data : AccountData) : Prop :=
  (passwdRows data.passwd).find? user = none ∧
    ∀ row, data.accounts.find? user = some row → row.disabled

/-- The name is in no admin group, and its user id is not the superuser's. -/
def Demoted (user : List Char) (data : AccountData) : Prop :=
  user ≠ "root".toList ∧ user ∉ adminUsernames data.group ∧
    ∀ row, (passwdRows data.passwd).find? user = some row → row.uid.value ≠ 0

instance (user : List Char) (data : AccountData) : Decidable (Gone user data) :=
  match found : data.accounts.find? user with
  | none => decidable_of_iff ((passwdRows data.passwd).find? user = none)
      ⟨fun absent => ⟨absent, fun row present => by
        rw [found] at present
        cases present⟩, fun gone => gone.1⟩
  | some row => decidable_of_iff ((passwdRows data.passwd).find? user = none ∧ row.disabled = true)
      ⟨fun ⟨absent, disabled⟩ => ⟨absent, fun other present => by
        rw [found] at present
        cases present
        exact disabled⟩, fun gone => ⟨gone.1, gone.2 row found⟩⟩

/-- An account that was gone throughout the last minute runs no mutation. -/
theorem LiveAdmin.not_gone {seen : Seen} {moment : ℤ} {user : List Char}
    (live : LiveAdmin seen moment user) : ¬ ∀ data, Recent seen moment data → Gone user data := by
  intro gone
  cases live with
  | unix groups passwd found admin =>
    have missing := (gone _ passwd).1
    rw [found] at missing
    cases missing
  | localStore groups passwd accounts absent found enabled admin =>
    have disabled := (gone _ accounts).2 _ found
    rw [enabled] at disabled
    cases disabled

/-- Nor does one that was demoted throughout the last minute. -/
theorem LiveAdmin.not_demoted {seen : Seen} {moment : ℤ} {user : List Char}
    (live : LiveAdmin seen moment user) :
    ¬ ∀ data, Recent seen moment data → Demoted user data := by
  intro demoted
  cases live with
  | unix groups passwd found admin =>
    rw [UnixAccount.isAdmin, Bool.or_eq_true, List.contains_iff_mem, decide_eq_true_eq] at admin
    rcases admin with member | superuser
    · exact (demoted _ groups).2.1 member
    · exact (demoted _ passwd).2.2 _ found superuser
  | localStore groups passwd accounts absent found enabled admin =>
    rw [LocalAccount.isAdmin, Bool.or_eq_true, List.contains_iff_mem, decide_eq_true_eq] at admin
    rcases admin with root | member
    · exact (demoted _ groups).1 root
    · exact (demoted _ groups).2.1 member

/-- What the verdict was read from is at most a minute old. -/
structure Verdict.Timely (verdict : Verdict) (now : ℤ) : Prop where
  admins : now - 60000 ≤ verdict.admins.loaded
  rows : now - 60000 ≤ verdict.rows.loaded
  account : ∀ reading ∈ verdict.account, now - 60000 ≤ reading.loaded

/-- The local row behind the verdict, if it asked for one, is not disabled. -/
def Verdict.Enabled (verdict : Verdict) : Prop :=
  ∀ reading ∈ verdict.account, ∀ row ∈ reading.value, row.disabled = false

instance (verdict : Verdict) (now : ℤ) : Decidable (verdict.Timely now) :=
  decidable_of_iff (now - 60000 ≤ verdict.admins.loaded ∧ now - 60000 ≤ verdict.rows.loaded ∧
    ∀ reading ∈ verdict.account, now - 60000 ≤ reading.loaded)
    ⟨fun ⟨admins, rows, account⟩ => ⟨admins, rows, account⟩,
      fun timely => ⟨timely.admins, timely.rows, timely.account⟩⟩

instance (verdict : Verdict) : Decidable verdict.Enabled :=
  inferInstanceAs (Decidable (∀ reading ∈ verdict.account, ∀ row ∈ reading.value,
    row.disabled = false))

/-- A verdict of an admin, on recent readings and an enabled row, is of a live admin. -/
theorem Verdict.Sound.liveAdmin {verdict : Verdict} {seen : Seen} {user : List Char} {now : ℤ}
    (sound : verdict.Sound seen user) (times : ∀ entry ∈ seen, entry.1 ≤ now)
    (admin : ∃ profile, verdict.profile user = some profile ∧ profile.isAdmin)
    (timely : verdict.Timely now) (enabled : verdict.Enabled) : LiveAdmin seen now user := by
  obtain ⟨groups, groupsSeen, groupsRead⟩ := sound.admins.taken
  obtain ⟨passwd, passwdSeen, passwdRead⟩ := sound.rows.taken
  have groupsRecent : Recent seen now groups := ⟨_, groupsSeen, timely.admins, times _ groupsSeen⟩
  have passwdRecent : Recent seen now passwd := ⟨_, passwdSeen, timely.rows, times _ passwdSeen⟩
  obtain ⟨profile, known, isAdmin⟩ := admin
  rw [Verdict.profile, ← groupsRead, ← passwdRead] at known
  rcases consoleUser_isAdmin known isAdmin with ⟨row, found, unixAdmin⟩ | ⟨absent, ⟨row, given⟩, localAdmin⟩
  · exact .unix groupsRecent passwdRecent found unixAdmin
  · obtain ⟨reading, asked, held⟩ := Option.bind_eq_some_iff.mp given
    obtain ⟨accounts, accountsSeen, found⟩ := sound.account reading asked row held
    exact .localStore groupsRecent passwdRecent
      ⟨_, accountsSeen, timely.account reading asked, times _ accountsSeen⟩ absent found
      (enabled reading asked row held) localAdmin

namespace Console

/-- A mutation is run only on recent readings, and for a local account only on an
enabled row. -/
def Allowed (console : Console) : ConsoleLabel → Prop
  | .resume id => ∀ lookup ∈ console.lookups.find? id, ∀ run ∈ lookup.run?,
    run.2.Timely console.clock ∧ run.2.Enabled
  | _ => True

instance (console : Console) (label : ConsoleLabel) : Decidable (console.Allowed label) := by
  unfold Allowed
  split <;> infer_instance

def Live (console : Console) : Prop :=
  ∀ run ∈ console.ran, LiveAdmin console.seen run.moment run.user

theorem ran_resumeLookup {console : Console} {id : ℕ} {lookup : Lookup} {run : MutationRun}
    (member : run ∈ (console.resumeLookup id lookup).ran) :
    run ∈ console.ran ∨ ∃ call verdict, lookup.run? = some (call, verdict) ∧
      run = ⟨console.clock, lookup.user, call, verdict⟩ := by
  unfold Console.resumeLookup at member
  cases held : lookup.phase with
  | groups =>
    rw [held] at member
    dsimp only at member
    split at member <;> exact .inl member
  | groupFile startedAt =>
    rw [held] at member
    exact .inl member
  | groupText startedAt text loaded =>
    rw [held] at member
    exact .inl member
  | passwd admins =>
    rw [held] at member
    dsimp only at member
    split at member <;> exact .inl member
  | passwdFile admins startedAt =>
    rw [held] at member
    exact .inl member
  | passwdText admins startedAt text loaded =>
    rw [held] at member
    exact .inl member
  | account admins rows =>
    rw [held] at member
    exact .inl member
  | decided verdict =>
    rw [held] at member
    dsimp only at member
    split at member
    · rename_i call decided runs
      rcases List.mem_cons.mp member with rfl | member
      · exact .inr ⟨call, decided, runs, rfl⟩
      · exact .inl member
    · exact .inl member

theorem ran_begin (console : Console) (id : ℕ) (user : List Char) (mutation : Option Dispatch) :
    (console.begin id user mutation).ran = console.ran := by
  unfold Console.begin
  split <;> rfl

theorem ran_failQuery (console : Console) (id : ℕ) (lookup : Lookup) :
    (console.failQuery id lookup).ran = console.ran := by
  unfold Console.failQuery
  split <;> rfl

theorem ran_request (hmac : Hmac) (secret : List Char) (console : Console) (id : ℕ)
    (raw token : Option (List Char)) :
    (console.request hmac secret id raw token).ran = console.ran := by
  unfold Console.request
  split
  · split
    · exact ran_begin ..
    · rfl
  · rfl
  · rfl

/-- The only step that runs a mutation is the resumption of its lookup. -/
theorem ran_act {hmac : Hmac} {secret : List Char} {console : Console} {label : ConsoleLabel}
    {run : MutationRun} (member : run ∈ (console.act hmac secret label).ran) :
    run ∈ console.ran ∨ ∃ id lookup call verdict, label = .resume id ∧
      console.lookups.find? id = some lookup ∧ lookup.run? = some (call, verdict) ∧
      run = ⟨console.clock, lookup.user, call, verdict⟩ := by
  cases label with
  | tick ms => exact .inl member
  | editPasswd text => exact .inl member
  | editGroup text => exact .inl member
  | manage command => exact .inl member
  | seed name => exact .inl member
  | request id raw token =>
    rw [Console.act, ran_request] at member
    exact .inl member
  | look id user =>
    rw [Console.act, ran_begin] at member
    exact .inl member
  | resume id =>
    rw [Console.act] at member
    split at member
    · rename_i lookup found
      rcases ran_resumeLookup member with old | ⟨call, verdict, runs, same⟩
      · exact .inl old
      · exact .inr ⟨id, lookup, call, verdict, rfl, found, runs, same⟩
    · exact .inl member
  | queryFails id =>
    rw [Console.act] at member
    split at member
    · rw [ran_failQuery] at member
      exact .inl member
    · exact .inl member

theorem seen_resumeLookup (console : Console) (id : ℕ) (lookup : Lookup) :
    (console.resumeLookup id lookup).seen = console.seen := by
  unfold Console.resumeLookup
  cases lookup.phase with
  | groups =>
    dsimp only
    split <;> rfl
  | passwd admins =>
    dsimp only
    split <;> rfl
  | _ => rfl

theorem seen_act (hmac : Hmac) (secret : List Char) (console : Console) (label : ConsoleLabel) :
    (console.act hmac secret label).seen = console.seen := by
  cases label with
  | request id raw token =>
    simp only [Console.act, Console.request, Console.begin]
    repeat' split
    all_goals rfl
  | look id user =>
    simp only [Console.act, Console.begin]
    split <;> rfl
  | resume id =>
    simp only [Console.act]
    split
    · exact seen_resumeLookup ..
    · rfl
  | queryFails id =>
    simp only [Console.act, Console.failQuery]
    repeat' split
    all_goals rfl
  | _ => rfl

/-- A step that is allowed keeps every mutation that ran a live admin's. -/
theorem Live.step {hmac : Hmac} {secret : List Char} {console : Console} {label : ConsoleLabel}
    (live : console.Live) (sound : console.Sound) (allowed : console.Allowed label) :
    (console.step hmac secret label).Live := by
  have more : console.seen ⊆ (console.step hmac secret label).seen := by
    simp only [Console.step, Console.record, seen_act]
    exact List.subset_cons_self _ _
  intro run member
  rcases ran_act member with old | ⟨id, lookup, call, verdict, rfl, found, runs, rfl⟩
  · exact (live run old).mono more
  · obtain ⟨timely, enabled⟩ := allowed lookup found (call, verdict) runs
    obtain ⟨-, decided, admin⟩ := Lookup.run?_eq_some runs
    have phase := (sound.lookups id lookup found).1
    rw [decided] at phase
    exact (Verdict.Sound.liveAdmin phase sound.times admin timely enabled).mono more

end Console

end SysDeck.Web
