import SysDeck.Library.OrderedMap
import SysDeck.Web.Http
import SysDeck.Web.Session

/-! The dispatcher of the bridge. A request passes the session, rate and size guards,
names a module and a command in its body, and reaches the handler by two property
lookups in plain objects. -/

namespace SysDeck.Web

/-- The names that every plain object inherits. -/
def objectPrototype : List JsString :=
  ["constructor", "__defineGetter__", "__defineSetter__", "hasOwnProperty", "__lookupGetter__",
    "__lookupSetter__", "isPrototypeOf", "propertyIsEnumerable", "toString", "valueOf", "__proto__",
    "toLocaleString"].map js

/-- What a property of a plain object reads as. -/
inductive Property (Value : Type) where
  | own (value : Value)
  | inherited
  | undefined

def property {Value : Type} (fields : List (JsString × Value)) (name : JsString) : Property Value :=
  match fields.lookup name with
  | some value => .own value
  | none => if name ∈ objectPrototype then .inherited else .undefined

/-- The command maps of the modules, each by the names it declares. -/
def bridgeModules : List (String × List String) := [
  ("overview", ["ticker", "summary"]),
  ("glances", ["summary", "processes", "history", "sensors"]),
  ("sensors", ["summary", "temps", "fans", "voltages"]),
  ("fleet", ["summary", "nodes", "addNode", "removeNode"]),
  ("services", ["list", "setPort", "resetPort", "restartService"]),
  ("packages", ["summary", "list", "info", "search", "updates", "install", "remove", "update",
    "updateAll"]),
  ("benchmark", ["run", "history"]),
  ("firmware", ["devices", "dmi", "tpm", "updates", "apply"]),
  ("themes", ["list", "getActive", "setActive"]),
  ("firewall", ["templates", "rulesets", "live", "rules", "create", "apply", "delete", "addRule",
    "deleteRule"]),
  ("netsec", ["connections", "surface", "bans", "ban", "unban", "scan", "summary"]),
  ("integrity", ["baseline", "check", "drifts", "resolve", "summary"]),
  ("vault", ["luks", "entries", "summary", "registerKeyfile", "lock", "unlock", "backup"]),
  ("auth", ["readers", "certs", "sessions", "unlock", "lock"]),
  ("hwalert", ["summary", "devices", "alerts", "acknowledge", "dismiss", "block", "unblock",
    "whitelist", "unwhitelist", "policy", "setPolicy", "scan"]),
  ("policy", ["rules", "scopes", "live", "sync", "create", "update", "delete", "toggle", "audit"]),
  ("containers", ["summary", "list", "start", "stop", "freeze", "delete", "exec"]),
  ("mesh", ["summary", "services", "deployments", "pods", "scale", "describe", "logs"]),
  ("kata", ["summary", "list", "inspect", "start", "stop", "version", "check"]),
  ("remotefs", ["summary", "list", "mount", "unmount", "heal"]),
  ("db", ["summary", "list", "start", "stop", "backup"]),
  ("fester", ["status", "summary", "builds", "nodes", "targets"]),
  ("builder", ["summary", "profiles", "create", "copy", "delete", "importHostPackages", "build",
    "builds", "cancel", "artifacts", "deleteArtifact", "clearArtifacts"]),
  ("mining", ["summary", "refresh", "start", "stop", "poolConfig"]),
  ("jellyfin", ["summary", "libraries", "sessions", "items", "play", "pause", "start", "stop",
    "restart", "webStatus"]),
  ("photos", ["summary", "list", "index", "scan"]),
  ("monitoring", ["prometheusSummary", "grafanaSummary", "nativeMetrics", "summary"]),
  ("modules", ["catalog", "status", "install", "uninstall"]),
  ("klanker", ["status", "summary", "providers", "models", "vkeys", "logs", "localstack",
    "runtime"]),
  ("cockpitmodules", ["list", "info"]),
  ("shell", ["toggles", "setToggle", "resetToggles"])]

def mutations : List (String × List String) := [
  ("auth", ["unlock", "lock"]),
  ("benchmark", ["run"]),
  ("builder", ["create", "copy", "delete", "importHostPackages", "build", "cancel",
    "deleteArtifact", "clearArtifacts"]),
  ("containers", ["start", "stop", "freeze", "delete", "exec"]),
  ("db", ["start", "stop", "backup"]),
  ("firewall", ["create", "apply", "delete", "addRule", "deleteRule"]),
  ("firmware", ["apply"]),
  ("fleet", ["addNode", "removeNode"]),
  ("hwalert", ["acknowledge", "dismiss", "block", "unblock", "whitelist", "unwhitelist",
    "setPolicy", "scan"]),
  ("integrity", ["baseline", "check", "resolve"]),
  ("jellyfin", ["play", "pause", "start", "stop", "restart"]),
  ("mesh", ["scale"]),
  ("mining", ["start", "stop", "poolConfig"]),
  ("modules", ["install", "uninstall"]),
  ("netsec", ["ban", "unban"]),
  ("packages", ["install", "remove", "update", "updateAll"]),
  ("photos", ["index", "scan"]),
  ("policy", ["sync", "create", "update", "delete", "toggle"]),
  ("remotefs", ["mount", "unmount", "heal"]),
  ("services", ["setPort", "resetPort", "restartService"]),
  ("shell", ["setToggle", "resetToggles"]),
  ("themes", ["setActive"]),
  ("vault", ["registerKeyfile", "lock", "unlock", "backup"])]

/-- A function that the dispatcher can call. -/
inductive Callee where
  | handler (module command : JsString)
  | objectMethod (name : JsString)
  deriving DecidableEq

def commandsOf (module : String) (commands : List String) : List (JsString × Callee) :=
  commands.map fun command => (js command, .handler (js module) (js command))

def BRIDGE_MODULES : List (JsString × List (JsString × Callee)) :=
  bridgeModules.map fun entry => (js entry.1, commandsOf entry.1 entry.2)

def MUTATIONS : List (JsString × List JsString) :=
  mutations.map fun entry => (js entry.1, entry.2.map js)

def isMutation (module command : JsString) : Except TypeError Bool :=
  match property MUTATIONS module with
  | .own names => .ok (names.contains command)
  | .inherited => .error .typeError
  | .undefined => .ok false

structure BridgeConfig where
  hmac : Hmac
  secret : List Char
  trustProxy : Bool
  mutationsRequireAdmin : Bool

structure BridgeRequest where
  cookie : Option (List Char)
  forwardedFor : Option (List Char)
  contentLength : Option (List Char)
  /-- The text of the body; none when it cannot be read. -/
  raw : Option (List Char)

def maxBodyBytes : ℕ := 256 * 1024
def rateWindowMs : ℤ := 10000
def rateMax : ℕ := 240

structure RateBucket where
  windowStart : ℤ
  count : ℕ

abbrev RateBuckets := OrderedMap (List Char) RateBucket

def RateBucket.expired (bucket : RateBucket) (now : ℤ) : Bool :=
  rateWindowMs < now - bucket.windowStart

/-- Whether the address has made too many requests, and the buckets with this one. -/
def rateLimited (buckets : RateBuckets) (ip : List Char) (now : ℤ) : Bool × RateBuckets :=
  let (bucket, buckets) :=
    match buckets.find? ip with
    | some bucket =>
      if bucket.expired now then fresh else (bucket, buckets)
    | none => fresh
  (rateMax < bucket.count + 1, buckets.modify ip fun bucket => { bucket with count := bucket.count + 1 })
where
  fresh : RateBucket × RateBuckets :=
    let bucket : RateBucket := { windowStart := now, count := 0 }
    let buckets := buckets.set ip bucket
    (bucket, if 512 < buckets.size then buckets.filter fun _ b => !b.expired now else buckets)

/-- The guards that stand before the body is parsed. -/
def guards (config : BridgeConfig) (request : BridgeRequest) (verifiedAt : ℤ) (limited : Bool) :
    Option HttpReply :=
  if !isRequestAuthed config.hmac config.secret verifiedAt request.cookie then
    some (.answered 401 (.object [(js "ok", .bool false),
      (js "error", .string (js "authentication required (sign in first)")),
      (js "auth", .string (Utf16.encode authCookie))]))
  else if limited then some (denied 429 (js "rate limit exceeded"))
  else if exceeds (Number.ofText (request.contentLength.getD ['0'])) maxBodyBytes then
    some (denied 413 (js "request body too large"))
  else if maxBodyBytes < Text.utf16Length (request.raw.getD []) then
    some (denied 413 (js "request body too large"))
  else none

/-- `value?.trim()`, where an absent value is as good as a blank one. -/
def trimmed : Option Json → Except TypeError JsString
  | none | some .null => .ok []
  | some (.string text) => .ok (Utf16.trim text)
  | some _ => .error .typeError

/-- A call that the dispatcher has decided on; the callee is none where the property
is no function. -/
structure Dispatch where
  module : JsString
  command : JsString
  callee : Option Callee
  args : Json

inductive Plan where
  | reply (reply : HttpReply)
  | run (call : Dispatch) (mutation : Bool)

/-- The value of a command in a command map, where it has one. -/
def findHandler (commands : List (JsString × Callee)) (command : JsString) : Option (Option Callee) :=
  match property commands command with
  | .own callee => some (some callee)
  | .inherited => some (if command = js "__proto__" then none else some (.objectMethod command))
  | .undefined => none

def dispatch (module command : JsString) (args : Json) : Except TypeError Plan :=
  match property BRIDGE_MODULES module with
  | .undefined => .ok (.reply (denied 404 (js "unknown module: " ++ module)))
  -- an inherited value has no commands, and the lookup in none throws
  | .inherited => .error .typeError
  | .own commands =>
    match findHandler commands command with
    | none => .ok (.reply (denied 404 (js "unknown command: " ++ module ++ js "." ++ command)))
    | some callee => do
      let mutation ← isMutation module command
      .ok (.run { module, command, callee, args } mutation)

/-- `args ?? {}`. -/
def given : Option Json → Json
  | none | some .null => .object []
  | some args => args

def planBody (body : Json) : Except TypeError Plan := do
  let module ← trimmed (← readField body "module")
  let command ← trimmed (← readField body "command")
  if module = [] ∨ command = [] then
    .ok (.reply (denied 400 (js "module and command are required")))
  else
    dispatch module command (given (← readField body "args"))

def planRequest (raw : Option (List Char)) : Plan :=
  match readBody raw with
  | none => .reply (denied 400 (js "invalid JSON body"))
  | some body =>
    match planBody body with
    | .ok plan => plan
    | .error _ => .reply .crashed

/-- What a called function comes to; none is undefined. -/
inductive Returned where
  | value (out : Option Json)
  | threw

/-- `{ ...fields, name: value }`. -/
def assign (fields : List (JsString × Json)) (name : JsString) (value : Json) :
    List (JsString × Json) :=
  if fields.any (·.1 = name) then
    fields.map fun field => if field.1 = name then (name, value) else field
  else fields ++ [(name, value)]

/-- The answer to a call: an envelope is kept, and plain data is wrapped in one. -/
def wrap (call : Dispatch) (out : Option Json) : Json :=
  let own := match out with
    | some (.object fields) =>
      match (Json.object fields).get? (js "ok") with
      | some (.bool _) => fields
      | _ => [(js "ok", .bool true), (js "data", .object fields)]
    | some data => [(js "ok", .bool true), (js "data", data)]
    | none => [(js "ok", .bool true)]
  .object (assign (assign own (js "module") (.string call.module)) (js "command")
    (.string call.command))

def failedCall (call : Dispatch) : Json :=
  .object [(js "ok", .bool false),
    (js "error", .string (call.module ++ js "." ++ call.command ++
      js " failed on the server (see server log)")),
    (js "module", .string call.module), (js "command", .string call.command)]

def requiresAdmin (call : Dispatch) : Json :=
  .object [(js "ok", .bool false),
    (js "error", .string (call.module ++ js "." ++ call.command ++
      js " requires an admin session (wheel/sudo/adm or uid 0) — sign in as an admin, or set SYSDECK_MUTATIONS=any for the single-operator posture")),
    (js "module", .string call.module), (js "command", .string call.command)]

/-- The functions that a request has called with their argument, and its answer. -/
structure Served where
  calls : List (Callee × Json)
  reply : HttpReply

/-- The call itself: what is no function throws before anything is called. -/
def invoke (run : Callee → Json → Returned) (call : Dispatch) : Served :=
  match call.callee with
  | none => { calls := [], reply := .answered 200 (failedCall call) }
  | some callee =>
    { calls := [(callee, call.args)]
      reply := .answered 200 (match run callee call.args with
        | .value out => wrap call out
        | .threw => failedCall call) }

def servePlan (config : BridgeConfig) (run : Callee → Json → Returned) (isAdmin : Bool) :
    Plan → Served
  | .reply reply => { calls := [], reply }
  | .run call mutation =>
    if config.mutationsRequireAdmin && mutation && !isAdmin then
      { calls := [], reply := .answered 403 (requiresAdmin call) }
    else invoke run call

/-- One request, with the verdict of the account lookup that a mutation asks for. -/
def post (config : BridgeConfig) (run : Callee → Json → Returned) (isAdmin : Bool)
    (buckets : RateBuckets) (request : BridgeRequest) (verifiedAt limitedAt : ℤ) :
    Served × RateBuckets :=
  let limiter := rateLimited buckets (clientIp config.trustProxy request.forwardedFor) limitedAt
  match guards config request verifiedAt limiter.1 with
  | some reply =>
    ({ calls := [], reply }, if isRequestAuthed config.hmac config.secret verifiedAt request.cookie
      then limiter.2 else buckets)
  | none => (servePlan config run isAdmin (planRequest request.raw), limiter.2)

/-! What the two lookups let through. -/

/-- The command is declared in the command map of a declared module. -/
def Declared (module command : JsString) : Prop :=
  ∃ commands, BRIDGE_MODULES.lookup module = some commands ∧
    commands.lookup command = some (.handler module command)

instance (module command : JsString) : Decidable (Declared module command) :=
  match found : BRIDGE_MODULES.lookup module with
  | none => .isFalse fun ⟨_, declared, _⟩ => by
    rw [found] at declared
    cases declared
  | some commands => decidable_of_iff (commands.lookup command = some (.handler module command))
    ⟨fun own => ⟨commands, found, own⟩, fun ⟨_, declared, own⟩ => by
      rw [found] at declared
      cases declared
      exact own⟩

theorem mem_of_lookup {Value : Type} {fields : List (JsString × Value)} {name : JsString}
    {value : Value} (found : fields.lookup name = some value) : (name, value) ∈ fields := by
  obtain ⟨before, after, split, -⟩ := List.lookup_eq_some_iff.mp found
  rw [split]
  exact List.mem_append_right before (List.mem_cons_self ..)

/-- A declared command is the handler of its own names. -/
theorem handler_of_lookup {module command : JsString} {commands : List (JsString × Callee)}
    {callee : Callee} (moduleFound : BRIDGE_MODULES.lookup module = some commands)
    (commandFound : commands.lookup command = some callee) : callee = .handler module command := by
  obtain ⟨entry, -, moduleSame⟩ := List.mem_map.mp (mem_of_lookup moduleFound)
  cases moduleSame
  obtain ⟨name, -, commandSame⟩ := List.mem_map.mp (mem_of_lookup commandFound)
  cases commandSame
  rfl

theorem property_eq_own_iff {Value : Type} {fields : List (JsString × Value)} {name : JsString}
    {value : Value} : property fields name = .own value ↔ fields.lookup name = some value := by
  unfold property
  cases fields.lookup name with
  | none =>
    refine iff_of_false ?_ nofun
    dsimp only
    split <;> exact nofun
  | some own => simp

theorem property_eq_inherited_iff {Value : Type} {fields : List (JsString × Value)}
    {name : JsString} :
    property fields name = .inherited ↔ fields.lookup name = none ∧ name ∈ objectPrototype := by
  unfold property
  cases fields.lookup name with
  | none => split <;> simp_all
  | some own => simp

/-- What a command map holds under a name: what it declares, or what it inherits. -/
theorem findHandler_eq_some {commands : List (JsString × Callee)} {command : JsString}
    {callee : Option Callee} (found : findHandler commands command = some callee) :
    (∃ own, callee = some own ∧ commands.lookup command = some own) ∨
      command ∈ objectPrototype ∧
        callee = if command = js "__proto__" then none else some (.objectMethod command) := by
  unfold findHandler at found
  split at found
  · rename_i own owned
    cases found
    exact .inl ⟨own, rfl, property_eq_own_iff.mp owned⟩
  · rename_i inherited
    cases found
    exact .inr ⟨(property_eq_inherited_iff.mp inherited).2, rfl⟩
  · cases found

/-- What a call can be: a declared handler, or what the command map inherits. -/
theorem dispatch_run {module command : JsString} {args : Json} {call : Dispatch} {mutation : Bool}
    (planned : dispatch module command args = .ok (.run call mutation)) :
    call.module = module ∧ call.command = command ∧ call.args = args ∧
      isMutation module command = .ok mutation ∧
      (call.callee = some (.handler module command) ∧ Declared module command ∨
        command ∈ objectPrototype ∧
          call.callee = if command = js "__proto__" then none else some (.objectMethod command)) := by
  unfold dispatch at planned
  split at planned
  · cases planned
  · cases planned
  · rename_i commands owned
    split at planned
    · cases planned
    · rename_i callee found
      cases checked : isMutation module command with
      | error _ =>
        rw [checked] at planned
        cases planned
      | ok mutates =>
        rw [checked] at planned
        cases planned
        refine ⟨rfl, rfl, rfl, rfl, ?_⟩
        rcases findHandler_eq_some found with ⟨own, rfl, commandFound⟩ | inherited
        · have moduleFound := property_eq_own_iff.mp owned
          have same := handler_of_lookup moduleFound commandFound
          subst same
          exact .inl ⟨rfl, commands, moduleFound, commandFound⟩
        · exact .inr inherited

/-- Names that no object inherits and nobody declares are answered 404. -/
theorem dispatch_undeclared {module command : JsString} {args : Json}
    (moduleOrdinary : module ∉ objectPrototype) (commandOrdinary : command ∉ objectPrototype)
    (undeclared : ¬ Declared module command) :
    ∃ error, dispatch module command args = .ok (.reply (denied 404 error)) := by
  unfold dispatch
  split
  · exact ⟨_, rfl⟩
  · rename_i inherited
    exact absurd (property_eq_inherited_iff.mp inherited).2 moduleOrdinary
  · rename_i commands owned
    split
    · exact ⟨_, rfl⟩
    · rename_i callee found
      rcases findHandler_eq_some found with ⟨own, rfl, commandFound⟩ | inherited
      · have moduleFound := property_eq_own_iff.mp owned
        have same := handler_of_lookup moduleFound commandFound
        subst same
        exact absurd ⟨commands, moduleFound, commandFound⟩ undeclared
      · exact absurd inherited.1 commandOrdinary

/-- The calls of a served plan are the one it plans. -/
theorem calls_servePlan {config : BridgeConfig} {run : Callee → Json → Returned} {isAdmin : Bool}
    {plan : Plan} {callee : Callee} {args : Json}
    (called : (callee, args) ∈ (servePlan config run isAdmin plan).calls) :
    ∃ call mutation, plan = .run call mutation ∧ call.callee = some callee ∧ call.args = args := by
  unfold servePlan at called
  split at called
  · cases called
  · rename_i call mutation
    split at called
    · cases called
    · refine ⟨call, mutation, rfl, ?_⟩
      unfold invoke at called
      split at called
      · cases called
      · rename_i known
        simp only [List.mem_singleton, Prod.mk.injEq] at called
        exact ⟨by rw [known, called.1], called.2.symm⟩

theorem bind_eq_ok {First Second : Type} {first : Except TypeError First}
    {next : First → Except TypeError Second} {result : Second}
    (done : first >>= next = .ok result) : ∃ value, first = .ok value ∧ next value = .ok result := by
  cases first with
  | error thrown => cases done
  | ok value => exact ⟨value, rfl, done⟩

/-- A planned call of a mutation is a registered one. -/
theorem planBody_run {body : Json} {call : Dispatch} {mutation : Bool}
    (planned : planBody body = .ok (.run call mutation)) :
    isMutation call.module call.command = .ok mutation := by
  obtain ⟨moduleField, -, planned⟩ := bind_eq_ok planned
  obtain ⟨module, -, planned⟩ := bind_eq_ok planned
  obtain ⟨commandField, -, planned⟩ := bind_eq_ok planned
  obtain ⟨command, -, planned⟩ := bind_eq_ok planned
  split at planned
  · cases planned
  · obtain ⟨args, -, planned⟩ := bind_eq_ok planned
    obtain ⟨rfl, rfl, -, registered, -⟩ := dispatch_run planned
    exact registered

theorem planRequest_run {raw : Option (List Char)} {call : Dispatch} {mutation : Bool}
    (planned : planRequest raw = .run call mutation) :
    isMutation call.module call.command = .ok mutation := by
  unfold planRequest at planned
  split at planned
  · cases planned
  · split at planned
    · rename_i plan decided
      subst planned
      exact planBody_run decided
    · cases planned

section Named

variable {body : Json} {m c : JsString} (moduleNamed : body.get? (js "module") = some (.string m))
  (commandNamed : body.get? (js "command") = some (.string c))

include moduleNamed

theorem readField_named (name : String) : readField body name = .ok (body.get? (js name)) := by
  unfold readField
  split
  · cases moduleNamed
  · rfl

include commandNamed

/-- The plan of a body that names its module and command as strings. -/
theorem planBody_named : planBody body =
    if Utf16.trim m = [] ∨ Utf16.trim c = [] then
      .ok (.reply (denied 400 (js "module and command are required")))
    else dispatch (Utf16.trim m) (Utf16.trim c) (given (body.get? (js "args"))) := by
  unfold planBody
  rw [readField_named moduleNamed, readField_named moduleNamed, readField_named moduleNamed,
    moduleNamed, commandNamed]
  rfl

end Named

end SysDeck.Web
