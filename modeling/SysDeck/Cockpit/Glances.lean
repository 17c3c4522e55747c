import SysDeck.Library.Execution
import SysDeck.Library.OrderedMap
import SysDeck.Library.PythonInt
import SysDeck.Cockpit.Packages

/-! The Glances bridge: one background webserver, known by the process id in a file. -/

namespace SysDeck.Cockpit.Glances

open Packages (strip)

/-! ### The host -/

/-- What a process runs: the webserver that the helper started, on a port, or anything else. -/
inductive Program where
  | webserver (port : ℤ)
  | other
  deriving DecidableEq

/-- A live process; a terminated one was sent `SIGTERM` and has not ended yet. -/
structure Process where
  program : Program
  signalable : Bool
  terminated : Bool
  deriving DecidableEq

/-- The processes by their ids, and the id that the file holds. -/
structure Host where
  processes : OrderedMap ℕ Process
  pidFile : Option ℕ

def Host.start : Host := ⟨.empty, none⟩

/-- What becomes of a write to the file, or of its removal. -/
inductive Saving where
  | done
  | kept
  | emptied

/-- What a call finds: whether `glances` is on the path and the file can be read, what becomes of
the file, and the id that a new process is given, or the error. -/
structure Env where
  installed : Bool
  readable : Bool
  saving : Saving
  popen : Except String ℕ

/-- `_read_pid` -/
def Host.readPid (host : Host) (env : Env) : Option ℕ := if env.readable then host.pidFile else none

/-- `_write_pid` -/
def Host.writePid (host : Host) (env : Env) : Option ℕ → Host
  | some pid =>
    match env.saving with
    | .done => { host with pidFile := some pid }
    | .kept => host
    | .emptied => { host with pidFile := none }
  | none =>
    match env.saving with
    | .done => { host with pidFile := none }
    | _ => host

/-- `_is_pid_alive`: the process is there, and the caller may signal it. -/
def Host.isPidAlive (host : Host) (pid : ℕ) : Bool := (host.processes.find? pid).any (·.signalable)

/-! ### The commands -/

def webPort : ℤ := 61208

def url (port : ℤ) : String := "http://127.0.0.1:" ++ toString port

inductive Reply where
  | unavailable (install : String)
  | badPort (error : String)
  | alreadyRunning (pid : ℕ) (port : ℤ) (url : String)
  | failed (error : String)
  | started (pid : ℕ) (port : ℤ) (url : String)
  | notStarted (reason : String)
  | alreadyDead (reason : String)
  | stopped (pid : ℕ)
  | idle (url hint : String)
  | running (pid : ℕ) (port : ℤ) (url : String)
  deriving DecidableEq

/-- A call's answer, and the process that it sent `SIGTERM`. -/
structure Answer where
  host : Host
  reply : Reply
  signalled : Option ℕ

/-- The port that the arguments ask for. -/
def portOf : List String → Except Reply ℤ
  | [] => .ok webPort
  | text :: _ =>
    match PythonInt.read (strip text.toList) with
    | some port => .ok port
    | none => .error (.badPort ("port must be numeric, got " ++ text))

/-- `subprocess.Popen`, of which the kernel gives no id that is in use. -/
def Host.spawn (host : Host) (port : ℤ) (env : Env) : Except String (Host × ℕ) := do
  let pid ← env.popen
  if (host.processes.find? pid).isSome then .error "" else
    .ok ({ host with processes := host.processes.set pid ⟨.webserver port, true, false⟩ }, pid)

def cmdStartWeb (host : Host) (env : Env) (arguments : List String) : Answer :=
  if !env.installed then
    ⟨host, .unavailable "pip install glances  # or: pacman -S glances / apt install glances / dnf install glances",
      none⟩
  else
    match portOf arguments with
    | .error reply => ⟨host, reply, none⟩
    | .ok port =>
      match (host.readPid env).filter host.isPidAlive with
      | some pid => ⟨host, .alreadyRunning pid port (url port), none⟩
      | none =>
        match host.spawn port env with
        | .error error => ⟨host, .failed error, none⟩
        | .ok (host, pid) => ⟨host.writePid env (some pid), .started pid port (url port), none⟩

/-- A process that was sent `SIGTERM` goes on until it ends. -/
def Host.terminate (host : Host) (pid : ℕ) : Host :=
  { host with processes := host.processes.modify pid fun process => { process with terminated := true } }

def cmdStopWeb (host : Host) (env : Env) : Answer :=
  match host.readPid env with
  | none => ⟨host, .notStarted "no PID file — webserver not started", none⟩
  | some pid =>
    if !host.isPidAlive pid then
      ⟨host.writePid env none, .alreadyDead "process was already dead (PID file cleared)", none⟩
    else ⟨(host.terminate pid).writePid env none, .stopped pid, some pid⟩

def cmdWebStatus (host : Host) (env : Env) : Answer :=
  if !env.installed then
    ⟨host, .unavailable "pip install glances  # or: pacman -S glances / apt install glances", none⟩
  else
    match host.readPid env with
    | none =>
      ⟨host, .idle (url webPort) "Click Start Web UI to launch the built-in Glances webserver.", none⟩
    | some pid =>
      if !host.isPidAlive pid then
        ⟨host.writePid env none, .idle (url webPort) "Previous webserver process died — restart it.", none⟩
      else ⟨host, .running pid webPort (url webPort), none⟩

/-! ### Runs -/

/-- A call, or what happens between two calls: a process ends, or an unrelated one is given an id
that is not in use. -/
inductive Label where
  | startWeb (env : Env) (arguments : List String)
  | stopWeb (env : Env)
  | webStatus (env : Env)
  | ends (pid : ℕ)
  | begins (pid : ℕ) (signalable : Bool)

def step (host : Host) : Label → Host
  | .startWeb env arguments => (cmdStartWeb host env arguments).host
  | .stopWeb env => (cmdStopWeb host env).host
  | .webStatus env => (cmdWebStatus host env).host
  | .ends pid => { host with processes := host.processes.erase pid }
  | .begins pid signalable =>
    if (host.processes.find? pid).isSome then host
    else { host with processes := host.processes.set pid ⟨.other, signalable, false⟩ }

/-- The webserver with this id is alive, and was started on the port. -/
def Host.Serves (host : Host) (pid : ℕ) (port : ℤ) : Prop :=
  ∃ process, host.processes.find? pid = some process ∧ process.program = .webserver port

/-- What a step is to do. -/
structure Exact (before : Host) (label : Label) (after : Host) : Prop where
  single : ∀ pid port other port', after.Serves pid port → after.Serves other port' → pid = other
  running : ∀ env, label = .webStatus env →
    ((∃ pid port url, (cmdWebStatus before env).reply = .running pid port url) ↔
      ∃ pid port, before.Serves pid port)
  port : ∀ env, label = .webStatus env → ∀ pid port url,
    (cmdWebStatus before env).reply = .running pid port url → before.Serves pid port
  signals : ∀ env, label = .stopWeb env → ∀ pid, (cmdStopWeb before env).signalled = some pid →
    ∃ port, before.Serves pid port

/-- No webserver that was stopped is still there. -/
def Host.Settled (host : Host) : Prop :=
  ∀ pid process, host.processes.find? pid = some process → process.program ≠ .other →
    process.terminated = false

/-- A webserver is started on the default port and its id is recorded, after the one that was
stopped has ended; a call that has one to find can read the file and sees `glances` installed; and
no process that the caller may signal is given the recorded id. -/
def Allowed (host : Host) : Label → Prop
  | .startWeb env arguments => env.installed →
      host.Settled ∧ env.readable ∧ (host.pidFile.any host.isPidAlive = false →
        (∀ port, portOf arguments = .ok port → port = webPort) ∧ env.saving = .done)
  | .stopWeb _ => True
  | .webStatus env => (∃ pid port, host.Serves pid port) →
      host.Settled ∧ env.readable ∧ env.installed
  | .ends _ => True
  | .begins pid signalable => signalable → host.pidFile ≠ some pid

/-! ### What the file says of the processes -/

/-- The helper's webserver is the only one, on the default port; it is the recorded process unless
it was stopped, and what else has the recorded id cannot be signalled. -/
structure Inv (host : Host) : Prop where
  single : ∀ pid port other port', host.Serves pid port → host.Serves other port' → pid = other
  recorded : ∀ pid process port, host.processes.find? pid = some process →
    process.program = .webserver port →
    port = webPort ∧ process.signalable ∧ (process.terminated = false → host.pidFile = some pid)
  owned : ∀ pid process, host.pidFile = some pid → host.processes.find? pid = some process →
    process.signalable → ∃ port, process.program = .webserver port

theorem inv_start : Inv .start where
  single := by
    rintro pid port other port' ⟨process, found, -⟩
    cases found
  recorded := by
    intro pid process port found
    cases found
  owned := by
    intro pid process recorded
    cases recorded

variable {host : Host}

/-- Forgetting a process that cannot be signalled, or one that was stopped, loses no webserver. -/
theorem Inv.writePid_none (inv : Inv host) (env : Env)
    (lost : ∀ pid process port, host.processes.find? pid = some process →
      process.program = .webserver port → host.pidFile = some pid → process.terminated) :
    Inv (host.writePid env none) := by
  rw [Host.writePid]
  split
  · refine ⟨inv.single, ?_, ?_⟩
    · intro pid process port found server
      obtain ⟨default, signalable, recorded⟩ := inv.recorded pid process port found server
      refine ⟨default, signalable, fun going => ?_⟩
      have terminated := lost pid process port found server (recorded going)
      rw [going] at terminated
      cases terminated
    · intro pid process recorded
      cases recorded
  · exact inv

theorem alive_of_serves (inv : Inv host) {pid : ℕ} {port : ℤ} (serves : host.Serves pid port) :
    host.isPidAlive pid := by
  obtain ⟨process, found, server⟩ := serves
  simp [Host.isPidAlive, found, (inv.recorded pid process port found server).2.1]

theorem serves_of_alive (inv : Inv host) {pid : ℕ} (recorded : host.pidFile = some pid)
    (alive : host.isPidAlive pid) : ∃ port, host.Serves pid port := by
  cases found : host.processes.find? pid with
  | none => simp [Host.isPidAlive, found] at alive
  | some process =>
    have signalable : process.signalable := by simpa [Host.isPidAlive, found] using alive
    obtain ⟨port, server⟩ := inv.owned pid process recorded found signalable
    exact ⟨port, process, found, server⟩

theorem recorded_of_settled (inv : Inv host) (settled : host.Settled) {pid : ℕ} {port : ℤ}
    (serves : host.Serves pid port) : host.pidFile = some pid := by
  obtain ⟨process, found, server⟩ := serves
  refine (inv.recorded pid process port found server).2.2 (settled pid process found ?_)
  rw [server]
  exact Program.noConfusion

theorem inv_spawn (none_ : ∀ pid port, ¬ host.Serves pid port) {env : Env} {port : ℤ}
    (default : port = webPort) (saved : env.saving = .done) {next : Host} {pid : ℕ}
    (spawned : host.spawn port env = .ok (next, pid)) : Inv (next.writePid env (some pid)) := by
  have shape : next = { host with processes := host.processes.set pid ⟨.webserver port, true, false⟩ } := by
    rw [Host.spawn] at spawned
    cases given : env.popen with
    | error error =>
      rw [given] at spawned
      cases spawned
    | ok new =>
      rw [given] at spawned
      change (if _ then _ else _) = _ at spawned
      split at spawned
      · cases spawned
      · cases spawned
        rfl
  have found : ∀ other, (next.writePid env (some pid)).processes.find? other =
      if other = pid then some ⟨.webserver port, true, false⟩ else host.processes.find? other := by
    intro other
    rw [Host.writePid, saved, shape]
    exact OrderedMap.find?_set ..
  have file : (next.writePid env (some pid)).pidFile = some pid := by rw [Host.writePid, saved]
  have only : ∀ other port', (next.writePid env (some pid)).Serves other port' → other = pid := by
    rintro other port' ⟨process, present, server⟩
    by_contra differ
    rw [found, if_neg differ] at present
    exact none_ other port' ⟨process, present, server⟩
  refine ⟨?_, ?_, ?_⟩
  · intro first port' second port'' serves serves'
    rw [only first port' serves, only second port'' serves']
  · intro other process port' present server
    have same := only other port' ⟨process, present, server⟩
    rw [found, if_pos same, Option.some.injEq] at present
    subst present
    cases server
    exact ⟨default, rfl, fun _ => by rw [file, same]⟩
  · intro other process recorded present _
    rw [file, Option.some.injEq] at recorded
    rw [found, if_pos recorded.symm, Option.some.injEq] at present
    exact ⟨port, by rw [← present]⟩

theorem inv_startWeb (inv : Inv host) (env : Env) (arguments : List String)
    (allowed : Allowed host (.startWeb env arguments)) : Inv (cmdStartWeb host env arguments).host := by
  rw [cmdStartWeb]
  cases installed : env.installed with
  | false => exact inv
  | true =>
    obtain ⟨settled, readable, fresh⟩ := allowed installed
    simp only [Bool.not_true, Bool.false_eq_true, if_false, Host.readPid, readable, if_true]
    cases asked : portOf arguments with
    | error reply => exact inv
    | ok port =>
      cases live : host.pidFile.filter host.isPidAlive with
      | some pid => exact inv
      | none =>
        have dead : host.pidFile.any host.isPidAlive = false := by
          cases file : host.pidFile <;> simp_all [Option.filter]
        obtain ⟨default, saved⟩ := fresh dead
        have none_ : ∀ pid port, ¬ host.Serves pid port := by
          intro pid port serves
          rw [recorded_of_settled inv settled serves, Option.any_some, alive_of_serves inv serves] at dead
          cases dead
        simp only
        split
        · exact inv
        · rename_i spawned
          exact inv_spawn none_ (default port asked) saved spawned

theorem find?_terminate (pid other : ℕ) : (host.terminate pid).processes.find? other =
    if other = pid then (host.processes.find? other).map fun process => { process with terminated := true }
    else host.processes.find? other :=
  OrderedMap.find?_modify ..

theorem Inv.terminate (inv : Inv host) (pid : ℕ) : Inv (host.terminate pid) := by
  have before : ∀ {other process}, (host.terminate pid).processes.find? other = some process →
      ∃ old, host.processes.find? other = some old ∧ old.program = process.program ∧
        old.signalable = process.signalable ∧ (process.terminated = false → old.terminated = false) := by
    intro other process found
    rw [find?_terminate] at found
    split at found
    · obtain ⟨old, present, rfl⟩ := Option.map_eq_some_iff.mp found
      exact ⟨old, present, rfl, rfl, fun going => Bool.noConfusion going⟩
    · exact ⟨process, found, rfl, rfl, id⟩
  have serves : ∀ {other port}, (host.terminate pid).Serves other port → host.Serves other port := by
    rintro other port ⟨process, found, server⟩
    obtain ⟨old, present, program, -⟩ := before found
    exact ⟨old, present, program.trans server⟩
  refine ⟨?_, ?_, ?_⟩
  · exact fun first port second port' one other => inv.single _ _ _ _ (serves one) (serves other)
  · intro other process port found server
    obtain ⟨old, present, program, signalable, going⟩ := before found
    obtain ⟨default, may, recorded⟩ := inv.recorded other old port present (program.trans server)
    exact ⟨default, signalable ▸ may, fun still => recorded (going still)⟩
  · intro other process recorded found may
    obtain ⟨old, present, program, signalable, -⟩ := before found
    obtain ⟨port, server⟩ := inv.owned other old recorded present (signalable ▸ may)
    exact ⟨port, program ▸ server⟩

theorem inv_stopWeb (inv : Inv host) (env : Env) : Inv (cmdStopWeb host env).host := by
  rw [cmdStopWeb, Host.readPid]
  cases readable : env.readable with
  | false => exact inv
  | true =>
    cases file : host.pidFile with
    | none => exact inv
    | some pid =>
      simp only [if_true]
      split
      · rename_i dead
        refine inv.writePid_none env fun other process port found server recorded => ?_
        rw [file, Option.some.injEq] at recorded
        have alive := alive_of_serves inv ⟨process, found, server⟩
        rw [← recorded] at alive
        simp [alive] at dead
      · refine (inv.terminate pid).writePid_none env fun other process port found server recorded => ?_
        have same : other = pid := by
          have recorded : host.pidFile = some other := recorded
          rw [file, Option.some.injEq] at recorded
          exact recorded.symm
        rw [find?_terminate, if_pos same] at found
        obtain ⟨old, -, rfl⟩ := Option.map_eq_some_iff.mp found
        rfl

theorem inv_webStatus (inv : Inv host) (env : Env) : Inv (cmdWebStatus host env).host := by
  rw [cmdWebStatus]
  cases installed : env.installed with
  | false => exact inv
  | true =>
    cases recorded : host.readPid env with
    | none => exact inv
    | some pid =>
      simp only [Bool.not_true, Bool.false_eq_true, if_false]
      split
      · rename_i dead
        refine inv.writePid_none env fun other process port found server file => ?_
        have same : some pid = some other := by
          rw [← recorded, ← file, Host.readPid]
          split
          · rfl
          · rename_i unreadable
            rw [Host.readPid, if_neg unreadable] at recorded
            cases recorded
        have alive := alive_of_serves inv ⟨process, found, server⟩
        rw [← Option.some.inj same] at alive
        simp [alive] at dead
      · exact inv

theorem inv_ends (inv : Inv host) (pid : ℕ) : Inv (step host (.ends pid)) := by
  have before : ∀ {other process}, (step host (.ends pid)).processes.find? other = some process →
      host.processes.find? other = some process := by
    intro other process found
    change (host.processes.erase pid).find? other = _ at found
    rw [OrderedMap.find?_erase] at found
    split at found
    · cases found
    · exact found
  refine ⟨?_, ?_, ?_⟩
  · rintro first port second port' ⟨process, found, server⟩ ⟨process', found', server'⟩
    exact inv.single _ _ _ _ ⟨process, before found, server⟩ ⟨process', before found', server'⟩
  · exact fun other process port found server => inv.recorded other process port (before found) server
  · exact fun other process recorded found may => inv.owned other process recorded (before found) may

theorem inv_begins (inv : Inv host) (pid : ℕ) (signalable : Bool)
    (allowed : Allowed host (.begins pid signalable)) : Inv (step host (.begins pid signalable)) := by
  rw [step]
  split
  · exact inv
  · have found : ∀ other, (host.processes.set pid ⟨.other, signalable, false⟩).find? other =
        if other = pid then some ⟨.other, signalable, false⟩ else host.processes.find? other :=
      fun other => OrderedMap.find?_set ..
    have before : ∀ {other process port},
        (host.processes.set pid ⟨.other, signalable, false⟩).find? other = some process →
        process.program = .webserver port → host.processes.find? other = some process := by
      intro other process port present server
      rw [found] at present
      split at present
      · cases present
        cases server
      · exact present
    refine ⟨?_, ?_, ?_⟩
    · rintro first port second port' ⟨process, present, server⟩ ⟨process', present', server'⟩
      exact inv.single _ _ _ _ ⟨process, before present server, server⟩
        ⟨process', before present' server', server'⟩
    · exact fun other process port present server =>
        inv.recorded other process port (before present server) server
    · intro other process recorded present may
      rw [found] at present
      split at present
      · rename_i same
        cases present
        exact absurd (same ▸ recorded) (allowed may)
      · exact inv.owned other process recorded present may

theorem inv_step (inv : Inv host) (label : Label) (allowed : Allowed host label) : Inv (step host label) := by
  cases label with
  | startWeb env arguments => exact inv_startWeb inv env arguments allowed
  | stopWeb env => exact inv_stopWeb inv env
  | webStatus env => exact inv_webStatus inv env
  | ends pid => exact inv_ends inv pid
  | begins pid signalable => exact inv_begins inv pid signalable allowed

/-! ### What the commands do -/

theorem running_iff {env : Env} {pid : ℕ} {port : ℤ} {address : String} :
    (cmdWebStatus host env).reply = .running pid port address ↔
      env.installed ∧ host.readPid env = some pid ∧ host.isPidAlive pid ∧ port = webPort ∧
        address = url webPort := by
  rw [cmdWebStatus]
  cases installed : env.installed with
  | false => simp
  | true =>
    cases recorded : host.readPid env with
    | none => simp
    | some other =>
      cases alive : host.isPidAlive other with
      | false =>
        refine iff_of_false (by simp [alive]) ?_
        rintro ⟨-, same, alive', -⟩
        rw [← Option.some.inj same, alive] at alive'
        cases alive'
      | true =>
        simp only [alive, Bool.not_true, Bool.false_eq_true, if_false, Reply.running.injEq, true_and,
          Option.some.injEq]
        constructor
        · rintro ⟨rfl, rfl, rfl⟩
          exact ⟨rfl, alive, rfl, rfl⟩
        · rintro ⟨rfl, -, rfl, rfl⟩
          exact ⟨rfl, rfl, rfl⟩

theorem file_of_readPid {env : Env} {pid : ℕ} (recorded : host.readPid env = some pid) :
    host.pidFile = some pid := by
  rw [Host.readPid] at recorded
  split at recorded
  · exact recorded
  · cases recorded

theorem signalled_eq_some {env : Env} {pid : ℕ} (sent : (cmdStopWeb host env).signalled = some pid) :
    host.pidFile = some pid ∧ host.isPidAlive pid := by
  rw [cmdStopWeb] at sent
  cases recorded : host.readPid env with
  | none =>
    rw [recorded] at sent
    cases sent
  | some other =>
    rw [recorded] at sent
    simp only at sent
    split at sent
    · cases sent
    · rename_i alive
      cases sent
      exact ⟨file_of_readPid recorded, by simpa using alive⟩

theorem exact_step (inv : Inv host) (label : Label) (allowed : Allowed host label) :
    Exact host label (step host label) where
  single := (inv_step inv label allowed).single
  running := by
    rintro env rfl
    constructor
    · rintro ⟨pid, port, address, replied⟩
      obtain ⟨-, recorded, alive, -⟩ := running_iff.mp replied
      obtain ⟨port, serves⟩ := serves_of_alive inv (file_of_readPid recorded) alive
      exact ⟨pid, port, serves⟩
    · rintro ⟨pid, port, serves⟩
      obtain ⟨settled, readable, installed⟩ := allowed ⟨pid, port, serves⟩
      have recorded : host.readPid env = some pid := by
        rw [Host.readPid, if_pos readable]
        exact recorded_of_settled inv settled serves
      exact ⟨pid, webPort, url webPort,
        running_iff.mpr ⟨installed, recorded, alive_of_serves inv serves, rfl, rfl⟩⟩
  port := by
    rintro env - pid port address replied
    obtain ⟨-, recorded, alive, rfl, -⟩ := running_iff.mp replied
    obtain ⟨port, process, found, server⟩ := serves_of_alive inv (file_of_readPid recorded) alive
    rw [(inv.recorded pid process port found server).1] at server
    exact ⟨process, found, server⟩
  signals := by
    rintro env - pid sent
    obtain ⟨recorded, alive⟩ := signalled_eq_some sent
    exact serves_of_alive inv recorded alive

/-- Every step of a run is exact whose steps are all allowed. -/
theorem webserver_exact (labels : List Label) (allowed : Execution.Along step Allowed .start labels) :
    ∀ before label after, labels = before ++ label :: after →
      Exact (Execution.run step .start before) label
        (Execution.run step .start (before ++ [label])) := by
  rintro before label after rfl
  obtain ⟨earlier, now, -⟩ := Execution.along_append.mp allowed
  have inv : Inv (Execution.run step .start before) :=
    Execution.invariant_along (motive := Inv) (fun _ label allowed inv => inv_step inv label allowed)
      inv_start earlier
  rw [Execution.run_append]
  exact exact_step inv label now

/-- A call that finds `glances` and the file; a new process is given the id 7. -/
private def fine : Env := ⟨true, true, .done, .ok 7⟩

/-- A webserver is started and stopped, and ends; another process is given its id. -/
theorem webserver_exact_reuse :
    Exact (Execution.run step .start
        [.startWeb fine ["61208"], .webStatus fine, .stopWeb fine, .ends 7, .begins 7 true])
      (.webStatus fine)
      (Execution.run step .start
        [.startWeb fine ["61208"], .webStatus fine, .stopWeb fine, .ends 7, .begins 7 true,
          .webStatus fine]) := by
  refine webserver_exact
    [.startWeb fine ["61208"], .webStatus fine, .stopWeb fine, .ends 7, .begins 7 true, .webStatus fine]
    ⟨?_, ?_, trivial, trivial, ?_, ?_, trivial⟩ _ _ [] rfl
  · intro _
    refine ⟨?_, rfl, fun _ => ⟨?_, rfl⟩⟩
    · intro pid process found
      cases found
    · intro port asked
      have read : portOf ["61208"] = .ok webPort := by rfl
      rw [read] at asked
      exact (Except.ok.inj asked).symm
  · intro _
    refine ⟨?_, rfl, rfl⟩
    intro pid process found _
    have only := List.mem_singleton.mp (OrderedMap.find?_eq_some_iff.mp found)
    rw [(Prod.mk.inj only).2]
  · intro _ recorded
    cases recorded
  · rintro ⟨pid, port, process, found, server⟩
    have only := List.mem_singleton.mp (OrderedMap.find?_eq_some_iff.mp found)
    rw [(Prod.mk.inj only).2] at server
    cases server

/-- The port of a status is the default one, whatever the webserver was started on. -/
theorem webserver_inexact : ∃ labels : List Label, ∃ before label after,
    labels = before ++ label :: after ∧
      ¬ Exact (Execution.run step .start before) label
        (Execution.run step .start (before ++ [label])) := by
  refine ⟨_, [.startWeb fine ["8080"]], .webStatus fine, [], rfl, ?_⟩
  intro exact_
  obtain ⟨process, found, server⟩ := exact_.port fine rfl 7 webPort (url webPort) (by rfl)
  have only : ((Execution.run step .start [.startWeb fine ["8080"]]).processes.find? 7).map (·.program) =
      some (.webserver 8080) := by rfl
  rw [found, Option.map_some, server, Option.some.injEq, Program.webserver.injEq] at only
  exact absurd only (by decide)

end SysDeck.Cockpit.Glances
