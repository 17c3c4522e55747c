import Mathlib.Data.List.Infix
import SysDeck.Library.Shell

/-! The start of the firewall for web servers: its checks, the detection of the services, and the
load of the rules, under `set -euo pipefail`. -/

namespace SysDeck.Web.VpsWebserver

open Shell

abbrev Line := List Char

/-! ### Searches -/

/-- Where a line is selected, the parts of it that `grep -o` prints. -/
abbrev Pattern := Line → Option (List Line)

/-- `grep -o pattern file 2>/dev/null` -/
def grep (pattern : Pattern) (file : Option (List Line)) : ℕ × List Line :=
  match file with
  | none => (2, [])
  | some lines =>
    let selected := lines.filterMap pattern
    (if selected.isEmpty then 1 else 0, selected.flatten.filter fun part => !part.isEmpty)

/-- `\s` -/
def blank (c : Char) : Bool := c = ' ' || c = '\t' || c = '\r' || c.toNat = 0xB || c.toNat = 0xC

def after (word : Line) (text : Line) : Option Line :=
  if word.isPrefixOf text then some (text.drop word.length) else none

/-- `^\s*Port\s+\K[0-9]+` -/
def portPattern : Pattern := fun line => do
  let rest ← after "Port".toList (line.dropWhile blank)
  let port := (rest.dropWhile blank).takeWhile Char.isDigit
  if rest.head?.any blank && !port.isEmpty then some [port] else none

/-- `^\s*NAME\s*=\s*\K.*` -/
def keyPattern (name : String) : Pattern := fun line => do
  let rest ← after name.toList (line.dropWhile blank)
  let value ← after ['='] (rest.dropWhile blank)
  return [value.dropWhile blank]

/-- `grep -i '^\s*NAME\s+'`, where the plus stands for itself. -/
def authPattern (name : String) (line : Line) : Bool :=
  match after (name.toList.map Char.toLower) ((line.dropWhile blank).map Char.toLower) with
  | some (c :: '+' :: _) => blank c
  | _ => false

/-- `\K(yes|no)` -/
def yesNo : Line → List Line
  | 'y' :: 'e' :: 's' :: rest => ['y', 'e', 's'] :: yesNo rest
  | 'n' :: 'o' :: rest => ['n', 'o'] :: yesNo rest
  | _ :: rest => yesNo rest
  | [] => []

def yesNoPattern : Pattern := fun line => if (yesNo line).isEmpty then none else some (yesNo line)

/-- `dev \K\S+` -/
def devPattern : Pattern
  | 'd' :: 'e' :: 'v' :: ' ' :: c :: rest =>
    if blank c then devPattern (c :: rest) else some [(c :: rest).takeWhile fun c => !blank c]
  | _ :: rest => devPattern rest
  | [] => none

/-- `^\d+: \K[^:]+` -/
def linkPattern : Pattern := fun line => do
  let rest ← after [':', ' '] (line.dropWhile Char.isDigit)
  let name := rest.takeWhile (· ≠ ':')
  if line.head?.any Char.isDigit && !name.isEmpty then some [name] else none

/-- `"$(… | head -1)"` -/
def first (lines : List Line) : Line := lines.head?.getD []

/-- `"$(…)"` -/
def joined (lines : List Line) : Line := ['\n'].intercalate lines

/-- `tr -d ' "'` -/
def unquoted (line : Line) : Line := line.filter fun c => c ≠ ' ' && c ≠ '"'

/-- `${value:-default}` -/
def orDefault (value default : Line) : Line := if value.isEmpty then default else value

/-! ### The host and the variables -/

/-- What the assignments of `/etc/os-release` set. -/
structure OsRelease where
  ID : Option String
  VERSION_ID : Option String
  PRETTY_NAME : Option String

/-- The files that the script reads and what its probes find. -/
structure Host where
  EUID : ℕ
  DEBUG : Bool
  HOME : Option String
  nft : Bool
  osRelease : Option OsRelease
  debianVersion : Option String
  archRelease : Bool
  svcActive : String → Bool
  procRunning : String → Bool
  hasCmd : String → Bool
  file : String → Option (List Line)
  /-- The files of `/etc/ssh/sshd_config.d`, in the order of their names. -/
  sshdConfigDir : Option (List (String × List Line))
  defaultRoutes : List Line
  links : List Line
  ipv4 : Option Line
  ipv6 : Option Line
  /-- The lines of `ss -tlnp`, and the ports of those of Varnish. -/
  listening : List Line
  varnishPorts : List Line
  linkExists : Bool
  valid : Bool
  loads : Bool

structure Vars where
  OS_FAMILY : String
  EXT_IF : Line
  MY_IPV4 : Line
  MY_IPV6 : Line
  SSH_DETECTED : Bool
  SSH_PORT : Line
  SSH_PUBKEY_ONLY : String
  FORGEJO_DETECTED : Bool
  FORGEJO_HTTP_PORT : Line
  FORGEJO_SSH_PORT : Line
  FORGEJO_SSH_ENABLED : Bool
  CADDY_DETECTED : Bool
  CADDY_HTTP_PORT : Line
  VARNISH_DETECTED : Bool
  VARNISH_PORT : Line
  VARNISH_ADMIN_PORT : Line
  /-- The generated rules were given to `nft -f`. -/
  loaded : Bool

def Vars.start : Vars :=
  ⟨"", [], [], [], false, "22".toList, "unknown", false, [], [], false, false, "80".toList, false,
    "80".toList, "6082".toList, false⟩

abbrev Script := Command Vars

/-- `x="$(…)"`, whose status is that of the pipeline. -/
def assign (statuses : List ℕ) (change : Vars → Vars) : Script :=
  simple fun vars => (pipefail statuses, change vars)

/-- `log_info`, and what else is only written. -/
def logInfo : Script := update id

variable (host : Host)

/-! ### The checks -/

def logDebug : Script := call (either (both (test fun _ => host.DEBUG) logInfo) (update id))

def die : Script := exit 1

def checkRoot : Script := call (both (test fun _ => host.EUID != 0) die)

def checkNftables : Script := call (branch (test fun _ => !host.nft) die (update id))

/-! ### The detection -/

def familyOf (id : String) : String :=
  if ["debian", "ubuntu", "devuan"].contains id then "debian"
  else if ["arch", "manjaro", "endeavouros"].contains id then "arch"
  else "unknown"

/-- `detect_os`; a variable that is not set ends the script. -/
def detectOs : Script := call (block [
  (match host.osRelease with
    | some ⟨some id, some _, some _⟩ => update fun vars => { vars with OS_FAMILY := familyOf id }
    | some _ => exit 1
    | none =>
      if host.debianVersion.isSome then update fun vars => { vars with OS_FAMILY := "debian" }
      else if host.archRelease then update fun vars => { vars with OS_FAMILY := "arch" }
      else update fun vars => { vars with OS_FAMILY := "unknown" }),
  logDebug host])

def detectPrimaryInterface : Script :=
  let routes := grep devPattern (some host.defaultRoutes)
  let links := grep linkPattern (some host.links)
  let others := links.2.filter (· ≠ ['l', 'o'])
  call (block [
    assign [0, routes.1, 0] fun vars => { vars with EXT_IF := first routes.2 },
    branch (test (·.EXT_IF.isEmpty))
      (assign [0, links.1, if others.isEmpty then 1 else 0, 0] fun vars =>
        { vars with EXT_IF := first others })
      (update id),
    branch (test (·.EXT_IF.isEmpty)) die (update id),
    logDebug host])

def detectIps : Script := call (block [
  either (both (test (·.MY_IPV4.isEmpty))
    (assign [0, if host.ipv4.isSome then 0 else 1, 0] fun vars =>
      { vars with MY_IPV4 := host.ipv4.getD [] })) (update id),
  either (both (test (·.MY_IPV6.isEmpty))
    (assign [0, if host.ipv6.isSome then 0 else 1, 0] fun vars =>
      { vars with MY_IPV6 := host.ipv6.getD [] })) (update id),
  logDebug host])

def Host.sshRuns : Bool := host.svcActive "sshd" || host.svcActive "ssh" || host.procRunning "sshd"

/-- `for path in /etc/ssh/sshd_config /etc/ssh/sshd_config.d/*.conf` -/
def Host.sshdConfig : Option (String × List Line) :=
  match host.file "/etc/ssh/sshd_config" with
  | some lines => some ("/etc/ssh/sshd_config", lines)
  | none =>
    ((host.sshdConfigDir.getD []).find? fun file => ".conf".toList.isSuffixOf file.1.toList).map fun file =>
      ("/etc/ssh/sshd_config.d/" ++ file.1, file.2)

/-- `grep -ri … "$sshd_config" /etc/ssh/sshd_config.d/ | tail -1 | grep -oP '\K(yes|no)'` -/
def Host.authentication (name : String) (config : String × List Line) : List ℕ × Line :=
  let files := config :: (host.sshdConfigDir.getD []).map fun file =>
    ("/etc/ssh/sshd_config.d/" ++ file.1, file.2)
  let found := files.flatMap fun (path, lines) =>
    (lines.filter (authPattern name)).map fun line => path.toList ++ ':' :: line
  let words := grep yesNoPattern (some found.getLast?.toList)
  ([if host.sshdConfigDir.isNone then 2 else if found.isEmpty then 1 else 0, 0, words.1, 0], joined words.2)

def detectSsh : Script := call (block [
  update fun vars =>
    { vars with SSH_DETECTED := false, SSH_PORT := "22".toList, SSH_PUBKEY_ONLY := "unknown" },
  branch (test fun _ => !host.sshRuns) (block [logDebug host, ret 0]) (update id),
  update fun vars => { vars with SSH_DETECTED := true },
  (match host.sshdConfig with
    | none => update id
    | some config =>
      let port := grep portPattern (some config.2)
      let pubkey := host.authentication "PubkeyAuthentication" config
      let password := host.authentication "PasswordAuthentication" config
      block [
        assign [port.1, 0] fun vars => { vars with SSH_PORT := first port.2 },
        update fun vars => { vars with SSH_PORT := orDefault vars.SSH_PORT "22".toList },
        assign pubkey.1 id,
        assign password.1 id,
        update fun vars => { vars with
          SSH_PUBKEY_ONLY :=
            if pubkey.2 = "yes".toList && password.2 = "no".toList then "yes"
            else if password.2 = "yes".toList then "no" else "unknown" }]),
  logInfo])

def forgejoPaths (family home : String) : List String :=
  (if family = "debian" then ["/etc/forgejo/app.ini", "/etc/gitea/app.ini"]
    else if family = "arch" then
      ["/etc/forgejo/app.ini", "/etc/gitea/app.ini", "/var/lib/forgejo/custom/conf/app.ini"]
    else []) ++
    ["/var/lib/forgejo/custom/conf/app.ini", "/var/lib/gitea/custom/conf/app.ini",
      home ++ "/forgejo/conf/app.ini"]

def Host.forgejoRuns : Bool := host.svcActive "forgejo" || host.procRunning "forgejo"

/-- `FORGEJO_SSH_ENABLED` of a server setting, in lower case, and a port. -/
def sshEnabled (server port : Line) : Bool :=
  if server ≠ "false".toList ∧ port ≠ "22".toList then true
  else if server = "true".toList then false
  else port ≠ "22".toList

/-- What is read of `app.ini`. -/
def readForgejo (config : List Line) : Script :=
  let http := grep (keyPattern "HTTP_PORT") (some config)
  let ssh := grep (keyPattern "SSH_PORT") (some config)
  let server := grep (keyPattern "START_SSH_SERVER") (some config)
  block [
    assign [http.1, 0, 0] fun vars => { vars with FORGEJO_HTTP_PORT := unquoted (first http.2) },
    update fun vars => { vars with FORGEJO_HTTP_PORT := orDefault vars.FORGEJO_HTTP_PORT "3000".toList },
    assign [ssh.1, 0, 0] fun vars => { vars with FORGEJO_SSH_PORT := unquoted (first ssh.2) },
    update fun vars => { vars with FORGEJO_SSH_PORT := orDefault vars.FORGEJO_SSH_PORT "22".toList },
    assign [server.1, 0, 0] id,
    update fun vars => { vars with
      FORGEJO_SSH_ENABLED :=
        sshEnabled ((unquoted (joined server.2)).map Char.toLower) vars.FORGEJO_SSH_PORT }]

def detectForgejo : Script := call (block [
  update fun vars => { vars with
    FORGEJO_DETECTED := false, FORGEJO_HTTP_PORT := [], FORGEJO_SSH_PORT := []
    FORGEJO_SSH_ENABLED := false },
  branch (test fun _ => !host.forgejoRuns) (block [logDebug host, ret 0]) (update id),
  update fun vars => { vars with FORGEJO_DETECTED := true },
  logDebug host,
  (match host.HOME with
    | none => exit 1
    | some home => fun strict vars =>
      match (forgejoPaths vars.OS_FAMILY home).findSome? host.file with
      | some config => block [logDebug host, readForgejo config] strict vars
      | none =>
        block [logDebug host,
          update fun vars => { vars with
            FORGEJO_HTTP_PORT := "3000".toList, FORGEJO_SSH_PORT := "2222".toList
            FORGEJO_SSH_ENABLED := true }] strict vars),
  logInfo])

/-- `grep -q ':8080'` -/
def backend (line : Line) : Bool := line.tails.any fun rest => ":8080".toList.isPrefixOf rest

def detectCaddy : Script := call (block [
  update fun vars => { vars with CADDY_DETECTED := false, CADDY_HTTP_PORT := "80".toList },
  branch (test fun _ => !(host.svcActive "caddy" || host.procRunning "caddy" || host.hasCmd "caddy"))
    (block [logDebug host, ret 0]) (update id),
  update fun vars => { vars with CADDY_DETECTED := true },
  branch (test fun vars => vars.OS_FAMILY ≠ "unknown" &&
      ((host.file "/etc/caddy/Caddyfile").getD []).any backend)
    (block [update fun vars => { vars with CADDY_HTTP_PORT := "8080".toList }, logDebug host]) (update id),
  branch (test fun _ => host.listening.any backend)
    (update fun vars => { vars with CADDY_HTTP_PORT := "8080".toList }) (update id),
  logInfo])

def detectVarnish : Script := call (block [
  update fun vars => { vars with
    VARNISH_DETECTED := false, VARNISH_PORT := "80".toList, VARNISH_ADMIN_PORT := "6082".toList },
  branch (test fun _ =>
      !(host.svcActive "varnish" || host.procRunning "varnishd" || host.hasCmd "varnishd"))
    (block [logDebug host, ret 0]) (update id),
  update fun vars => { vars with
    VARNISH_DETECTED := true, VARNISH_PORT := orDefault (first host.varnishPorts) vars.VARNISH_PORT },
  update fun vars =>
    let admin := host.varnishPorts.getLast?.getD []
    if !admin.isEmpty && admin ≠ vars.VARNISH_PORT then { vars with VARNISH_ADMIN_PORT := admin } else vars,
  update fun vars => { vars with VARNISH_PORT := "80".toList, CADDY_HTTP_PORT := "8080".toList },
  logInfo])

def detectAllServices : Script := call (block [
  logInfo, detectSsh host, detectForgejo host, detectCaddy host, detectVarnish host, logInfo])

/-! ### The start -/

def verifyInterface : Script := call (either (test fun _ => host.linkExists) logInfo)

/-- The rules are written to a file. -/
def generateRules : Script := call (block [update id, logDebug host])

def load : Script := simple fun vars => (if host.loads then 0 else 1, { vars with loaded := true })

def fwStart : Script := call (block [
  logInfo,
  checkRoot host,
  checkNftables host,
  detectOs host,
  detectPrimaryInterface host,
  detectIps host,
  detectAllServices host,
  verifyInterface host,
  generateRules host,
  logInfo,
  branch (test fun _ => !host.valid) (block [logInfo, exit 1]) (update id),
  logInfo,
  branch (load host) logInfo die])

/-- `main start` -/
def main : Script := call (fwStart host)

def run : Result Vars := main host true .start

/-! ### What the start is to do -/

/-- The port of the first `Port` of the configuration, or the default. -/
def Host.sshPort : Line :=
  match host.sshRuns, host.sshdConfig with
  | true, some config => orDefault (first (grep portPattern (some config.2)).2) "22".toList
  | _, _ => "22".toList

/-- The ports of the first `HTTP_PORT` and `SSH_PORT` of `app.ini`, or the defaults. -/
def forgejoPorts (config : List Line) : Line × Line :=
  (orDefault (unquoted (first (grep (keyPattern "HTTP_PORT") (some config)).2)) "3000".toList,
    orDefault (unquoted (first (grep (keyPattern "SSH_PORT") (some config)).2)) "22".toList)

/-- The rules are loaded, for the ports that the configuration files give. -/
structure StartsRight : Prop where
  loads : (run host).state.loaded = true
  ssh : (run host).state.SSH_PORT = host.sshPort
  forgejo : host.forgejoRuns → ∀ home, host.HOME = some home →
    ∀ config, (forgejoPaths (run host).state.OS_FAMILY home).findSome? host.file = some config →
      ((run host).state.FORGEJO_HTTP_PORT, (run host).state.FORGEJO_SSH_PORT) = forgejoPorts config

/-! ### Where the script ends -/

theorem checkRoot_ends (root : host.EUID = 0) (vars : Vars) : checkRoot host true vars = .exited 1 vars :=
  call_both_false die (by simp [root])

/-- The test for root is false for root, and is the last command of its function. -/
theorem run_ends (root : host.EUID = 0) : run host = .exited 1 .start := by
  have logged : logInfo true Vars.start = .done 0 Vars.start := update_run id
  have start : fwStart host true .start = .exited 1 .start := by
    unfold fwStart
    rw [call, block_done _ _ logged, block_exited _ (checkRoot_ends host root .start)]
  rw [run, main, call, start]

/-- No start as root gets to the load, whatever is installed, configured and running. -/
theorem never_starts_right (root : host.EUID = 0) : ¬ StartsRight host := by
  intro right
  have loaded := right.loads
  rw [run_ends host root] at loaded
  cases loaded

/-! ### The detection, when it is reached -/

variable {host}

/-- A search in a file that is there fails where it selects no line. -/
theorem grep_status (pattern : Pattern) (lines : List Line) :
    (grep pattern (some lines)).1 = 0 ↔ ∃ line ∈ lines, pattern line ≠ none := by
  simp only [grep]
  split
  · rename_i empty
    refine iff_of_false Nat.one_ne_zero ?_
    rintro ⟨line, member, selected⟩
    rw [List.isEmpty_iff, List.filterMap_eq_nil_iff] at empty
    exact selected (empty line member)
  · rename_i some_
    refine iff_of_true rfl ?_
    by_contra none
    simp only [not_exists, not_and, not_not] at none
    exact some_ (List.isEmpty_iff.mpr (List.filterMap_eq_nil_iff.mpr none))

theorem logDebug_run (strict : Bool) (vars : Vars) : logDebug host strict vars = .done 0 vars := by
  cases debug : host.DEBUG <;> cases strict <;>
    simp [logDebug, call, either, both, test, simple, debug, logInfo]

theorem assign_run (statuses : List ℕ) (change : Vars → Vars) (vars : Vars) :
    assign statuses change true vars = settle true (pipefail statuses) (change vars) := rfl

/-- A configuration file without one of the three directives ends the script. -/
theorem detectSsh_exits_iff {config : String × List Line} (runs : host.sshRuns)
    (chosen : host.sshdConfig = some config) (vars : Vars) :
    (∃ status after, detectSsh host true vars = .exited status after) ↔
      (∀ line ∈ config.2, portPattern line = none) ∨
        pipefail (host.authentication "PubkeyAuthentication" config).1 ≠ 0 ∨
        pipefail (host.authentication "PasswordAuthentication" config).1 ≠ 0 := by
  have failed : (∀ line ∈ config.2, portPattern line = none) ↔
      pipefail [(grep portPattern (some config.2)).1, 0] ≠ 0 := by
    rw [ne_eq, pipefail_eq_zero_iff]
    simp [grep_status]
  rw [failed]
  unfold detectSsh
  rw [chosen]
  by_cases port : pipefail [(grep portPattern (some config.2)).1, 0] = 0
  · by_cases pubkey : pipefail (host.authentication "PubkeyAuthentication" config).1 = 0
    · by_cases password : pipefail (host.authentication "PasswordAuthentication" config).1 = 0
      · simp [call, block, branch, test, simple, runs, assign_run, port, pubkey, password, logInfo]
      · simp [call, block, branch, test, simple, runs, assign_run, port, pubkey, password, settle]
    · simp [call, block, branch, test, simple, runs, assign_run, port, pubkey, settle]
  · simp [call, block, branch, test, simple, runs, assign_run, port, settle]

/-- Where the detection of SSH is done, its port is that of the first directive, or the default. -/
theorem detectSsh_port {status : ℕ} {vars after : Vars} (done : detectSsh host true vars = .done status after) :
    after.SSH_PORT = host.sshPort := by
  unfold detectSsh at done
  unfold Host.sshPort
  cases runs : host.sshRuns with
  | false =>
    simp [call, block, branch, test, simple, runs, logDebug_run, ret] at done
    simp [← done.2]
  | true =>
    cases chosen : host.sshdConfig with
    | none =>
      simp [call, block, branch, test, simple, runs, chosen, logInfo] at done
      simp [← done.2]
    | some config =>
      rw [chosen] at done
      by_cases port : pipefail [(grep portPattern (some config.2)).1, 0] = 0
      · by_cases pubkey : pipefail (host.authentication "PubkeyAuthentication" config).1 = 0
        · by_cases password : pipefail (host.authentication "PasswordAuthentication" config).1 = 0
          · simp [call, block, branch, test, simple, runs, assign_run, port, pubkey, password, logInfo] at done
            simp [← done.2]
          · simp [call, block, branch, test, simple, runs, assign_run, port, pubkey, password, settle] at done
        · simp [call, block, branch, test, simple, runs, assign_run, port, pubkey, settle] at done
      · simp [call, block, branch, test, simple, runs, assign_run, port, settle] at done

/-- A file without one of the three keys ends the script. -/
theorem readForgejo_exits_iff (config : List Line) (vars : Vars) :
    (∃ status after, readForgejo config true vars = .exited status after) ↔
      ∃ key ∈ ["HTTP_PORT", "SSH_PORT", "START_SSH_SERVER"], ∀ line ∈ config, keyPattern key line = none := by
  have failed : ∀ key, (∀ line ∈ config, keyPattern key line = none) ↔
      pipefail [(grep (keyPattern key) (some config)).1, 0, 0] ≠ 0 := by
    intro key
    rw [ne_eq, pipefail_eq_zero_iff]
    simp [grep_status]
  simp only [failed]
  unfold readForgejo
  by_cases http : pipefail [(grep (keyPattern "HTTP_PORT") (some config)).1, 0, 0] = 0
  · by_cases ssh : pipefail [(grep (keyPattern "SSH_PORT") (some config)).1, 0, 0] = 0
    · by_cases server : pipefail [(grep (keyPattern "START_SSH_SERVER") (some config)).1, 0, 0] = 0
      · simp [block, assign_run, http, ssh, server]
      · simp [block, assign_run, http, ssh, server, settle]
    · simp [block, assign_run, http, ssh, settle]
  · simp [block, assign_run, http, settle]

/-- Where `app.ini` is read to its end, the ports are those of its first directives, or the defaults. -/
theorem readForgejo_ports {config : List Line} {status : ℕ} {vars after : Vars}
    (done : readForgejo config true vars = .done status after) :
    (after.FORGEJO_HTTP_PORT, after.FORGEJO_SSH_PORT) = forgejoPorts config := by
  unfold readForgejo at done
  by_cases http : pipefail [(grep (keyPattern "HTTP_PORT") (some config)).1, 0, 0] = 0
  · by_cases ssh : pipefail [(grep (keyPattern "SSH_PORT") (some config)).1, 0, 0] = 0
    · by_cases server : pipefail [(grep (keyPattern "START_SSH_SERVER") (some config)).1, 0, 0] = 0
      · simp [block, assign_run, http, ssh, server] at done
        simp [← done.2, forgejoPorts]
      · simp [block, assign_run, http, ssh, server, settle] at done
    · simp [block, assign_run, http, ssh, settle] at done
  · simp [block, assign_run, http, settle] at done

/-! ### A host -/

/-- Root on Debian, with `nft` and one interface; nothing runs. -/
private def plainHost : Host where
  EUID := 0
  DEBUG := false
  HOME := some "/root"
  nft := true
  osRelease := some ⟨some "debian", some "12", some "Debian GNU/Linux 12"⟩
  debianVersion := some "12.5"
  archRelease := false
  svcActive := fun _ => false
  procRunning := fun _ => false
  hasCmd := fun _ => false
  file := fun _ => none
  sshdConfigDir := some []
  defaultRoutes := ["default via 10.0.0.1 dev eth0".toList]
  links := []
  ipv4 := none
  ipv6 := none
  listening := []
  varnishPorts := []
  linkExists := true
  valid := true
  loads := true

theorem plainHost_ends : ¬ StartsRight plainHost := never_starts_right plainHost rfl

theorem start_fails : ∃ host : Host, host.EUID = 0 ∧ host.nft = true ∧ host.defaultRoutes ≠ [] ∧
    ¬ StartsRight host := by
  refine ⟨plainHost, rfl, rfl, List.cons_ne_nil _ _, fun right => ?_⟩
  have loaded := right.loads
  rw [run_ends plainHost rfl] at loaded
  cases loaded

end SysDeck.Web.VpsWebserver
