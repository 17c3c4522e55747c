import SysDeck.Library.Matcher
import SysDeck.Library.PythonInt
import SysDeck.Library.Utf8
import SysDeck.Cockpit.PackageFiles

/-! The ports of the registered services: the regular expressions that find them in the configuration
files, the reader of a port, and the edit that sets one. -/

namespace SysDeck.Cockpit.ServicePorts

open Packages (isSpace)
open PackageFiles (universal)
open PythonInt (isDigit)
open Matcher (literal one many many1 maybe)

/-! ### The registry -/

inductive Service where
  | ssh | cockpit | caddy | varnish | mariadb | ollama | openwebui | hermes | odysseus
  deriving DecidableEq

/-- A `port_regex` by what stands before the digits: with `line` it is `^(pre)(\d+)\s*$`, where both
anchors are those of `MULTILINE`, and without it `(pre)(\d+)`. -/
structure Pattern where
  pre : Matcher Char
  line : Bool

/-- `\s*` -/
def blanks : Matcher Char := many isSpace

def word (text : String) : Matcher Char := literal id text.toList

/-- `[a-z0-9.]` -/
def hostChar (c : Char) : Bool := c.isLower || c.isDigit || c = '.'

/-- `\s*name\s*=\s*` -/
def assignment (name : Matcher Char) : Matcher Char :=
  blanks.seq (name.seq (blanks.seq ((one (· = '=')).seq blanks)))

/-- `[a-z0-9.]*:` -/
def hostColon : Matcher Char := (many hostChar).seq (one (· = ':'))

/-- `-a\s*:?[a-z0-9.]*:` -/
def listenOption : Matcher Char := (word "-a").seq (blanks.seq ((maybe (· = ':')).seq hostColon))

/-- `VARNISH_LISTEN_PORT\s*=\s*` -/
def listenPort : Matcher Char :=
  (word "VARNISH_LISTEN_PORT").seq (blanks.seq ((one (· = '=')).seq blanks))

def Service.pattern : Service → Pattern
  | .ssh => ⟨blanks.seq ((word "Port").seq (many1 isSpace)), true⟩
  | .cockpit => ⟨assignment (word "ListenStream"), true⟩
  | .caddy => ⟨(many fun c => c ≠ '\n' && c ≠ '#').seq (one (· = ':')), true⟩
  | .varnish => ⟨listenOption.alt listenPort, false⟩
  -- `IGNORECASE`: no other characters fold to these letters
  | .mariadb => ⟨assignment (literal Char.toLower "port".toList), true⟩
  | .ollama => ⟨(word "OLLAMA_HOST").seq (blanks.seq ((one (· = '=')).seq (blanks.seq
      ((maybe fun c => c = '"' || c = '\'').seq hostColon)))), false⟩
  | .openwebui => ⟨assignment (word "PORT"), true⟩
  | .hermes => ⟨blanks.seq ((word "port:").seq blanks), true⟩
  | .odysseus => ⟨assignment (word "port"), true⟩

def Service.id : Service → String
  | .ssh => "ssh"
  | .cockpit => "cockpit"
  | .caddy => "caddy"
  | .varnish => "varnish"
  | .mariadb => "mariadb"
  | .ollama => "ollama"
  | .openwebui => "openwebui"
  | .hermes => "hermes"
  | .odysseus => "odysseus"

def Service.configFiles : Service → List String
  | .ssh => ["/etc/ssh/sshd_config"]
  | .cockpit => ["/etc/cockpit/cockpit.conf"]
  | .caddy => ["/etc/caddy/Caddyfile"]
  | .varnish => ["/etc/systemd/system/varnish.service.d/override.conf", "/etc/varnish/varnish.params",
      "/etc/default/varnish"]
  | .mariadb => ["/etc/mysql/mariadb.conf.d/50-server.cnf", "/etc/mysql/mariadb.conf.d/60-galera.cnf",
      "/etc/mysql/my.cnf", "/etc/my.cnf"]
  | .ollama => ["/etc/systemd/system/ollama.service.d/override.conf",
      "/etc/systemd/system/ollama.service.d/ollama.conf", "/etc/environment"]
  | .openwebui => ["/etc/systemd/system/open-webui.service.d/override.conf",
      "/etc/systemd/system/open-webui.service.d/open-webui.conf", "/etc/open-webui/config"]
  | .hermes => ["/etc/hermes/config.yaml", "/etc/hermes/config.yml", "/etc/hermes/hermes.yaml"]
  | .odysseus => ["/etc/odysseus/config.toml", "/etc/odysseus/odysseus.toml"]

/-- `systemd_unit`, and the `alt_units` after it. -/
def Service.units : Service → List String
  | .ssh => ["sshd.service", "ssh.service", "sshd.socket", "ssh.socket"]
  | .cockpit => ["cockpit.socket", "cockpit.service"]
  | .caddy => ["caddy.service"]
  | .varnish => ["varnish.service"]
  | .mariadb => ["mariadb.service", "mysqld.service", "mysql.service"]
  | .ollama => ["ollama.service"]
  | .openwebui => ["open-webui.service", "openwebui.service"]
  | .hermes => ["hermes.service"]
  | .odysseus => ["odysseus.service"]

def servicesRegistry : List Service :=
  [.ssh, .cockpit, .caddy, .varnish, .mariadb, .ollama, .openwebui, .hermes, .odysseus]

/-- `_registry_by_id` -/
def registryById (sid : String) : Option Service := servicesRegistry.find? (·.id = sid)

/-! ### The search -/

/-- A match: the groups of the prefix and of the digits, what the rest of the expression took, and
the text after the match. -/
structure Found where
  pre : List Char
  digits : List Char
  swallowed : List Char
  rest : List Char
  deriving DecidableEq

/-- `\s*$`; the blanks and the text after them. -/
def ending : List Char → Option (List Char × List Char) :=
  Scan.many isSpace fun blank rest => if rest.head?.all (· = '\n') then some (blank, rest) else none

/-- What the expression has after the digits. -/
def Pattern.close (pattern : Pattern) (text : List Char) : Option (List Char × List Char) :=
  if pattern.line then ending text else some ([], text)

/-- The digits and what is after them. -/
def Pattern.number (pattern : Pattern) (pre : List Char) : List Char → Option Found :=
  Scan.many1 isDigit fun digits after =>
    (pattern.close after).map fun (swallowed, rest) => ⟨pre, digits, swallowed, rest⟩

/-- The match at the start of the text. -/
def Pattern.matchAt (pattern : Pattern) (text : List Char) : Option Found :=
  (pattern.pre.run text).findSome? fun (pre, after) => pattern.number pre after

/-- With `begun` the text begins a line. -/
def Pattern.here (pattern : Pattern) (begun : Bool) (text : List Char) : Option (List Char × Found) :=
  if pattern.line && !begun then none else (pattern.matchAt text).map fun found => ([], found)

/-- `port_regex.search`, with what is before the match. -/
def Pattern.search (pattern : Pattern) : Bool → List Char → Option (List Char × Found)
  | begun, [] => pattern.here begun []
  | begun, c :: rest => (pattern.here begun (c :: rest)).or
      ((pattern.search (c = '\n') rest).map fun (before, found) => (c :: before, found))

/-! ### A file -/

/-- `read_text(encoding="utf-8", errors="replace")` -/
def readText (bytes : List Byte) : List Char := universal (Utf8.decode bytes)

/-- `str` of a number. -/
def decimal (port : ℕ) : List Char := Nat.toDigits 10 port

/-- `port_regex.sub` of a text where the match is known. -/
def edited (port : ℕ) (before : List Char) (found : Found) : List Char :=
  before ++ found.pre ++ decimal port ++ found.rest

/-- The digits that are replaced and the file that is written. -/
def setPort (pattern : Pattern) (port : ℕ) (bytes : List Byte) : Option (List Char × List Byte) :=
  (pattern.search true (readText bytes)).map fun (before, found) =>
    (found.digits, Utf8.encode (edited port before found))

/-- `int` of digits, which refuses a text that is too long. -/
def intOf (digits : List Char) : Option ℕ :=
  if digits.length ≤ 4300 then PythonInt.digits digits else none

inductive Reading where
  | port (n : ℕ)
  | nothing
  | valueError
  deriving DecidableEq

/-- `_extract_port_from_config` of a file that is read. -/
def extractPort (pattern : Pattern) (bytes : List Byte) : Reading :=
  match pattern.search true (readText bytes) with
  | none => .nothing
  | some (_, found) =>
    match intOf found.digits with
    | none => .valueError
    | some n => if 1 ≤ n ∧ n ≤ 65535 then .port n else .nothing

/-! ### The command -/

abbrev Path := List String

/-- What the bridge meets: the real path of a name that is a file, the contents that can be read, the
places where a file can be put, and the units that restart. -/
structure Host where
  realpath : String → Option Path
  content : Path → Option (List Byte)
  writable : Path → Bool
  restarts : String → Bool

def configBaseDirs : List Path := [["etc"], ["usr", "share", "sysdeck"]]

/-- `_resolve_first_config` -/
def resolveFirstConfig (host : Host) (configFiles : List String) : Option Path :=
  configFiles.findSome? fun file =>
    (host.realpath file).filter fun real => configBaseDirs.any (·.isPrefixOf real)

/-- `_extract_port_from_config` -/
def extractPortFromConfig (host : Host) (service : Service) (path : Path) : Reading :=
  match host.content path with
  | none => .nothing
  | some bytes => extractPort service.pattern bytes

/-- `_validate_service_id` -/
def validateServiceId (name : String) : Bool :=
  match name.toList with
  | [] => false
  | c :: rest =>
    c.isLower && rest.length ≤ 31 && rest.all fun c => c.isLower || c.isDigit || c = '-'

/-- `_validate_port`, with the port. -/
def validatePort (port : String) : Option ℕ :=
  match port.toList with
  | [] => none
  | c :: rest =>
    let n := Nat.ofDigitChars 10 (c :: rest) 0
    if c.isDigit && c ≠ '0' && rest.all Char.isDigit && rest.length ≤ 4 && 1 ≤ n && n ≤ 65535 then some n
    else none

inductive Refusal where
  | usage
  | invalidId (sid : String)
  | invalidPort (text : String)
  | notInRegistry (sid : String)
  | noConfigFile (sid : String) (tried : List String)
  | cannotRead (path : Path)
  | notFound (path : Path) (sid : String)
  | failedToWrite (path : Path) (sid : String) (oldPort : Option ℕ) (newPort : ℕ)

/-- What is reported; `restarted` is the unit whose restart did not fail. -/
structure Reply where
  service : Service
  configFile : Path
  oldPort : Option ℕ
  newPort : ℕ
  restarted : Option String

def Host.write (host : Host) (path : Path) (bytes : List Byte) : Host :=
  { host with content := fun place => if place = path then some bytes else host.content place }

/-- `cmd_set_service_port` -/
def cmdSetServicePort (host : Host) : List String → Except Refusal (Reply × Host)
  | sid :: portText :: _ =>
    if !validateServiceId sid then .error (.invalidId sid)
    else match validatePort portText with
    | none => .error (.invalidPort portText)
    | some newPort =>
      match registryById sid with
      | none => .error (.notInRegistry sid)
      | some service =>
        match resolveFirstConfig host service.configFiles with
        | none => .error (.noConfigFile sid service.configFiles)
        | some path =>
          match host.content path with
          | none => .error (.cannotRead path)
          | some bytes =>
            match setPort service.pattern newPort bytes with
            | none => .error (.notFound path sid)
            | some (digits, written) =>
              if host.writable path then
                .ok (⟨service, path, intOf digits, newPort, service.units.find? host.restarts⟩,
                  host.write path written)
              else .error (.failedToWrite path sid (intOf digits) newPort)
  | _ => .error .usage

end SysDeck.Cockpit.ServicePorts
