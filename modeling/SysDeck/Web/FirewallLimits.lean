import SysDeck.Library.Ipv4
import SysDeck.Library.PacketFilter
import SysDeck.Library.StatefulFilter

/-! The input chains of the public server templates, with their rate limits and ban sets. -/

namespace SysDeck.Web.FirewallLimits

open PacketFilter (CtState)
open StatefulFilter (Clause Limit Rule State Verdict readRules)

inductive Address where
  | v4 (address : BitVec 32)
  | v6 (address : BitVec 128)
  deriving DecidableEq

inductive Transport where
  | tcp (dport : BitVec 16) (flags : BitVec 8)
  | icmp (type : ℕ)
  | icmpv6 (type : ℕ)
  | other
  deriving DecidableEq

/-- A packet at the input hook, with the time in nanoseconds. -/
structure Packet where
  time : ℕ
  source : Address
  iifname : String
  state : CtState
  transport : Transport
  deriving DecidableEq

def BOGONS_V4 : List Ipv4.Cidr :=
  [⟨0x00000000#32, 8⟩, ⟨0x0A000000#32, 8⟩, ⟨0x7F000000#32, 8⟩, ⟨0xA9FE0000#32, 16⟩,
    ⟨0xAC100000#32, 12⟩, ⟨0xC0A80000#32, 16⟩, ⟨0xE0000000#32, 4⟩, ⟨0xF0000000#32, 4⟩]

def BOGONS_V6 : List (BitVec 128 × ℕ) :=
  [(1#128, 128), (0xFC#128 <<< 120, 7), (0xFE8#128 <<< 116, 10), (0xFF#128 <<< 120, 8)]

/-! ### Tests of a packet -/

def isV4 (packet : Packet) : Bool :=
  match packet.source with
  | .v4 _ => true
  | .v6 _ => false

def isV6 (packet : Packet) : Bool := !isV4 packet

def sourceIn (nets : List Ipv4.Cidr) (packet : Packet) : Bool :=
  match packet.source with
  | .v4 address => nets.any (·.contains address)
  | .v6 _ => false

def sourceIn6 (nets : List (BitVec 128 × ℕ)) (packet : Packet) : Bool :=
  match packet.source with
  | .v4 _ => false
  | .v6 address => nets.any fun net => (address ^^^ net.1) >>> (128 - net.2) = 0#128

def dportIs (port : BitVec 16) (packet : Packet) : Bool :=
  match packet.transport with
  | .tcp dport _ => dport = port
  | _ => false

/-- `tcp dport port ct state new` -/
def newTcp (port : BitVec 16) (packet : Packet) : Bool := dportIs port packet && packet.state = .new

/-- `ip protocol icmp icmp type` -/
def icmpType (types : List ℕ) (packet : Packet) : Bool :=
  match packet.transport with
  | .icmp type => isV4 packet && types.contains type
  | _ => false

/-- `ip6 nexthdr icmpv6 icmpv6 type` -/
def icmpv6Type (types : List ℕ) (packet : Packet) : Bool :=
  match packet.transport with
  | .icmpv6 type => isV6 packet && types.contains type
  | _ => false

def fin : BitVec 8 := 0x01#8
def syn : BitVec 8 := 0x02#8
def rst : BitVec 8 := 0x04#8
def psh : BitVec 8 := 0x08#8
def ack : BitVec 8 := 0x10#8
def urg : BitVec 8 := 0x20#8

/-- `tcp flags & mask == value` -/
def tcpFlags (mask value : BitVec 8) (packet : Packet) : Bool :=
  match packet.transport with
  | .tcp _ flags => flags &&& mask = value
  | _ => false

/-- A rule that looks at the packet alone. -/
def on (holds : Packet → Bool) (verdict : Verdict) : Rule Packet := ⟨[.test holds], some verdict⟩

/-! ### The rules -/

/-- The rules before the first service: bogons, the connection state, loopback, ICMP. -/
def opening : List (Rule Packet) :=
  [on (sourceIn BOGONS_V4) .drop,
    on (sourceIn6 BOGONS_V6) .drop,
    on (fun packet => packet.state = .established || packet.state = .related) .accept,
    on (fun packet => packet.iifname = "lo") .accept,
    on (fun packet => packet.state = .invalid) .drop,
    on (icmpType [8, 0, 3, 11]) .accept,
    on (icmpv6Type [128, 129, 133, 134, 135, 136, 2, 1, 3]) .accept]

def second : ℕ := 1000000000

def minute : ℕ := 60 * second

/-- The ban set of a service: its name, for IPv4 and with a 6 for IPv6, and its timeout. -/
structure BanSet where
  name : String
  timeout : ℕ
  deriving DecidableEq

/-- A service whose new connections are limited. -/
structure Guard where
  name : String
  port : BitVec 16
  limit : Limit
  ban : Option BanSet
  deriving DecidableEq

def BanSet.of (ban : BanSet) (packet : Packet) : String :=
  if isV4 packet then ban.name else ban.name ++ "6"

/-- `ip saddr @set drop`, and the same for IPv6. -/
def BanSet.rules (ban : BanSet) : List (Rule Packet) :=
  [⟨[.test isV4, .member ban.name], some .drop⟩,
    ⟨[.test isV6, .member (ban.name ++ "6")], some .drop⟩]

/-- The rules of a service: the banned sources, the new connections within the limit, and those
over it, whose sources are added to the ban set of their family. -/
def Guard.rules (guard : Guard) : List (Rule Packet) :=
  (guard.ban.map BanSet.rules).getD [] ++
    [⟨[.test (newTcp guard.port), .limit guard.name guard.limit], some .accept⟩,
      ⟨.test (newTcp guard.port) ::
        (guard.ban.map fun ban => Clause.add ban.of ban.timeout).toList, some .drop⟩]

def flagRules : List (Rule Packet) :=
  [on (tcpFlags (fin ||| syn ||| rst ||| psh ||| ack ||| urg) 0#8) .drop,
    on (tcpFlags (fin ||| syn) (fin ||| syn)) .drop,
    on (tcpFlags (syn ||| rst) (syn ||| rst)) .drop,
    on (tcpFlags (fin ||| rst) (fin ||| rst)) .drop,
    on (tcpFlags (psh ||| fin) (psh ||| fin)) .drop]

def logLimit : Limit := ⟨second, 5, 10⟩

/-- `limit rate ... log` and `drop` -/
def lastRules : List (Rule Packet) := [⟨[.limit "input" logLimit], none⟩, ⟨[], some .drop⟩]

/-- The log of a packet for a service that must not be reached from outside. -/
def blocked (name : String) (port : BitVec 16) (outside : Packet → Bool) : Rule Packet :=
  ⟨[.test (dportIs port), .test outside, .limit name logLimit], some .drop⟩

/-- `ip saddr != 127.0.0.0/8` -/
def notLoopback (packet : Packet) : Bool :=
  isV4 packet && !sourceIn [⟨0x7F000000#32, 8⟩] packet

/-- `ip6 saddr != ::1` -/
def notLoopback6 (packet : Packet) : Bool := isV6 packet && !sourceIn6 [(1#128, 128)] packet

def sshGuard (port : BitVec 16) : Guard :=
  ⟨"ssh", port, ⟨minute, 4, 8⟩, some ⟨"ssh_abuse", 3600 * second⟩⟩

/-- The templates with the ports that they have detected. -/
inductive Template where
  | remoteAdmin (ssh cockpit : BitVec 16)
  | publicWebserver (ssh varnish caddyHttps caddyHttp mariadb caddyAdmin : BitVec 16)
  | aiLlm (ssh ollama openwebui hermes odysseus : BitVec 16)

def Template.guards : Template → List Guard
  | .remoteAdmin ssh cockpit =>
    [sshGuard ssh,
      ⟨"cockpit", cockpit, ⟨minute, 10, 20⟩, some ⟨"cockpit_abuse", 600 * second⟩⟩]
  | .publicWebserver ssh varnish caddyHttps _ _ _ =>
    [sshGuard ssh, ⟨"http", varnish, ⟨second, 100, 200⟩, none⟩,
      ⟨"https", caddyHttps, ⟨second, 100, 200⟩, none⟩]
  | .aiLlm ssh ollama openwebui hermes odysseus =>
    [sshGuard ssh, ⟨"ollama", ollama, ⟨second, 50, 100⟩, none⟩,
      ⟨"openwebui", openwebui, ⟨second, 50, 100⟩, none⟩,
      ⟨"hermes", hermes, ⟨second, 50, 100⟩, none⟩,
      ⟨"odysseus", odysseus, ⟨second, 50, 100⟩, none⟩]

/-- The port of SSH, which every template guards. -/
def Template.ssh : Template → BitVec 16
  | .remoteAdmin ssh _ => ssh
  | .publicWebserver ssh _ _ _ _ _ => ssh
  | .aiLlm ssh _ _ _ _ => ssh

/-- The rules after the services. -/
def Template.tail : Template → List (Rule Packet)
  | .remoteAdmin _ _ =>
    flagRules ++
      [on (tcpFlags (urg ||| psh ||| ack ||| fin ||| rst ||| syn)
        (urg ||| psh ||| ack ||| fin ||| rst ||| syn)) .drop] ++ lastRules
  | .publicWebserver _ _ _ caddyHttp mariadb caddyAdmin =>
    flagRules ++
      [blocked "caddy-http-backend-blocked" caddyHttp notLoopback,
        blocked "caddy-http-backend6-blocked" caddyHttp notLoopback6,
        blocked "mariadb-blocked" mariadb notLoopback,
        blocked "mariadb6-blocked" mariadb notLoopback6,
        blocked "caddy-admin-blocked" caddyAdmin notLoopback] ++ lastRules
  | .aiLlm _ _ _ _ _ => flagRules ++ lastRules

/-- `chain input`, whose policy is to drop. -/
def Template.input (template : Template) : List (Rule Packet) :=
  opening ++ template.guards.flatMap Guard.rules ++ template.tail

def step (template : Template) (state : State Address) (packet : Packet) :
    State Address × Verdict :=
  let (after, verdict) := readRules Packet.source Packet.time state packet template.input
  (after, verdict.getD .drop)

/-- The state after the ruleset is loaded: every limit has its burst, and no set an element that
a rule adds. -/
def loaded (template : Template) : State Address where
  levels name :=
    match template.guards.find? (·.name = name) with
    | some guard => ⟨guard.limit.capacity, 0⟩
    | none => ⟨logLimit.capacity, 0⟩
  sets _ _ := none

end SysDeck.Web.FirewallLimits
