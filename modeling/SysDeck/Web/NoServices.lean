import SysDeck.Library.Execution
import SysDeck.Web.FirewallLimits

/-! The input rules of the template without public services. -/

namespace SysDeck.Web.NoServices

open PacketFilter (CtState)
open StatefulFilter (Clause Limit Level Rule State Verdict readRules)
open FirewallLimits (Address second minute fin syn rst psh urg)

inductive Transport where
  | tcp (dport : BitVec 16) (flags : BitVec 8)
  | udp (sport dport : BitVec 16)
  | icmp (type : ℕ)
  | icmpv6 (type : ℕ)
  | other
  deriving DecidableEq

/-- A packet at the input hook, with the time in nanoseconds. -/
structure Packet where
  time : ℕ
  source : Address
  iifname : String
  state : CtState
  fragOff : BitVec 16
  transport : Transport
  deriving DecidableEq

/-- The variables that an operator edits, and the addresses that `detect_ips` finds on the external
interface. -/
structure Config where
  EXT_IF : String
  INT_IF : Option String
  EXTRA_IFS : List String
  SSH_PORT : BitVec 16
  MY_IPV4 : Option (BitVec 32)
  MY_IPV6 : Option (BitVec 128)
  outside : EXT_IF ≠ "lo"

def LO_IF : String := "lo"

def BLOCKED_NETS : List Ipv4.Cidr :=
  [⟨0x00000000#32, 8⟩, ⟨0x0A000000#32, 8⟩, ⟨0x7F000000#32, 8⟩, ⟨0xA9FE0000#32, 16⟩, ⟨0xAC100000#32, 12⟩,
    ⟨0xC0000000#32, 24⟩, ⟨0xC0000200#32, 24⟩, ⟨0xC0586300#32, 24⟩, ⟨0xC0A80000#32, 16⟩,
    ⟨0xC6120000#32, 15⟩, ⟨0xC6336400#32, 24⟩, ⟨0xCB007100#32, 24⟩, ⟨0xE0000000#32, 4⟩,
    ⟨0xF0000000#32, 4⟩, ⟨0xFFFFFFFF#32, 32⟩]

/-- `TCP_SERVICES` -/
def Config.tcpAllowed (config : Config) : List (BitVec 16) := [config.SSH_PORT]

/-- `UDP_SERVICES` -/
def udpAllowed : List (BitVec 16) := [53#16]

/-- `ICMP_ALLOWED`: echo-request, echo-reply, destination-unreachable, time-exceeded and
parameter-problem. -/
def ICMP_ALLOWED : List ℕ := [8, 0, 3, 11, 12]

/-- `ICMPV6_ALLOWED`: the four of neighbour discovery, and packet-too-big. -/
def ICMPV6_ALLOWED : List ℕ := [133, 134, 135, 136, 2]

def sshLimit : Limit := ⟨minute, 4, 5⟩

def connLimit : Limit := ⟨second, 50, 100⟩

def icmpLimit : Limit := ⟨second, 10, 20⟩

def dnsLimit : Limit := ⟨second, 20, 40⟩

def logLimit : Limit := ⟨second, 5, 10⟩

def SSH_BAN_TIME : ℕ := 300 * second

/-! ### Tests of a packet -/

def isV4 (packet : Packet) : Bool :=
  match packet.source with
  | .v4 _ => true
  | .v6 _ => false

def sourceIs (address : Address) (packet : Packet) : Bool := packet.source = address

def sourceIn (nets : List Ipv4.Cidr) (packet : Packet) : Bool :=
  match packet.source with
  | .v4 address => nets.any (·.contains address)
  | .v6 _ => false

def tcpDport (ports : List (BitVec 16)) (packet : Packet) : Bool :=
  match packet.transport with
  | .tcp dport _ => ports.contains dport
  | _ => false

def udpDport (ports : List (BitVec 16)) (packet : Packet) : Bool :=
  match packet.transport with
  | .udp _ dport => ports.contains dport
  | _ => false

def udpSport (ports : List (BitVec 16)) (packet : Packet) : Bool :=
  match packet.transport with
  | .udp sport _ => ports.contains sport
  | _ => false

def isNew (packet : Packet) : Bool := packet.state = .new

/-- `ip protocol icmp` -/
def isIcmp (packet : Packet) : Bool :=
  match packet.transport with
  | .icmp _ => isV4 packet
  | _ => false

/-- `ip6 nexthdr icmpv6` -/
def isIcmpv6 (packet : Packet) : Bool :=
  match packet.transport with
  | .icmpv6 _ => !isV4 packet
  | _ => false

def icmpType (types : List ℕ) (packet : Packet) : Bool :=
  match packet.transport with
  | .icmp type => types.contains type
  | .icmpv6 type => types.contains type
  | _ => false

/-- `tcp flags & mask == value` -/
def tcpFlags (mask value : BitVec 8) (packet : Packet) : Bool :=
  match packet.transport with
  | .tcp _ flags => flags &&& mask = value
  | _ => false

/-! ### The rules -/

def on (holds : Packet → Bool) (verdict : Verdict) : Rule Packet := ⟨[.test holds], some verdict⟩

/-- `add @set { ip saddr } drop`, for the packets that have such an address. -/
def ban (holds : List (Clause Packet)) (set : String) (timeout : ℕ) : Rule Packet :=
  ⟨holds ++ [.test isV4, .add (fun _ => set) timeout], some .drop⟩

/-- `jump port_scan_detect` -/
def scan (mask value : BitVec 8) : Rule Packet :=
  ban [.test (tcpFlags mask value)] "port_scanners" (3600 * second)

/-- `chain prefilter` down to the flags. -/
def prefilterHead (config : Config) : List (Rule Packet) :=
  [on (fun packet => packet.state = .invalid) .drop,
    on (fun packet => packet.state = .established || packet.state = .related) .accept,
    on (fun packet => packet.iifname = config.EXT_IF &&
      config.MY_IPV4.any fun address => sourceIs (.v4 address) packet) .drop,
    on (fun packet => packet.iifname = config.EXT_IF &&
      config.MY_IPV6.any fun address => sourceIs (.v6 address) packet) .drop,
    on (fun packet => packet.iifname = config.EXT_IF && sourceIn BLOCKED_NETS packet) .drop,
    on (fun packet => isV4 packet && packet.fragOff != 0#16) .drop,
    scan (fin ||| syn ||| rst ||| psh ||| FirewallLimits.ack ||| urg)
      (fin ||| syn ||| rst ||| psh ||| FirewallLimits.ack ||| urg),
    scan (fin ||| syn ||| rst ||| psh ||| FirewallLimits.ack ||| urg) 0#8,
    scan (syn ||| fin) (syn ||| fin),
    scan (syn ||| rst) (syn ||| rst),
    scan (fin ||| rst) (fin ||| rst),
    scan (psh ||| fin ||| FirewallLimits.ack) (psh ||| fin)]

/-- `chain icmp_handling` -/
def icmpHandling : List (Rule Packet) :=
  [⟨[.test isIcmp, .test (icmpType ICMP_ALLOWED), .limit "icmp" icmpLimit], some .accept⟩,
    on (fun packet => isIcmp packet && icmpType ICMP_ALLOWED packet) .drop,
    on isIcmp .drop,
    on (fun packet => isIcmpv6 packet && icmpType ICMPV6_ALLOWED packet) .accept,
    ⟨[.test isIcmpv6, .test (icmpType ICMP_ALLOWED), .limit "icmpv6" icmpLimit], some .accept⟩,
    on isIcmpv6 .drop]

/-- `generate_ssh_rules` -/
def sshRules (config : Config) : List (Rule Packet) :=
  [⟨[.test (tcpDport [config.SSH_PORT]), .test isV4, .member "ssh_abuse"], some .drop⟩,
    ⟨[.test (tcpDport [config.SSH_PORT]), .test isNew, .limit "ssh" sshLimit], some .accept⟩,
    ban [.test (tcpDport [config.SSH_PORT]), .test isNew] "ssh_abuse" SSH_BAN_TIME]

/-- `generate_dns_ratelimit` -/
def dnsRules : List (Rule Packet) :=
  [⟨[.test (udpDport [53#16]), .test isNew, .limit "dns" dnsLimit], some .accept⟩,
    on (fun packet => udpDport [53#16] packet && isNew packet) .drop]

/-- `chain service_handling` -/
def serviceHandling (config : Config) : List (Rule Packet) :=
  sshRules config ++
    [on (fun packet => tcpDport config.tcpAllowed packet && isNew packet) .accept,
      on (fun packet => udpDport udpAllowed packet && isNew packet) .accept] ++
    dnsRules ++ [⟨[.limit "log" logLimit], none⟩, ⟨[], some .drop⟩]

/-- `generate_connlimit_rules`: what is over the limit is dropped, where it has a source to add. -/
def connlimit (state : State Address) (packet : Packet) : State Address × Option Verdict :=
  if isNew packet then
    let exceeded := !connLimit.hasToken (state.levels "connlimit") packet.time
    let taken := { state with
      levels := Function.update state.levels "connlimit"
        (connLimit.take (state.levels "connlimit") packet.time) }
    if exceeded && isV4 packet then
      (taken.add "connlimit_abuse" packet.source packet.time (600 * second), some .drop)
    else (taken, none)
  else (state, none)

def read (state : State Address) (packet : Packet) (rules : List (Rule Packet)) :
    State Address × Option Verdict := readRules Packet.source Packet.time state packet rules

/-- What is after an undecided packet. -/
def andThen (first : State Address × Option Verdict)
    (next : State Address → State Address × Option Verdict) : State Address × Option Verdict :=
  match first with
  | (state, some verdict) => (state, some verdict)
  | (state, none) => next state

/-- `chain prefilter` -/
def prefilter (config : Config) (state : State Address) (packet : Packet) :
    State Address × Option Verdict :=
  andThen (read state packet (prefilterHead config)) fun state =>
    andThen (read state packet icmpHandling) fun state =>
      andThen (connlimit state packet) fun state => read state packet (serviceHandling config)

/-- `chain input_${INT_IF}` before its jump; no network is trusted. -/
def internalHead : List (Rule Packet) :=
  [on (fun packet => packet.state = .established || packet.state = .related) .accept,
    on (fun packet => packet.state = .invalid) .drop,
    on (fun packet => udpSport [67#16, 68#16] packet && udpDport [67#16, 68#16] packet) .accept]

/-- The rules of an interface before its jump to `prefilter`; the verdict map has no others. -/
def headOf (config : Config) (iifname : String) : Option (List (Rule Packet)) :=
  if iifname = config.EXT_IF then some []
  else if some iifname = config.INT_IF then some internalHead
  else if config.EXTRA_IFS.contains iifname then some []
  else none

/-- `chain input`, whose policy is to drop. -/
def input (config : Config) (state : State Address) (packet : Packet) : State Address × Verdict :=
  if packet.iifname = LO_IF then (state, .accept)
  else
    match headOf config packet.iifname with
    | none => (state, .drop)
    | some head =>
      let (after, verdict) :=
        andThen (read state packet head) fun state => prefilter config state packet
      (after, verdict.getD .drop)

/-! ### A sequence of packets -/

/-- The limits that the script declares, by the names of their rules. -/
def limitOf : String → Limit
  | "ssh" => sshLimit
  | "dns" => dnsLimit
  | "connlimit" => connLimit
  | "log" => logLimit
  | _ => icmpLimit

/-- The state after the ruleset is loaded. -/
def loaded : State Address where
  levels name := ⟨(limitOf name).capacity, 0⟩
  sets _ _ := none

def step (config : Config) (state : State Address) (packet : Packet) : State Address :=
  (input config state packet).1

/-- The packets with their verdicts. -/
def verdicts (config : Config) : State Address → List Packet → List (Packet × Verdict)
  | _, [] => []
  | state, packet :: rest =>
    (packet, (input config state packet).2) :: verdicts config (step config state packet) rest

/-- The packets of a declared limit. -/
inductive Class where
  | ssh | dns | icmp | icmpv6

def Class.name : Class → String
  | .ssh => "ssh"
  | .dns => "dns"
  | .icmp => "icmp"
  | .icmpv6 => "icmpv6"

def Class.has (config : Config) (packet : Packet) : Class → Bool
  | .ssh => tcpDport [config.SSH_PORT] packet && isNew packet
  | .dns => udpDport [53#16] packet && isNew packet
  | .icmp => isIcmp packet && icmpType ICMP_ALLOWED packet && isNew packet
  | .icmpv6 => isIcmpv6 packet && icmpType ICMP_ALLOWED packet && isNew packet

/-- The times of the packets of a class that were accepted, loopback apart. -/
def acceptedTimes (config : Config) (kind : Class) (packets : List Packet) : List ℕ :=
  ((verdicts config loaded packets).filter fun (packet, verdict) =>
    verdict = .accept && packet.iifname ≠ LO_IF && kind.has config packet).map (·.1.time)

/-- ICMP of an allowed type, or TCP to the SSH port. -/
def admissible (config : Config) (packet : Packet) : Bool :=
  (isIcmp packet && icmpType ICMP_ALLOWED packet) ||
    (isIcmpv6 packet && (icmpType ICMPV6_ALLOWED packet || icmpType ICMP_ALLOWED packet)) ||
    tcpDport [config.SSH_PORT] packet

/-- What the ruleset is to do with a sequence of packets. -/
structure Locked (config : Config) (packets : List Packet) : Prop where
  opens : ∀ met ∈ verdicts config loaded packets, met.1.iifname = config.EXT_IF → isNew met.1 →
    met.2 = .accept → admissible config met.1
  limited : ∀ kind : Class, (limitOf kind.name).keepsTo ⟨(limitOf kind.name).capacity, 0⟩
    (acceptedTimes config kind packets)

/-- The packet comes to the connection limit: no rule before it decides. -/
def arrives (config : Config) (packet : Packet) : Bool :=
  packet.iifname ≠ LO_IF && !isIcmp packet && !isIcmpv6 packet &&
    (headOf config packet.iifname).any fun head =>
      (read loaded packet head).2.isNone && (read loaded packet (prefilterHead config)).2.isNone

/-- No new DNS packet gets past the connection limit, and no new IPv6 packet for SSH gets to the
limit when it has no token. -/
def Allowed (config : Config) (state : State Address) (packet : Packet) : Prop :=
  arrives config packet →
    (Class.dns.has config packet → isV4 packet ∧
      connLimit.hasToken (state.levels "connlimit") packet.time = false) ∧
    (Class.ssh.has config packet → isV4 packet = false →
      sshLimit.hasToken (state.levels "ssh") packet.time)

end SysDeck.Web.NoServices
