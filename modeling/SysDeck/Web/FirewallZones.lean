import SysDeck.Library.Ipv4
import SysDeck.Library.PacketFilter

/-! The zones of the sysdeck-fw template: what its forward chain lets through between them, after the
translation of the forwarded ports. -/

namespace SysDeck.Web.FirewallZones

open Ipv4 (Cidr readAddress readPort)
open PacketFilter (CtState Rule hook)

inductive Verdict where
  | accept
  | drop
  deriving DecidableEq

inductive Protocol where
  | tcp
  | udp
  deriving DecidableEq

structure Packet where
  iifname : String
  source : BitVec 32
  daddr : BitVec 32
  protocol : Protocol
  dport : BitVec 16
  deriving DecidableEq

/-- A packet at the forward hook, and whether the flood limit of RED is passed when it comes. -/
structure Forwarded where
  packet : Packet
  oifname : String
  state : CtState
  flood : Bool

/-- An element `extport:intport:orangeip` that reads as two ports and an address. -/
structure Forward where
  extport : List Char
  intport : List Char
  orangeip : List Char
  external : BitVec 16
  internal : BitVec 16
  address : BitVec 32
  reads_extport : readPort (String.ofList extport) = some external
  reads_intport : readPort (String.ofList intport) = some internal
  reads_orangeip : readAddress orangeip = some address

def Forward.text (forward : Forward) : List Char :=
  forward.extport ++ ':' :: (forward.intport ++ ':' :: forward.orangeip)

/-- The variables of the template that the chains depend on; a zone without an interface has none. -/
structure Config where
  RED_IF : String
  GREEN_IF : Option String
  ORANGE_IF : Option String
  BLUE_IF : Option String
  GREEN_CIDR : Cidr
  ORANGE_CIDR : Cidr
  BLUE_CIDR : Cidr
  AIRWALL : String
  forwards : List Forward
  distinct : (RED_IF :: (GREEN_IF.toList ++ ORANGE_IF.toList ++ BLUE_IF.toList)).Nodup

def Config.DMZ_FORWARDS (config : Config) : List Char :=
  List.intercalate [','] (config.forwards.map Forward.text)

def bogons_v4 : List Cidr :=
  [⟨0x00000000#32, 8⟩, ⟨0x0A000000#32, 8⟩, ⟨0x64400000#32, 10⟩, ⟨0x7F000000#32, 8⟩,
    ⟨0xA9FE0000#32, 16⟩, ⟨0xAC100000#32, 12⟩, ⟨0xC0000000#32, 24⟩, ⟨0xC0000200#32, 24⟩,
    ⟨0xC0A80000#32, 16⟩, ⟨0xC6120000#32, 15⟩, ⟨0xC6336400#32, 24⟩, ⟨0xCB007100#32, 24⟩,
    ⟨0xE0000000#32, 4⟩, ⟨0xF0000000#32, 4⟩, ⟨0xFFFFFFFF#32, 32⟩]

def bogon (address : BitVec 32) : Bool := bogons_v4.any (·.contains address)

/-! ### The forwarded ports -/

/-- What `for fwd in $DMZ_FORWARDS` goes over, with the comma as the field separator. -/
def words (text : List Char) : List (List Char) :=
  let fields := text.splitOn ','
  if fields.getLast? = some [] then fields.dropLast else fields

/-- `${fwd%%:*}` -/
def beforeFirst (text : List Char) : List Char := text.takeWhile (· ≠ ':')

/-- `${fwd#*:}` -/
def afterFirst (text : List Char) : List Char :=
  match text.dropWhile (· ≠ ':') with
  | [] => text
  | _ :: rest => rest

/-- `${rest##*:}` -/
def afterLast (text : List Char) : List Char := text.rtakeWhile (· ≠ ':')

/-- The fields of an element, as both loops take them apart. -/
structure Fields where
  extport : List Char
  intport : List Char
  orangeip : List Char

def Fields.of (fwd : List Char) : Fields :=
  let rest := afterFirst fwd
  ⟨beforeFirst fwd, beforeFirst rest, afterLast rest⟩

/-- None of the fields is empty. -/
def Fields.complete (fields : Fields) : Bool :=
  !fields.extport.isEmpty && !fields.intport.isEmpty && !fields.orangeip.isEmpty

/-- `tcp dport $extport` -/
def tcpDport (port : BitVec 16) (packet : Packet) : Bool := packet.protocol = .tcp && packet.dport = port

/-- A rule `tcp dport $extport ip daddr $orangeip accept` of the forward chain, as it is read. -/
def acceptOf (red orange : String) (fields : Fields) : Option (Forwarded → Bool) := do
  let port ← readPort (String.ofList fields.extport)
  let address ← readAddress fields.orangeip
  some fun forwarded => forwarded.packet.iifname = red && forwarded.oifname = orange &&
    tcpDport port forwarded.packet && forwarded.packet.daddr = address

/-- A rule `iifname "$RED_IF" tcp dport $extport dnat to $orangeip:$intport`, as it is read. -/
structure Dnat where
  iifname : String
  dport : BitVec 16
  address : BitVec 32
  port : BitVec 16

def Dnat.of (red : String) (fields : Fields) : Option Dnat := do
  let dport ← readPort (String.ofList fields.extport)
  let address ← readAddress fields.orangeip
  let port ← readPort (String.ofList fields.intport)
  some ⟨red, dport, address, port⟩

def Dnat.matches (dnat : Dnat) (packet : Packet) : Bool :=
  packet.iifname = dnat.iifname && tcpDport dnat.dport packet

/-! ### The rules -/

/-- A line for two zones, where both have an interface: the source is in the network of the first. -/
def zoneLine (ingress egress : Option String) (network : Cidr) (holds : Packet → Bool) : List (Forwarded → Bool) :=
  match ingress, egress with
  | some iif, some oif =>
    [fun forwarded => forwarded.packet.iifname = iif && network.contains forwarded.packet.source &&
      forwarded.oifname = oif && holds forwarded.packet]
  | _, _ => []

def always (_ : Packet) : Bool := true

/-- `udp dport 53` -/
def dns (packet : Packet) : Bool := packet.protocol = .udp && packet.dport = 53#16

/-- The zone matrix: what its rules accept. -/
def Config.zoneRules (config : Config) : List (Forwarded → Bool) :=
  zoneLine config.GREEN_IF (some config.RED_IF) config.GREEN_CIDR always ++
    zoneLine config.GREEN_IF config.ORANGE_IF config.GREEN_CIDR always ++
    zoneLine config.GREEN_IF config.BLUE_IF config.GREEN_CIDR always ++
    zoneLine config.BLUE_IF (some config.RED_IF) config.BLUE_CIDR always ++
    zoneLine config.BLUE_IF config.ORANGE_IF config.BLUE_CIDR always ++
    (if config.AIRWALL = "false" then zoneLine config.BLUE_IF config.GREEN_IF config.BLUE_CIDR dns else []) ++
    zoneLine config.ORANGE_IF (some config.RED_IF) config.ORANGE_CIDR always

/-- The rules before the zones. -/
def Config.opening (config : Config) : List (Rule Forwarded Verdict) :=
  [Rule.on (fun forwarded => forwarded.packet.iifname = config.RED_IF && bogon forwarded.packet.source) .drop,
    Rule.on (fun forwarded => forwarded.state = .established || forwarded.state = .related) .accept,
    Rule.on (fun forwarded => forwarded.state = .invalid) .drop,
    Rule.on (fun forwarded => forwarded.packet.iifname = config.RED_IF && forwarded.state = .new &&
      forwarded.flood) .drop]

/-- The loop over the forwarded ports in the forward chain; there are no rules without ORANGE. -/
def Config.forwardAccepts (config : Config) : Option (List (Forwarded → Bool)) :=
  match config.ORANGE_IF with
  | none => some []
  | some orange =>
    (((words config.DMZ_FORWARDS).map Fields.of).filter Fields.complete).mapM (acceptOf config.RED_IF orange)

/-- The loop over the forwarded ports in `nat_prerouting`. -/
def Config.dnats (config : Config) : Option (List Dnat) :=
  (((words config.DMZ_FORWARDS).map Fields.of).filter Fields.complete).mapM (Dnat.of config.RED_IF)

structure Ruleset where
  forward : List (Rule Forwarded Verdict)
  nat_prerouting : List Dnat

/-- `build_ruleset`, nothing where a rule cannot be read. -/
def Config.buildRuleset (config : Config) : Option Ruleset := do
  let accepts ← config.forwardAccepts
  let dnats ← config.dnats
  some ⟨config.opening ++ (config.zoneRules ++ accepts).map (Rule.on · .accept), dnats⟩

/-- The destination that the first rule for the packet gives it. -/
def Ruleset.translate (ruleset : Ruleset) (packet : Packet) : Packet :=
  match ruleset.nat_prerouting.find? (·.matches packet) with
  | some dnat => { packet with daddr := dnat.address, dport := dnat.port }
  | none => packet

/-- What becomes of a packet that opens a connection while the flood limit is kept: how it is forwarded to
where the routes send it, if it is. -/
def Ruleset.forwards (ruleset : Ruleset) (route : BitVec 32 → Option String) (packet : Packet) :
    Option Packet :=
  let translated := ruleset.translate packet
  match route translated.daddr with
  | none => none
  | some oifname =>
    if hook ruleset.forward .drop ⟨translated, oifname, .new, false⟩ = .accept then some translated else none

/-! ### The matrix -/

inductive Zone where
  | red | green | orange | blue
  deriving DecidableEq

def Config.interface (config : Config) : Zone → Option String
  | .red => some config.RED_IF
  | .green => config.GREEN_IF
  | .orange => config.ORANGE_IF
  | .blue => config.BLUE_IF

/-- The network of a zone, where it has one. -/
def Config.network (config : Config) : Zone → Option Cidr
  | .red => none
  | .green => some config.GREEN_CIDR
  | .orange => some config.ORANGE_CIDR
  | .blue => some config.BLUE_CIDR

def Config.allows (config : Config) (packet : Packet) : Zone → Zone → Bool
  | .green, .red | .green, .orange | .green, .blue => true
  | .blue, .red | .blue, .orange => true
  | .blue, .green => config.AIRWALL = "false" && packet.protocol = .udp && packet.dport = 53#16
  | .orange, .red => true
  | _, _ => false

/-- The matrix lets the packet through to the interface. -/
def Config.Permits (config : Config) (packet : Packet) (oifname : String) : Prop :=
  ∃ ingress egress network, config.interface ingress = some packet.iifname ∧
    config.interface egress = some oifname ∧ config.network ingress = some network ∧
    network.contains packet.source ∧ config.allows packet ingress egress

/-- The packet comes to a forwarded port from outside. -/
def Config.Inbound (config : Config) (packet : Packet) : Prop :=
  packet.iifname = config.RED_IF ∧ bogon packet.source = false ∧
    ∃ forward ∈ config.forwards, forward.external = packet.dport

def Forward.deliver (forward : Forward) (packet : Packet) : Packet :=
  { packet with daddr := forward.address, dport := forward.internal }

/-- What is to become of a packet. -/
structure Config.Matrix (config : Config) (route : BitVec 32 → Option String) (packet : Packet)
    (outcome : Option Packet) : Prop where
  delivered : config.Inbound packet →
    ∃ forward ∈ config.forwards, forward.external = packet.dport ∧ outcome = some (forward.deliver packet)
  forwarded : ¬config.Inbound packet → ∀ oifname, route packet.daddr = some oifname →
    config.Permits packet oifname → outcome = some packet
  dropped : ¬config.Inbound packet → (∀ oifname, route packet.daddr = some oifname →
    ¬config.Permits packet oifname) → outcome = none

/-- The ruleset of the configuration does what the matrix says. -/
def Config.Enforces (config : Config) (route : BitVec 32 → Option String) (packet : Packet) : Prop :=
  ∃ ruleset, config.buildRuleset = some ruleset ∧
    config.Matrix route packet (ruleset.forwards route packet)

/-! ### The two loops -/

theorem beforeFirst_join {left right : List Char} (free : ':' ∉ left) :
    beforeFirst (left ++ ':' :: right) = left := by
  have all : ∀ c ∈ left, decide (c ≠ ':') = true := fun c member =>
    decide_eq_true fun same => free (same ▸ member)
  rw [beforeFirst, List.takeWhile_append_of_pos all, List.takeWhile_cons_of_neg (by simp), List.append_nil]

theorem afterFirst_join {left right : List Char} (free : ':' ∉ left) :
    afterFirst (left ++ ':' :: right) = right := by
  have all : ∀ c ∈ left, decide (c ≠ ':') = true := fun c member =>
    decide_eq_true fun same => free (same ▸ member)
  rw [afterFirst, List.dropWhile_append_of_pos all, List.dropWhile_cons_of_neg (by simp)]

theorem afterLast_join {left right : List Char} (free : ':' ∉ right) :
    afterLast (left ++ ':' :: right) = right := by
  have all : ∀ c ∈ right.reverse, decide (c ≠ ':') = true := fun c member =>
    decide_eq_true fun same => free (same ▸ List.mem_reverse.mp member)
  rw [afterLast, List.rtakeWhile, List.reverse_append, List.reverse_cons, List.append_assoc,
    List.takeWhile_append_of_pos all, List.singleton_append, List.takeWhile_cons_of_neg (by simp),
    List.append_nil, List.reverse_reverse]

/-- The fields of a forward, with what they read as. -/
def Forward.fields (forward : Forward) : Fields := ⟨forward.extport, forward.intport, forward.orangeip⟩

theorem not_mem_of_digits {text : List Char} {mark : Char} (all : ∀ c ∈ text, c = '.' ∨ Ipv4.digit c)
    (dot : mark ≠ '.') (other : Ipv4.digit mark = false) : mark ∉ text := by
  intro member
  rcases all mark member with same | digit
  · exact dot same
  · rw [other] at digit
    cases digit

section Free

variable (forward : Forward) (mark : Char) (dot : mark ≠ '.') (other : Ipv4.digit mark = false)

include dot other

theorem Forward.free_extport : mark ∉ forward.extport :=
  not_mem_of_digits (fun c member => .inr ((Ipv4.digit_of_readPort forward.reads_extport).2 c member))
    dot other

theorem Forward.free_intport : mark ∉ forward.intport :=
  not_mem_of_digits (fun c member => .inr ((Ipv4.digit_of_readPort forward.reads_intport).2 c member))
    dot other

theorem Forward.free_orangeip : mark ∉ forward.orangeip :=
  not_mem_of_digits (Ipv4.digit_of_readAddress forward.reads_orangeip).2 dot other

end Free

theorem Forward.fields_of (forward : Forward) : Fields.of forward.text = forward.fields := by
  have ext := forward.free_extport ':' (by decide) (by decide)
  have int := forward.free_intport ':' (by decide) (by decide)
  have ip := forward.free_orangeip ':' (by decide) (by decide)
  unfold Fields.of Forward.text
  dsimp only
  rw [beforeFirst_join ext, afterFirst_join ext, beforeFirst_join int, afterLast_join ip]
  rfl

theorem Forward.complete (forward : Forward) : forward.fields.complete = true := by
  have ext := (Ipv4.digit_of_readPort forward.reads_extport).1
  have int := (Ipv4.digit_of_readPort forward.reads_intport).1
  have ip := (Ipv4.digit_of_readAddress forward.reads_orangeip).1
  simp [Forward.fields, Fields.complete, ext, int, ip]

theorem words_forwards (config : Config) :
    words config.DMZ_FORWARDS = config.forwards.map Forward.text := by
  unfold words Config.DMZ_FORWARDS
  by_cases empty : config.forwards = []
  · rw [empty]
    rfl
  · have free : ∀ element ∈ config.forwards.map Forward.text, ',' ∉ element := by
      intro element member
      obtain ⟨forward, -, rfl⟩ := List.mem_map.mp member
      have ext := forward.free_extport ',' (by decide) (by decide)
      have int := forward.free_intport ',' (by decide) (by decide)
      have ip := forward.free_orangeip ',' (by decide) (by decide)
      simp [Forward.text, ext, int, ip]
    rw [List.splitOn_intercalate ',' free (by simpa using empty)]
    refine if_neg fun last => ?_
    obtain ⟨forward, -, nothing⟩ := List.mem_map.mp (List.mem_of_getLast? last)
    simp [Forward.text] at nothing

/-- Both loops go over the fields of the forwards. -/
theorem loop_fields (config : Config) :
    ((words config.DMZ_FORWARDS).map Fields.of).filter Fields.complete =
      config.forwards.map Forward.fields := by
  rw [words_forwards, List.map_map, List.filter_eq_self.mpr]
  · exact List.map_congr_left fun forward _ => forward.fields_of
  · intro fields member
    obtain ⟨forward, -, rfl⟩ := List.mem_map.mp member
    rw [Function.comp_apply, forward.fields_of]
    exact forward.complete

def Forward.dnat (forward : Forward) (red : String) : Dnat :=
  ⟨red, forward.external, forward.address, forward.internal⟩

/-- What a forward's rule accepts. -/
def Forward.accept (forward : Forward) (red orange : String) (forwarded : Forwarded) : Bool :=
  forwarded.packet.iifname = red && forwarded.oifname = orange &&
    tcpDport forward.external forwarded.packet && forwarded.packet.daddr = forward.address

theorem Forward.dnat_of (forward : Forward) (red : String) :
    Dnat.of red forward.fields = some (forward.dnat red) := by
  simp [Dnat.of, Forward.fields, forward.reads_extport, forward.reads_orangeip, forward.reads_intport,
    Forward.dnat]

theorem Forward.accept_of (forward : Forward) (red orange : String) :
    acceptOf red orange forward.fields = some (forward.accept red orange) := by
  simp only [acceptOf, Forward.fields, forward.reads_extport, forward.reads_orangeip]
  rfl

theorem mapM_some {Item Value : Type} {read : Item → Option Value} {value : Item → Value}
    (reads : ∀ item, read item = some (value item)) (items : List Item) :
    items.mapM read = some (items.map value) := by
  rw [show read = fun item => some (value item) from funext reads]
  exact List.mapM_pure

/-- The rules of the forwarded ports in the forward chain. -/
def Config.accepts (config : Config) : List (Forwarded → Bool) :=
  match config.ORANGE_IF with
  | none => []
  | some orange => config.forwards.map (·.accept config.RED_IF orange)

theorem Config.buildRuleset_eq (config : Config) :
    config.buildRuleset = some
      ⟨config.opening ++ (config.zoneRules ++ config.accepts).map (Rule.on · .accept),
        config.forwards.map (·.dnat config.RED_IF)⟩ := by
  have accepts : config.forwardAccepts = some config.accepts := by
    unfold Config.forwardAccepts Config.accepts
    cases config.ORANGE_IF with
    | none => rfl
    | some orange =>
      dsimp only
      rw [loop_fields, List.mapM_map]
      exact mapM_some (fun forward => forward.accept_of config.RED_IF orange) _
  have dnats : config.dnats = some (config.forwards.map (·.dnat config.RED_IF)) := by
    unfold Config.dnats
    rw [loop_fields, List.mapM_map]
    exact mapM_some (fun forward => forward.dnat_of config.RED_IF) _
  rw [Config.buildRuleset, accepts, dnats]
  rfl

/-! ### The translation -/

/-- The forward that a packet from outside comes to. -/
def Config.forwardOf (config : Config) (packet : Packet) : Option Forward :=
  config.forwards.find? (·.external = packet.dport)

/-- The ruleset that the configuration generates. -/
def Config.ruleset (config : Config) : Ruleset :=
  ⟨config.opening ++ (config.zoneRules ++ config.accepts).map (Rule.on · .accept),
    config.forwards.map (·.dnat config.RED_IF)⟩

theorem translate_forward {config : Config} {packet : Packet} {forward : Forward}
    (outside : packet.iifname = config.RED_IF) (tcp : packet.protocol = .tcp)
    (found : config.forwardOf packet = some forward) :
    config.ruleset.translate packet = forward.deliver packet := by
  have first : config.ruleset.nat_prerouting.find? (·.matches packet) =
      some (forward.dnat config.RED_IF) := by
    change (config.forwards.map (·.dnat config.RED_IF)).find? (·.matches packet) = _
    rw [List.find?_map]
    have same : ((·.matches packet) ∘ fun forward : Forward => forward.dnat config.RED_IF) =
        fun forward : Forward => decide (forward.external = packet.dport) := by
      funext forward
      simp [Dnat.matches, Forward.dnat, outside, tcpDport, tcp, eq_comm]
    rw [same, ← Config.forwardOf, found]
    rfl
  rw [Ruleset.translate, first]
  rfl

theorem translate_none {config : Config} {packet : Packet}
    (untouched : packet.iifname = config.RED_IF → packet.protocol = .tcp →
      config.forwardOf packet = none) :
    config.ruleset.translate packet = packet := by
  have nothing : config.ruleset.nat_prerouting.find? (·.matches packet) = none := by
    rw [List.find?_eq_none]
    intro dnat member
    obtain ⟨forward, own, rfl⟩ := List.mem_map.mp member
    intro hit
    simp only [Dnat.matches, Forward.dnat, tcpDport, Bool.and_eq_true] at hit
    obtain ⟨outside, tcp, same⟩ := hit
    have missing := List.find?_eq_none.mp (untouched (of_decide_eq_true outside) (of_decide_eq_true tcp))
      forward own
    exact missing (decide_eq_true (of_decide_eq_true same).symm)
  rw [Ruleset.translate, nothing]

/-! ### The forward chain -/

/-- A packet that opens a connection, at the forward hook. -/
def opened (packet : Packet) (oifname : String) : Forwarded := ⟨packet, oifname, .new, false⟩

/-- Such a packet is accepted just where it is no bogon from outside, and a rule of the zones or of the
forwarded ports accepts it. -/
theorem accepted_iff (config : Config) (packet : Packet) (oifname : String) :
    hook config.ruleset.forward .drop (opened packet oifname) = .accept ↔
      ¬(packet.iifname = config.RED_IF ∧ bogon packet.source = true) ∧
        ∃ rule ∈ config.zoneRules ++ config.accepts, rule (opened packet oifname) = true := by
  have opening : PacketFilter.chain config.opening (opened packet oifname) =
      if packet.iifname = config.RED_IF ∧ bogon packet.source = true then some .drop else none := by
    by_cases outside : packet.iifname = config.RED_IF <;> cases bogus : bogon packet.source <;>
      simp [PacketFilter.chain, Config.opening, Rule.on, opened, outside, bogus]
  change ((PacketFilter.chain (config.opening ++ (config.zoneRules ++ config.accepts).map (Rule.on · .accept))
    (opened packet oifname)).getD .drop = .accept) ↔ _
  rw [PacketFilter.chain_append, PacketFilter.chain_same, opening, ← List.any_eq_true]
  by_cases bogus : packet.iifname = config.RED_IF ∧ bogon packet.source = true
  · simp [bogus]
  · rw [if_neg bogus, Option.none_or]
    cases (config.zoneRules ++ config.accepts).any fun test => test (opened packet oifname) <;> simp [bogus]

theorem zoneLine_accepts {ingress egress : Option String} {network : Cidr} {holds : Packet → Bool}
    {packet : Packet} {oifname : String} :
    (∃ rule ∈ zoneLine ingress egress network holds, rule (opened packet oifname) = true) ↔
      ingress = some packet.iifname ∧ egress = some oifname ∧ network.contains packet.source = true ∧
        holds packet = true := by
  cases ingress with
  | none => simp [zoneLine]
  | some iif =>
    cases egress with
    | none => simp [zoneLine]
    | some oif =>
      simp only [zoneLine, List.mem_singleton, exists_eq_left, opened, Bool.and_eq_true,
        decide_eq_true_eq, Option.some.injEq]
      constructor
      · rintro ⟨⟨⟨rfl, inside⟩, rfl⟩, held⟩
        exact ⟨rfl, rfl, inside, held⟩
      · rintro ⟨rfl, rfl, inside, held⟩
        exact ⟨⟨⟨rfl, inside⟩, rfl⟩, held⟩

/-- The rules of the zones accept what the matrix lets through. -/
theorem zoneRules_accept (config : Config) (packet : Packet) (oifname : String) :
    (∃ rule ∈ config.zoneRules, rule (opened packet oifname) = true) ↔ config.Permits packet oifname := by
  have airwall : (∃ rule ∈ (if config.AIRWALL = "false" then
      zoneLine config.BLUE_IF config.GREEN_IF config.BLUE_CIDR dns else []),
        rule (opened packet oifname) = true) ↔
      config.AIRWALL = "false" ∧ config.BLUE_IF = some packet.iifname ∧ config.GREEN_IF = some oifname ∧
        config.BLUE_CIDR.contains packet.source = true ∧ dns packet = true := by
    split
    next off => rw [zoneLine_accepts, and_iff_right off]
    next on => simp [on]
  simp only [Config.zoneRules, List.mem_append, or_and_right, exists_or, zoneLine_accepts, airwall, always,
    and_true]
  constructor
  · rintro ((((((⟨ingress, egress, inside⟩ | ⟨ingress, egress, inside⟩) | ⟨ingress, egress, inside⟩) |
      ⟨ingress, egress, inside⟩) | ⟨ingress, egress, inside⟩) | ⟨off, ingress, egress, inside, dns⟩) |
      ⟨ingress, egress, inside⟩)
    · exact ⟨.green, .red, _, ingress, egress, rfl, inside, rfl⟩
    · exact ⟨.green, .orange, _, ingress, egress, rfl, inside, rfl⟩
    · exact ⟨.green, .blue, _, ingress, egress, rfl, inside, rfl⟩
    · exact ⟨.blue, .red, _, ingress, egress, rfl, inside, rfl⟩
    · exact ⟨.blue, .orange, _, ingress, egress, rfl, inside, rfl⟩
    · exact ⟨.blue, .green, _, ingress, egress, rfl, inside, by
        simpa [Config.allows, off, FirewallZones.dns, and_assoc] using dns⟩
    · exact ⟨.orange, .red, _, ingress, egress, rfl, inside, rfl⟩
  · rintro ⟨ingress, egress, network, entered, left, own, inside, allowed⟩
    cases ingress with
    | red => cases own
    | green =>
      obtain rfl := Option.some.inj own
      cases egress with
      | green => cases allowed
      | red => exact .inl (.inl (.inl (.inl (.inl (.inl ⟨entered, left, inside⟩)))))
      | orange => exact .inl (.inl (.inl (.inl (.inl (.inr ⟨entered, left, inside⟩)))))
      | blue => exact .inl (.inl (.inl (.inl (.inr ⟨entered, left, inside⟩))))
    | orange =>
      obtain rfl := Option.some.inj own
      cases egress with
      | red => exact .inr ⟨entered, left, inside⟩
      | _ => cases allowed
    | blue =>
      obtain rfl := Option.some.inj own
      cases egress with
      | blue => cases allowed
      | red => exact .inl (.inl (.inl (.inr ⟨entered, left, inside⟩)))
      | orange => exact .inl (.inl (.inr ⟨entered, left, inside⟩))
      | green =>
        simp only [Config.allows, Bool.and_eq_true, decide_eq_true_eq, and_assoc] at allowed
        refine .inl (.inr ⟨allowed.1, entered, left, inside, ?_⟩)
        simp [FirewallZones.dns, allowed]

/-- The rules of the forwarded ports go by the destination that the packet has by then. -/
theorem accepts_accept (config : Config) (packet : Packet) (oifname : String) :
    (∃ rule ∈ config.accepts, rule (opened packet oifname) = true) ↔
      packet.iifname = config.RED_IF ∧ packet.protocol = .tcp ∧ config.ORANGE_IF = some oifname ∧
        ∃ forward ∈ config.forwards, forward.external = packet.dport ∧ forward.address = packet.daddr := by
  unfold Config.accepts
  cases config.ORANGE_IF with
  | none => simp
  | some orange =>
    simp only [List.mem_map, exists_exists_and_eq_and, Forward.accept, opened, tcpDport, Bool.and_eq_true,
      decide_eq_true_eq, Option.some.injEq]
    constructor
    · rintro ⟨forward, member, ⟨⟨outside, left⟩, tcp, port⟩, address⟩
      exact ⟨outside, tcp, left.symm, forward, member, port.symm, address.symm⟩
    · rintro ⟨outside, tcp, left, forward, member, port, address⟩
      exact ⟨forward, member, ⟨⟨outside, left.symm⟩, tcp, port.symm⟩, address.symm⟩

/-- The matrix lets nothing through that comes from outside. -/
theorem outside_not_permitted {config : Config} {packet : Packet} (outside : packet.iifname = config.RED_IF)
    (oifname : String) : ¬config.Permits packet oifname := by
  rintro ⟨ingress, egress, network, entered, -, own, -⟩
  have distinct := (List.nodup_cons.mp config.distinct).1
  simp only [List.mem_append, Option.mem_toList, not_or] at distinct
  rw [outside] at entered
  cases ingress with
  | red => cases own
  | green => exact distinct.1.1 entered
  | orange => exact distinct.1.2 entered
  | blue => exact distinct.2 entered

/-! ### What becomes of a packet -/

theorem Config.enforces_matrix {config : Config} {route : BitVec 32 → Option String} {packet : Packet} :
    config.Enforces route packet ↔ config.Matrix route packet (config.ruleset.forwards route packet) := by
  rw [Config.Enforces, Config.buildRuleset_eq]
  constructor
  · rintro ⟨ruleset, built, holds⟩
    rwa [← Option.some.inj built] at holds
  · exact fun holds => ⟨_, rfl, holds⟩

/-- A packet is forwarded as it is translated, or not at all. -/
theorem forwards_iff {config : Config} {route : BitVec 32 → Option String} {packet translated : Packet}
    (translation : config.ruleset.translate packet = translated) {outcome : Packet} :
    config.ruleset.forwards route packet = some outcome ↔
      outcome = translated ∧ ∃ oifname, route translated.daddr = some oifname ∧
        hook config.ruleset.forward .drop (opened translated oifname) = .accept := by
  unfold Ruleset.forwards
  dsimp only
  rw [translation]
  cases sent : route translated.daddr with
  | none => simp
  | some oifname =>
    change (if hook config.ruleset.forward .drop (opened translated oifname) = .accept
      then some translated else none) = some outcome ↔ _
    split
    next accepted => simp [accepted, eq_comm]
    next dropped => simp [dropped]

theorem Config.inbound_iff {config : Config} {packet : Packet} :
    config.Inbound packet ↔ packet.iifname = config.RED_IF ∧ bogon packet.source = false ∧
      ∃ forward, config.forwardOf packet = some forward := by
  unfold Config.Inbound Config.forwardOf
  rw [← Option.isSome_iff_exists, List.find?_isSome]
  simp

/-- A forwarded connection goes through where its translated port is itself forwarded to that host. -/
def Config.Reaches (config : Config) (route : BitVec 32 → Option String) (packet : Packet)
    (forward : Forward) : Prop :=
  packet.protocol = .tcp ∧ ∃ orange, config.ORANGE_IF = some orange ∧ route forward.address = some orange ∧
    ∃ other ∈ config.forwards, other.external = forward.internal ∧ other.address = forward.address

theorem delivered_iff {config : Config} {route : BitVec 32 → Option String} {packet : Packet}
    {forward : Forward} (outside : packet.iifname = config.RED_IF) (real : bogon packet.source = false)
    (found : config.forwardOf packet = some forward) :
    (∃ other ∈ config.forwards, other.external = packet.dport ∧
      config.ruleset.forwards route packet = some (other.deliver packet)) ↔
      config.Reaches route packet forward := by
  have accepted (translated : Packet) (same : translated.iifname = config.RED_IF)
      (same' : translated.source = packet.source) (oifname : String) :
      hook config.ruleset.forward .drop (opened translated oifname) = .accept ↔
        translated.protocol = .tcp ∧ config.ORANGE_IF = some oifname ∧
          ∃ other ∈ config.forwards, other.external = translated.dport ∧
            other.address = translated.daddr := by
    rw [accepted_iff, same', real]
    simp only [List.mem_append, or_and_right, exists_or, zoneRules_accept, accepts_accept,
      outside_not_permitted same, same]
    simp
  cases protocol : packet.protocol with
  | tcp =>
    have translation := translate_forward outside protocol found
    have through : (∃ oifname, route forward.address = some oifname ∧
        hook config.ruleset.forward .drop (opened (forward.deliver packet) oifname) = .accept) ↔
        config.Reaches route packet forward := by
      constructor
      · rintro ⟨oifname, sent, passed⟩
        obtain ⟨-, orange, others⟩ := (accepted (forward.deliver packet) outside rfl oifname).mp passed
        exact ⟨protocol, oifname, orange, sent, others⟩
      · rintro ⟨-, orange, own, sent, others⟩
        exact ⟨orange, sent, (accepted (forward.deliver packet) outside rfl orange).mpr
          ⟨protocol, own, others⟩⟩
    rw [← through]
    constructor
    · rintro ⟨other, -, -, outcome⟩
      exact ((forwards_iff translation).mp outcome).2
    · intro passed
      have port : forward.external = packet.dport := by simpa using List.find?_some found
      exact ⟨forward, List.mem_of_find?_eq_some found, port, (forwards_iff translation).mpr ⟨rfl, passed⟩⟩
  | udp =>
    have translation : config.ruleset.translate packet = packet :=
      translate_none fun _ tcp => by rw [protocol] at tcp; cases tcp
    refine iff_of_false ?_ fun reaches => by rw [Config.Reaches, protocol] at reaches; cases reaches.1
    rintro ⟨other, -, -, outcome⟩
    obtain ⟨-, oifname, -, passed⟩ := (forwards_iff translation).mp outcome
    have tcp := ((accepted packet outside rfl oifname).mp passed).1
    rw [protocol] at tcp
    cases tcp

/-- What does not come to a forwarded port is forwarded where the matrix lets it through. -/
theorem forwards_permitted {config : Config} {packet : Packet} (apart : ¬config.Inbound packet)
    (route : BitVec 32 → Option String) (outcome : Packet) :
    config.ruleset.forwards route packet = some outcome ↔
      outcome = packet ∧ ∃ oifname, route packet.daddr = some oifname ∧ config.Permits packet oifname := by
  by_cases touched : packet.iifname = config.RED_IF ∧ packet.protocol = .tcp ∧
      ∃ forward, config.forwardOf packet = some forward
  · obtain ⟨outside, tcp, forward, found⟩ := touched
    have bogus : bogon packet.source = true := by
      rw [← Bool.not_eq_false]
      exact fun real => apart (Config.inbound_iff.mpr ⟨outside, real, forward, found⟩)
    refine iff_of_false ?_ fun holds => ?_
    · rw [forwards_iff (translate_forward outside tcp found)]
      rintro ⟨-, oifname, -, passed⟩
      exact ((accepted_iff _ _ _).mp passed).1 ⟨outside, bogus⟩
    · obtain ⟨-, oifname, -, permitted⟩ := holds
      exact outside_not_permitted outside oifname permitted
  · have untouched : packet.iifname = config.RED_IF → packet.protocol = .tcp →
        config.forwardOf packet = none := by
      intro outside tcp
      by_contra some_
      obtain ⟨forward, found⟩ := Option.ne_none_iff_exists'.mp some_
      exact touched ⟨outside, tcp, forward, found⟩
    rw [forwards_iff (translate_none untouched)]
    refine and_congr_right fun _ => exists_congr fun oifname => and_congr_right fun _ => ?_
    rw [accepted_iff]
    simp only [List.mem_append, or_and_right, exists_or, zoneRules_accept, accepts_accept]
    constructor
    · rintro ⟨-, permitted | ⟨outside, tcp, -, forward, member, port, -⟩⟩
      · exact permitted
      · have missing := List.find?_eq_none.mp (untouched outside tcp) forward member
        exact absurd (decide_eq_true port) missing
    · intro permitted
      exact ⟨fun bogus => outside_not_permitted bogus.1 oifname permitted, .inl permitted⟩

/-- The ruleset does what the matrix says just where a packet from outside that comes to a forwarded port
reaches its host: it is of TCP, the host is reached through ORANGE, and the port it is translated to is
forwarded to that host too. -/
theorem enforces_iff (config : Config) (route : BitVec 32 → Option String) (packet : Packet) :
    config.Enforces route packet ↔
      (packet.iifname = config.RED_IF → bogon packet.source = false →
        ∀ forward, config.forwardOf packet = some forward → config.Reaches route packet forward) := by
  rw [Config.enforces_matrix]
  by_cases inbound : config.Inbound packet
  · obtain ⟨outside, real, forward, found⟩ := Config.inbound_iff.mp inbound
    constructor
    · intro matrix _ _ other found'
      obtain rfl : forward = other := Option.some.inj (found.symm.trans found')
      exact (delivered_iff outside real found).mp (matrix.delivered inbound)
    · intro reaches
      exact ⟨fun _ => (delivered_iff outside real found).mpr (reaches outside real forward found),
        fun apart => absurd inbound apart, fun apart => absurd inbound apart⟩
  · refine iff_of_true ⟨fun met => absurd met inbound, fun _ oifname sent permitted => ?_,
      fun _ refused => ?_⟩ fun outside real forward found =>
        absurd (Config.inbound_iff.mpr ⟨outside, real, forward, found⟩) inbound
    · exact (forwards_permitted inbound route packet).mpr ⟨rfl, oifname, sent, permitted⟩
    · by_contra outcome
      obtain ⟨packet', outcome⟩ := Option.ne_none_iff_exists'.mp outcome
      obtain ⟨-, oifname, sent, permitted⟩ := (forwards_permitted inbound route packet').mp outcome
      exact refused oifname sent permitted

/-- `8080:80:10.0.1.10` -/
def webForward : Forward where
  extport := "8080".toList
  intport := "80".toList
  orangeip := "10.0.1.10".toList
  external := 8080#16
  internal := 80#16
  address := 0x0A00010A#32
  reads_extport := by decide
  reads_intport := by decide
  reads_orangeip := by decide

def webConfig : Config where
  RED_IF := "eth0"
  GREEN_IF := some "eth1"
  ORANGE_IF := some "eth2"
  BLUE_IF := none
  GREEN_CIDR := ⟨0x0A000000#32, 24⟩
  ORANGE_CIDR := ⟨0x0A000100#32, 24⟩
  BLUE_CIDR := ⟨0xC0A80100#32, 24⟩
  AIRWALL := "true"
  forwards := [webForward]
  distinct := by decide

/-- A connection from the Internet to the forwarded port. -/
def webVisit : Packet := ⟨"eth0", 0x08080808#32, 0xC6336401#32, .tcp, 8080#16⟩

/-- The translated connection is dropped: the forward chain asks for the port before the translation. -/
theorem a_forwarded_connection_is_dropped :
    ¬webConfig.Enforces (fun _ => some "eth2") webVisit := by
  rw [Config.enforces_matrix]
  intro matrix
  have inbound : webConfig.Inbound webVisit := ⟨rfl, by decide, webForward, List.mem_singleton_self _, rfl⟩
  have reaches := (delivered_iff rfl (by decide) rfl).mp (matrix.delivered inbound)
  obtain ⟨-, orange, -, -, other, member, port, -⟩ := reaches
  obtain rfl := List.mem_singleton.mp member
  exact absurd port (by decide)

end SysDeck.Web.FirewallZones
