import SysDeck.Web.FirewallSources

/-! What the public server templates let in: packets on the loopback interface, and new connections to
the ports of the services. -/

namespace SysDeck.Web.FirewallLimits

open StatefulFilter

/-- The ports that a template documents as public. -/
def Template.publicPorts : Template → List (BitVec 16)
  | .remoteAdmin ssh cockpit => [ssh, cockpit]
  | .publicWebserver ssh varnish caddyHttps _ _ _ => [ssh, varnish, caddyHttps]
  | .aiLlm ssh ollama openwebui hermes odysseus => [ssh, ollama, openwebui, hermes, odysseus]

/-- The ports that it documents as reachable from the host alone. -/
def Template.hiddenPorts : Template → List (BitVec 16)
  | .publicWebserver _ _ _ caddyHttp mariadb caddyAdmin => [caddyHttp, mariadb, caddyAdmin]
  | _ => []

/-- The port that a TCP packet opens a connection to. -/
def opens (packet : Packet) : Option (BitVec 16) :=
  match packet.transport with
  | .tcp dport _ => if packet.state = .new then some dport else none
  | _ => none

def bogon (packet : Packet) : Bool := sourceIn BOGONS_V4 packet || sourceIn6 BOGONS_V6 packet

/-- The state after some packets. -/
def after (template : Template) (packets : List Packet) : State Address :=
  packets.foldl (fun state packet => (step template state packet).1) (loaded template)

/-- What the input chain is to do with a packet, whatever came before it. -/
structure Exposes (template : Template) (packet : Packet) : Prop where
  loopback : packet.iifname = "lo" → ∀ packets, (step template (after template packets) packet).2 = .accept
  only : packet.iifname ≠ "lo" → ∀ port ∈ opens packet, ∀ packets,
    (step template (after template packets) packet).2 = .accept → port ∈ template.publicPorts
  never : packet.iifname ≠ "lo" → ∀ port ∈ opens packet, port ∈ template.hiddenPorts → ∀ packets,
    (step template (after template packets) packet).2 ≠ .accept

/-! ### The rules before the services -/

theorem newTcp_iff {port : BitVec 16} {packet : Packet} : newTcp port packet ↔ opens packet = some port := by
  unfold newTcp dportIs opens
  cases packet.transport with
  | tcp dport flags =>
    by_cases fresh : packet.state = .new
    · simp [fresh]
    · simp [fresh]
  | icmp type => simp
  | icmpv6 type => simp
  | other => simp

theorem read_on (state : State Address) (packet : Packet) (holds : Packet → Bool) (verdict : Verdict)
    (rest : List (Rule Packet)) :
    readRules Packet.source Packet.time state packet (on holds verdict :: rest) =
      if holds packet then (state, some verdict) else readRules Packet.source Packet.time state packet rest := by
  cases held : holds packet <;> simp [readRules, readClauses, Clause.read, on, held]

theorem opening_bogon {packet : Packet} (bogus : bogon packet) : openingVerdict packet = some .drop := by
  unfold openingVerdict opening
  rw [read_on, read_on]
  rcases Bool.or_eq_true_iff.mp bogus with inside | inside
  · rw [if_pos inside]
  · rw [if_pos inside]
    split <;> rfl

theorem opening_lo {packet : Packet} (real : bogon packet = false) (lo : packet.iifname = "lo") :
    openingVerdict packet = some .accept := by
  obtain ⟨v4, v6⟩ := Bool.or_eq_false_iff.mp real
  have here : decide (packet.iifname = "lo") = true := decide_eq_true lo
  unfold openingVerdict opening
  rw [read_on, read_on, read_on, read_on, v4, v6, if_neg Bool.false_ne_true, if_neg Bool.false_ne_true,
    if_pos here]
  split <;> rfl

theorem opening_new {packet : Packet} (real : bogon packet = false) (outside : packet.iifname ≠ "lo")
    {port : BitVec 16} (opened : opens packet = some port) : openingVerdict packet = none := by
  obtain ⟨v4, v6⟩ := Bool.or_eq_false_iff.mp real
  unfold opens at opened
  unfold openingVerdict opening
  cases kind : packet.transport with
  | tcp dport flags =>
    rw [kind] at opened
    by_cases fresh : packet.state = .new
    · have icmp : icmpType [8, 0, 3, 11] packet = false := by rw [icmpType, kind]
      have icmpv6 : icmpv6Type [128, 129, 133, 134, 135, 136, 2, 1, 3] packet = false := by
        rw [icmpv6Type, kind]
      simp only [read_on, v4, v6, fresh, outside, icmp, icmpv6, reduceCtorEq, decide_false, Bool.or_self,
        Bool.false_eq_true, if_false]
      rfl
    · simp [fresh] at opened
  | icmp type => simp [kind] at opened
  | icmpv6 type => simp [kind] at opened
  | other => simp [kind] at opened

/-- A packet that the first rules decide. -/
theorem step_opening {template : Template} {state : State Address} {packet : Packet} {verdict : Verdict}
    (decided : openingVerdict packet = some verdict) : (step template state packet).2 = verdict := by
  unfold step Template.input
  rw [List.append_assoc, readRules_append, opening_read, decided]
  rfl

/-! ### The services -/

theorem guards_ports (template : Template) : template.guards.map (·.port) = template.publicPorts := by
  cases template <;> rfl

/-- Whatever the state is, only the rules of the services accept a new connection. -/
theorem port_of_accepted {template : Template} {state : State Address} {packet : Packet}
    (undecided : openingVerdict packet = none) (accepted : (step template state packet).2 = .accept) :
    ∃ port ∈ template.publicPorts, newTcp port packet := by
  unfold step Template.input at accepted
  rw [List.append_assoc, readRules_append, opening_read, undecided] at accepted
  have decided : (readRules Packet.source Packet.time state packet
      (template.guards.flatMap Guard.rules ++ template.tail)).2 = some .accept := by
    change (readRules Packet.source Packet.time state packet
      (template.guards.flatMap Guard.rules ++ template.tail)).2.getD .drop = .accept at accepted
    cases verdict : (readRules Packet.source Packet.time state packet
        (template.guards.flatMap Guard.rules ++ template.tail)).2 with
    | none => rw [verdict] at accepted; cases accepted
    | some verdict' => rw [verdict] at accepted; exact congrArg some accepted
  obtain ⟨rule, member, accepts, before, held⟩ := readRules_eq_some _ _ decided
  rcases List.mem_append.mp member with inside | last
  · obtain ⟨guard, member, inside⟩ := List.mem_flatMap.mp inside
    refine ⟨guard.port, ?_, ?_⟩
    · rw [← guards_ports]
      exact List.mem_map_of_mem member
    · unfold Guard.rules at inside
      rcases List.mem_append.mp inside with banned | limited
      · cases ban : guard.ban with
        | none => simp [ban] at banned
        | some set =>
          simp only [ban, Option.map_some, Option.getD_some, BanSet.rules, List.mem_cons, List.not_mem_nil,
            or_false] at banned
          rcases banned with rfl | rfl <;> cases accepts
      · rcases List.mem_cons.mp limited with rfl | over_
        · exact test_of_readClauses _ _ held List.mem_cons_self
        · rw [List.mem_singleton.mp over_] at accepts
          cases accepts
  · exact absurd accepts ((tail_refuses template).2 rule last)

theorem loaded_level {template : Template} {guard : Guard} (member : guard ∈ template.guards) :
    (loaded template).levels guard.name = ⟨guard.limit.capacity, 0⟩ := by
  cases template <;>
  · simp only [Template.guards, sshGuard, List.mem_cons, List.not_mem_nil, or_false] at member
    rcases member with rfl | rfl | rfl | rfl | rfl <;> rfl

/-- A limit has a token for the first packet that comes to it. -/
theorem loaded_hasToken {template : Template} {guard : Guard} (member : guard ∈ template.guards) (now : ℕ) :
    guard.limit.hasToken ((loaded template).levels guard.name) now := by
  have bursts : 0 < guard.limit.burst := by
    cases template <;>
    · simp only [Template.guards, sshGuard, List.mem_cons, List.not_mem_nil, or_false] at member
      rcases member with rfl | rfl | rfl | rfl | rfl <;> exact Nat.zero_lt_succ _
  have afford : guard.limit.cost ≤ guard.limit.capacity := Nat.le_mul_of_pos_right _ bursts
  rw [loaded_level member, Limit.hasToken, Limit.refilled]
  exact decide_eq_true (le_min afford (le_trans afford (Nat.le_add_right _ _)))

/-- The first new connection to a public port is accepted. -/
theorem first_accepted {template : Template} {packet : Packet} (undecided : openingVerdict packet = none)
    {port : BitVec 16} (offered : port ∈ template.publicPorts) (opened : newTcp port packet) :
    (step template (after template []) packet).2 = .accept := by
  have unbanned : Unbanned packet.source (loaded template) := fun _ => rfl
  have found : (template.guards.find? fun guard => newTcp guard.port packet).isSome := by
    rw [← guards_ports] at offered
    obtain ⟨guard, member, same⟩ := List.mem_map.mp offered
    exact List.find?_isSome.mpr ⟨guard, member, by rw [same]; exact opened⟩
  obtain ⟨guard, found⟩ := Option.isSome_iff_exists.mp found
  have token := loaded_hasToken (List.mem_of_find?_eq_some found) packet.time
  have met : meets template (loaded template) packet = some (guard, true) := by
    unfold meets guardOf
    rw [undecided, if_neg (by simp), found, Option.map_some, token]
  change (step template (loaded template) packet).2 = .accept
  rw [(step_unbanned template unbanned).1, met]
  unfold verdictAt
  rw [undecided]

/-- A template does with a packet what it is to do just where a packet on the loopback interface has no
bogon source, and a new connection from outside, of no bogon source, to a hidden port is not one to a
public port. -/
theorem exposes_iff (template : Template) (packet : Packet) : Exposes template packet ↔
    (packet.iifname = "lo" → bogon packet = false) ∧
      (packet.iifname ≠ "lo" → bogon packet = false → ∀ port ∈ opens packet, port ∈ template.hiddenPorts →
        port ∉ template.publicPorts) := by
  constructor
  · intro exposes
    constructor
    · intro lo
      apply Bool.eq_false_iff.mpr
      intro bogus
      have accepted := exposes.loopback lo []
      rw [step_opening (opening_bogon bogus)] at accepted
      cases accepted
    · intro outside real port opened hidden offered
      exact exposes.never outside port opened hidden []
        (first_accepted (opening_new real outside opened) offered (newTcp_iff.mpr opened))
  · rintro ⟨loopback, apart⟩
    have sound (outside : packet.iifname ≠ "lo") {port : BitVec 16} (opened : port ∈ opens packet)
        {packets : List Packet} (accepted : (step template (after template packets) packet).2 = .accept) :
        bogon packet = false ∧ port ∈ template.publicPorts := by
      cases bogus : bogon packet with
      | true =>
        rw [step_opening (opening_bogon bogus)] at accepted
        cases accepted
      | false =>
        obtain ⟨other, offered, new⟩ := port_of_accepted (opening_new bogus outside opened) accepted
        obtain rfl : port = other := Option.some.inj (opened.symm.trans (newTcp_iff.mp new))
        exact ⟨rfl, offered⟩
    constructor
    · intro lo packets
      exact step_opening (opening_lo (loopback lo) lo)
    · intro outside port opened packets accepted
      exact (sound outside opened accepted).2
    · intro outside port opened hidden packets accepted
      obtain ⟨real, offered⟩ := sound outside opened accepted
      exact apart outside real port opened hidden offered

/-- Varnish asks for a page that it has not cached, on the loopback interface. -/
def cacheMiss : Packet := ⟨0, .v4 0x7F000001#32, "lo", .new, .tcp 8080#16 syn⟩

/-- The packet is dropped with the bogons; and a backend on the port of SSH is reached from outside. -/
theorem loopback_is_dropped :
    ¬Exposes (.publicWebserver 22#16 80#16 443#16 8080#16 3306#16 2019#16) cacheMiss ∧
      ¬Exposes (.publicWebserver 22#16 80#16 443#16 22#16 3306#16 2019#16)
        ⟨0, .v4 0xCB007105#32, "eth0", .new, .tcp 22#16 syn⟩ := by
  constructor
  · intro exposes
    exact absurd (exposes.loopback rfl []) (by decide)
  · intro exposes
    exact absurd (exposes.never (by decide) 22#16 rfl (by decide) []) (by decide)

end SysDeck.Web.FirewallLimits
