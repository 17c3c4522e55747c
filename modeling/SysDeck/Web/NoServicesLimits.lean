import SysDeck.Web.NoServices

/-! What the rules of the template without public services admit, and which of its limits hold. -/

namespace SysDeck.Web.NoServices

open PacketFilter (CtState)
open StatefulFilter
open FirewallLimits (Address second minute fin syn rst psh urg)

variable {config : Config} {state : State Address} {packet : Packet}

/-- The state after a limit is asked for a token. -/
def spend (state : State Address) (name : String) (limit : Limit) (now : ℕ) : State Address :=
  { state with levels := Function.update state.levels name (limit.take (state.levels name) now) }

theorem spend_levels (name other : String) (limit : Limit) (now : ℕ) :
    (spend state name limit now).levels other =
      if other = name then limit.take (state.levels name) now else state.levels other := by
  exact Function.update_apply ..

/-! ### The rules before the services -/

theorem plain_head {iifname : String} {head : List (Rule Packet)} (headed : headOf config iifname = some head) :
    head = [] ∨ head = internalHead ∧ iifname ≠ config.EXT_IF := by
  rw [headOf] at headed
  split at headed
  · exact .inl (Option.some.inj headed).symm
  · rename_i inside
    split at headed
    · exact .inr ⟨(Option.some.inj headed).symm, inside⟩
    · split at headed
      · exact .inl (Option.some.inj headed).symm
      · cases headed

theorem plain_internalHead : ∀ rule ∈ internalHead, ∀ clause ∈ rule.clauses, clause.plain := by
  simp [internalHead, on, Clause.plain]

theorem plain_prefilterHead (config : Config) : ∀ rule ∈ prefilterHead config, ∀ clause ∈ rule.clauses, clause.plain := by
  simp [prefilterHead, on, scan, ban, Clause.plain]

theorem plain_headOf {iifname : String} {head : List (Rule Packet)}
    (headed : headOf config iifname = some head) : ∀ rule ∈ head, ∀ clause ∈ rule.clauses, clause.plain := by
  rcases plain_head headed with rfl | ⟨rfl, -⟩
  · simp
  · exact plain_internalHead

theorem spares_of_plain {clause : Clause Packet} (plain : clause.plain) (name : String) : clause.spares name := by
  cases clause <;> simp_all [Clause.plain, Clause.spares]

theorem levels_of_plain {rules : List (Rule Packet)}
    (plain : ∀ rule ∈ rules, ∀ clause ∈ rule.clauses, clause.plain) (state : State Address)
    (packet : Packet) : (read state packet rules).1.levels = state.levels := by
  funext name
  exact readRules_spares _ _ (fun rule member clause inside =>
    spares_of_plain (plain rule member clause inside) name) state

/-- The head of an interface accepts what belongs to a connection, and the DHCP of the inner
network. -/
theorem accepted_headOf {head : List (Rule Packet)} (headed : headOf config packet.iifname = some head)
    (accepted : (read state packet head).2 = some .accept) :
    isNew packet = false ∨ udpDport [67#16, 68#16] packet ∧ packet.iifname ≠ config.EXT_IF := by
  rcases plain_head headed with rfl | ⟨rfl, inside⟩
  · cases accepted
  · obtain ⟨rule, member, verdict, before, held⟩ := readRules_eq_some _ _ accepted
    simp only [internalHead, on, List.mem_cons, List.not_mem_nil, or_false] at member
    rcases member with rfl | rfl | rfl
    · have test := test_of_readClauses _ _ held List.mem_cons_self
      simp only [Bool.or_eq_true, decide_eq_true_eq] at test
      left
      rcases test with known | known <;> simp [isNew, known]
    · cases verdict
    · have test := test_of_readClauses _ _ held List.mem_cons_self
      simp only [Bool.and_eq_true] at test
      exact .inr ⟨test.2, inside⟩

theorem accepted_prefilterHead (accepted : (read state packet (prefilterHead config)).2 = some .accept) :
    isNew packet = false := by
  obtain ⟨rule, member, verdict, before, held⟩ := readRules_eq_some _ _ accepted
  simp only [prefilterHead, on, scan, ban, List.mem_cons, List.not_mem_nil, or_false] at member
  rcases member with rfl | rfl | rfl | rfl | rfl | rfl | rfl | rfl | rfl | rfl | rfl | rfl
  case inr.inl =>
    have test := test_of_readClauses _ _ held List.mem_cons_self
    simp only [Bool.or_eq_true, decide_eq_true_eq] at test
    rcases test with known | known <;> simp [isNew, known]
  all_goals cases verdict

/-! ### ICMP -/

theorem icmp_read (icmp : isIcmp packet) : read state packet icmpHandling =
    if icmpType ICMP_ALLOWED packet then
      (spend state "icmp" icmpLimit packet.time,
        some (if icmpLimit.hasToken (state.levels "icmp") packet.time then .accept else .drop))
    else (state, some .drop) := by
  cases allowed : icmpType ICMP_ALLOWED packet with
  | false => simp [read, icmpHandling, on, readRules, readClauses, Clause.read, icmp, allowed]
  | true =>
    cases token : icmpLimit.hasToken (state.levels "icmp") packet.time <;>
      simp [read, icmpHandling, on, readRules, readClauses, Clause.read, icmp, allowed, token, spend]

theorem not_isIcmp_of_isIcmpv6 (icmpv6 : isIcmpv6 packet) : isIcmp packet = false := by
  unfold isIcmpv6 at icmpv6
  unfold isIcmp
  split at icmpv6 <;> simp_all

theorem icmpv6_read (icmpv6 : isIcmpv6 packet) : read state packet icmpHandling =
    if icmpType ICMPV6_ALLOWED packet then (state, some .accept)
    else if icmpType ICMP_ALLOWED packet then
      (spend state "icmpv6" icmpLimit packet.time,
        some (if icmpLimit.hasToken (state.levels "icmpv6") packet.time then .accept else .drop))
    else (state, some .drop) := by
  have icmp := not_isIcmp_of_isIcmpv6 icmpv6
  cases found : icmpType ICMPV6_ALLOWED packet with
  | true => simp [read, icmpHandling, on, readRules, readClauses, Clause.read, icmp, icmpv6, found]
  | false =>
    cases allowed : icmpType ICMP_ALLOWED packet with
    | false => simp [read, icmpHandling, on, readRules, readClauses, Clause.read, icmp, icmpv6, found, allowed]
    | true =>
      cases token : icmpLimit.hasToken (state.levels "icmpv6") packet.time <;>
        simp [read, icmpHandling, on, readRules, readClauses, Clause.read, icmp, icmpv6, found, allowed,
          token, spend]

theorem other_read (icmp : isIcmp packet = false) (icmpv6 : isIcmpv6 packet = false) :
    read state packet icmpHandling = (state, none) := by
  simp [read, icmpHandling, on, readRules, readClauses, Clause.read, icmp, icmpv6]

/-! ### The services -/

theorem ssh_read_other (other : tcpDport [config.SSH_PORT] packet = false) :
    read state packet (sshRules config) = (state, none) := by
  simp [read, sshRules, ban, readRules, readClauses, Clause.read, other]

/-- A new connection to SSH: a banned source, the limit, and what is over it. -/
theorem ssh_read (state : State Address) (matching : tcpDport [config.SSH_PORT] packet) (opening : isNew packet) :
    (read state packet (sshRules config) = (state, some .drop) ∧ isV4 packet) ∨
    (read state packet (sshRules config) = (spend state "ssh" sshLimit packet.time, some .accept) ∧
      sshLimit.hasToken (state.levels "ssh") packet.time) ∨
    (∃ after, read state packet (sshRules config) = (after, some .drop) ∧
      after.levels = (spend state "ssh" sshLimit packet.time).levels) ∨
    (read state packet (sshRules config) = (spend state "ssh" sshLimit packet.time, none) ∧
      isV4 packet = false ∧ sshLimit.hasToken (state.levels "ssh") packet.time = false) := by
  by_cases banned : isV4 packet ∧ state.member "ssh_abuse" packet.source packet.time
  · left
    simp [read, sshRules, readRules, readClauses, Clause.read, matching, banned]
  · right
    have past : (readClauses Packet.source Packet.time state packet
        [.test (tcpDport [config.SSH_PORT]), .test isV4, .member "ssh_abuse"]) = (state, false) := by
      cases family : isV4 packet with
      | false => simp [readClauses, Clause.read, matching, family]
      | true => simp_all [readClauses, Clause.read]
    cases token : sshLimit.hasToken (state.levels "ssh") packet.time with
    | true =>
      left
      rw [read, sshRules, readRules, past]
      simp [readRules, readClauses, Clause.read, matching, opening, token, spend]
    | false =>
      right
      cases family : isV4 packet with
      | true =>
        left
        rw [read, sshRules, readRules, past]
        refine ⟨(spend state "ssh" sshLimit packet.time).add "ssh_abuse" packet.source packet.time
          SSH_BAN_TIME, ?_, add_levels ..⟩
        simp [ban, readRules, readClauses, Clause.read, matching, opening, token, spend, family]
      | false =>
        right
        rw [read, sshRules, readRules, past]
        simp [ban, readRules, readClauses, Clause.read, matching, opening, token, spend, family]

theorem ssh_read_known (config : Config) (state : State Address) (known : isNew packet = false) : ∃ verdict,
    read state packet (sshRules config) = (state, verdict) ∧ verdict ≠ some .accept := by
  cases matching : tcpDport [config.SSH_PORT] packet with
  | false => exact ⟨none, ssh_read_other matching, nofun⟩
  | true =>
    by_cases banned : isV4 packet ∧ state.member "ssh_abuse" packet.source packet.time
    · refine ⟨some .drop, ?_, by simp⟩
      simp [read, sshRules, readRules, readClauses, Clause.read, matching, banned]
    · refine ⟨none, ?_, nofun⟩
      cases family : isV4 packet with
      | false => simp [read, sshRules, ban, readRules, readClauses, Clause.read, matching, known, family]
      | true => simp_all [read, sshRules, ban, readRules, readClauses, Clause.read]

/-- The rules after those of SSH: the sets come before the limit of DNS. -/
theorem rest_read : readRules Packet.source Packet.time state packet
    ([on (fun packet => tcpDport config.tcpAllowed packet && isNew packet) .accept,
      on (fun packet => udpDport udpAllowed packet && isNew packet) .accept] ++
        (dnsRules ++ [⟨[.limit "log" logLimit], none⟩, ⟨[], some .drop⟩])) =
      if isNew packet && (tcpDport [config.SSH_PORT] packet || udpDport [53#16] packet) then
        (state, some .accept)
      else (spend state "log" logLimit packet.time, some .drop) := by
  cases token : logLimit.hasToken (state.levels "log") packet.time <;>
    cases opening : isNew packet with
    | false =>
      cases dns : udpDport [53#16] packet <;>
        simp [on, dnsRules, readRules, readClauses, Clause.read, opening, dns, token, spend]
    | true =>
      cases ssh : tcpDport [config.SSH_PORT] packet with
      | true => simp [on, readRules, readClauses, Clause.read, opening, ssh, Config.tcpAllowed]
      | false =>
        cases dns : udpDport [53#16] packet <;>
          simp [on, dnsRules, readRules, readClauses, Clause.read, opening, ssh, dns, token, spend,
            Config.tcpAllowed, udpAllowed]

theorem service_read : read state packet (serviceHandling config) =
    match read state packet (sshRules config) with
    | (after, none) =>
      if isNew packet && (tcpDport [config.SSH_PORT] packet || udpDport [53#16] packet) then
        (after, some .accept)
      else (spend after "log" logLimit packet.time, some .drop)
    | (after, some verdict) => (after, some verdict) := by
  rw [read, read, serviceHandling, List.append_assoc, List.append_assoc, readRules_append]
  rcases readRules Packet.source Packet.time state packet (sshRules config) with ⟨after, verdict⟩
  cases verdict with
  | none => exact rest_read
  | some verdict => rfl

theorem connlimit_levels (name : String) (apart : name ≠ "connlimit") :
    (connlimit state packet).1.levels name = state.levels name := by
  rw [connlimit]
  split
  · simp only
    split
    · rw [add_levels]
      exact Function.update_of_ne apart _ _
    · exact Function.update_of_ne apart _ _
  · rfl

theorem connlimit_refuses : (connlimit state packet).2 ≠ some .accept := by
  rw [connlimit]
  split
  · simp only
    split
    · simp
    · nofun
  · nofun

theorem connlimit_over (opening : isNew packet) (v4 : isV4 packet)
    (empty : connLimit.hasToken (state.levels "connlimit") packet.time = false) :
    (connlimit state packet).2 = some .drop := by
  rw [connlimit, if_pos opening]
  simp [v4, empty]

/-! ### One packet -/

theorem andThen_none {first : State Address × Option Verdict}
    {next : State Address → State Address × Option Verdict} (undecided : first.2 = none) :
    andThen first next = next first.1 := by
  obtain ⟨state, verdict⟩ := first
  obtain rfl : verdict = none := undecided
  rfl

theorem andThen_some {first : State Address × Option Verdict} {verdict : Verdict}
    {next : State Address → State Address × Option Verdict} (decided : first.2 = some verdict) :
    andThen first next = first := by
  obtain ⟨state, verdict⟩ := first
  obtain rfl : verdict = _ := decided
  rfl

def finish (outcome : State Address × Option Verdict) : State Address × Verdict :=
  (outcome.1, outcome.2.getD .drop)

/-- Where a packet that does not come in on loopback is decided: by an interface without a chain or
the rules down to the flags, by the ICMP rules, or after the connection limit. -/
inductive Path (config : Config) (state : State Address) (packet : Packet) : Prop where
  | early (after : State Address) (verdict : Verdict) (levels : after.levels = state.levels)
      (outcome : input config state packet = (after, verdict))
      (accepts : verdict = .accept →
        isNew packet = false ∨ udpDport [67#16, 68#16] packet ∧ packet.iifname ≠ config.EXT_IF)
  | icmp (before : State Address) (levels : before.levels = state.levels)
      (kind : isIcmp packet ∨ isIcmpv6 packet)
      (outcome : input config state packet = finish (read before packet icmpHandling))
  | services (before : State Address) (levels : before.levels = state.levels)
      (arrived : arrives config packet)
      (outcome : input config state packet = finish (andThen (connlimit before packet) fun state =>
        read state packet (serviceHandling config)))

theorem path (config : Config) (state : State Address) (apart : packet.iifname ≠ LO_IF) : Path config state packet := by
  have shape := input.eq_1 config state packet
  rw [if_neg apart] at shape
  cases headed : headOf config packet.iifname with
  | none =>
    rw [headed] at shape
    exact .early state .drop rfl shape Verdict.noConfusion
  | some head =>
    rw [headed] at shape
    simp only at shape
    have plain := plain_headOf headed
    have levels := levels_of_plain plain state packet
    have levels' := levels_of_plain (plain_prefilterHead config) (read state packet head).1 packet
    cases decided : (read state packet head).2 with
    | some verdict =>
      rw [andThen_some decided, decided] at shape
      refine .early _ verdict levels shape ?_
      rintro rfl
      exact accepted_headOf headed decided
    | none =>
      rw [andThen_none decided, prefilter] at shape
      cases decided' : (read (read state packet head).1 packet (prefilterHead config)).2 with
      | some verdict =>
        rw [andThen_some decided', decided'] at shape
        refine .early _ verdict (levels'.trans levels) shape ?_
        rintro rfl
        exact .inl (accepted_prefilterHead decided')
      | none =>
        rw [andThen_none decided'] at shape
        generalize before : (read (read state packet head).1 packet (prefilterHead config)).1 = middle at shape
        have same : middle.levels = state.levels := by
          rw [← before, levels', levels]
        by_cases kind : isIcmp packet ∨ isIcmpv6 packet
        · refine .icmp middle same kind ?_
          have found : ∃ verdict, (read middle packet icmpHandling).2 = some verdict := by
            rcases kind with icmp | icmpv6
            · rw [icmp_read icmp]
              split <;> exact ⟨_, rfl⟩
            · rw [icmpv6_read icmpv6]
              split
              · exact ⟨_, rfl⟩
              · split <;> exact ⟨_, rfl⟩
          obtain ⟨verdict, found⟩ := found
          rw [andThen_some found] at shape
          exact shape
        · simp only [not_or, Bool.not_eq_true] at kind
          rw [other_read kind.1 kind.2] at shape
          refine .services middle same ?_ shape
          have alike : (read loaded packet head).2 = none := by
            rw [← decided]
            exact readRules_plain _ _ plain _ _
          have alike' : (read loaded packet (prefilterHead config)).2 = none := by
            rw [← decided']
            exact readRules_plain _ _ (plain_prefilterHead config) _ _
          simp [arrives, apart, kind, headed, alike, alike']

/-! ### What a packet takes from the limits -/

/-- A packet is accepted as one of the class. -/
def Counted (config : Config) (kind : Class) (outcome : Option Verdict) (packet : Packet) : Prop :=
  outcome = some .accept ∧ kind.has config packet

/-- The limit of a class keeps its level and the packet is not counted, or it is asked for a token,
which a counted packet finds. -/
def Charged (config : Config) (kind : Class) (before after : State Address) (outcome : Option Verdict)
    (packet : Packet) : Prop :=
  after.levels kind.name = before.levels kind.name ∧ ¬ Counted config kind outcome packet ∨
    after.levels kind.name = (limitOf kind.name).take (before.levels kind.name) packet.time ∧
      (Counted config kind outcome packet →
        (limitOf kind.name).hasToken (before.levels kind.name) packet.time)

theorem has_of_icmp (config : Config) (kind : isIcmp packet ∨ isIcmpv6 packet) :
    Class.ssh.has config packet = false ∧ Class.dns.has config packet = false := by
  unfold isIcmp isIcmpv6 at kind
  cases transport : packet.transport <;>
    simp_all [Class.has, tcpDport, udpDport]

theorem not_has_of_dhcp (kind : Class) (dhcp : udpDport [67#16, 68#16] packet) :
    kind.has config packet = false := by
  unfold udpDport at dhcp
  split at dhcp
  · rename_i sport dport transport
    have ports : dport = 67#16 ∨ dport = 68#16 := by simpa using dhcp
    cases kind with
    | dns => rcases ports with rfl | rfl <;> simp [Class.has, udpDport, transport]
    | _ => simp [Class.has, tcpDport, isIcmp, isIcmpv6, transport]
  · cases dhcp

theorem charged_icmp (config : Config) (kind : Class) (before : State Address) (icmp : isIcmp packet ∨ isIcmpv6 packet) :
    Charged config kind before (read before packet icmpHandling).1
      (read before packet icmpHandling).2 packet := by
  have others := has_of_icmp config icmp
  cases icmp' : isIcmp packet with
  | true =>
    have not6 : isIcmpv6 packet = false := by
      by_contra icmpv6
      rw [not_isIcmp_of_isIcmpv6 (by simpa using icmpv6)] at icmp'
      cases icmp'
    rw [icmp_read icmp']
    cases allowed : icmpType ICMP_ALLOWED packet with
    | false => cases kind <;> simp [Charged, Counted]
    | true =>
      cases kind with
      | icmp =>
        exact .inr ⟨by simp [spend_levels, Class.name, limitOf], fun counted => by
          simpa [Class.name, limitOf] using counted.1⟩
      | ssh => simp [Charged, Counted, spend_levels, Class.name, others]
      | dns => simp [Charged, Counted, spend_levels, Class.name, others]
      | icmpv6 => simp [Charged, Counted, spend_levels, Class.name, Class.has, not6]
  | false =>
    have icmpv6 : isIcmpv6 packet := by simpa [icmp'] using icmp
    rw [icmpv6_read icmpv6]
    cases found : icmpType ICMPV6_ALLOWED packet with
    | true =>
      have apart : icmpType ICMP_ALLOWED packet = false := by
        unfold icmpType at found ⊢
        split at found <;> simp_all [ICMPV6_ALLOWED, ICMP_ALLOWED]
        all_goals omega
      left
      refine ⟨rfl, ?_⟩
      rintro ⟨-, has⟩
      cases kind <;> simp_all [Class.has]
    | false =>
      cases allowed : icmpType ICMP_ALLOWED packet with
      | false => cases kind <;> simp [Charged, Counted]
      | true =>
        cases kind with
        | icmpv6 =>
          exact .inr ⟨by simp [spend_levels, Class.name, limitOf], fun counted => by
            simpa [Class.name, limitOf] using counted.1⟩
        | ssh => simp [Charged, Counted, spend_levels, Class.name, others]
        | dns => simp [Charged, Counted, spend_levels, Class.name, others]
        | icmp => simp [Charged, Counted, spend_levels, Class.name, Class.has, icmp']

theorem service_levels (name : String) (apart : name ≠ "ssh" ∧ name ≠ "log") :
    (read state packet (serviceHandling config)).1.levels name = state.levels name := by
  have ssh : (read state packet (sshRules config)).1.levels name = state.levels name := by
    refine readRules_spares _ _ ?_ state
    simp [sshRules, ban, Clause.spares, apart.1.symm]
  rw [service_read]
  generalize read state packet (sshRules config) = first at ssh ⊢
  obtain ⟨after, verdict⟩ := first
  cases verdict with
  | some verdict => exact ssh
  | none =>
    simp only
    split
    · exact ssh
    · rw [spend_levels, if_neg apart.2]
      exact ssh

theorem charged_ssh (config : Config) (state : State Address) (packet : Packet)
    (token : Class.ssh.has config packet → isV4 packet = false →
      sshLimit.hasToken (state.levels "ssh") packet.time) :
    Charged config .ssh state (read state packet (serviceHandling config)).1
      (read state packet (serviceHandling config)).2 packet := by
  rw [service_read]
  cases opening : isNew packet with
  | false =>
    obtain ⟨verdict, ssh, refused⟩ := ssh_read_known config state opening
    rw [ssh]
    cases verdict <;> simp [Charged, Counted, Class.has, opening, spend_levels, Class.name]
  | true =>
    cases matching : tcpDport [config.SSH_PORT] packet with
    | false =>
      rw [ssh_read_other matching]
      simp only
      split <;> simp [Charged, Counted, Class.has, matching, spend_levels, Class.name]
    | true =>
      rcases ssh_read state matching opening with
        ⟨ssh, -⟩ | ⟨ssh, held⟩ | ⟨after, ssh, levels⟩ | ⟨ssh, v6, empty⟩
      · simp [ssh, Charged, Counted]
      · simp [ssh, Charged, Counted, spend_levels, Class.name, limitOf, held]
      · simp [ssh, Charged, Counted, levels, spend_levels, Class.name, limitOf]
      · have held := token (by simp [Class.has, matching, opening]) v6
        rw [empty] at held
        cases held

theorem charged_step (allowed : Allowed config state packet) (apart : packet.iifname ≠ LO_IF)
    (kind : Class) : Charged config kind state (step config state packet)
      (some (input config state packet).2) packet := by
  rw [step]
  rcases path config state apart with
    ⟨after, verdict, levels, outcome, accepts⟩ | ⟨before, levels, icmp, outcome⟩ |
      ⟨before, levels, arrived, outcome⟩
  · rw [outcome]
    left
    refine ⟨by rw [levels], ?_⟩
    rintro ⟨accepted, has⟩
    rcases accepts (Option.some.inj accepted) with known | ⟨dhcp, -⟩
    · cases kind <;> simp [Class.has, known] at has
    · rw [not_has_of_dhcp kind dhcp] at has
      cases has
  · have charged := charged_icmp config kind before icmp
    rw [outcome, finish]
    rw [Charged, levels] at charged
    cases verdict : (read before packet icmpHandling).2 with
    | some verdict => simpa [Charged, verdict] using charged
    | none =>
      rw [verdict] at charged
      simpa [Charged, Counted] using charged
  · obtain ⟨dns, ssh⟩ := allowed arrived
    have others : isIcmp packet = false ∧ isIcmpv6 packet = false := by
      simp only [arrives, Bool.and_eq_true, Bool.not_eq_true'] at arrived
      exact ⟨arrived.1.1.2, arrived.1.2⟩
    rw [outcome]
    cases limited : (connlimit before packet).2 with
    | some verdict =>
      have refused : verdict ≠ .accept := fun same => connlimit_refuses (limited.trans (by rw [same]))
      rw [andThen_some limited, finish, limited]
      left
      refine ⟨?_, by simp [Counted, refused]⟩
      rw [connlimit_levels kind.name (by cases kind <;> simp [Class.name]), levels]
    | none =>
      rw [andThen_none limited, finish]
      have same : ∀ name ≠ "connlimit", (connlimit before packet).1.levels name = state.levels name :=
        fun name apart => by rw [connlimit_levels name apart, levels]
      cases kind with
      | ssh =>
        have charged := charged_ssh config (connlimit before packet).1 packet (by
            rw [same "ssh" (by decide)]
            exact ssh)
        simp only [Charged, Counted, Class.name, same "ssh" (by decide)] at charged ⊢
        cases verdict : (read (connlimit before packet).1 packet (serviceHandling config)).2 with
        | some verdict => simpa [verdict] using charged
        | none =>
          rw [verdict] at charged
          simpa using charged
      | dns =>
        left
        refine ⟨by rw [service_levels _ (by decide), same _ (by decide)], ?_⟩
        rintro ⟨-, has⟩
        obtain ⟨v4, empty⟩ := dns has
        have opening : isNew packet := by simp_all [Class.has]
        rw [← levels] at empty
        rw [connlimit_over opening v4 empty] at limited
        cases limited
      | icmp =>
        left
        refine ⟨by rw [service_levels _ (by decide), same _ (by decide)], ?_⟩
        rintro ⟨-, has⟩
        simp [Class.has, others.1] at has
      | icmpv6 =>
        left
        refine ⟨by rw [service_levels _ (by decide), same _ (by decide)], ?_⟩
        rintro ⟨-, has⟩
        simp [Class.has, others.2] at has

/-- What a new packet from outside must be to be accepted. -/
theorem admissible_of_accepted (allowed : Allowed config state packet)
    (outside : packet.iifname = config.EXT_IF) (opening : isNew packet)
    (accepted : (input config state packet).2 = .accept) : admissible config packet := by
  have apart : packet.iifname ≠ LO_IF := fun same => config.outside (outside.symm.trans same)
  rcases path config state apart with
    ⟨after, verdict, levels, outcome, accepts⟩ | ⟨before, levels, icmp, outcome⟩ |
      ⟨before, levels, arrived, outcome⟩
  · rw [outcome] at accepted
    rcases accepts accepted with known | ⟨-, inside⟩
    · rw [opening] at known
      cases known
    · exact absurd outside inside
  · rw [outcome, finish] at accepted
    cases icmp' : isIcmp packet with
    | true =>
      rw [icmp_read icmp'] at accepted
      cases allowed : icmpType ICMP_ALLOWED packet with
      | true => simp [admissible, icmp', allowed]
      | false => simp [allowed] at accepted
    | false =>
      have icmpv6 : isIcmpv6 packet := by simpa [icmp'] using icmp
      rw [icmpv6_read icmpv6] at accepted
      cases found : icmpType ICMPV6_ALLOWED packet with
      | true => simp [admissible, icmpv6, found]
      | false =>
        cases allowed : icmpType ICMP_ALLOWED packet with
        | true => simp [admissible, icmpv6, allowed]
        | false => simp [found, allowed] at accepted
  · rw [outcome] at accepted
    cases limited : (connlimit before packet).2 with
    | some verdict =>
      rw [andThen_some limited, finish, limited] at accepted
      exact absurd (limited.trans (congrArg some accepted)) connlimit_refuses
    | none =>
      cases ssh : tcpDport [config.SSH_PORT] packet with
      | true => simp [admissible, ssh]
      | false =>
        rw [andThen_none limited, finish, service_read, ssh_read_other ssh] at accepted
        cases dns : udpDport [53#16] packet with
        | false => simp [opening, ssh, dns] at accepted
        | true =>
          obtain ⟨v4, empty⟩ := (allowed arrived).1 (by simp [Class.has, dns, opening])
          rw [← levels] at empty
          rw [connlimit_over opening v4 empty] at limited
          cases limited

/-! ### All packets -/

/-- The times of the packets that count in a class, from a state on. -/
def countedTimes (config : Config) (kind : Class) (state : State Address) (packets : List Packet) : List ℕ :=
  ((verdicts config state packets).filter fun (packet, verdict) =>
    verdict = .accept && packet.iifname ≠ LO_IF && kind.has config packet).map (·.1.time)

theorem countedTimes_counted {kind : Class} (rest : List Packet) (apart : packet.iifname ≠ LO_IF)
    (counted : Counted config kind (some (input config state packet).2) packet) :
    countedTimes config kind state (packet :: rest) =
      packet.time :: countedTimes config kind (step config state packet) rest := by
  obtain ⟨accepted, has⟩ := counted
  rw [Option.some.injEq] at accepted
  simp [countedTimes, verdicts, apart, accepted, has]

theorem countedTimes_other {kind : Class} (rest : List Packet)
    (other : packet.iifname ≠ LO_IF →
      ¬ Counted config kind (some (input config state packet).2) packet) :
    countedTimes config kind state (packet :: rest) =
      countedTimes config kind (step config state packet) rest := by
  rw [countedTimes, verdicts, List.filter_cons_of_neg]
  · rfl
  · intro passed
    simp only [Bool.and_eq_true, decide_eq_true_eq] at passed
    exact other passed.1.2 ⟨congrArg some passed.1.1, passed.2⟩

/-- What a class was given keeps to its limit, where the limit has no more than a bucket that only
the counted packets take from. -/
theorem keepsTo_countedTimes (kind : Class) {packets : List Packet} {state : State Address} {level : Level}
    {clock : ℕ} (covers : (limitOf kind.name).Covers level (state.levels kind.name) clock)
    (ordered : packets.Pairwise (·.time ≤ ·.time)) (later : ∀ packet ∈ packets, clock ≤ packet.time)
    (allowed : Execution.Along (step config) (Allowed config) state packets) :
    (limitOf kind.name).keepsTo level (countedTimes config kind state packets) := by
  induction packets generalizing state level clock with
  | nil => rfl
  | cons packet rest ih =>
    obtain ⟨now, after⟩ := allowed
    obtain ⟨first, ordered⟩ := List.pairwise_cons.mp ordered
    have next := later packet List.mem_cons_self
    by_cases apart : packet.iifname ≠ LO_IF
    · have charged := charged_step now apart kind
      by_cases counted : Counted config kind (some (input config state packet).2) packet
      · rw [countedTimes_counted rest apart counted]
        rcases charged with ⟨-, uncounted⟩ | ⟨taken, token⟩
        · exact absurd counted uncounted
        · rw [Limit.keepsTo, Bool.and_eq_true]
          refine ⟨covers.hasToken next (token counted), ih ?_ ordered first after⟩
          rw [taken]
          exact covers.take_both next (token counted)
      · rw [countedTimes_other rest fun _ => counted]
        refine ih ?_ ordered first after
        rcases charged with ⟨same, -⟩ | ⟨taken, -⟩
        · rw [same]
          exact covers.later next
        · rw [taken]
          exact covers.take_other next
    · rw [countedTimes_other rest fun outside => absurd outside apart]
      refine ih ?_ ordered first after
      have same : step config state packet = state := by
        rw [step, input, if_pos (not_not.mp apart)]
      rw [same]
      exact covers.later next

theorem opens_of_allowed {packets : List Packet} {state : State Address}
    (allowed : Execution.Along (step config) (Allowed config) state packets) :
    ∀ met ∈ verdicts config state packets, met.1.iifname = config.EXT_IF → isNew met.1 →
      met.2 = .accept → admissible config met.1 := by
  induction packets generalizing state with
  | nil => exact fun met member => absurd member List.not_mem_nil
  | cons packet rest ih =>
    intro met member outside opening accepted
    rcases List.mem_cons.mp member with rfl | later
    · exact admissible_of_accepted allowed.1 outside opening accepted
    · exact ih allowed.2 met later outside opening accepted

/-- Packets in the order of their times, none of which gets to the set of UDP ports or, over the
limit of SSH, to the set of TCP ports. -/
theorem locked (config : Config) (packets : List Packet) (ordered : packets.Pairwise (·.time ≤ ·.time))
    (allowed : Execution.Along (step config) (Allowed config) loaded packets) : Locked config packets where
  opens := opens_of_allowed allowed
  limited := fun kind =>
    keepsTo_countedTimes kind (Limit.covers_refl (Nat.le_refl 0)) ordered (fun _ _ => Nat.zero_le _) allowed

instance (config : Config) (state : State Address) (packet : Packet) :
    Decidable (Allowed config state packet) :=
  inferInstanceAs (Decidable (_ → (_ → _ ∧ _) ∧ (_ → _ → _)))

/-- A host with one interface. -/
private def single : Config := ⟨"eth0", none, [], 22#16, none, none, by decide⟩

private def opened (source : Address) (transport : Transport) : Packet :=
  ⟨0, source, "eth0", .new, 0#16, transport⟩

/-- Six connections to SSH, of which the last is over the limit, and one to a web server. -/
theorem locked_six : Locked single
    (List.replicate 6 (opened (.v4 0x08080808#32) (.tcp 22#16 syn)) ++
      [opened (.v6 1#128) (.tcp 80#16 syn)]) :=
  locked single _ (by decide) (by decide +kernel)

/-- A DNS query is accepted. -/
theorem dns_accepted : ∃ config packets, packets.Pairwise (·.time ≤ ·.time) ∧ ¬ Locked config packets := by
  refine ⟨single, [opened (.v4 0x08080808#32) (.udp 4000#16 53#16)], by decide, ?_⟩
  intro claim
  have refused := claim.opens (opened (.v4 0x08080808#32) (.udp 4000#16 53#16), .accept)
    (by decide +kernel) rfl rfl rfl
  exact absurd refused (by decide)

end SysDeck.Web.NoServices
