import SysDeck.Library.Execution
import SysDeck.Web.FirewallLimits

/-! The packets of one source under the public server templates: the limits are shared by all
sources, and what another source sends is seen through them. -/

namespace SysDeck.Web.FirewallLimits

open StatefulFilter

def Unbanned (source : Address) (state : State Address) : Prop :=
  ∀ name, state.sets name source = none

/-- The verdict of the rules before the services. -/
def openingVerdict (packet : Packet) : Option Verdict :=
  (readRules Packet.source Packet.time ⟨fun _ => ⟨0, 0⟩, fun _ _ => none⟩ packet opening).2

/-- The service whose limit a packet of an unbanned source comes to. -/
def guardOf (template : Template) (packet : Packet) : Option Guard :=
  if (openingVerdict packet).isSome then none
  else template.guards.find? fun guard => newTcp guard.port packet

/-- The limit that a packet comes to, and whether it has a token. -/
def meets (template : Template) (state : State Address) (packet : Packet) : Option (Guard × Bool) :=
  (guardOf template packet).map fun guard =>
    (guard, guard.limit.hasToken (state.levels guard.name) packet.time)

/-- The verdict for a packet of an unbanned source. -/
def verdictAt (packet : Packet) (met : Option (Guard × Bool)) : Verdict :=
  match openingVerdict packet, met with
  | some verdict, _ => verdict
  | none, some (_, true) => .accept
  | none, _ => .drop

/-- An over-limit packet of a service with a ban set. -/
def Bans (met : Option (Guard × Bool)) : Prop :=
  ∃ guard, met = some (guard, false) ∧ guard.ban ≠ none

/-! ### One packet -/

theorem opening_read (packet : Packet) (state : State Address) :
    readRules Packet.source Packet.time state packet opening = (state, openingVerdict packet) := by
  have tests : ∀ rule ∈ opening, ∀ clause ∈ rule.clauses, clause.isTest := by
    simp [opening, on, Clause.isTest]
  obtain ⟨verdict, read⟩ := @readRules_tests _ _ _ Packet.source Packet.time packet _ tests
  rw [openingVerdict, read, read]

theorem ban_read {packet : Packet} {state : State Address}
    (unbanned : Unbanned packet.source state) (ban : BanSet) :
    readRules Packet.source Packet.time state packet ban.rules = (state, none) := by
  have absent : ∀ name, state.member name packet.source packet.time = false := by
    intro name
    rw [State.member, unbanned name]
  cases family : isV4 packet <;>
    simp [BanSet.rules, readRules, readClauses, Clause.read, absent, isV6, family]

theorem bans_read {packet : Packet} {state : State Address}
    (unbanned : Unbanned packet.source state) (ban : Option BanSet) :
    readRules Packet.source Packet.time state packet ((ban.map BanSet.rules).getD []) =
      (state, none) := by
  cases ban with
  | none => rfl
  | some ban => exact ban_read unbanned ban

theorem guard_read_other {packet : Packet} {state : State Address}
    (unbanned : Unbanned packet.source state) {guard : Guard}
    (other : newTcp guard.port packet = false) :
    readRules Packet.source Packet.time state packet guard.rules = (state, none) := by
  rw [Guard.rules, readRules_append, bans_read unbanned]
  simp [readRules, readClauses, Clause.read, other]

theorem add_unbanned {state : State Address} {source : Address} (unbanned : Unbanned source state)
    (name : String) (now timeout : ℕ) : ¬ Unbanned source (state.add name source now timeout) := by
  intro still
  have added := still name
  simp [State.add, State.member, unbanned name] at added

/-- The state after the limit of a service is asked for a token. -/
def spend (state : State Address) (guard : Guard) (now : ℕ) : State Address :=
  { state with
    levels := Function.update state.levels guard.name
      (guard.limit.take (state.levels guard.name) now) }

theorem limit_read {packet : Packet} (state : State Address) {guard : Guard}
    (matching : newTcp guard.port packet) :
    readRules Packet.source Packet.time state packet
        [⟨[.test (newTcp guard.port), .limit guard.name guard.limit], some .accept⟩,
          ⟨.test (newTcp guard.port) ::
            (guard.ban.map fun ban => Clause.add ban.of ban.timeout).toList, some .drop⟩] =
      if guard.limit.hasToken (state.levels guard.name) packet.time then
        (spend state guard packet.time, some .accept)
      else match guard.ban with
        | none => (spend state guard packet.time, some .drop)
        | some ban => ((spend state guard packet.time).add (ban.of packet) packet.source packet.time
            ban.timeout, some .drop) := by
  cases token : guard.limit.hasToken (state.levels guard.name) packet.time with
  | true => simp [readRules, readClauses, Clause.read, matching, token, spend]
  | false =>
    cases ban : guard.ban <;>
      simp [readRules, readClauses, Clause.read, matching, token, spend]

/-- The first service whose port a new connection has decides it by its limit. -/
theorem guard_read {packet : Packet} {state : State Address}
    (unbanned : Unbanned packet.source state) {guard : Guard}
    (matching : newTcp guard.port packet) :
    ∃ after, readRules Packet.source Packet.time state packet guard.rules =
        (after, some (if guard.limit.hasToken (state.levels guard.name) packet.time then .accept
          else .drop)) ∧
      (Unbanned packet.source after ↔
        guard.limit.hasToken (state.levels guard.name) packet.time ∨ guard.ban = none) := by
  have spent : Unbanned packet.source (spend state guard packet.time) := unbanned
  have read := limit_read state matching
  rw [Guard.rules, readRules_append, bans_read unbanned]
  cases token : guard.limit.hasToken (state.levels guard.name) packet.time with
  | true =>
    rw [token, if_pos rfl] at read
    exact ⟨_, read, by simpa using spent⟩
  | false =>
    rw [token, if_neg Bool.false_ne_true] at read
    cases ban : guard.ban with
    | none =>
      simp only [ban] at read
      exact ⟨_, read, by simpa using spent⟩
    | some set =>
      simp only [ban] at read
      exact ⟨_, read, by simpa using add_unbanned spent (set.of packet) packet.time set.timeout⟩

theorem guards_read_none {packet : Packet} {state : State Address}
    (unbanned : Unbanned packet.source state) {guards : List Guard}
    (none : ∀ guard ∈ guards, newTcp guard.port packet = false) :
    readRules Packet.source Packet.time state packet (guards.flatMap Guard.rules) =
      (state, Option.none) := by
  induction guards with
  | nil => rfl
  | cons guard rest ih =>
    rw [List.flatMap_cons, readRules_append,
      guard_read_other unbanned (none guard List.mem_cons_self)]
    exact ih fun other member => none other (List.mem_cons_of_mem _ member)

/-- The services, read for an unbanned source. -/
theorem guards_read {packet : Packet} {state : State Address}
    (unbanned : Unbanned packet.source state) {guards : List Guard} {guard : Guard}
    (found : guards.find? (fun guard => newTcp guard.port packet) = some guard) :
    ∃ after, readRules Packet.source Packet.time state packet (guards.flatMap Guard.rules) =
        (after, some (if guard.limit.hasToken (state.levels guard.name) packet.time then .accept
          else .drop)) ∧
      (Unbanned packet.source after ↔
        guard.limit.hasToken (state.levels guard.name) packet.time ∨ guard.ban = none) := by
  induction guards with
  | nil => cases found
  | cons first rest ih =>
    rw [List.flatMap_cons, readRules_append]
    cases matching : newTcp first.port packet with
    | false =>
      rw [guard_read_other unbanned matching]
      exact ih (by simpa [List.find?_cons, matching] using found)
    | true =>
      obtain rfl : first = guard := by simpa [List.find?_cons, matching] using found
      obtain ⟨after, read, banned⟩ := guard_read unbanned matching
      exact ⟨after, by rw [read], banned⟩

theorem tail_refuses (template : Template) :
    (∀ rule ∈ template.tail, ∀ clause ∈ rule.clauses, clause.keeps) ∧
      ∀ rule ∈ template.tail, rule.verdict ≠ some .accept := by
  cases template <;> simp [Template.tail, flagRules, lastRules, blocked, on, Clause.keeps]

/-- What one packet of an unbanned source gets, and whether its source stays so. -/
theorem step_unbanned (template : Template) {state : State Address} {packet : Packet}
    (unbanned : Unbanned packet.source state) :
    (step template state packet).2 = verdictAt packet (meets template state packet) ∧
      (Unbanned packet.source (step template state packet).1 ↔
        ¬ Bans (meets template state packet)) := by
  unfold step Template.input
  rw [readRules_append, readRules_append, opening_read]
  cases opened : openingVerdict packet with
  | some verdict =>
    have alone : meets template state packet = none := by simp [meets, guardOf, opened]
    simpa [alone, verdictAt, opened, Bans] using unbanned
  | none =>
    have reached : guardOf template packet = template.guards.find? (newTcp ·.port packet) := by
      simp [guardOf, opened]
    cases found : template.guards.find? (newTcp ·.port packet) with
    | some guard =>
      obtain ⟨after, read, banned⟩ := guards_read unbanned found
      have met : meets template state packet =
          some (guard, guard.limit.hasToken (state.levels guard.name) packet.time) := by
        simp [meets, reached, found]
      simp only [read, met]
      cases token : guard.limit.hasToken (state.levels guard.name) packet.time with
      | true => simpa [verdictAt, opened, Bans, token] using banned
      | false => simpa [verdictAt, opened, Bans, token] using banned
    | none =>
      have missed : ∀ guard ∈ template.guards, newTcp guard.port packet = false := by
        simpa using found
      have alone : meets template state packet = none := by simp [meets, reached, found]
      obtain ⟨kept, refused⟩ := @readRules_refuses _ _ _ Packet.source Packet.time packet _
        (tail_refuses template).1 (tail_refuses template).2 state
      simp only [guards_read_none unbanned missed, alone]
      refine ⟨?_, ?_⟩
      · cases last : (readRules Packet.source Packet.time state packet template.tail).2 with
        | none => simp [verdictAt, opened]
        | some verdict =>
          cases verdict with
          | accept => exact absurd last refused
          | drop => simp [verdictAt, opened]
      · simpa [Unbanned, kept, Bans] using unbanned

/-- A packet of another source bans no one else. -/
theorem step_other (template : Template) {source : Address} {state : State Address}
    {packet : Packet} (different : packet.source ≠ source) :
    Unbanned source (step template state packet).1 ↔ Unbanned source state := by
  have kept := @readRules_other _ _ _ Packet.source Packet.time packet _ different.symm
    template.input state
  simp only [Unbanned, step, kept]

/-! ### A sequence of packets -/

variable (template : Template) (source : Address)

def packetsOf (packets : List Packet) : List Packet := packets.filter (·.source = source)

/-- The verdicts for the packets of the source. -/
def verdicts (state : State Address) : List Packet → List Verdict
  | [] => []
  | packet :: rest =>
    let (after, verdict) := step template state packet
    if packet.source = source then verdict :: verdicts after rest else verdicts after rest

/-- The packets of the source, with the limit that each comes to and whether it has a token. -/
def meetings (state : State Address) : List Packet → List (Packet × Option (Guard × Bool))
  | [] => []
  | packet :: rest =>
    let after := (step template state packet).1
    if packet.source = source then (packet, meets template state packet) :: meetings after rest
    else meetings after rest

def NeverBanned (state : State Address) (packets : List Packet) : Prop :=
  ∀ before, before <+: packets →
    Unbanned source (Execution.run (fun state packet => (step template state packet).1) state before)

theorem neverBanned_cons {state : State Address} {packet : Packet} {rest : List Packet} :
    NeverBanned template source state (packet :: rest) ↔
      Unbanned source state ∧ NeverBanned template source (step template state packet).1 rest := by
  constructor
  · intro never
    exact ⟨never [] (List.nil_prefix), fun before leading =>
      never (packet :: before) (List.cons_prefix_cons.mpr ⟨rfl, leading⟩)⟩
  · rintro ⟨now, later⟩ before leading
    cases before with
    | nil => exact now
    | cons other before =>
      obtain ⟨rfl, inner⟩ := List.cons_prefix_cons.mp leading
      exact later before inner

theorem neverBanned_now {state : State Address} {packets : List Packet}
    (never : NeverBanned template source state packets) : Unbanned source state :=
  never [] List.nil_prefix

/-- A source is banned where one of its packets comes to a limit with a ban set and no token. -/
theorem neverBanned_iff {state : State Address} (unbanned : Unbanned source state)
    (packets : List Packet) :
    NeverBanned template source state packets ↔
      ∀ met ∈ meetings template source state packets, ¬ Bans met.2 := by
  induction packets generalizing state with
  | nil => simpa [NeverBanned, meetings] using unbanned
  | cons packet rest ih =>
    rw [neverBanned_cons, meetings]
    by_cases own : packet.source = source
    · subst own
      have one := (step_unbanned template unbanned).2
      rw [if_pos rfl, List.forall_mem_cons]
      constructor
      · rintro ⟨-, later⟩
        have still := neverBanned_now template packet.source later
        exact ⟨one.mp still, (ih still).mp later⟩
      · rintro ⟨now, later⟩
        exact ⟨unbanned, (ih (one.mpr now)).mpr later⟩
    · have still := (step_other template own).mpr unbanned
      rw [if_neg own, ih still]
      exact and_iff_right unbanned

theorem verdicts_of_meetings {state : State Address} {packets : List Packet}
    (never : NeverBanned template source state packets) :
    verdicts template source state packets =
      (meetings template source state packets).map fun met => verdictAt met.1 met.2 := by
  induction packets generalizing state with
  | nil => rfl
  | cons packet rest ih =>
    obtain ⟨unbanned, later⟩ := (neverBanned_cons template source).mp never
    rw [verdicts, meetings]
    by_cases own : packet.source = source
    · subst own
      have one := (step_unbanned template unbanned).1
      simp only [if_pos, List.map_cons, ← one, ih later]
    · simp only [if_neg own, ih later]

theorem meetings_packets (state : State Address) (packets : List Packet) :
    (meetings template source state packets).map Prod.fst = packetsOf source packets := by
  induction packets generalizing state with
  | nil => rfl
  | cons packet rest ih =>
    rw [meetings, packetsOf, List.filter_cons]
    by_cases own : packet.source = source
    · simp [own, ih, packetsOf]
    · simp [own, ih, packetsOf]

/-- The service that a packet comes to is a matter of the packet. -/
theorem meetings_guard {state : State Address} {packets : List Packet}
    {met : Packet × Option (Guard × Bool)} (member : met ∈ meetings template source state packets) :
    met.2.map Prod.fst = guardOf template met.1 := by
  induction packets generalizing state with
  | nil => cases member
  | cons packet rest ih =>
    rw [meetings] at member
    split at member
    · rcases List.mem_cons.mp member with rfl | later
      · simp [meets, Function.comp_def]
      · exact ih later
    · exact ih member

/-- A packet's verdict shows whether its limit had a token. -/
theorem met_of_verdict {packet : Packet} {first second : Option (Guard × Bool)}
    (one : first.map Prod.fst = guardOf template packet)
    (other : second.map Prod.fst = guardOf template packet)
    (same : verdictAt packet first = verdictAt packet second) : first = second := by
  cases first with
  | none =>
    have nothing : second = none := by simpa using other.trans one.symm
    exact nothing.symm
  | some first =>
    obtain ⟨guard, token⟩ := first
    cases second with
    | none => simp [← other] at one
    | some second =>
      obtain ⟨guard', token'⟩ := second
      obtain rfl : guard = guard' := by simpa [← other] using one
      have opened : openingVerdict packet = none := by
        by_contra decided
        have missed : guardOf template packet = none := by
          simp [guardOf, Option.isSome_iff_ne_none.mpr decided]
        simp [missed] at one
      cases token <;> cases token' <;> simp_all [verdictAt]

theorem meetings_of_verdicts {first second : List (Packet × Option (Guard × Bool))}
    (one : ∀ met ∈ first, met.2.map Prod.fst = guardOf template met.1)
    (other : ∀ met ∈ second, met.2.map Prod.fst = guardOf template met.1)
    (packets : first.map Prod.fst = second.map Prod.fst)
    (same : (first.map fun met => verdictAt met.1 met.2) =
      second.map fun met => verdictAt met.1 met.2) : first = second := by
  induction first generalizing second with
  | nil => exact (List.map_eq_nil_iff.mp packets.symm).symm
  | cons met first ih =>
    cases second with
    | nil => cases packets
    | cons met' second =>
      obtain ⟨packet, met⟩ := met
      obtain ⟨packet', met'⟩ := met'
      simp only [List.map_cons, List.cons.injEq] at packets same
      obtain ⟨rfl, packets⟩ := packets
      rw [List.forall_mem_cons] at one other
      obtain rfl : met = met' := met_of_verdict template one.1 other.1 same.1
      rw [ih one.2 other.2 packets same.2]

/-- The packets of the source get the same verdicts, and it is never put into a ban set. -/
structure PerSource (first second : List Packet) : Prop where
  verdicts : verdicts template source (loaded template) first =
    verdicts template source (loaded template) second
  first : NeverBanned template source (loaded template) first
  second : NeverBanned template source (loaded template) second

/-- The source is served alike just where its packets find the limits alike in both sequences, and
none of them comes to a limit with a ban set and no token. -/
theorem perSource_iff {first second : List Packet}
    (same : packetsOf source first = packetsOf source second) :
    PerSource template source first second ↔
      meetings template source (loaded template) first =
          meetings template source (loaded template) second ∧
        ∀ met ∈ meetings template source (loaded template) first, ¬ Bans met.2 := by
  have unbanned : Unbanned source (loaded template) := fun _ => rfl
  constructor
  · intro served
    refine ⟨?_, (neverBanned_iff template source unbanned first).mp served.first⟩
    have verdicts := served.verdicts
    rw [verdicts_of_meetings template source served.first,
      verdicts_of_meetings template source served.second] at verdicts
    refine meetings_of_verdicts template (fun _ => meetings_guard template source)
      (fun _ => meetings_guard template source) ?_ verdicts
    rw [meetings_packets, meetings_packets, same]
  · rintro ⟨alike, tokens⟩
    have never := (neverBanned_iff template source unbanned first).mpr tokens
    have never' := (neverBanned_iff template source unbanned second).mpr (alike ▸ tokens)
    refine ⟨?_, never, never'⟩
    rw [verdicts_of_meetings template source never, verdicts_of_meetings template source never',
      alike]

/-- Two sequences in which the source sends the same, and sends only one packet. -/
theorem perSource_one :
    PerSource (.remoteAdmin 22#16 9090#16) (.v4 0xCB007105#32)
        [⟨0, .v4 0xCB007105#32, "eth0", .new, .tcp 22#16 syn⟩]
        [⟨0, .v4 0xC6336407#32, "eth0", .new, .tcp 22#16 syn⟩,
          ⟨0, .v4 0xCB007105#32, "eth0", .new, .tcp 22#16 syn⟩] ↔
      meetings (.remoteAdmin 22#16 9090#16) (.v4 0xCB007105#32)
          (loaded (.remoteAdmin 22#16 9090#16))
          [⟨0, .v4 0xCB007105#32, "eth0", .new, .tcp 22#16 syn⟩] =
        meetings (.remoteAdmin 22#16 9090#16) (.v4 0xCB007105#32)
          (loaded (.remoteAdmin 22#16 9090#16))
          [⟨0, .v4 0xC6336407#32, "eth0", .new, .tcp 22#16 syn⟩,
            ⟨0, .v4 0xCB007105#32, "eth0", .new, .tcp 22#16 syn⟩] ∧
      ∀ met ∈ meetings (.remoteAdmin 22#16 9090#16) (.v4 0xCB007105#32)
        (loaded (.remoteAdmin 22#16 9090#16))
        [⟨0, .v4 0xCB007105#32, "eth0", .new, .tcp 22#16 syn⟩], ¬ Bans met.2 :=
  perSource_iff _ _ (by decide)

/-- The source's own new SSH connections are within the limit that the templates document. -/
def KeepsToSsh (packets : List Packet) : Prop :=
  (sshGuard template.ssh).limit.keepsTo ⟨(sshGuard template.ssh).limit.capacity, 0⟩
    (((packetsOf source packets).filter (newTcp template.ssh)).map Packet.time)

/-- Eight connections of another source take the tokens, and the first connection of the source
is dropped. -/
theorem shared_limit :
    ¬ ∀ template source first second, packetsOf source first = packetsOf source second →
      KeepsToSsh template source first → PerSource template source first second := by
  intro claim
  have served := claim (.remoteAdmin 22#16 9090#16) (.v4 0xCB007105#32)
    [⟨0, .v4 0xCB007105#32, "eth0", .new, .tcp 22#16 syn⟩]
    (List.replicate 8 ⟨0, .v4 0xC6336407#32, "eth0", .new, .tcp 22#16 syn⟩ ++
      [⟨0, .v4 0xCB007105#32, "eth0", .new, .tcp 22#16 syn⟩]) (by decide) (by rw [KeepsToSsh]; decide)
  exact absurd served.verdicts (by decide)

end SysDeck.Web.FirewallLimits
