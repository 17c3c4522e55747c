import SysDeck.Web.FirewallDenotation

/-! When the two scripts of a list of rules are the same filter, rule by rule. -/

namespace SysDeck.Web.Firewall

open Quoting Ipv4
open PacketFilter (CtState)

/-- Both lines of a rule are read, with one action, and hold of the same packets. -/
def RuleAgrees (names : ProtocolNames) (row : RuleRow) : Prop :=
  ∃ hook nft restored, tableHook row.chain = some hook ∧ nftDenotes row = some nft ∧
    restoreDenotes names row = some (hook, restored) ∧ nft.action = restored.action ∧
    ∀ packet, nft.holds packet = restored.holds packet

/-- The rows that both renderers take for the same kind of rule, with the same conditions. -/
def Uniform (names : ProtocolNames) (row : RuleRow) : Prop :=
  Closes iptablesDialect row.comment ∧
    if mentionsEstablished row.comment then row.port = none ∧ row.source = none
    else if row.source = some "127.0.0.1/8" then row.chain ≠ "OUTPUT"
    else OneWord row.proto ∧ (sourceConditions row).isSome ∧
      match row.port with
      | none => names.read row.proto = some 0
      | some port => row.proto ∈ portProtocols.map Prod.fst ∧ (readPort port).isSome

/-- The chains that have a hook. -/
theorem tableHook_of_checked {row : RuleRow} (checked : row.Checked) (hooked : row.chain ≠ "POLICY") :
    ∃ hook, tableHook row.chain = some hook ∧ (hook = .output ↔ row.chain = "OUTPUT") := by
  have chain := checked.chain
  simp only [List.mem_cons, List.not_mem_nil, or_false] at chain
  rcases chain with same | same | same | same
  · exact ⟨.input, by simp [same, tableHook], by simp [same]⟩
  · exact ⟨.forward, by simp [same, tableHook], by simp [same]⟩
  · exact ⟨.output, by simp [same, tableHook], by simp [same]⟩
  · exact absurd same hooked

theorem holds_append (first second : List Condition) (action : Action) (packet : Packet) :
    (⟨first ++ second, action⟩ : FilterRule).holds packet =
      ((⟨first, action⟩ : FilterRule).holds packet && (⟨second, action⟩ : FilterRule).holds packet) :=
  List.all_append

/-- A rule that tests nothing in which two packets differ. -/
theorem holds_congr {rule : FilterRule} {packet other : Packet}
    (same : ∀ condition ∈ rule.conditions, condition.holds packet = condition.holds other) :
    rule.holds packet = rule.holds other := by
  rw [Bool.eq_iff_iff, FilterRule.holds, FilterRule.holds, List.all_eq_true, List.all_eq_true]
  exact forall₂_congr fun condition member => by rw [same condition member]

theorem mem_sourceConditions {row : RuleRow} {source : List Condition}
    (read : sourceConditions row = some source) {condition : Condition} (member : condition ∈ source) :
    ∃ cidr, condition = .saddr cidr := by
  unfold sourceConditions at read
  cases given : truthy row.source with
  | none =>
    rw [given, Option.some.injEq] at read
    subst read
    cases member
  | some text =>
    rw [given] at read
    obtain ⟨cidr, -, rfl⟩ := Option.map_eq_some_iff.mp read
    exact ⟨cidr, List.mem_singleton.mp member⟩

/-- Some address meets the condition on the source. -/
theorem sourceConditions_satisfiable {row : RuleRow} {source : List Condition}
    (read : sourceConditions row = some source) :
    ∃ address, ∀ packet : Packet, packet.source = address →
      ∀ condition ∈ source, condition.holds packet := by
  unfold sourceConditions at read
  cases given : truthy row.source with
  | none =>
    rw [given, Option.some.injEq] at read
    subst read
    exact ⟨0, fun _ _ _ member => by cases member⟩
  | some text =>
    rw [given] at read
    obtain ⟨cidr, -, rfl⟩ := Option.map_eq_some_iff.mp read
    refine ⟨cidr.address, fun packet same condition member => ?_⟩
    rw [List.mem_singleton.mp member, Condition.holds, Cidr.contains, same]
    simp

theorem lookup_protocol (names : ProtocolNames) {text : String} {protocol : ℕ}
    (known : portProtocols.lookup text = some protocol) :
    names.read text = some protocol ∧ protocol ∈ portProtocols.map Prod.snd ∧
      text ∈ portProtocols.map Prod.fst := by
  obtain ⟨before, after, entries, -⟩ := List.lookup_eq_some_iff.mp known
  have member : (text, protocol) ∈ portProtocols := by
    rw [entries]
    exact List.mem_append_right _ List.mem_cons_self
  exact ⟨names.known _ member, List.mem_map.mpr ⟨_, member, rfl⟩, List.mem_map.mpr ⟨_, member, rfl⟩⟩

theorem lookup_of_mem {text : String} (member : text ∈ portProtocols.map Prod.fst) :
    ∃ protocol, portProtocols.lookup text = some protocol := by
  simp only [portProtocols, List.map_cons, List.map_nil, List.mem_cons, List.not_mem_nil, or_false]
    at member
  rcases member with same | same | same | same | same <;> rw [same]
  all_goals exact ⟨_, rfl⟩

/-- Uniform rows denote the same rule. -/
theorem uniform_agrees {names : ProtocolNames} {row : RuleRow} (checked : row.Checked)
    (hooked : row.chain ≠ "POLICY") (uniform : Uniform names row) : RuleAgrees names row := by
  obtain ⟨hook, named, output⟩ := tableHook_of_checked checked hooked
  obtain ⟨closes, kind⟩ := uniform
  have option : row.OneWordOption := by
    intro unmentioned remote
    rw [if_neg unmentioned, if_neg remote] at kind
    exact kind.1
  have restored := restoreDenotes_eq names checked option closes
  rw [named, Option.bind_some] at restored
  by_cases mentioned : mentionsEstablished row.comment
  · rw [if_pos mentioned] at kind
    rw [restoreRule_established checked mentioned hook] at restored
    exact ⟨hook, _, _, named, nftDenotes_established checked ⟨kind.1, kind.2, mentioned⟩, restored, rfl,
      fun _ => rfl⟩
  · have other : ¬ (row.port = none ∧ row.source = none ∧ mentionsEstablished row.comment) :=
      fun established => mentioned established.2.2
    rw [if_neg mentioned] at kind
    by_cases loopback : row.source = some "127.0.0.1/8"
    · rw [if_pos loopback] at kind
      rw [restoreRule_loopback checked mentioned loopback hook, if_neg fun same => kind (output.mp same)]
        at restored
      exact ⟨hook, _, _, named, nftDenotes_loopback checked other loopback, restored, rfl, fun _ => rfl⟩
    · rw [if_neg loopback] at kind
      obtain ⟨one, readable, ports⟩ := kind
      obtain ⟨source, read⟩ := Option.isSome_iff_exists.mp readable
      have nft := nftDenotes_match checked (fun _ => one) other loopback
      rw [restoreRule_match checked mentioned loopback hook, read] at restored
      rw [read, Option.bind_some] at nft
      cases given : row.port with
      | none =>
        rw [given] at ports
        rw [portConditions, given] at nft
        rw [ports, Option.bind_some, optionConditions, given] at restored
        refine ⟨hook, _, _, named, nft, restored, rfl, fun packet => ?_⟩
        simp only [List.append_nil, if_pos, List.nil_append]
      | some port =>
        rw [given] at ports
        obtain ⟨protocol, known⟩ := lookup_of_mem ports.1
        obtain ⟨number, value⟩ := Option.isSome_iff_exists.mp ports.2
        obtain ⟨same, member, -⟩ := lookup_protocol names known
        rw [portConditions, given] at nft
        rw [same, Option.bind_some, optionConditions, given] at restored
        dsimp only at nft restored
        rw [known, value] at nft
        rw [if_pos member, value] at restored
        refine ⟨hook, _, _, named, nft, restored, rfl, fun packet => ?_⟩
        dsimp only
        rw [holds_append, holds_append, Bool.and_comm]

/-- nft tests the state of the connection in one kind of rule only. -/
theorem nft_unestablished {row : RuleRow} (checked : row.Checked) (proto : row.OneWordProto)
    (other : ¬ (row.port = none ∧ row.source = none ∧ mentionsEstablished row.comment))
    {rule : FilterRule} (denoted : nftDenotes row = some rule) :
    .established ∉ rule.conditions := by
  by_cases loopback : row.source = some "127.0.0.1/8"
  · rw [nftDenotes_loopback checked other loopback, Option.some.injEq] at denoted
    rw [← denoted]
    simp
  · rw [nftDenotes_match checked proto other loopback] at denoted
    obtain ⟨source, read, denoted⟩ := Option.bind_eq_some_iff.mp denoted
    obtain ⟨ports, portsRead, rfl⟩ := Option.map_eq_some_iff.mp denoted
    intro member
    rcases List.mem_append.mp member with inSource | inPorts
    · obtain ⟨cidr, same⟩ := mem_sourceConditions read inSource
      cases same
    · unfold portConditions at portsRead
      cases given : row.port with
      | none =>
        rw [given, Option.some.injEq] at portsRead
        rw [← portsRead] at inPorts
        cases inPorts
      | some port =>
        rw [given] at portsRead
        obtain ⟨protocol, -, portsRead⟩ := Option.bind_eq_some_iff.mp portsRead
        obtain ⟨number, -, same⟩ := Option.bind_eq_some_iff.mp portsRead
        rw [← Option.some.inj same] at inPorts
        simp at inPorts

/-- A packet of a connection that exists, and the first packet of one. -/
theorem not_only_established {rule : FilterRule} (never : .established ∉ rule.conditions)
    {action : Action}
    (same : ∀ packet, rule.holds packet = (⟨[.established], action⟩ : FilterRule).holds packet) :
    False := by
  let first : Packet := ⟨6, 0, 0, none, .new⟩
  let later : Packet := ⟨6, 0, 0, none, .established⟩
  have blind : rule.holds first = rule.holds later := by
    refine holds_congr fun condition member => ?_
    cases condition with
    | established => exact absurd member never
    | _ => rfl
  rw [same first, same later] at blind
  exact Bool.false_ne_true blind

/-- Only uniform rows denote the same rule, where the protocol is one word. -/
theorem uniform_of_agrees {names : ProtocolNames} {row : RuleRow} (checked : row.Checked)
    (one : OneWord row.proto) (agrees : RuleAgrees names row) : Uniform names row := by
  obtain ⟨hook, nft, restored, named, denoted, restoredBy, action, same⟩ := agrees
  have option : row.OneWordOption := fun _ _ => one
  have closes : Closes iptablesDialect row.comment := by
    obtain ⟨words, read, -⟩ := Option.bind_eq_some_iff.mp restoredBy
    exact closes_of_iptables checked option read
  rw [restoreDenotes_eq names checked option closes, named, Option.bind_some] at restoredBy
  obtain ⟨rule, restoredRule, pair⟩ := Option.map_eq_some_iff.mp restoredBy
  cases pair
  refine ⟨closes, ?_⟩
  by_cases mentioned : mentionsEstablished row.comment
  · rw [if_pos mentioned]
    rw [restoreRule_established checked mentioned hook, Option.some.injEq] at restoredRule
    subst restoredRule
    by_contra other
    refine not_only_established (nft_unestablished checked (fun _ => one) ?_ denoted) same
    exact fun established => other ⟨established.1, established.2.1⟩
  · have other : ¬ (row.port = none ∧ row.source = none ∧ mentionsEstablished row.comment) :=
      fun established => mentioned established.2.2
    rw [if_neg mentioned]
    by_cases loopback : row.source = some "127.0.0.1/8"
    · rw [if_pos loopback]
      rw [restoreRule_loopback checked mentioned loopback hook] at restoredRule
      rintro chain
      rw [chain] at named
      have output : tableHook "OUTPUT" = some .output := by simp [tableHook]
      rw [if_pos (Option.some.inj (named.symm.trans output))] at restoredRule
      cases restoredRule
    · rw [if_neg loopback]
      rw [restoreRule_match checked mentioned loopback hook] at restoredRule
      obtain ⟨protocol, known, restoredRule⟩ := Option.bind_eq_some_iff.mp restoredRule
      obtain ⟨options, optionsRead, restoredRule⟩ := Option.bind_eq_some_iff.mp restoredRule
      obtain ⟨source, read, rfl⟩ := Option.map_eq_some_iff.mp restoredRule
      rw [nftDenotes_match checked (fun _ => one) other loopback, read, Option.bind_some] at denoted
      obtain ⟨ports, portsRead, rfl⟩ := Option.map_eq_some_iff.mp denoted
      refine ⟨one, by rw [read]; rfl, ?_⟩
      cases given : row.port with
      | some port =>
        rw [portConditions, given] at portsRead
        obtain ⟨number, listed, portsRead⟩ := Option.bind_eq_some_iff.mp portsRead
        obtain ⟨value, portRead, -⟩ := Option.bind_eq_some_iff.mp portsRead
        exact ⟨(lookup_protocol names listed).2.2, by rw [portRead]; rfl⟩
      | none =>
        rw [portConditions, given, Option.some.injEq] at portsRead
        rw [optionConditions, given, Option.some.injEq] at optionsRead
        subst portsRead optionsRead
        by_cases any : protocol = 0
        · rw [known, any]
        · obtain ⟨address, matches'⟩ := sourceConditions_satisfiable read
          have all : (⟨source, actionOf row.action⟩ : FilterRule).holds ⟨0, address, 0, none, .new⟩ :=
            List.all_eq_true.mpr (matches' _ rfl)
          have both := same ⟨0, address, 0, none, .new⟩
          rw [if_neg any, holds_append, holds_append, all] at both
          simp [FilterRule.holds, Condition.holds, Ne.symm any] at both

/-! The lines of the scripts. -/

theorem nftLine_oneLine {names : ProtocolNames} {row : RuleRow} (checked : row.Checked)
    (uniform : Uniform names row) : '\n' ∉ (nftLine row).toList := by
  have kind := uniform.2
  rw [nftLine_eq]
  split
  · have fixed : Reads nftDialect "ct state established,related"
        ["ct", "state", "established,related"] := .literal rfl rfl rfl
    exact (nft_fixed checked fixed (by simp)).oneLine
  · rename_i other
    have unmentioned : ¬ mentionsEstablished row.comment := by
      intro mentioned
      rw [if_pos mentioned] at kind
      exact other ⟨kind.1, kind.2, mentioned⟩
    rw [if_neg unmentioned] at kind
    split
    · have fixed : Reads nftDialect "iifname \"lo\"" ["iifname", "\"lo\""] := .literal rfl rfl rfl
      exact (nft_fixed checked fixed (by simp)).oneLine
    · rename_i remote
      rw [if_neg remote] at kind
      have proto : row.OneWordProto := fun _ => kind.1
      rw [trim_nftMatch checked proto]
      exact (nftMatch_reads checked proto).oneLine

theorem iptablesLine_oneLine {names : ProtocolNames} {row : RuleRow} (checked : row.Checked)
    (uniform : Uniform names row) : '\n' ∉ (iptablesLine row).toList := by
  refine (iptables_reads checked (fun unmentioned remote => ?_) uniform.1).oneLine
  have kind := uniform.2
  rw [if_neg unmentioned, if_neg remote] at kind
  exact kind.1

theorem linesOf_joined {text : String} {lines : List String} (nonempty : lines ≠ [])
    (joined : text.toList = ['\n'].intercalate (lines.map String.toList))
    (oneLine : ∀ line ∈ lines, '\n' ∉ line.toList) : linesOf text = lines := by
  have split : text.toList.splitOn '\n' = lines.map String.toList := by
    refine (Text.splitOn_eq_iff (by simpa using nonempty)).mpr ⟨joined, ?_⟩
    intro line member
    obtain ⟨other, inside, rfl⟩ := List.mem_map.mp member
    exact oneLine other inside
  have same : (String.ofList ∘ String.toList) = id := funext fun _ => String.ofList_toList
  rw [linesOf, split, List.map_map, same, List.map_id]

/-- Each line of a script is one, when those of its rules are. -/
theorem oneLine_slots {slots : List Slot} {backend : String}
    (fixed : ∀ text, Slot.fixed text ∈ slots → text.toList.all linear)
    (rows : ∀ row ∈ slots.filterMap Slot.row?, '\n' ∉ (ruleLine backend row).toList) :
    ∀ line ∈ slots.map (Slot.text backend), '\n' ∉ line.toList := by
  intro line member
  obtain ⟨slot, inside, rfl⟩ := List.mem_map.mp member
  cases slot with
  | fixed text => exact not_newline_of_linear (fixed text inside)
  | rule row => exact rows row (List.mem_filterMap.mpr ⟨_, inside, rfl⟩)

theorem linesOf_nftScript {ruleset : Ruleset} {rules : List RuleRow} (checked : ruleset.Checked)
    (rows : ∀ row ∈ rules, row.Checked) (oneLine : ∀ row ∈ rules, '\n' ∉ (nftLine row).toList) :
    linesOf (nftScript ruleset rules) =
      (nftBlocks ruleset rules).flatten.map (Slot.text "nftables") := by
  have rendered : "nftables" ≠ "iptables" := by simp
  refine linesOf_joined (by simp [nftBlocks]) ?_ (oneLine_slots ?_ ?_)
  · rw [List.map_map]
    exact toList_nftScript rendered ruleset rules
  · exact fun text inside => nftBlocks_linear checked rows inside
  · intro row member
    have inside : row ∈ rules := by
      rw [nftBlocks_rows] at member
      simp only [List.mem_append, List.mem_filter] at member
      tauto
    have indent : ("    " : String).toList = [' ', ' ', ' ', ' '] := by simp
    rw [ruleLine, if_neg rendered, String.toList_append, indent]
    simpa using oneLine row inside

theorem linesOf_iptablesScript {ruleset : Ruleset} {rules : List RuleRow} (checked : ruleset.Checked)
    (oneLine : ∀ row ∈ rules, '\n' ∉ (iptablesLine row).toList) :
    linesOf (iptablesScript ruleset rules) = (iptablesFrame ruleset rules).map (Slot.text "iptables") := by
  refine linesOf_joined (by simp [iptablesFrame]) ?_ (oneLine_slots ?_ ?_)
  · rw [List.map_map]
    exact toList_iptablesScript ruleset rules
  · exact fun text inside => iptablesFrame_linear checked inside
  · intro row member
    have inside : row ∈ rules := by
      rw [iptablesFrame, List.filterMap_append, List.filterMap_append, rows_fixed, rows_rule] at member
      simpa [Slot.row?] using member
    rw [ruleLine, if_pos rfl]
    exact oneLine row inside

/-! The filter of the nft script. -/

/-- The line of a rule in a chain. -/
theorem nftStep_rule {row : RuleRow} {rule : FilterRule} (denoted : nftDenotes row = some rule)
    (hook : Hook) (filter : Filter) :
    nftStep (.chain hook, filter) (ruleLine "nftables" row) =
      some (.chain hook, { filter with rules := filter.rules ++ [(hook, rule)] }) := by
  obtain ⟨words, read, ruled⟩ := Option.bind_eq_some_iff.mp denoted
  obtain ⟨closed, split⟩ := tokens_eq_some.mp read
  have line : (ruleLine "nftables" row).toList = ' ' :: ' ' :: ' ' :: ' ' :: (nftLine row).toList := by
    have rendered : "nftables" ≠ "iptables" := by simp
    rw [ruleLine, if_neg rendered, String.toList_append]
    simp
  have stays (text : List Char) : nftDialect.modeAfter .plain (' ' :: text) =
      nftDialect.modeAfter .plain text := rfl
  have indented : tokens nftDialect (ruleLine "nftables" row) = some words := by
    rw [tokens_eq_some, line, Dialect.Closed, stays, stays, stays, stays, Dialect.words_blank,
      Dialect.words_blank, Dialect.words_blank, Dialect.words_blank]
    exact ⟨closed, split⟩
  have nonempty : words ≠ [] := by
    rintro rfl
    cases ruled
  have visible : (ruleLine "nftables" row).toList.head? ≠ some '#' := by
    rw [line]
    simp
  rw [nftStep, if_neg visible, indented, Option.bind_some, nftWords, if_neg nonempty]
  simp only [nftChainLine, ruled]

/-- The lines of the rules of a chain, one after the other. -/
theorem foldlM_rules {rule : RuleRow → FilterRule} {rows : List RuleRow}
    (denoted : ∀ row ∈ rows, nftDenotes row = some (rule row)) (hook : Hook) (filter : Filter) :
    (rows.map (ruleLine "nftables")).foldlM nftStep (.chain hook, filter) =
      some (.chain hook, { filter with rules := filter.rules ++ rows.map fun row => (hook, rule row) }) := by
  induction rows generalizing filter with
  | nil => simp
  | cons row rows ih =>
    have here := nftStep_rule (denoted row List.mem_cons_self) hook filter
    rw [List.map_cons, List.foldlM_cons, here]
    refine (ih (fun other member => denoted other (List.mem_cons_of_mem _ member)) _).trans ?_
    simp

theorem nftStep_close (hook : Hook) (filter : Filter) :
    nftStep (.chain hook, filter) "  \x7d" = some (.table, filter) :=
  (nftStep_literal (by decide) rfl).trans rfl

/-- The other lines of a chain open it, or declare its hook. -/
theorem nftStep_output (filter : Filter) :
    nftStep (.table, filter) "  chain output \x7b" = some (.chain .output, filter) :=
  (nftStep_literal (by decide) rfl).trans rfl

/-- The policies that both scripts declare. -/
def policies : List (Hook × Verdict) := [(.input, .drop), (.forward, .drop), (.output, .accept)]

theorem foldlM_head (ruleset : Ruleset) :
    ["#!/usr/sbin/nft -f", nftHeader ruleset, "flush ruleset", "", "table inet firewall \x7b",
      "  set ssh_abuse \x7b", "    type ipv4_addr", "    flags timeout", "    timeout 1h", "  \x7d",
      "  chain input \x7b", "    type filter hook input priority filter; policy drop;"].foldlM nftStep
      (.script, ⟨[], []⟩) = some (.chain .input, ⟨[(.input, .drop)], []⟩) := by
  have header : (nftHeader ruleset).toList.head? = some '#' := by
    obtain ⟨rest, whole⟩ : ∃ rest, nftHeader ruleset = "# sysdeck-firewall: ruleset '" ++ rest := by
      unfold nftHeader
      simp only [String.append_assoc]
      exact ⟨_, rfl⟩
    rw [whole]
    exact head?_literal rest
  have shebang : ("#!/usr/sbin/nft -f" : String).toList.head? = some '#' := by
    rw [(String.toList_ofList : ("#!/usr/sbin/nft -f" : String).toList = _)]
    rfl
  have flush : nftStep (.script, ⟨[], []⟩) "flush ruleset" = some (.script, ⟨[], []⟩) :=
    (nftStep_literal (by decide) rfl).trans rfl
  have blank : nftStep (.script, ⟨[], []⟩) "" = some (.script, ⟨[], []⟩) :=
    (nftStep_literal (by decide) rfl).trans rfl
  have table : nftStep (.script, ⟨[], []⟩) "table inet firewall \x7b" = some (.table, ⟨[], []⟩) :=
    (nftStep_literal (by decide) rfl).trans rfl
  have set : nftStep (.table, ⟨[], []⟩) "  set ssh_abuse \x7b" = some (.set, ⟨[], []⟩) :=
    (nftStep_literal (by decide) rfl).trans rfl
  have type : nftStep (.set, ⟨[], []⟩) "    type ipv4_addr" = some (.set, ⟨[], []⟩) :=
    (nftStep_literal (by decide) rfl).trans rfl
  have flags : nftStep (.set, ⟨[], []⟩) "    flags timeout" = some (.set, ⟨[], []⟩) :=
    (nftStep_literal (by decide) rfl).trans rfl
  have timeout : nftStep (.set, ⟨[], []⟩) "    timeout 1h" = some (.set, ⟨[], []⟩) :=
    (nftStep_literal (by decide) rfl).trans rfl
  have close : nftStep (.set, ⟨[], []⟩) "  \x7d" = some (.table, ⟨[], []⟩) :=
    (nftStep_literal (by decide) rfl).trans rfl
  have opened : nftStep (.table, ⟨[], []⟩) "  chain input \x7b" = some (.chain .input, ⟨[], []⟩) :=
    (nftStep_literal (by decide) rfl).trans rfl
  have declared : nftStep (.chain .input, ⟨[], []⟩)
      "    type filter hook input priority filter; policy drop;" =
      some (.chain .input, ⟨[(.input, .drop)], []⟩) := (nftStep_literal (by decide) rfl).trans rfl
  simp only [List.foldlM_cons, List.foldlM_nil, nftStep_comment header, nftStep_comment shebang, flush, blank, table, set, type,
    flags, timeout, close, opened, declared, Option.bind_eq_bind, Option.bind_some, Option.pure_def]

/-- From the rules of one chain to those of the next. -/
theorem foldlM_forward (rules : List (Hook × FilterRule)) :
    ["  \x7d", "  chain forward \x7b",
      "    type filter hook forward priority filter; policy drop;"].foldlM nftStep
      (.chain .input, ⟨[(.input, .drop)], rules⟩) =
      some (.chain .forward, ⟨[(.input, .drop), (.forward, .drop)], rules⟩) := by
  have opened : nftStep (.table, ⟨[(.input, .drop)], rules⟩) "  chain forward \x7b" =
      some (.chain .forward, ⟨[(.input, .drop)], rules⟩) := (nftStep_literal (by decide) rfl).trans rfl
  have declared : nftStep (.chain .forward, ⟨[(.input, .drop)], rules⟩)
      "    type filter hook forward priority filter; policy drop;" =
      some (.chain .forward, ⟨[(.input, .drop), (.forward, .drop)], rules⟩) :=
    (nftStep_literal (by decide) rfl).trans rfl
  simp only [List.foldlM_cons, List.foldlM_nil, nftStep_close, opened, declared, Option.bind_eq_bind,
    Option.bind_some, Option.pure_def]

theorem foldlM_output (rules : List (Hook × FilterRule)) :
    ["  \x7d", "  chain output \x7b", "    type filter hook output priority filter; policy accept;",
      "  \x7d"].foldlM nftStep (.chain .forward, ⟨[(.input, .drop), (.forward, .drop)], rules⟩) =
      some (.table, ⟨policies, rules⟩) := by
  have declared : nftStep (.chain .output, ⟨[(.input, .drop), (.forward, .drop)], rules⟩)
      "    type filter hook output priority filter; policy accept;" =
      some (.chain .output, ⟨policies, rules⟩) := (nftStep_literal (by decide) rfl).trans rfl
  simp only [List.foldlM_cons, List.foldlM_nil, nftStep_close, nftStep_output, declared,
    Option.bind_eq_bind, Option.bind_some, Option.pure_def]

/-- Each rule of the output chain opens it again. -/
theorem foldlM_otherBlocks {rule : RuleRow → FilterRule} {rows : List RuleRow}
    (denoted : ∀ row ∈ rows, nftDenotes row = some (rule row))
    (output : ∀ row ∈ rows, row.chain = "OUTPUT") (filter : Filter) :
    ((rows.map otherBlock).flatten.map (Slot.text "nftables")).foldlM nftStep (.table, filter) =
      some (.table, { filter with rules := filter.rules ++ rows.map fun row => (.output, rule row) }) := by
  have name : otherChain "OUTPUT" = "output" := by
    rw [otherChain, (String.toList_ofList : ("OUTPUT" : String).toList = _),
      (String.toList_ofList : ("policy" : String).toList = _),
      (String.toList_ofList : ("cilium_policy" : String).toList = _)]
    rfl
  induction rows generalizing filter with
  | nil => simp
  | cons row rows ih =>
    have chain : "  chain " ++ otherChain row.chain ++ " \x7b" = "  chain output \x7b" := by
      rw [output row List.mem_cons_self, name]
      simp
    have here := nftStep_rule (denoted row List.mem_cons_self) .output filter
    rw [List.map_cons, List.flatten_cons, List.map_append, List.foldlM_append, otherBlock]
    simp only [List.map_cons, List.map_nil, Slot.text, chain, List.foldlM_cons, List.foldlM_nil,
      nftStep_output, here, nftStep_close,
      Option.bind_eq_bind, Option.bind_some, Option.pure_def]
    refine (ih (fun other member => denoted other (List.mem_cons_of_mem _ member))
      (fun other member => output other (List.mem_cons_of_mem _ member)) _).trans ?_
    simp

/-- The hook of a checked row. -/
def hookOf (row : RuleRow) : Hook := (tableHook row.chain).getD .input

/-- The rows in the order in which nft reads them. -/
def nftOrder (rules : List RuleRow) : List RuleRow :=
  rules.filter (·.chain = "INPUT") ++ rules.filter (·.chain = "FORWARD") ++
    rules.filter fun row => row.chain ≠ "INPUT" ∧ row.chain ≠ "FORWARD"

theorem hookOf_of_mem {rules : List RuleRow} {chain : String} {hook : Hook}
    (named : tableHook chain = some hook) {row : RuleRow}
    (member : row ∈ rules.filter (·.chain = chain)) : hookOf row = hook := by
  have same : row.chain = chain := by simpa using (List.mem_filter.mp member).2
  rw [hookOf, same, named]
  rfl

theorem output_of_mem {rules : List RuleRow} (rows : ∀ row ∈ rules, row.Checked)
    (hooked : ∀ row ∈ rules, row.chain ≠ "POLICY") {row : RuleRow}
    (member : row ∈ rules.filter fun row => row.chain ≠ "INPUT" ∧ row.chain ≠ "FORWARD") :
    row.chain = "OUTPUT" := by
  obtain ⟨inside, other⟩ := List.mem_filter.mp member
  have chain := (rows row inside).chain
  have policy := hooked row inside
  simp only [List.mem_cons, List.not_mem_nil, or_false] at chain
  simp only [decide_eq_true_eq] at other
  tauto

theorem nftRead_script {ruleset : Ruleset} {rules : List RuleRow} {rule : RuleRow → FilterRule}
    (rows : ∀ row ∈ rules, row.Checked) (hooked : ∀ row ∈ rules, row.chain ≠ "POLICY")
    (lines : linesOf (nftScript ruleset rules) =
      (nftBlocks ruleset rules).flatten.map (Slot.text "nftables"))
    (denoted : ∀ row ∈ rules, nftDenotes row = some (rule row)) :
    nftRead (nftScript ruleset rules) =
      some ⟨policies, (nftOrder rules).map fun row => (hookOf row, rule row)⟩ := by
  have fixed (texts : List String) : (texts.map fun text => [Slot.fixed text]).flatten.map
      (Slot.text "nftables") = texts := by
    induction texts with
    | nil => rfl
    | cons text texts ih => rw [List.map_cons, List.flatten_cons, List.map_append, ih]; rfl
  have ruled (rows : List RuleRow) : (rows.map fun row => [Slot.rule row]).flatten.map
      (Slot.text "nftables") = rows.map (ruleLine "nftables") := by
    induction rows with
    | nil => rfl
    | cons row rows ih => rw [List.map_cons, List.flatten_cons, List.map_append, ih]; rfl
  have denotes {accepts : RuleRow → Bool} : ∀ row ∈ rules.filter accepts,
      nftDenotes row = some (rule row) := fun row member => denoted row (List.mem_of_mem_filter member)
  have places {chain : String} {hook : Hook} (named : tableHook chain = some hook) :
      (rules.filter (·.chain = chain)).map (fun row => (hook, rule row)) =
        (rules.filter (·.chain = chain)).map fun row => (hookOf row, rule row) :=
    List.map_congr_left fun row member => by rw [hookOf_of_mem named member]
  have outputs : (rules.filter fun row => row.chain ≠ "INPUT" ∧ row.chain ≠ "FORWARD").map
      (fun row => (Hook.output, rule row)) =
      (rules.filter fun row => row.chain ≠ "INPUT" ∧ row.chain ≠ "FORWARD").map
        fun row => (hookOf row, rule row) := by
    refine List.map_congr_left fun row member => ?_
    have named : tableHook "OUTPUT" = some .output := by simp [tableHook]
    rw [hookOf, output_of_mem rows hooked member, named]
    rfl
  have whole : (linesOf (nftScript ruleset rules)).foldlM nftStep (.script, ⟨[], []⟩) =
      some (.script, ⟨policies, (nftOrder rules).map fun row => (hookOf row, rule row)⟩) := by
    rw [lines, nftBlocks]
    simp only [List.flatten_append, List.map_append, fixed, ruled, List.foldlM_append]
    simp only [Option.bind_eq_bind]
    rw [foldlM_head, Option.bind_some, foldlM_rules denotes, Option.bind_some, foldlM_forward,
      Option.bind_some, foldlM_rules denotes, Option.bind_some, foldlM_output, Option.bind_some,
      foldlM_otherBlocks denotes fun row member => output_of_mem rows hooked member]
    rw [places (by simp [tableHook]), places (by simp [tableHook]), outputs, nftOrder, List.map_append,
      List.map_append]
    have closing (filter : Filter) : nftStep (.table, filter) "\x7d" = some (.script, filter) :=
      (nftStep_literal (by decide) rfl).trans rfl
    simp [closing, Slot.text]
  rw [nftRead, whole]
  rfl

/-! The filter of the iptables script. -/

theorem restoreStep_rule {names : ProtocolNames} {row : RuleRow} {hook : Hook} {rule : FilterRule}
    (denoted : restoreDenotes names row = some (hook, rule)) (filter : Filter) :
    restoreStep names (true, filter) (ruleLine "iptables" row) =
      some (true, { filter with rules := filter.rules ++ [(hook, rule)] }) := by
  obtain ⟨words, read, appended⟩ := Option.bind_eq_some_iff.mp denoted
  have line : ruleLine "iptables" row = iptablesLine row := if_pos rfl
  have dash : (iptablesLine row).toList.head? = some '-' := by
    rw [iptablesLine_eq]
    simp only [String.append_assoc]
    exact head?_literal _
  have visible : (iptablesLine row).toList.head? ≠ some '#' := by
    rw [dash]
    decide
  have apart {c : Char} {text : List Char} (other : c ≠ '-') : iptablesLine row ≠ String.ofList (c :: text) := by
    intro same
    rw [same, String.toList_ofList] at dash
    exact other (Option.some.inj dash)
  have start : words.take 1 = ["-A"] := by
    by_contra other
    rw [restoreAppend, if_neg other] at appended
    cases appended
  have append : ¬ (words.length = 3 ∧ (words.head?).bind (·.toList.head?) = some ':') := by
    rintro ⟨-, colon⟩
    cases words with
    | nil => cases start
    | cons first rest =>
      have same : first = "-A" := by simpa using start
      have flag : ("-A" : String).toList = ['-', 'A'] := String.toList_ofList
      rw [List.head?_cons, Option.bind_some, same, flag] at colon
      exact absurd colon (by decide)
  rw [line, restoreStep_words visible ⟨apart (by decide), apart (by decide)⟩ read, restoreWords,
    if_neg append, appended]
  rfl

theorem foldlM_restored {names : ProtocolNames} {rule : RuleRow → FilterRule} {rows : List RuleRow}
    (denoted : ∀ row ∈ rows, restoreDenotes names row = some (hookOf row, rule row)) (filter : Filter) :
    (rows.map (ruleLine "iptables")).foldlM (restoreStep names) (true, filter) =
      some (true, { filter with rules := filter.rules ++ rows.map fun row => (hookOf row, rule row) }) := by
  induction rows generalizing filter with
  | nil => simp
  | cons row rows ih =>
    have here := restoreStep_rule (denoted row List.mem_cons_self) filter
    rw [List.map_cons, List.foldlM_cons, here]
    refine (ih (fun other member => denoted other (List.mem_cons_of_mem _ member)) _).trans ?_
    simp

theorem foldlM_policies (names : ProtocolNames) (ruleset : Ruleset) :
    ["# sysdeck-firewall: ruleset '" ++ ruleset.name ++
        "' (backend iptables) — iptables-restore format",
      "*filter", ":INPUT DROP [0:0]", ":FORWARD DROP [0:0]", ":OUTPUT ACCEPT [0:0]"].foldlM
      (restoreStep names) (false, ⟨[], []⟩) = some (true, ⟨policies, []⟩) := by
  have header : restoreStep names (false, ⟨[], []⟩) ("# sysdeck-firewall: ruleset '" ++ ruleset.name ++
      "' (backend iptables) — iptables-restore format") = some (false, ⟨[], []⟩) := by
    refine if_pos ?_
    rw [String.append_assoc]
    exact head?_literal _
  have start : restoreStep names (false, ⟨[], []⟩) "*filter" = some (true, ⟨[], []⟩) := by
    rw [restoreStep, (String.toList_ofList : ("*filter" : String).toList = _)]
    rfl
  have visible {c : Char} {text : List Char} (other : c ≠ '#') :
      (String.ofList (c :: text)).toList.head? ≠ some '#' := by
    rw [String.toList_ofList]
    exact fun same => other (Option.some.inj same)
  have hooks : tableHook (String.ofList ((":INPUT" : String).toList.drop 1)) = some .input ∧
      tableHook (String.ofList ((":FORWARD" : String).toList.drop 1)) = some .forward ∧
      tableHook (String.ofList ((":OUTPUT" : String).toList.drop 1)) = some .output := by
    simp [tableHook]
  have colon : (":INPUT" : String).toList.head? = some ':' ∧
      (":FORWARD" : String).toList.head? = some ':' ∧ (":OUTPUT" : String).toList.head? = some ':' := by
    simp
  have policy {line chain word counters : String} {hook : Hook} {given : Verdict}
      (other : line ≠ "*filter" ∧ line ≠ "COMMIT") (shown : line.toList.head? ≠ some '#')
      (read : tokens iptablesDialect line = some [chain, word, counters])
      (colon : chain.toList.head? = some ':')
      (known : tableHook (String.ofList (chain.toList.drop 1)) = some hook)
      (value : tablePolicy word = some given) (filter : Filter) :
      restoreStep names (true, filter) line =
        some (true, { filter with policies := filter.policies ++ [(hook, given)] }) := by
    have three : [chain, word, counters].length = 3 ∧
        (([chain, word, counters].head?).bind (·.toList.head?)) = some ':' := ⟨rfl, colon⟩
    rw [restoreStep_words shown other read, restoreWords, if_pos three]
    simp only [List.head?_cons, Option.getD_some, known, List.getElem?_cons_succ,
      List.getElem?_cons_zero, Option.bind_some, value, Option.map_some]
  rw [List.foldlM_cons, header, Option.bind_eq_bind, Option.bind_some, List.foldlM_cons, start,
    Option.bind_eq_bind, Option.bind_some, List.foldlM_cons,
    policy (by simp) (visible (by decide)) (tokens_literal rfl) colon.1 hooks.1 rfl,
    Option.bind_eq_bind, Option.bind_some, List.foldlM_cons,
    policy (by simp) (visible (by decide)) (tokens_literal rfl) colon.2.1 hooks.2.1 rfl,
    Option.bind_eq_bind, Option.bind_some, List.foldlM_cons,
    policy (by simp) (visible (by decide)) (tokens_literal rfl) colon.2.2 hooks.2.2 rfl]
  rfl

theorem restoreRead_script {names : ProtocolNames} {ruleset : Ruleset} {rules : List RuleRow}
    {rule : RuleRow → FilterRule}
    (lines : linesOf (iptablesScript ruleset rules) =
      (iptablesFrame ruleset rules).map (Slot.text "iptables"))
    (denoted : ∀ row ∈ rules, restoreDenotes names row = some (hookOf row, rule row)) :
    restoreRead names (iptablesScript ruleset rules) =
      some ⟨policies, rules.map fun row => (hookOf row, rule row)⟩ := by
  have whole : (linesOf (iptablesScript ruleset rules)).foldlM (restoreStep names) (false, ⟨[], []⟩) =
      some (false, ⟨policies, rules.map fun row => (hookOf row, rule row)⟩) := by
    have fixed (texts : List String) : (texts.map Slot.fixed).map (Slot.text "iptables") = texts := by
      rw [List.map_map]
      exact List.map_id texts
    have ruled : (rules.map Slot.rule).map (Slot.text "iptables") = rules.map (ruleLine "iptables") := by
      rw [List.map_map]
      rfl
    have commit (filter : Filter) : restoreStep names (true, filter) "COMMIT" = some (false, filter) := by
      simp [restoreStep]
    rw [lines, iptablesFrame, List.map_append, List.map_append, fixed, ruled, List.foldlM_append,
      List.foldlM_append]
    simp only [Option.bind_eq_bind]
    rw [foldlM_policies, Option.bind_some, foldlM_restored denoted, Option.bind_some]
    simp [Slot.text, commit]
  rw [restoreRead, whole]
  rfl

/-! Both filters. -/

theorem rulesAt_map {rows : List RuleRow} {rule : RuleRow → FilterRule} (hook : Hook) :
    (Filter.mk policies (rows.map fun row => (hookOf row, rule row))).rulesAt hook =
      (rows.filter (hookOf · = hook)).map rule := by
  rw [Filter.rulesAt, List.filter_map, List.map_map]
  rfl

/-- The chain of a hook, as the rows name it. -/
def Hook.chain : Hook → String
  | .input => "INPUT"
  | .forward => "FORWARD"
  | .output => "OUTPUT"

theorem hookOf_eq_iff {row : RuleRow} (checked : row.Checked) (hooked : row.chain ≠ "POLICY")
    (hook : Hook) : hookOf row = hook ↔ row.chain = hook.chain := by
  have chain := checked.chain
  simp only [List.mem_cons, List.not_mem_nil, or_false] at chain
  rcases chain with same | same | same | same
  · rw [hookOf, same]
    cases hook <;> simp [Hook.chain, tableHook]
  · rw [hookOf, same]
    cases hook <;> simp [Hook.chain, tableHook]
  · rw [hookOf, same]
    cases hook <;> simp [Hook.chain, tableHook]
  · exact absurd same hooked

theorem mem_nftOrder {rules : List RuleRow} {row : RuleRow} (member : row ∈ nftOrder rules) :
    row ∈ rules := by
  simp only [nftOrder, List.mem_append, List.mem_filter] at member
  tauto

/-- nft keeps the order of the rules of one hook. -/
theorem nftOrder_hook {rules : List RuleRow} (rows : ∀ row ∈ rules, row.Checked)
    (hooked : ∀ row ∈ rules, row.chain ≠ "POLICY") (hook : Hook) :
    (nftOrder rules).filter (hookOf · = hook) = rules.filter (hookOf · = hook) := by
  have same {row : RuleRow} (member : row ∈ rules) :
      decide (hookOf row = hook) = decide (row.chain = hook.chain) := by
    simp only [hookOf_eq_iff (rows row member) (hooked row member)]
  calc
    (nftOrder rules).filter (hookOf · = hook) = (nftOrder rules).filter (·.chain = hook.chain) :=
      List.filter_congr fun row member => same (mem_nftOrder member)
    _ = rules.filter (·.chain = hook.chain) := filter_chains rules hook.chain
    _ = rules.filter (hookOf · = hook) := List.filter_congr fun row member => (same member).symm

/-- The scripts of a list of rules agree: rule by rule, and as filters. -/
structure Agree (names : ProtocolNames) (ruleset : Ruleset) (rules : List RuleRow) : Prop where
  rule : ∀ row ∈ rules, RuleAgrees names row
  filter : ∃ nft restored, nftRead (nftScript ruleset rules) = some nft ∧
    restoreRead names (iptablesScript ruleset rules) = some restored ∧
    nft.policies = restored.policies ∧
    ∀ hook packet, nft.verdict hook packet = restored.verdict hook packet

/-- The rule that a part of both tools reads, or one that says nothing. -/
def nftRuleOf (row : RuleRow) : FilterRule := (nftDenotes row).getD ⟨[], .log⟩

def restoredRuleOf (names : ProtocolNames) (row : RuleRow) : FilterRule :=
  ((restoreDenotes names row).map Prod.snd).getD ⟨[], .log⟩

theorem denoted_of_agrees {names : ProtocolNames} {row : RuleRow} (agrees : RuleAgrees names row) :
    nftDenotes row = some (nftRuleOf row) ∧
      restoreDenotes names row = some (hookOf row, restoredRuleOf names row) ∧
      (nftRuleOf row).rule = (restoredRuleOf names row).rule := by
  obtain ⟨hook, nft, restored, named, denoted, restoredBy, action, same⟩ := agrees
  have nftRule : nftRuleOf row = nft := by rw [nftRuleOf, denoted]; rfl
  have restoredRule : restoredRuleOf names row = restored := by rw [restoredRuleOf, restoredBy]; rfl
  have hookRow : hookOf row = hook := by rw [hookOf, named]; rfl
  have holds : nft.holds = restored.holds := funext same
  refine ⟨by rw [nftRule, denoted], by rw [hookRow, restoredRule, restoredBy], ?_⟩
  rw [nftRule, restoredRule, FilterRule.rule, FilterRule.rule, action, holds]

/-- Rules that agree one by one are the same filter. -/
theorem agree_of_rules {names : ProtocolNames} {ruleset : Ruleset} {rules : List RuleRow}
    (checked : ruleset.Checked) (rows : ∀ row ∈ rules, row.Checked)
    (hooked : ∀ row ∈ rules, row.chain ≠ "POLICY") (uniform : ∀ row ∈ rules, Uniform names row) :
    Agree names ruleset rules := by
  have agrees : ∀ row ∈ rules, RuleAgrees names row := fun row member =>
    uniform_agrees (rows row member) (hooked row member) (uniform row member)
  refine ⟨agrees, _, _,
    nftRead_script rows hooked
      (linesOf_nftScript checked rows fun row member =>
        nftLine_oneLine (rows row member) (uniform row member))
      fun row member => (denoted_of_agrees (agrees row member)).1,
    restoreRead_script
      (linesOf_iptablesScript checked fun row member =>
        iptablesLine_oneLine (rows row member) (uniform row member))
      fun row member => (denoted_of_agrees (agrees row member)).2.1, rfl, ?_⟩
  intro hook packet
  have rulesSame : (rules.filter (hookOf · = hook)).map (fun row => (nftRuleOf row).rule) =
      (rules.filter (hookOf · = hook)).map fun row => (restoredRuleOf names row).rule :=
    List.map_congr_left fun row member =>
      (denoted_of_agrees (agrees row (List.mem_of_mem_filter member))).2.2
  simp only [Filter.verdict, rulesAt_map, nftOrder_hook rows hooked, List.map_map, Function.comp_def,
    rulesSame]

/-- The names that the examples use. -/
def ProtocolNames.known' : ProtocolNames where
  read text := (("all", 0) :: portProtocols).lookup text
  known := by
    simp only [portProtocols, List.forall_mem_cons]
    exact ⟨rfl, rfl, rfl, rfl, rfl, fun _ member => by cases member⟩

def edge : Ruleset :=
  { name := "edge", backend := "nftables", template := none, active := false, appliedAt := none }

theorem edge_checked : edge.Checked where
  name := by rfl
  backend := List.mem_cons_self
  template := fun _ given => by cases given

/-- ssh from one network. -/
def sshRow : RuleRow :=
  { ruleset := "edge", chain := "INPUT", action := "accept", proto := "tcp", port := some "22"
    source := some "10.0.0.0/8", comment := some "ssh", position := 1 }

/-- TCP from one network, at any port. -/
def anyPortRow : RuleRow := { sshRow with port := none }

def udpPacket : Packet :=
  { protocol := 17, source := 0x0A010203#32, dport := 53, iifname := some "eth0", ctstate := .new }

end SysDeck.Web.Firewall
