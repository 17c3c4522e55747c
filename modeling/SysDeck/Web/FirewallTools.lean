import SysDeck.Library.Ipv4
import SysDeck.Library.PacketFilter
import SysDeck.Library.Words
import SysDeck.Web.FirewallScript

/-! What nft and iptables-restore read in the scripts of the bridge: the part of their
languages that its renderers use. -/

namespace SysDeck.Web.Firewall

open Quoting Ipv4
open PacketFilter (CtState)

/-- An IPv4 packet at a hook. One that the host sends has come in on no interface. -/
structure Packet where
  protocol : ℕ
  source : BitVec 32
  dport : BitVec 16
  iifname : Option String
  ctstate : CtState
  deriving DecidableEq

inductive Hook where
  | input
  | forward
  | output
  deriving DecidableEq

inductive Verdict where
  | accept
  | drop
  | reject
  deriving DecidableEq

inductive Action where
  | verdict (verdict : Verdict)
  | log
  deriving DecidableEq

inductive Condition where
  | established
  | iifname (name : String)
  | saddr (cidr : Cidr)
  | protocol (number : ℕ)
  | dport (port : BitVec 16)
  deriving DecidableEq

def Condition.holds (packet : Packet) : Condition → Bool
  | established => packet.ctstate = .established || packet.ctstate = .related
  | iifname name => packet.iifname = some name
  | saddr cidr => cidr.contains packet.source
  | protocol number => packet.protocol = number
  | dport port => packet.dport = port

structure FilterRule where
  conditions : List Condition
  action : Action
  deriving DecidableEq

def FilterRule.holds (rule : FilterRule) (packet : Packet) : Bool :=
  rule.conditions.all (Condition.holds packet)

/-- A rule that logs goes on to the next one. -/
def FilterRule.rule (rule : FilterRule) : PacketFilter.Rule Packet Verdict :=
  match rule.action with
  | .verdict verdict => .on rule.holds verdict
  | .log => .pass

/-- The policies of the hooks, and the rules in their order. -/
structure Filter where
  policies : List (Hook × Verdict)
  rules : List (Hook × FilterRule)
  deriving DecidableEq

def Filter.rulesAt (filter : Filter) (hook : Hook) : List FilterRule :=
  (filter.rules.filter (·.1 = hook)).map Prod.snd

def Filter.verdict (filter : Filter) (hook : Hook) (packet : Packet) : Option Verdict :=
  (filter.policies.lookup hook).map fun policy =>
    PacketFilter.hook ((filter.rulesAt hook).map FilterRule.rule) policy packet

/-! The words of a line. -/

/-- The words of a line whose quotes are closed. -/
def tokens (dialect : Dialect) (line : String) : Option (List String) :=
  if dialect.modeAfter .plain line.toList = .plain then
    some ((dialect.words line.toList).map String.ofList)
  else none

theorem tokens_literal {dialect : Dialect} {text : List Char}
    (closed : dialect.modeAfter .plain text = .plain) :
    tokens dialect (String.ofList text) = some ((dialect.words text).map String.ofList) := by
  rw [tokens, String.toList_ofList, if_pos closed]

def quotedToken (token : String) : Bool :=
  token.toList.head? = some '"' && token.toList.getLast? = some '"' && token.toList.length ≥ 2

def readAction (accept drop reject log : String) (token : String) : Option Action :=
  if token = accept then some (.verdict .accept)
  else if token = drop then some (.verdict .drop)
  else if token = reject then some (.verdict .reject)
  else if token = log then some .log
  else none

/-- The transport protocols with ports. -/
def portProtocols : List (String × ℕ) :=
  [("tcp", 6), ("udp", 17), ("udplite", 136), ("sctp", 132), ("dccp", 33)]

/-! nft -/

def nftAction : List String → Option Action
  | [action] => readAction "accept" "drop" "reject" "log" action
  | [action, lead, comment] =>
    if lead = "comment" ∧ quotedToken comment then
      readAction "accept" "drop" "reject" "log" action
    else none
  | _ => none

/-- The ports of a rule, where it has any, and its action. -/
def nftPorts (words : List String) : Option FilterRule :=
  match words with
  | protocol :: field :: port :: rest =>
    if field = "dport" then do
      let protocol ← portProtocols.lookup protocol
      let port ← readPort port
      let action ← nftAction rest
      some ⟨[.protocol protocol, .dport port], action⟩
    else (nftAction words).map (⟨[], ·⟩)
  | _ => (nftAction words).map (⟨[], ·⟩)

def nftRule (words : List String) : Option FilterRule :=
  if words.take 3 = ["ct", "state", "established,related"] then
    (nftAction (words.drop 3)).map (⟨[.established], ·⟩)
  else if words.take 2 = ["iifname", "\"lo\""] then
    (nftAction (words.drop 2)).map (⟨[.iifname "lo"], ·⟩)
  else if words.take 2 = ["ip", "saddr"] then do
    let source ← (words[2]?).bind readCidr
    let rule ← nftPorts (words.drop 3)
    some { rule with conditions := .saddr source :: rule.conditions }
  else nftPorts words

def chainHook (name : String) : Option Hook :=
  if name = "input" then some .input
  else if name = "forward" then some .forward
  else if name = "output" then some .output
  else none

def chainPolicy (word : String) : Option Verdict :=
  if word = "accept;" then some .accept else if word = "drop;" then some .drop else none

/-- Where a line of an nft script stands. -/
inductive NftBlock where
  | script
  | table
  | set
  | chain (hook : Hook)
  deriving DecidableEq

/-- A line of a chain: a rule, the declaration of its hook, or its end. -/
def nftChainLine (hook : Hook) (filter : Filter) (words : List String) :
    Option (NftBlock × Filter) :=
  match nftRule words with
  | some rule => some (.chain hook, { filter with rules := filter.rules ++ [(hook, rule)] })
  | none =>
    if words = ["\x7d"] then some (.table, filter)
    else if words.take 3 = ["type", "filter", "hook"] ∧
        (words[3]?).bind chainHook = some hook ∧
        (words.drop 4).take 3 = ["priority", "filter;", "policy"] then
      (((words.drop 7).head?).bind chainPolicy).map fun policy =>
        (.chain hook, { filter with policies := filter.policies ++ [(hook, policy)] })
    else none

/-- The words of a line, where it stands. -/
def nftWords (block : NftBlock) (filter : Filter) (words : List String) : Option (NftBlock × Filter) :=
  if words = [] then some (block, filter)
  else
    match block with
    | .script =>
      if words = ["flush", "ruleset"] then some (.script, ⟨[], []⟩)
      else if words = ["table", "inet", "firewall", "\x7b"] then some (.table, filter)
      else none
    | .table =>
      if words = ["\x7d"] then some (.script, filter)
      else if words.take 1 = ["set"] ∧ words.drop 2 = ["\x7b"] then some (.set, filter)
      else if words.take 1 = ["chain"] ∧ words.drop 2 = ["\x7b"] then
        ((words[1]?).bind chainHook).map fun hook => (.chain hook, filter)
      else none
    | .set => some (if words = ["\x7d"] then .table else .set, filter)
    | .chain hook => nftChainLine hook filter words

def nftStep (state : NftBlock × Filter) (line : String) : Option (NftBlock × Filter) :=
  if line.toList.head? = some '#' then some state
  else (tokens nftDialect line).bind (nftWords state.1 state.2)

theorem head?_literal {c : Char} {text : List Char} (rest : String) :
    (String.ofList (c :: text) ++ rest).toList.head? = some c := by
  rw [String.toList_append, String.toList_ofList]
  rfl

theorem nftStep_comment {line : String} (comment : line.toList.head? = some '#')
    (state : NftBlock × Filter) : nftStep state line = some state := if_pos comment

theorem nftStep_literal {text : List Char} {state : NftBlock × Filter}
    (visible : text.head? ≠ some '#') (closed : nftDialect.modeAfter .plain text = .plain) :
    nftStep state (String.ofList text) =
      nftWords state.1 state.2 ((nftDialect.words text).map String.ofList) := by
  rw [nftStep, String.toList_ofList, if_neg visible, tokens_literal closed, Option.bind_some]

def linesOf (text : String) : List String := (text.toList.splitOn '\n').map String.ofList

/-- The filter that an nft script loads. -/
def nftRead (text : String) : Option Filter :=
  ((linesOf text).foldlM nftStep (.script, ⟨[], []⟩)).bind fun (block, filter) =>
    if block = .script then some filter else none

/-! iptables-restore -/

/-- The names and numbers that `-p` knows; 0 is any protocol. -/
structure ProtocolNames where
  read : String → Option ℕ
  known : ∀ entry ∈ portProtocols, read entry.1 = some entry.2

def restoreAction : List String → Option Action
  | [jump, target] =>
    if jump = "-j" then readAction "ACCEPT" "DROP" "REJECT" "LOG" target else none
  | [jump, target, load, extension, option, comment] =>
    if jump = "-j" ∧ load = "-m" ∧ extension = "comment" ∧ option = "--comment" ∧
        quotedToken comment then
      readAction "ACCEPT" "DROP" "REJECT" "LOG" target
    else none
  | _ => none

def restoreSource (words : List String) : Option FilterRule :=
  if words.take 1 = ["-s"] then do
    let source ← (words[1]?).bind readCidr
    let action ← restoreAction (words.drop 2)
    some ⟨[.saddr source], action⟩
  else (restoreAction words).map (⟨[], ·⟩)

def restoreProtocol (protocol : ℕ) (words : List String) : Option FilterRule :=
  if words.take 1 = ["--dport"] then
    if protocol ∈ portProtocols.map Prod.snd then do
      let port ← (words[1]?).bind readPort
      let rule ← restoreSource (words.drop 2)
      some { rule with conditions := [.protocol protocol, .dport port] ++ rule.conditions }
    else none
  else
    (restoreSource words).map fun rule =>
      { rule with
        conditions := (if protocol = 0 then [] else [.protocol protocol]) ++ rule.conditions }

/-- The options of a rule. An output chain has no input interface to test. -/
def restoreRule (names : ProtocolNames) (hook : Hook) (words : List String) : Option FilterRule :=
  if words.take 4 = ["-m", "conntrack", "--ctstate", "ESTABLISHED,RELATED"] then
    (restoreAction (words.drop 4)).map (⟨[.established], ·⟩)
  else if words.take 2 = ["-i", "lo"] then
    if hook = .output then none else (restoreAction (words.drop 2)).map (⟨[.iifname "lo"], ·⟩)
  else if words.take 1 = ["-p"] then
    ((words[1]?).bind names.read).bind fun protocol => restoreProtocol protocol (words.drop 2)
  else none

def tableHook (name : String) : Option Hook :=
  if name = "INPUT" then some .input
  else if name = "FORWARD" then some .forward
  else if name = "OUTPUT" then some .output
  else none

def tablePolicy (word : String) : Option Verdict :=
  if word = "ACCEPT" then some .accept else if word = "DROP" then some .drop else none

/-- A line that appends a rule, with the hook of its chain. -/
def restoreAppend (names : ProtocolNames) (words : List String) : Option (Hook × FilterRule) :=
  if words.take 1 = ["-A"] then
    ((words[1]?).bind tableHook).bind fun hook =>
      (restoreRule names hook (words.drop 2)).map fun rule => (hook, rule)
  else none

/-- The words of a line: the policy of a chain, or a rule. -/
def restoreWords (names : ProtocolNames) (open' : Bool) (filter : Filter) (words : List String) :
    Option (Bool × Filter) :=
  if words.length = 3 ∧ (words.head?).bind (·.toList.head?) = some ':' then
    let chain := ((words.head?).getD "").toList.drop 1
    (tableHook (String.ofList chain)).bind fun hook =>
      ((words[1]?).bind tablePolicy).map fun policy =>
        (open', { filter with policies := filter.policies ++ [(hook, policy)] })
  else
    (restoreAppend names words).map fun rule =>
      (open', { filter with rules := filter.rules ++ [rule] })

def restoreStep (names : ProtocolNames) (state : Bool × Filter) (line : String) :
    Option (Bool × Filter) :=
  if line.toList.head? = some '#' then some state
  else if line = "*filter" then some (true, state.2)
  else if line = "COMMIT" then some (false, state.2)
  else (tokens iptablesDialect line).bind (restoreWords names state.1 state.2)

theorem restoreStep_words {names : ProtocolNames} {line : String} {words : List String}
    (visible : line.toList.head? ≠ some '#') (other : line ≠ "*filter" ∧ line ≠ "COMMIT")
    (read : tokens iptablesDialect line = some words) (state : Bool × Filter) :
    restoreStep names state line = restoreWords names state.1 state.2 words := by
  rw [restoreStep, if_neg visible, if_neg other.1, if_neg other.2, read, Option.bind_some]

/-- The filter that iptables-restore commits. -/
def restoreRead (names : ProtocolNames) (text : String) : Option Filter :=
  ((linesOf text).foldlM (restoreStep names) (false, ⟨[], []⟩)).bind fun (open', filter) =>
    if open' = false then some filter else none

end SysDeck.Web.Firewall
