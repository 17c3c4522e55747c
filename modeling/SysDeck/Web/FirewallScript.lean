import SysDeck.Library.Quoting
import SysDeck.Web.FirewallCommands

/-! The lines of a rendered script: a skeleton of the chains, with a line for each rule. The
rules that keep to their line are told from the parts that are printed. -/

namespace SysDeck.Web.Firewall

open Quoting

/-- nft groups with braces, separates with semicolons and reads comments; a quoted part of it
ends at the next quote. -/
def nftDialect : Dialect where
  grouping := ['\x7b', '\x7d', ';', '#']
  escapes := false
  unquoted := by decide

/-- In a quoted part of iptables-restore a backslash hides the next character. -/
def iptablesDialect : Dialect where
  grouping := ['\x7b', '\x7d']
  escapes := true
  unquoted := by simp

def dialectOf (backend : String) : Dialect :=
  if backend = "iptables" then iptablesDialect else nftDialect

/-- The line of a rule in the script of its backend. -/
def ruleLine (backend : String) (row : RuleRow) : String :=
  if backend = "iptables" then iptablesLine row else "    " ++ nftLine row

/-- A line of a script: of the skeleton, or of a rule. -/
inductive Slot where
  | fixed (text : String)
  | rule (row : RuleRow)

namespace Slot

def text (backend : String) : Slot → String
  | fixed text => text
  | rule row => ruleLine backend row

def row? : Slot → Option RuleRow
  | fixed _ => none
  | rule row => some row

def map (change : RuleRow → RuleRow) : Slot → Slot
  | fixed text => fixed text
  | rule row => rule (change row)

end Slot

/-- The line that names the ruleset. -/
def nftHeader (ruleset : Ruleset) : String :=
  "# sysdeck-firewall: ruleset '" ++ ruleset.name ++ "' (backend " ++ ruleset.backend ++
    (match truthy ruleset.template with
      | some template => ", template " ++ template
      | none => "") ++ ")"

/-- A rule of neither INPUT nor FORWARD has a chain to itself. -/
def otherBlock (row : RuleRow) : List Slot :=
  [.fixed ("  chain " ++ otherChain row.chain ++ " \x7b"), .rule row, .fixed "  \x7d"]

/-- The lines of the nft script, in the blocks that are joined. -/
def nftBlocks (ruleset : Ruleset) (rules : List RuleRow) : List (List Slot) :=
  ["#!/usr/sbin/nft -f", nftHeader ruleset, "flush ruleset", "", "table inet firewall \x7b",
    "  set ssh_abuse \x7b", "    type ipv4_addr", "    flags timeout", "    timeout 1h", "  \x7d",
    "  chain input \x7b",
    "    type filter hook input priority filter; policy drop;"].map (fun text => [.fixed text]) ++
  (rules.filter (·.chain = "INPUT")).map (fun row => [.rule row]) ++
  ["  \x7d", "  chain forward \x7b",
    "    type filter hook forward priority filter; policy drop;"].map (fun text => [.fixed text]) ++
  (rules.filter (·.chain = "FORWARD")).map (fun row => [.rule row]) ++
  ["  \x7d", "  chain output \x7b",
    "    type filter hook output priority filter; policy accept;",
    "  \x7d"].map (fun text => [.fixed text]) ++
  (rules.filter fun row => row.chain ≠ "INPUT" ∧ row.chain ≠ "FORWARD").map otherBlock ++
  [[.fixed "\x7d"]]

def iptablesFrame (ruleset : Ruleset) (rules : List RuleRow) : List Slot :=
  ["# sysdeck-firewall: ruleset '" ++ ruleset.name ++
      "' (backend iptables) — iptables-restore format",
    "*filter", ":INPUT DROP [0:0]", ":FORWARD DROP [0:0]", ":OUTPUT ACCEPT [0:0]"].map .fixed ++
  rules.map .rule ++ [.fixed "COMMIT"]

/-- The lines of the script of a ruleset: a skeleton, with a place for each rule. -/
def frame (ruleset : Ruleset) (rules : List RuleRow) : List Slot :=
  if ruleset.backend = "iptables" then iptablesFrame ruleset rules
  else (nftBlocks ruleset rules).flatten

/-- A rule of the same chain without any text of its own. -/
def RuleRow.bare (row : RuleRow) : RuleRow :=
  { row with action := "accept", proto := "tcp", port := none, source := none, comment := none }

/-- The script has one line for each rule, which opens and closes nothing around it; all
other lines are the skeleton, and the marks of the script are those of any ruleset with
as many rules in the same chains. -/
structure RendersSafely (ruleset : Ruleset) (rules : List RuleRow) : Prop where
  lines : (synthesized ruleset rules).toList.splitOn '\n' =
    (frame ruleset rules).map fun slot => (slot.text ruleset.backend).toList
  onePerRule : ((frame ruleset rules).filterMap Slot.row?).Perm rules
  contained : ∀ row ∈ rules,
    (dialectOf ruleset.backend).Contained (ruleLine ruleset.backend row).toList
  outline : (dialectOf ruleset.backend).marks (synthesized ruleset rules).toList =
    (dialectOf ruleset.backend).marks (synthesized ruleset (rules.map RuleRow.bare)).toList

/-! The script is its frame. -/

/-- A block of the script as its text. -/
def blockText (backend : String) (block : List Slot) : String :=
  "\n".intercalate (block.map (Slot.text backend))

theorem blockText_single (backend : String) (slot : Slot) :
    blockText backend [slot] = slot.text backend := String.intercalate_singleton

theorem blockText_otherBlock {backend : String} (rendered : backend ≠ "iptables") (row : RuleRow) :
    blockText backend (otherBlock row) =
      "  chain " ++ otherChain row.chain ++ " \x7b\n    " ++ nftLine row ++ "\n  \x7d" := by
  have opening : (" \x7b\n    " : String) = " \x7b" ++ ("\n" ++ "    ") := by simp
  have closing : ("\n  \x7d" : String) = "\n" ++ "  \x7d" := by simp
  have line : ruleLine backend row = "    " ++ nftLine row := if_neg rendered
  simp only [blockText, otherBlock, List.map_cons, List.map_nil, String.intercalate_cons_cons,
    String.intercalate_singleton, Slot.text, line]
  rw [opening, closing]
  simp only [String.append_assoc]

theorem nftScript_blocks {backend : String} (rendered : backend ≠ "iptables") (ruleset : Ruleset)
    (rules : List RuleRow) :
    nftScript ruleset rules = "\n".intercalate ((nftBlocks ruleset rules).map (blockText backend)) := by
  have line (row : RuleRow) : ruleLine backend row = "    " ++ nftLine row := if_neg rendered
  rw [nftScript, nftBlocks]
  simp only [List.map_append, List.map_map, Function.comp_def, blockText_single, Slot.text, line,
    blockText_otherBlock rendered, List.map_id', List.map_cons (f := blockText backend)]
  rfl

theorem toList_newline : ("\n" : String).toList = ['\n'] := by simp

theorem nftBlocks_ne_nil {ruleset : Ruleset} {rules : List RuleRow} :
    ∀ block ∈ nftBlocks ruleset rules, block ≠ [] := by
  simp only [nftBlocks, List.forall_mem_append, List.forall_mem_map]
  simp [otherBlock]

theorem toList_iptablesScript (ruleset : Ruleset) (rules : List RuleRow) :
    (iptablesScript ruleset rules).toList = ['\n'].intercalate
      ((iptablesFrame ruleset rules).map fun slot => (slot.text "iptables").toList) := by
  have line (row : RuleRow) : ruleLine "iptables" row = iptablesLine row := if_pos rfl
  rw [iptablesScript, iptablesFrame, String.toList_intercalate, toList_newline]
  simp only [List.map_append, List.map_map, Function.comp_def, Slot.text, line, List.map_cons,
    List.map_nil]

theorem toList_nftScript {backend : String} (rendered : backend ≠ "iptables") (ruleset : Ruleset)
    (rules : List RuleRow) :
    (nftScript ruleset rules).toList = ['\n'].intercalate
      ((nftBlocks ruleset rules).flatten.map fun slot => (slot.text backend).toList) := by
  have block (slots : List Slot) : (blockText backend slots).toList =
      ['\n'].intercalate (slots.map fun slot => (slot.text backend).toList) := by
    rw [blockText, String.toList_intercalate, toList_newline, List.map_map]
    rfl
  have nonempty : ∀ lines ∈ (nftBlocks ruleset rules).map
      (List.map fun slot => (slot.text backend).toList), lines ≠ [] := by
    intro lines member
    obtain ⟨slots, inside, rfl⟩ := List.mem_map.mp member
    simpa using nftBlocks_ne_nil slots inside
  rw [nftScript_blocks rendered, String.toList_intercalate, toList_newline, List.map_flatten,
    ← Text.intercalate_flatten nonempty]
  simp only [List.map_map, Function.comp_def, block]

/-- The script of a ruleset is its frame, line by line. -/
theorem toList_synthesized (ruleset : Ruleset) (rules : List RuleRow) :
    (synthesized ruleset rules).toList = ['\n'].intercalate
      ((frame ruleset rules).map fun slot => (slot.text ruleset.backend).toList) := by
  by_cases restored : ruleset.backend = "iptables"
  · rw [synthesized, if_pos restored, frame, if_pos restored, toList_iptablesScript, restored]
  · rw [synthesized, if_neg restored, frame, if_neg restored, toList_nftScript restored]

/-- A change of the rules that keeps their chains keeps the frame. -/
theorem frame_map (ruleset : Ruleset) (rules : List RuleRow) {change : RuleRow → RuleRow}
    (kept : ∀ row, (change row).chain = row.chain) :
    frame ruleset (rules.map change) = (frame ruleset rules).map (Slot.map change) := by
  unfold frame
  split
  · simp [iptablesFrame, Slot.map, Function.comp_def]
  · have other (row : RuleRow) : (otherBlock row).map (Slot.map change) = otherBlock (change row) := by
      simp [otherBlock, Slot.map, kept]
    simp only [nftBlocks, List.filter_map, Function.comp_def, kept, List.map_append, List.map_map,
      List.flatten_append, List.map_flatten, List.map_cons, List.map_nil, other, Slot.map]

theorem rows_fixed (texts : List String) : (texts.map Slot.fixed).filterMap Slot.row? = [] := by
  rw [List.filterMap_map, List.filterMap_eq_nil_iff]
  exact fun _ _ => rfl

theorem rows_rule (rules : List RuleRow) : (rules.map Slot.rule).filterMap Slot.row? = rules := by
  rw [List.filterMap_map]
  exact List.filterMap_some

theorem rows_blocks {block : RuleRow → List Slot} (one : ∀ row, (block row).filterMap Slot.row? = [row])
    (rules : List RuleRow) : ((rules.map block).flatten).filterMap Slot.row? = rules := by
  induction rules with
  | nil => rfl
  | cons row rules ih =>
    rw [List.map_cons, List.flatten_cons, List.filterMap_append, one, ih, List.singleton_append]

theorem rows_fixedBlocks (texts : List String) :
    ((texts.map fun text => [Slot.fixed text]).flatten).filterMap Slot.row? = [] := by
  induction texts with
  | nil => rfl
  | cons text texts ih =>
    rw [List.map_cons, List.flatten_cons, List.filterMap_append, ih]
    rfl

theorem nftBlocks_rows (ruleset : Ruleset) (rules : List RuleRow) :
    (nftBlocks ruleset rules).flatten.filterMap Slot.row? =
      rules.filter (·.chain = "INPUT") ++ rules.filter (·.chain = "FORWARD") ++
        rules.filter fun row => row.chain ≠ "INPUT" ∧ row.chain ≠ "FORWARD" := by
  have single : ∀ rules : List RuleRow,
      ((rules.map fun row => [Slot.rule row]).flatten).filterMap Slot.row? = rules :=
    rows_blocks fun _ => rfl
  have block : ∀ rules : List RuleRow,
      ((rules.map otherBlock).flatten).filterMap Slot.row? = rules := rows_blocks fun _ => rfl
  simp only [nftBlocks, List.flatten_append, List.filterMap_append, rows_fixedBlocks, single, block]
  have last : (List.flatten [[Slot.fixed "\x7d"]]).filterMap Slot.row? = [] := rfl
  rw [last, List.nil_append, List.append_nil, List.append_nil, List.append_nil]

/-- The rules in the order of their lines. -/
theorem frame_rows_eq (ruleset : Ruleset) (rules : List RuleRow) :
    (frame ruleset rules).filterMap Slot.row? =
      if ruleset.backend = "iptables" then rules
      else rules.filter (·.chain = "INPUT") ++ rules.filter (·.chain = "FORWARD") ++
        rules.filter fun row => row.chain ≠ "INPUT" ∧ row.chain ≠ "FORWARD" := by
  unfold frame
  split
  · rw [iptablesFrame, List.filterMap_append, List.filterMap_append, rows_fixed, rows_rule]
    have last : [Slot.fixed "COMMIT"].filterMap Slot.row? = [] := rfl
    rw [last, List.append_nil, List.nil_append]
  · exact nftBlocks_rows ruleset rules

/-- Every rule has one line of the frame. -/
theorem frame_rows (ruleset : Ruleset) (rules : List RuleRow) :
    ((frame ruleset rules).filterMap Slot.row?).Perm rules := by
  rw [frame_rows_eq]
  split
  · exact .refl rules
  · have inner := List.filter_append_perm (fun row : RuleRow => decide (row.chain = "FORWARD"))
      (rules.filter fun row => !decide (row.chain = "INPUT"))
    have forward : (rules.filter fun row => !decide (row.chain = "INPUT")).filter
        (fun row => decide (row.chain = "FORWARD")) =
        rules.filter fun row => decide (row.chain = "FORWARD") := by
      rw [List.filter_filter]
      congr 1
      funext row
      by_cases named : row.chain = "FORWARD"
      · simp [named]
      · simp [named]
    have other : (rules.filter fun row => !decide (row.chain = "INPUT")).filter
        (fun row => !decide (row.chain = "FORWARD")) =
        rules.filter fun row => decide (row.chain ≠ "INPUT" ∧ row.chain ≠ "FORWARD") := by
      rw [List.filter_filter]
      congr 1
      funext row
      simp [and_comm]
    have outer := List.filter_append_perm (fun row : RuleRow => decide (row.chain = "INPUT")) rules
    rw [forward, other] at inner
    rw [List.append_assoc]
    exact (inner.append_left _).trans outer

/-- The rules of one chain, picked from those of all three. -/
theorem filter_chains (rules : List RuleRow) (chain : String) :
    (rules.filter (·.chain = "INPUT") ++ rules.filter (·.chain = "FORWARD") ++
      rules.filter fun row => row.chain ≠ "INPUT" ∧ row.chain ≠ "FORWARD").filter (·.chain = chain) =
      rules.filter (·.chain = chain) := by
  have within {accepts : RuleRow → Bool} (all : ∀ row, row.chain = chain → accepts row = true) :
      (rules.filter accepts).filter (·.chain = chain) = rules.filter (·.chain = chain) := by
    rw [List.filter_filter]
    refine List.filter_congr fun row _ => ?_
    by_cases named : row.chain = chain
    · simp [all row named]
    · simp [named]
  have apart {accepts : RuleRow → Bool} (none : ∀ row, row.chain = chain → accepts row = false) :
      (rules.filter accepts).filter (·.chain = chain) = [] := by
    rw [List.filter_filter, List.filter_eq_nil_iff]
    intro row _
    by_cases named : row.chain = chain
    · simp [none row named]
    · simp [named]
  rw [List.filter_append, List.filter_append]
  by_cases input : chain = "INPUT"
  · subst input
    rw [within fun row named => by simp [named], apart fun row named => by simp [named],
      apart fun row named => by simp [named], List.append_nil, List.append_nil]
  · by_cases forward : chain = "FORWARD"
    · subst forward
      rw [apart fun row named => by simp [named], within fun row named => by simp [named],
        apart fun row named => by simp [named], List.append_nil, List.nil_append]
    · rw [apart fun row named => by simp [named, input], apart fun row named => by simp [named, forward],
        within fun row named => by simp [named, input, forward], List.append_nil, List.nil_append]

/-- Within each chain the rules keep their order. -/
theorem frame_rows_chain (ruleset : Ruleset) (rules : List RuleRow) (chain : String) :
    ((frame ruleset rules).filterMap Slot.row?).filter (·.chain = chain) =
      rules.filter (·.chain = chain) := by
  rw [frame_rows_eq]
  split
  · rfl
  · exact filter_chains rules chain

/-! The line of a rule. -/

theorem safeComment_chars {comment : String} {c : Char} (member : c ∈ (safeComment comment).toList) :
    c ≠ '"' ∧ c ≠ '\n' := by
  rw [safeComment, String.toList_ofList] at member
  rcases Text.mem_slice member with plain | rfl
  · obtain ⟨d, -, rfl⟩ := List.mem_map.mp plain
    split
    · decide
    · rename_i printable
      split
      · decide
      · rename_i unquoted
        refine ⟨unquoted, ?_⟩
        rintro rfl
        exact printable (by decide)
  · decide

theorem safeComment_unquoted (comment : String) : '"' ∉ (safeComment comment).toList :=
  fun member => (safeComment_chars member).1 rfl

theorem safeComment_unescaped {comment : String} (plain : '\\' ∉ comment.toList) :
    '\\' ∉ (safeComment comment).toList := by
  intro member
  rw [safeComment, String.toList_ofList] at member
  rcases Text.mem_slice member with inside | replaced
  · obtain ⟨d, here, same⟩ := List.mem_map.mp inside
    split at same
    · exact absurd same (by decide)
    · split at same
      · exact absurd same (by decide)
      · exact plain (same ▸ here)
  · exact absurd replaced (by decide)

/-- The part of a line that carries the comment, after what introduces it. -/
def commentText (lead : String) (comment : Option String) : String :=
  match truthy comment with
  | some comment => lead ++ "\"" ++ safeComment comment ++ "\""
  | none => ""

/-- No comment leaves its quotes open. -/
def Closes (dialect : Dialect) (comment : Option String) : Prop :=
  ∀ text ∈ truthy comment, dialect.modeAfter .quoted (safeComment text).toList = .quoted

theorem closes_of_unescaped {dialect : Dialect} {comment : Option String}
    (plain : ∀ text ∈ truthy comment, '\\' ∉ text.toList) : Closes dialect comment :=
  fun text given => Dialect.modeAfter_quoted (.inr (safeComment_unescaped (plain text given)))
    (safeComment_unquoted text)

theorem contained_comment_iff {dialect : Dialect} {before front : List Char} {lead : String}
    {comment : Option String} (spaced : lead.toList = front ++ [' '])
    (bare : ∀ c ∈ front ++ [' '], dialect.Bare c) :
    dialect.Contained (before ++ (commentText lead comment).toList) ↔
      dialect.Contained before ∧ Closes dialect comment := by
  unfold commentText Closes
  cases truthy comment with
  | none => simp
  | some text =>
    have quotes : (lead ++ "\"" ++ safeComment text ++ "\"").toList =
        (front ++ [' ']) ++ ('"' :: (safeComment text).toList ++ ['"']) := by
      have mark : ("\"" : String).toList = ['"'] := by simp
      simp only [String.toList_append, spaced, mark, List.append_assoc, List.nil_append,
        List.cons_append]
    dsimp only
    rw [quotes, ← List.append_assoc]
    constructor
    · intro whole
      obtain ⟨outer, inner⟩ := whole.of_append_quote (safeComment_unquoted text) (by
        rw [← List.append_assoc]
        exact Dialect.modeAfter_blank_ne_escaped _ _)
      refine ⟨outer.of_append_unquoted fun member => (bare _ member).1 rfl, ?_⟩
      rintro _ ⟨⟩
      exact inner
    · rintro ⟨outer, closes⟩
      refine (outer.append (.of_bare bare)).append (.quote ⟨safeComment_unquoted text, ?_, closes text rfl⟩)
      exact fun member => (safeComment_chars member).2 rfl

/-- The checks of a rule that its renderers rely on. -/
structure RuleRow.Checked (row : RuleRow) : Prop where
  chain : row.chain ∈ ["INPUT", "FORWARD", "OUTPUT", "POLICY"]
  action : row.action ∈ ["accept", "drop", "reject", "log"]
  port : ∀ port ∈ row.port, validPort port
  source : ∀ source ∈ truthy row.source, validSource source

theorem RuleRow.checked_of_error? {row : RuleRow} (passed : row.error? = none) : row.Checked := by
  unfold RuleRow.error? at passed
  split at passed
  · cases passed
  · split at passed
    · cases passed
    · rename_i chain
      split at passed
      · cases passed
      · rename_i action
        split at passed
        · cases passed
        · rename_i port
          split at passed
          · cases passed
          · rename_i source
            refine ⟨not_not.mp chain, not_not.mp action, ?_, ?_⟩
            · intro text member
              rw [Option.mem_def.mp member] at port
              simpa using port
            · intro text member
              rw [Option.mem_def.mp member] at source
              simpa using source

/-- The characters of ports and sources. -/
def plainChar (c : Char) : Bool := isDigit c || c = ':' || c = '-' || c = '.' || c = '/'

theorem plainChar_of_validPort {port : String} (valid : validPort port) :
    ∀ c ∈ port.toList, plainChar c := by
  unfold validPort at valid
  rw [Bool.and_eq_true] at valid
  have rest := valid.2
  intro c member
  rw [← List.takeWhile_append_dropWhile (p := isDigit) (l := port.toList), List.mem_append] at member
  rcases member with digit | later
  · simp [plainChar, List.mem_takeWhile_imp digit]
  · cases second : port.toList.dropWhile isDigit with
    | nil =>
      rw [second] at later
      cases later
    | cons separator digits =>
      simp only [second, Bool.and_eq_true, Bool.or_eq_true, decide_eq_true_eq, List.all_eq_true] at rest
      rw [second] at later
      rcases List.mem_cons.mp later with rfl | digit
      · rcases rest.1.1 with rfl | rfl <;> rfl
      · simp [plainChar, rest.2 c digit]

theorem plainChar_of_digits {most : ℕ} {text : List Char} (valid : digits most text) :
    ∀ c ∈ text, plainChar c := by
  intro c member
  simp only [digits, Bool.and_eq_true, List.all_eq_true] at valid
  simp [plainChar, valid.2 c member]

theorem plainChar_of_validSource {source : String} (valid : validSource source) :
    ∀ c ∈ source.toList, plainChar c := by
  have dots {text : List Char} {c : Char} (member : c ∈ text) :
      c = '.' ∨ ∃ part ∈ text.splitOn '.', c ∈ part := Text.mem_part_of_mem member
  have slashes {c : Char} (member : c ∈ source.toList) :
      c = '/' ∨ ∃ part ∈ source.toList.splitOn '/', c ∈ part := Text.mem_part_of_mem member
  have address {text : List Char}
      (valid : ((text.splitOn '.').length = 4 && (text.splitOn '.').all (digits 3)) = true) :
      ∀ c ∈ text, plainChar c := by
    intro c member
    rw [Bool.and_eq_true, List.all_eq_true] at valid
    rcases dots member with rfl | ⟨part, inside, here⟩
    · rfl
    · exact plainChar_of_digits (valid.2 part inside) c here
  intro c member
  unfold validSource at valid
  rcases slashes member with rfl | ⟨part, inside, here⟩
  · rfl
  · split at valid
    · rename_i whole parts
      rw [parts, List.mem_singleton] at inside
      subst inside
      exact address valid c here
    · rename_i first length parts
      rw [Bool.and_eq_true] at valid
      rw [parts] at inside
      rcases List.mem_cons.mp inside with rfl | inside
      · exact address valid.1 c here
      · rw [List.mem_singleton] at inside
        subst inside
        exact plainChar_of_digits valid.2 c here
    · cases valid

theorem bare_of_plainChar {c : Char} (plain : plainChar c) (backend : String) :
    (dialectOf backend).Bare c := by
  have range : '-'.toNat ≤ c.toNat ∧ c.toNat ≤ ':'.toNat := by
    simp only [plainChar, isDigit, Bool.or_eq_true, Bool.and_eq_true, decide_eq_true_eq] at plain
    rcases plain with (((⟨least, most⟩ | rfl) | rfl) | rfl) | rfl
    · exact ⟨Nat.le_trans (by decide) least, Nat.le_trans most (by decide)⟩
    all_goals decide
  have apart {d : Char} (outside : d.toNat < '-'.toNat ∨ ':'.toNat < d.toNat) : c ≠ d := by
    rintro rfl
    omega
  unfold dialectOf
  split
  · exact ⟨apart (by decide), apart (by decide), by
      simp only [iptablesDialect, List.mem_cons, List.not_mem_nil, or_false, not_or]
      exact ⟨apart (by decide), apart (by decide)⟩⟩
  · exact ⟨apart (by decide), apart (by decide), by
      simp only [nftDialect, List.mem_cons, List.not_mem_nil, or_false, not_or]
      exact ⟨apart (by decide), apart (by decide), apart (by decide), apart (by decide)⟩⟩

/-- The renderer of the backend prints the protocol of the rule. -/
def RuleRow.printsProto (backend : String) (row : RuleRow) : Bool :=
  if backend = "iptables" then
    !mentionsEstablished row.comment && decide (row.source ≠ some "127.0.0.1/8")
  else row.port.isSome && decide (row.source ≠ some "127.0.0.1/8")

/-- The protocol of the rule, where it is printed, leaves the reader as it was, and its
comment does not hide the quote after it. -/
structure RuleRow.Harmless (backend : String) (row : RuleRow) : Prop where
  proto : row.printsProto backend → (dialectOf backend).Contained row.proto.toList
  comment : Closes (dialectOf backend) row.comment

theorem bare_port (backend : String) {row : RuleRow} (checked : row.Checked) :
    ∀ port ∈ row.port, ∀ c ∈ port.toList, (dialectOf backend).Bare c :=
  fun port member c inside =>
    bare_of_plainChar (plainChar_of_validPort (checked.port port member) c inside) backend

theorem bare_source (backend : String) {row : RuleRow} (checked : row.Checked) :
    ∀ source ∈ truthy row.source, ∀ c ∈ source.toList, (dialectOf backend).Bare c :=
  fun source member c inside =>
    bare_of_plainChar (plainChar_of_validSource (checked.source source member) c inside) backend

/-! iptables -/

def iptablesSource (row : RuleRow) : String :=
  match truthy row.source with
  | some source => " -s " ++ source
  | none => ""

/-- What follows the protocol. -/
def iptablesPort (row : RuleRow) : String :=
  match row.port with
  | some port => " --dport " ++ port
  | none => ""

def iptablesSpec (row : RuleRow) : String :=
  if mentionsEstablished row.comment then "-m conntrack --ctstate ESTABLISHED,RELATED"
  else if row.source = some "127.0.0.1/8" then "-i lo"
  else " -p " ++ row.proto ++ iptablesPort row ++ iptablesSource row

def iptablesTarget (row : RuleRow) : String :=
  " -j " ++ String.ofList (row.action.toList.map Char.toUpper)

theorem ne_empty_of_toList {text : String} (nonempty : text.toList ≠ []) : text ≠ "" := by
  rintro rfl
  exact nonempty (by simp)

theorem iptablesSpec_ne_empty (row : RuleRow) : iptablesSpec row ≠ "" := by
  unfold iptablesSpec
  split
  · simp
  · split
    · simp
    · have option : (" -p " : String).toList = [' ', '-', 'p', ' '] := by simp
      apply ne_empty_of_toList
      simp only [String.toList_append, option]
      simp

theorem iptablesSpec_eq (row : RuleRow) :
    iptablesSpec row =
      if mentionsEstablished row.comment then "-m conntrack --ctstate ESTABLISHED,RELATED"
      else if row.source = some "127.0.0.1/8" then "-i lo"
      else (match row.port with
          | some port => " -p " ++ row.proto ++ " --dport " ++ port
          | none => " -p " ++ row.proto) ++ iptablesSource row := by
  unfold iptablesSpec
  congr 2
  unfold iptablesPort
  cases row.port with
  | none => simp only [String.append_empty]
  | some port => simp only [String.append_assoc]

theorem commentText_eq {lead opening : String} (opens : opening = lead ++ "\"") (comment : Option String) :
    commentText lead comment = match truthy comment with
      | some comment => opening ++ safeComment comment ++ "\""
      | none => "" := by
  rw [opens]
  rfl

theorem iptablesLine_eq (row : RuleRow) :
    iptablesLine row = "-A " ++ row.chain ++ (" " ++ iptablesSpec row) ++ iptablesTarget row ++
      commentText " -m comment --comment " row.comment := by
  have lead : (" -m comment --comment \"" : String) = " -m comment --comment " ++ "\"" := by
    simp
  have spec : iptablesLine row = "-A " ++ row.chain ++
      (if iptablesSpec row = "" then "" else " " ++ iptablesSpec row) ++ " -j " ++
        String.ofList (row.action.toList.map Char.toUpper) ++
        commentText " -m comment --comment " row.comment := by
    rw [iptablesSpec_eq, commentText_eq lead]
    rfl
  rw [spec, if_neg (iptablesSpec_ne_empty row), iptablesTarget]
  simp only [String.append_assoc]

theorem bare_chain {row : RuleRow} (checked : row.Checked) :
    ∀ c ∈ row.chain.toList, iptablesDialect.Bare c := by
  have chain := checked.chain
  simp only [List.mem_cons, List.not_mem_nil, or_false] at chain
  rcases chain with same | same | same | same <;> rw [same]
  all_goals exact Dialect.bare_of_all (by simp [Dialect.Bare, iptablesDialect])

theorem bare_target {row : RuleRow} (checked : row.Checked) :
    ∀ c ∈ (iptablesTarget row).toList, iptablesDialect.Bare c := by
  have action := checked.action
  simp only [List.mem_cons, List.not_mem_nil, or_false] at action
  rcases action with same | same | same | same <;> rw [iptablesTarget, same]
  all_goals exact Dialect.bare_of_all (by simp [Dialect.Bare, iptablesDialect])

/-- What follows the protocol of the third kind of rule. -/
theorem bare_iptablesRest {row : RuleRow} (checked : row.Checked) :
    ∀ c ∈ (iptablesPort row).toList ++ (iptablesSource row).toList ++ (iptablesTarget row).toList,
      iptablesDialect.Bare c := by
  have port : ∀ c ∈ (iptablesPort row).toList, iptablesDialect.Bare c := by
    have bare := bare_port "iptables" checked
    unfold iptablesPort
    cases given : row.port with
    | none => exact Dialect.bare_of_all (by simp)
    | some port =>
      rw [String.toList_append, List.forall_mem_append]
      exact ⟨Dialect.bare_of_all (by simp [Dialect.Bare, iptablesDialect]), bare port given⟩
  have source : ∀ c ∈ (iptablesSource row).toList, iptablesDialect.Bare c := by
    have bare := bare_source "iptables" checked
    unfold iptablesSource
    cases given : truthy row.source with
    | none => exact Dialect.bare_of_all (by simp)
    | some source =>
      rw [String.toList_append, List.forall_mem_append]
      exact ⟨Dialect.bare_of_all (by simp [Dialect.Bare, iptablesDialect]), bare source given⟩
  rw [List.forall_mem_append, List.forall_mem_append]
  exact ⟨⟨port, source⟩, bare_target checked⟩

theorem iptablesLine_contained_iff {row : RuleRow} (checked : row.Checked) :
    iptablesDialect.Contained (iptablesLine row).toList ↔ row.Harmless "iptables" := by
  have lead : (" -m comment --comment " : String).toList =
      (" -m comment --comment" : String).toList ++ [' '] := by simp
  have prints : row.printsProto "iptables" = true ↔
      ¬ mentionsEstablished row.comment = true ∧ row.source ≠ some "127.0.0.1/8" := by
    rw [RuleRow.printsProto, if_pos rfl]
    simp
  have before : iptablesDialect.Contained
      ("-A " ++ row.chain ++ (" " ++ iptablesSpec row) ++ iptablesTarget row).toList ↔
      (row.printsProto "iptables" → iptablesDialect.Contained row.proto.toList) := by
    have front : iptablesDialect.Contained ("-A ".toList ++ row.chain.toList) :=
      .append (.of_bare (Dialect.bare_of_all (by simp [Dialect.Bare, iptablesDialect]))) (.of_bare (bare_chain checked))
    have target := Dialect.Contained.of_bare (bare_target checked)
    rw [prints]
    unfold iptablesSpec
    split
    · rename_i established
      refine iff_of_true ?_ (fun printed => absurd established printed.1)
      simp only [String.toList_append]
      exact (front.append (.of_bare (Dialect.bare_of_all (by simp [Dialect.Bare, iptablesDialect])))).append target
    · rename_i unmentioned
      split
      · rename_i loopback
        refine iff_of_true ?_ (fun printed => absurd loopback printed.2)
        simp only [String.toList_append]
        exact (front.append (.of_bare (Dialect.bare_of_all (by simp [Dialect.Bare, iptablesDialect])))).append target
      · rename_i remote
        have spaced : iptablesDialect.Contained
            ("-A ".toList ++ row.chain.toList ++ (" ".toList ++ " -p ".toList)) :=
          front.append (.of_bare (Dialect.bare_of_all (by simp [Dialect.Bare, iptablesDialect])))
        have middle : iptablesDialect.Contained (_ ++ row.proto.toList ++ _) ↔
            iptablesDialect.Contained row.proto.toList :=
          Dialect.contained_middle_iff spaced (bare_iptablesRest checked)
        simp only [String.toList_append, List.append_assoc] at middle ⊢
        exact ⟨fun whole _ => middle.mp whole, fun proto => middle.mpr (proto ⟨unmentioned, remote⟩)⟩
  have dialect : dialectOf "iptables" = iptablesDialect := if_pos rfl
  rw [iptablesLine_eq, String.toList_append,
    contained_comment_iff lead (Dialect.bare_of_all (by simp [Dialect.Bare, iptablesDialect])), before]
  constructor
  · rintro ⟨proto, comment⟩
    exact ⟨by rwa [dialect], by rwa [dialect]⟩
  · rintro ⟨proto, comment⟩
    rw [dialect] at proto comment
    exact ⟨proto, comment⟩

/-! nft -/

def nftSource (row : RuleRow) : String :=
  match truthy row.source with
  | some source => "ip saddr " ++ source ++ " "
  | none => ""

/-- A rule that is neither the one of the established connections nor that of the loopback. -/
def nftMatch (row : RuleRow) : String :=
  nftSource row ++
    (match row.port with
      | some port => row.proto ++ " dport " ++ port ++ " "
      | none => "") ++
    (row.action ++ commentText " comment " row.comment)

theorem nftLine_eq (row : RuleRow) :
    nftLine row =
      if row.port = none ∧ row.source = none ∧ mentionsEstablished row.comment then
        "ct state established,related " ++ row.action ++ commentText " comment " row.comment
      else if row.source = some "127.0.0.1/8" then
        "iifname \"lo\" " ++ row.action ++ commentText " comment " row.comment
      else trim (nftMatch row) := by
  have lead : (" comment \"" : String) = " comment " ++ "\"" := by simp
  have verdict : (if row.action = "log" then "log" ++ commentText " comment " row.comment
      else row.action ++ commentText " comment " row.comment) =
      row.action ++ commentText " comment " row.comment := by
    split
    · rename_i log
      rw [log]
    · rfl
  rw [nftMatch, ← verdict, commentText_eq lead]
  rfl

theorem closes_nft (comment : Option String) : Closes nftDialect comment :=
  fun text _ => Dialect.modeAfter_quoted (.inl rfl) (safeComment_unquoted text)

theorem bare_action {row : RuleRow} (checked : row.Checked) :
    ∀ c ∈ row.action.toList, nftDialect.Bare c := by
  have action := checked.action
  simp only [List.mem_cons, List.not_mem_nil, or_false] at action
  rcases action with same | same | same | same <;> rw [same]
  all_goals exact Dialect.bare_of_all (by simp [Dialect.Bare, nftDialect])

theorem bare_nftSource {row : RuleRow} (checked : row.Checked) :
    ∀ c ∈ (nftSource row).toList, nftDialect.Bare c := by
  have bare := bare_source "nftables" checked
  have dialect : dialectOf "nftables" = nftDialect := if_neg (by simp)
  rw [dialect] at bare
  unfold nftSource
  cases given : truthy row.source with
  | none => exact Dialect.bare_of_all (by simp)
  | some source =>
    rw [String.toList_append, String.toList_append, List.forall_mem_append, List.forall_mem_append]
    exact ⟨⟨Dialect.bare_of_all (by simp [Dialect.Bare, nftDialect]), bare source given⟩,
      Dialect.bare_of_all (by simp [Dialect.Bare, nftDialect])⟩

theorem nftMatch_contained_iff {row : RuleRow} (checked : row.Checked) :
    nftDialect.Contained (nftMatch row).toList ↔
      (row.port.isSome → nftDialect.Contained row.proto.toList) := by
  have lead : (" comment " : String).toList = (" comment" : String).toList ++ [' '] := by
    simp
  have source := Dialect.Contained.of_bare (bare_nftSource checked)
  rw [nftMatch, ← String.append_assoc, String.toList_append,
    contained_comment_iff lead (Dialect.bare_of_all (by simp [Dialect.Bare, nftDialect])),
    and_iff_left (closes_nft row.comment)]
  cases given : row.port with
  | none =>
    simp only [String.append_empty, String.toList_append]
    exact iff_of_true (source.append (.of_bare (bare_action checked))) fun absent => by cases absent
  | some port =>
    have bare := bare_port "nftables" checked port given
    have dialect : dialectOf "nftables" = nftDialect := if_neg (by simp)
    rw [dialect] at bare
    have rest : ∀ c ∈ " dport ".toList ++ port.toList ++ " ".toList ++ row.action.toList,
        nftDialect.Bare c := by
      rw [List.forall_mem_append, List.forall_mem_append, List.forall_mem_append]
      exact ⟨⟨⟨Dialect.bare_of_all (by simp [Dialect.Bare, nftDialect]), bare⟩,
        Dialect.bare_of_all (by simp [Dialect.Bare, nftDialect])⟩, bare_action checked⟩
    have middle : nftDialect.Contained ((nftSource row).toList ++ row.proto.toList ++ _) ↔
        nftDialect.Contained row.proto.toList := Dialect.contained_middle_iff source rest
    simp only [String.toList_append, List.append_assoc] at middle ⊢
    rw [middle]
    exact ⟨fun proto _ => proto, fun proto => proto rfl⟩

theorem visible_start {row : RuleRow} (tight : Text.Tight row.proto.toList) :
    ∀ c ∈ ((nftSource row).toList ++ row.proto.toList).head?, Text.isBlank c = false := by
  unfold nftSource
  cases truthy row.source with
  | none =>
    have empty : ("" : String).toList = [] := by simp
    rw [empty, List.nil_append]
    exact tight.1
  | some source =>
    have lead : ("ip saddr " : String).toList = 'i' :: ("p saddr " : String).toList := by
      simp
    simp only [String.toList_append, lead, List.cons_append, List.head?_cons]
    rintro c ⟨⟩
    decide

/-- The line ends with the action or with the quote after the comment. -/
theorem visible_end {row : RuleRow} (checked : row.Checked) (before : List Char) :
    ∀ c ∈ (before ++ row.action.toList ++ (commentText " comment " row.comment).toList).getLast?,
      Text.isBlank c = false := by
  unfold commentText
  cases truthy row.comment with
  | none =>
    have empty : ("" : String).toList = [] := by simp
    have action := checked.action
    simp only [List.mem_cons, List.not_mem_nil, or_false] at action
    rw [empty, List.append_nil]
    have ends : ∃ front, ∃ c, row.action.toList = front ++ [c] ∧ Text.isBlank c = false := by
      rcases action with same | same | same | same <;> rw [same]
      · exact ⟨"accep".toList, 't', by simp, by decide⟩
      · exact ⟨"dro".toList, 'p', by simp, by decide⟩
      · exact ⟨"rejec".toList, 't', by simp, by decide⟩
      · exact ⟨"lo".toList, 'g', by simp, by decide⟩
    obtain ⟨front, c, split, visible⟩ := ends
    rw [split, ← List.append_assoc, List.getLast?_concat]
    rintro d ⟨⟩
    exact visible
  | some comment =>
    have mark : ("\"" : String).toList = ['"'] := by simp
    simp only [String.toList_append, mark, ← List.append_assoc, List.getLast?_concat]
    rintro d ⟨⟩
    decide

theorem nftMatch_tight {row : RuleRow} (checked : row.Checked) (tight : Text.Tight row.proto.toList)
    {port : String} (given : row.port = some port) (nonempty : row.proto.toList ≠ []) :
    Text.Tight (nftMatch row).toList := by
  have split : (nftMatch row).toList = ((nftSource row).toList ++ row.proto.toList) ++
      (" dport ".toList ++ port.toList ++ " ".toList ++ row.action.toList ++
        (commentText " comment " row.comment).toList) := by
    rw [nftMatch, given]
    simp only [String.toList_append, List.append_assoc]
  have lead : (" dport " : String).toList = ' ' :: ("dport " : String).toList := by simp
  rw [split]
  exact Text.tight_append (by simp [nonempty]) (by simp [lead]) (visible_start tight)
    (visible_end checked _)

/-- Exactly the harmless rules keep to their line. -/
theorem nftLine_contained_iff {row : RuleRow} (checked : row.Checked)
    (tight : Text.Tight row.proto.toList) {backend : String} (rendered : backend ≠ "iptables") :
    nftDialect.Contained (nftLine row).toList ↔ row.Harmless backend := by
  have dialect : dialectOf backend = nftDialect := if_neg rendered
  have harmless : row.Harmless backend ↔
      (row.printsProto backend → nftDialect.Contained row.proto.toList) := by
    constructor
    · intro harmless
      rw [← dialect]
      exact harmless.proto
    · intro proto
      exact ⟨by rwa [dialect], by rw [dialect]; exact closes_nft row.comment⟩
  have prints : row.printsProto backend = true ↔
      row.port.isSome ∧ row.source ≠ some "127.0.0.1/8" := by
    rw [RuleRow.printsProto, if_neg rendered]
    simp
  have lead : (" comment " : String).toList = (" comment" : String).toList ++ [' '] := by
    simp
  have fixed {text : String} (contained : nftDialect.Contained text.toList) :
      nftDialect.Contained (text ++ row.action ++ commentText " comment " row.comment).toList := by
    rw [String.toList_append, contained_comment_iff lead (Dialect.bare_of_all (by simp [Dialect.Bare, nftDialect])),
      and_iff_left (closes_nft row.comment), String.toList_append]
    exact contained.append (.of_bare (bare_action checked))
  rw [harmless, prints, nftLine_eq]
  split
  · rename_i established
    refine iff_of_true (fixed (by exact of_decide_eq_true rfl)) ?_
    rintro ⟨given, -⟩
    rw [established.1] at given
    cases given
  · split
    · rename_i loopback
      exact iff_of_true (fixed (by exact of_decide_eq_true rfl)) fun printed => absurd loopback printed.2
    · rename_i remote
      have text : (trim (nftMatch row)).toList = Text.trim (nftMatch row).toList :=
        String.toList_ofList
      have matched := nftMatch_contained_iff checked
      rw [text]
      constructor
      · intro contained printed
        obtain ⟨port, given⟩ := Option.isSome_iff_exists.mp printed.1
        by_cases empty : row.proto.toList = []
        · rw [empty]
          exact .nil
        · rw [Text.trim_of_tight (nftMatch_tight checked tight given empty)] at contained
          exact matched.mp contained printed.1
      · intro proto
        exact (matched.mpr fun given => proto ⟨given, remote⟩).trim

theorem ruleLine_contained_iff {row : RuleRow} (checked : row.Checked)
    (tight : Text.Tight row.proto.toList) (backend : String) :
    (dialectOf backend).Contained (ruleLine backend row).toList ↔ row.Harmless backend := by
  by_cases restored : backend = "iptables"
  · rw [dialectOf, if_pos restored, ruleLine, if_pos restored, restored]
    exact iptablesLine_contained_iff checked
  · have indent : nftDialect.Contained ("    " : String).toList := by exact of_decide_eq_true rfl
    rw [dialectOf, if_neg restored, ruleLine, if_neg restored, String.toList_append,
      indent.append_iff]
    exact nftLine_contained_iff checked tight restored

/-! The lines of the skeleton. -/

/-- Neither a quote nor a line end. -/
def linear (c : Char) : Bool := c ≠ '"' && c ≠ '\n'

structure Ruleset.Checked (ruleset : Ruleset) : Prop where
  name : validRulesetName ruleset.name
  backend : ruleset.backend ∈ backends
  template : ∀ template ∈ truthy ruleset.template, template ∈ templates.map Template.id

theorem linear_name {ruleset : Ruleset} (checked : ruleset.Checked) :
    ruleset.name.toList.all linear := by
  have name := checked.name
  unfold validRulesetName at name
  rw [List.all_eq_true]
  have alphanumeric {c : Char} (valid : c.isAlphanum = true) : linear c := by
    unfold linear
    by_cases quote : c = '"'
    · rw [quote] at valid
      exact absurd valid (by decide)
    · by_cases newline : c = '\n'
      · rw [newline] at valid
        exact absurd valid (by decide)
      · simp [quote, newline]
  cases text : ruleset.name.toList with
  | nil => exact fun _ member => by cases member
  | cons first rest =>
    simp only [text, Bool.and_eq_true, Bool.or_eq_true, List.all_eq_true, decide_eq_true_eq] at name
    intro c member
    rcases List.mem_cons.mp member with rfl | later
    · exact alphanumeric name.1
    · rcases name.2 c later with (letter | rfl) | rfl
      · exact alphanumeric letter
      · rfl
      · rfl

theorem linear_header {ruleset : Ruleset} (checked : ruleset.Checked) :
    (nftHeader ruleset).toList.all linear := by
  have name := linear_name checked
  have backend : ruleset.backend.toList.all linear := by
    have all : (backends.map fun backend => backend.toList.all linear).all id := by
      unfold backends
      simp only [List.map_cons, List.map_nil]
      repeat rw [String.toList_ofList]
      rfl
    rw [List.all_eq_true] at all
    exact all _ (List.mem_map_of_mem checked.backend)
  have template : ∀ template ∈ truthy ruleset.template, template.toList.all linear := by
    have all : ((templates.map Template.id).map fun id => id.toList.all linear).all id := by
      rfl
    rw [List.all_eq_true] at all
    intro template member
    exact all _ (List.mem_map_of_mem (checked.template template member))
  unfold nftHeader
  cases given : truthy ruleset.template with
  | none =>
    simp only [String.toList_append, List.all_append, name, backend, Bool.and_true]
    repeat rw [String.toList_ofList]
    rfl
  | some id =>
    simp only [String.toList_append, List.all_append, name, backend, template id given, Bool.and_true]
    repeat rw [String.toList_ofList]
    rfl

theorem mem_fixedBlocks {text : String} {texts : List String}
    (member : Slot.fixed text ∈ (texts.map fun text => [Slot.fixed text]).flatten) : text ∈ texts := by
  obtain ⟨block, inside, here⟩ := List.mem_flatten.mp member
  obtain ⟨other, listed, rfl⟩ := List.mem_map.mp inside
  cases List.mem_singleton.mp here
  exact listed

theorem not_mem_ruleBlocks {text : String} {rules : List RuleRow} :
    Slot.fixed text ∉ (rules.map fun row => [Slot.rule row]).flatten := by
  intro member
  obtain ⟨block, inside, here⟩ := List.mem_flatten.mp member
  obtain ⟨row, -, rfl⟩ := List.mem_map.mp inside
  cases List.mem_singleton.mp here

theorem linear_otherBlock {row : RuleRow} (checked : row.Checked) {text : String}
    (member : Slot.fixed text ∈ otherBlock row) : text.toList.all linear := by
  simp only [otherBlock, List.mem_cons, List.not_mem_nil, or_false, Slot.fixed.injEq,
    reduceCtorEq, false_or] at member
  rcases member with rfl | rfl
  · have chain := checked.chain
    simp only [List.mem_cons, List.not_mem_nil, or_false] at chain
    rcases chain with same | same | same | same <;> rw [same] <;> rfl
  · rfl

theorem linear_of_literals {texts : List String}
    (all : texts.all fun text => text.toList.all linear) {text : String} (inside : text ∈ texts) :
    text.toList.all linear := List.all_eq_true.mp all text inside

theorem iptablesFrame_linear {ruleset : Ruleset} {rules : List RuleRow} (checked : ruleset.Checked)
    {text : String} (member : Slot.fixed text ∈ iptablesFrame ruleset rules) :
    text.toList.all linear := by
  have header : ("# sysdeck-firewall: ruleset '" ++ ruleset.name ++
      "' (backend iptables) — iptables-restore format").toList.all linear := by
    simp only [String.toList_append, List.all_append, linear_name checked, Bool.and_true]
    repeat rw [String.toList_ofList]
    rfl
  simp only [iptablesFrame, List.mem_append, List.mem_map, Slot.fixed.injEq, exists_eq_right,
    reduceCtorEq, and_false, exists_false, or_false, List.mem_singleton] at member
  rcases member with inside | rfl
  · rcases List.mem_cons.mp inside with rfl | inside
    · exact header
    · refine linear_of_literals ?_ inside
      simp only [List.all_cons, List.all_nil]
      repeat rw [String.toList_ofList]
      rfl
  · rw [String.toList_ofList]
    rfl

theorem nftBlocks_linear {ruleset : Ruleset} {rules : List RuleRow} (checked : ruleset.Checked)
    (rows : ∀ row ∈ rules, row.Checked) {text : String}
    (member : Slot.fixed text ∈ (nftBlocks ruleset rules).flatten) : text.toList.all linear := by
  simp only [nftBlocks, List.flatten_append, List.mem_append] at member
  rcases member with (((((inside | inside) | inside) | inside) | inside) | inside) | inside
  · rcases List.mem_cons.mp (mem_fixedBlocks inside) with rfl | inside
    · rw [String.toList_ofList]
      rfl
    · rcases List.mem_cons.mp inside with rfl | inside
      · exact linear_header checked
      · refine linear_of_literals ?_ inside
        simp only [List.all_cons, List.all_nil]
        repeat rw [String.toList_ofList]
        rfl
  · exact absurd inside not_mem_ruleBlocks
  · refine linear_of_literals ?_ (mem_fixedBlocks inside)
    simp only [List.all_cons, List.all_nil]
    repeat rw [String.toList_ofList]
    rfl
  · exact absurd inside not_mem_ruleBlocks
  · refine linear_of_literals ?_ (mem_fixedBlocks inside)
    simp only [List.all_cons, List.all_nil]
    repeat rw [String.toList_ofList]
    rfl
  · obtain ⟨block, inside, here⟩ := List.mem_flatten.mp inside
    obtain ⟨row, listed, rfl⟩ := List.mem_map.mp inside
    exact linear_otherBlock (rows row (List.mem_of_mem_filter listed)) here
  · simp only [List.flatten_cons, List.flatten_nil, List.append_nil, List.mem_singleton,
      Slot.fixed.injEq] at inside
    rw [inside, String.toList_ofList]
    rfl

/-- The skeleton has no quotes, and each of its lines is one. -/
theorem frame_linear {ruleset : Ruleset} {rules : List RuleRow} (checked : ruleset.Checked)
    (rows : ∀ row ∈ rules, row.Checked) {text : String}
    (member : Slot.fixed text ∈ frame ruleset rules) : text.toList.all linear := by
  unfold frame at member
  split at member
  · exact iptablesFrame_linear checked member
  · exact nftBlocks_linear checked rows member

theorem not_newline_of_linear {text : List Char} (plain : text.all linear) : '\n' ∉ text :=
  fun newline => absurd (List.all_eq_true.mp plain _ newline) (by decide)

theorem mem_rules_of_mem_frame {ruleset : Ruleset} {rules : List RuleRow} {row : RuleRow}
    (member : Slot.rule row ∈ frame ruleset rules) : row ∈ rules :=
  (frame_rows ruleset rules).subset (List.mem_filterMap.mpr ⟨_, member, rfl⟩)

/-- Every line of a script with contained rules is closed, and one line. -/
theorem slot_closed {ruleset : Ruleset} {rules : List RuleRow} (checked : ruleset.Checked)
    (rows : ∀ row ∈ rules, row.Checked)
    (contained : ∀ row ∈ rules,
      (dialectOf ruleset.backend).Contained (ruleLine ruleset.backend row).toList)
    {slot : Slot} (member : slot ∈ frame ruleset rules) :
    (dialectOf ruleset.backend).Closed (slot.text ruleset.backend).toList ∧
      '\n' ∉ (slot.text ruleset.backend).toList := by
  cases slot with
  | fixed text =>
    have plain := frame_linear checked rows member
    refine ⟨Dialect.modeAfter_plain fun quote => ?_, not_newline_of_linear plain⟩
    exact absurd (List.all_eq_true.mp plain _ quote) (by decide)
  | rule row =>
    have line := contained row (mem_rules_of_mem_frame member)
    exact ⟨line.closed, line.oneLine⟩

theorem frame_ne_nil (ruleset : Ruleset) (rules : List RuleRow) : frame ruleset rules ≠ [] := by
  unfold frame
  split
  · simp [iptablesFrame]
  · simp [nftBlocks]

/-- The marks of a script are those of its lines. -/
theorem marks_synthesized {ruleset : Ruleset} {rules : List RuleRow} (checked : ruleset.Checked)
    (rows : ∀ row ∈ rules, row.Checked)
    (contained : ∀ row ∈ rules,
      (dialectOf ruleset.backend).Contained (ruleLine ruleset.backend row).toList) :
    (dialectOf ruleset.backend).marks (synthesized ruleset rules).toList =
      ['\n'].intercalate ((frame ruleset rules).map fun slot =>
        (dialectOf ruleset.backend).marks (slot.text ruleset.backend).toList) := by
  rw [toList_synthesized, Dialect.marks_lines, List.map_map]
  · rfl
  · intro line member
    obtain ⟨slot, inside, rfl⟩ := List.mem_map.mp member
    exact (slot_closed checked rows contained inside).1

theorem bare_checked {row : RuleRow} (checked : row.Checked) : row.bare.Checked where
  chain := checked.chain
  action := List.mem_cons_self
  port := fun _ given => by cases given
  source := fun _ given => by cases given

/-- The protocols of the templates. -/
theorem knownProto {text : String} (member : text ∈ ["tcp", "any"]) :
    Text.Tight text.toList ∧ ∀ backend, (dialectOf backend).Contained text.toList := by
  simp only [List.mem_cons, List.not_mem_nil, or_false] at member
  constructor
  · have tcp : ("tcp" : String).toList = ['t', 'c', 'p'] := by simp
    have any : ("any" : String).toList = ['a', 'n', 'y'] := by simp
    rcases member with rfl | rfl
    · rw [tcp]
      constructor <;> rintro c ⟨⟩ <;> decide
    · rw [any]
      constructor <;> rintro c ⟨⟩ <;> decide
  · intro backend
    refine .of_bare ?_
    unfold dialectOf
    split
    · rcases member with rfl | rfl <;> exact Dialect.bare_of_all (by simp [Dialect.Bare, iptablesDialect])
    · rcases member with rfl | rfl <;> exact Dialect.bare_of_all (by simp [Dialect.Bare, nftDialect])

theorem bare_contained {row : RuleRow} (checked : row.Checked) (backend : String) :
    (dialectOf backend).Contained (ruleLine backend row.bare).toList := by
  obtain ⟨tight, contained⟩ := knownProto (List.mem_cons_self : "tcp" ∈ ["tcp", "any"])
  refine (ruleLine_contained_iff (bare_checked checked) tight backend).mpr
    ⟨fun _ => contained backend, ?_⟩
  intro text given
  cases given

/-- Checked rules render safely as soon as each keeps to its line. -/
theorem rendersSafely {ruleset : Ruleset} {rules : List RuleRow} (checked : ruleset.Checked)
    (rows : ∀ row ∈ rules, row.Checked)
    (contained : ∀ row ∈ rules,
      (dialectOf ruleset.backend).Contained (ruleLine ruleset.backend row).toList) :
    RendersSafely ruleset rules where
  lines := by
    refine (Text.splitOn_eq_iff (by simpa using frame_ne_nil ruleset rules)).mpr
      ⟨toList_synthesized ruleset rules, ?_⟩
    intro line member
    obtain ⟨slot, inside, rfl⟩ := List.mem_map.mp member
    exact (slot_closed checked rows contained inside).2
  onePerRule := frame_rows ruleset rules
  contained := contained
  outline := by
    have bareRows : ∀ row ∈ rules.map RuleRow.bare, row.Checked := by
      intro row member
      obtain ⟨other, inside, rfl⟩ := List.mem_map.mp member
      exact bare_checked (rows other inside)
    have bareLines : ∀ row ∈ rules.map RuleRow.bare,
        (dialectOf ruleset.backend).Contained (ruleLine ruleset.backend row).toList := by
      intro row member
      obtain ⟨other, inside, rfl⟩ := List.mem_map.mp member
      exact bare_contained (rows other inside) ruleset.backend
    have frames : frame ruleset (rules.map RuleRow.bare) =
        (frame ruleset rules).map (Slot.map RuleRow.bare) := frame_map ruleset rules fun _ => rfl
    rw [marks_synthesized checked rows contained, marks_synthesized checked bareRows bareLines,
      frames, List.map_map]
    congr 1
    refine List.map_congr_left fun slot member => ?_
    cases slot with
    | fixed text => rfl
    | rule row =>
      have inside := mem_rules_of_mem_frame member
      exact (contained row inside).unmarked.trans
        (bare_contained (rows row inside) ruleset.backend).unmarked.symm

end SysDeck.Web.Firewall
