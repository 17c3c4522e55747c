import SysDeck.Web.FirewallTools

/-! The rules that nft and iptables-restore read in the rendered lines of a row. -/

namespace SysDeck.Web.Firewall

open Quoting Ipv4
open PacketFilter (CtState)

/-! The words of a rendered line. -/

/-- A line is read as words, and is one line. -/
structure Reads (dialect : Dialect) (line : String) (words : List String) : Prop where
  tokens : tokens dialect line = some words
  oneLine : '\n' ∉ line.toList

theorem Reads.literal {dialect : Dialect} {text : List Char} {words : List String}
    (closed : dialect.modeAfter .plain text = .plain)
    (read : (dialect.words text).map String.ofList = words)
    (sameLine : text.all (fun c => decide (c ≠ '\n')) = true) :
    Reads dialect (String.ofList text) words where
  tokens := by rw [tokens_literal closed, read]
  oneLine member := by
    rw [String.toList_ofList] at member
    exact of_decide_eq_true (List.all_eq_true.mp sameLine _ member) rfl

theorem tokens_eq_some {dialect : Dialect} {line : String} {words : List String} :
    tokens dialect line = some words ↔
      dialect.Closed line.toList ∧ (dialect.words line.toList).map String.ofList = words := by
  rw [tokens]
  constructor
  · intro read
    split at read
    · rename_i closed
      exact ⟨closed, by simpa using read⟩
    · cases read
  · rintro ⟨closed, read⟩
    have plain : dialect.modeAfter .plain line.toList = .plain := closed
    rw [if_pos plain, read]

theorem toList_blank : (" " : String).toList = [' '] := String.toList_ofList

theorem Reads.append {dialect : Dialect} {first second : String} {words words' : List String}
    (read : Reads dialect first words) (read' : Reads dialect second words') :
    Reads dialect (first ++ " " ++ second) (words ++ words') := by
  obtain ⟨closed, split⟩ := tokens_eq_some.mp read.tokens
  obtain ⟨closed', split'⟩ := tokens_eq_some.mp read'.tokens
  have blank : dialect.Closed [' '] := rfl
  constructor
  · rw [tokens_eq_some, String.toList_append, String.toList_append, toList_blank]
    refine ⟨(closed.append blank).append closed', ?_⟩
    rw [List.append_assoc, List.singleton_append, Dialect.words_append closed, List.map_append, split,
      split']
  · rw [String.toList_append, String.toList_append, toList_blank]
    simp [read.oneLine, read'.oneLine]

theorem Reads.word {dialect : Dialect} {word : String} (one : dialect.Word word.toList)
    (oneLine : '\n' ∉ word.toList) : Reads dialect word [word] where
  tokens := by
    rw [tokens_eq_some, one.words]
    exact ⟨one.closed, by rw [List.map_cons, List.map_nil, String.ofList_toList]⟩
  oneLine := oneLine

/-- A text that is one word, without quotes. -/
def OneWord (text : String) : Prop :=
  text.toList ≠ [] ∧ ∀ c ∈ text.toList, Text.isBlank c = false ∧ c ≠ '"'

instance (text : String) : Decidable (OneWord text) :=
  decidable_of_iff ((!text.toList.isEmpty && text.toList.all fun c =>
      !Text.isBlank c && decide (c ≠ '"')) = true) <| by
    simp only [OneWord, Bool.and_eq_true, List.all_eq_true, Bool.not_eq_true', decide_eq_true_eq,
      List.isEmpty_eq_false_iff]

theorem OneWord.literal {text : List Char}
    (plain : (!text.isEmpty && text.all fun c => !Text.isBlank c && decide (c ≠ '"')) = true) :
    OneWord (String.ofList text) := by
  simp only [Bool.and_eq_true, List.all_eq_true, Bool.not_eq_true', decide_eq_true_eq,
    List.isEmpty_eq_false_iff] at plain
  simpa only [OneWord, String.toList_ofList] using plain

theorem OneWord.reads {text : String} (one : OneWord text) (dialect : Dialect) :
    Reads dialect text [text] := by
  refine .word (.of_plain (fun c member => ⟨?_, (one.2 c member).2⟩) one.1) ?_
  · rintro rfl
    exact absurd (one.2 ' ' member).1 (by decide)
  · exact fun member => absurd (one.2 '\n' member).1 (by decide)

theorem OneWord.tight {text : String} (one : OneWord text) : Text.Tight text.toList :=
  ⟨fun c head => (one.2 c (List.mem_of_mem_head? head)).1,
    fun c last => (one.2 c (List.mem_of_getLast? last)).1⟩

theorem oneWord_of_plainChar {text : String} (nonempty : text.toList ≠ [])
    (plain : ∀ c ∈ text.toList, plainChar c) : OneWord text := by
  refine ⟨nonempty, fun c member => ?_⟩
  have bare := plain c member
  simp only [plainChar, isDigit, Bool.or_eq_true, Bool.and_eq_true, decide_eq_true_eq] at bare
  rcases bare with (((⟨least, most⟩ | rfl) | rfl) | rfl) | rfl
  · have above : 48 ≤ c.toNat := least
    have below : c.toNat ≤ 57 := most
    refine ⟨?_, ?_⟩
    · simp only [Text.isBlank]
      grind
    · rintro rfl
      exact absurd above (by decide)
  all_goals decide

theorem oneWord_port {port : String} (valid : validPort port) : OneWord port := by
  refine oneWord_of_plainChar ?_ (plainChar_of_validPort valid)
  intro empty
  unfold validPort at valid
  rw [empty] at valid
  cases valid

theorem oneWord_source {source : String} (valid : validSource source) : OneWord source := by
  refine oneWord_of_plainChar ?_ (plainChar_of_validSource valid)
  intro empty
  unfold validSource at valid
  rw [empty] at valid
  exact absurd valid (by decide)

/-- The quoted comment. -/
def commentToken (comment : String) : String := "\"" ++ safeComment comment ++ "\""

/-- The words that carry the comment, where there is one. -/
def commentTokens (lead : List String) (comment : Option String) : List String :=
  match truthy comment with
  | some comment => lead ++ [commentToken comment]
  | none => []

theorem toList_commentToken (comment : String) :
    (commentToken comment).toList = '"' :: (safeComment comment).toList ++ ['"'] := by
  have mark : ("\"" : String).toList = ['"'] := String.toList_ofList
  simp only [commentToken, String.toList_append, mark, List.cons_append, List.nil_append]

theorem quotedToken_comment (comment : String) : quotedToken (commentToken comment) = true := by
  rw [quotedToken, toList_commentToken]
  simp [List.getLast?_cons]

theorem commentToken_reads {dialect : Dialect} {comment : String}
    (closes : dialect.modeAfter .quoted (safeComment comment).toList = .quoted) :
    Reads dialect (commentToken comment) [commentToken comment] := by
  have sameLine : '\n' ∉ (safeComment comment).toList := fun member => (safeComment_chars member).2 rfl
  refine .word ?_ ?_
  · rw [toList_commentToken]
    exact .quote ⟨safeComment_unquoted comment, sameLine, closes⟩
  · rw [toList_commentToken]
    simp [sameLine]

/-- The comment goes on from the words before it. -/
theorem Reads.comment {dialect : Dialect} {before introduced lead : String} {words leads : List String}
    (read : Reads dialect before words) (spaced : introduced = " " ++ lead ++ " ")
    (introduces : Reads dialect lead leads) {comment : Option String} (closes : Closes dialect comment) :
    Reads dialect (before ++ commentText introduced comment) (words ++ commentTokens leads comment) := by
  unfold commentText commentTokens
  cases given : truthy comment with
  | none => simpa using read
  | some text =>
    have token := commentToken_reads (closes text given)
    have joined : before ++ (introduced ++ "\"" ++ safeComment text ++ "\"") =
        before ++ " " ++ (lead ++ " " ++ commentToken text) := by
      rw [spaced, commentToken]
      simp only [String.append_assoc]
    rw [joined]
    exact read.append (introduces.append token)

/-! nft -/

def sourceWords (lead : List String) (row : RuleRow) : List String :=
  match truthy row.source with
  | some source => lead ++ [source]
  | none => []

theorem oneWord_action {row : RuleRow} (checked : row.Checked) : OneWord row.action := by
  have action := checked.action
  simp only [List.mem_cons, List.not_mem_nil, or_false] at action
  rcases action with same | same | same | same <;> rw [same]
  all_goals exact .literal rfl

theorem Reads.nftComment {before : String} {words : List String}
    (read : Reads nftDialect before words) (comment : Option String) :
    Reads nftDialect (before ++ commentText " comment " comment)
      (words ++ commentTokens ["comment"] comment) := by
  have spaced : (" comment " : String) = " " ++ "comment" ++ " " := by simp
  have introduces : Reads nftDialect "comment" ["comment"] := .literal rfl rfl rfl
  exact read.comment spaced introduces (closes_nft comment)

theorem nft_fixed {row : RuleRow} (checked : row.Checked) {text front : String} {words : List String}
    (fixed : Reads nftDialect front words) (spaced : text = front ++ " ") :
    Reads nftDialect (text ++ row.action ++ commentText " comment " row.comment)
      (words ++ [row.action] ++ commentTokens ["comment"] row.comment) := by
  rw [spaced]
  exact (fixed.append ((oneWord_action checked).reads nftDialect)).nftComment row.comment

/-- The protocol is one word where nft is given it. -/
def RuleRow.OneWordProto (row : RuleRow) : Prop := row.port.isSome → OneWord row.proto

def nftPortWords (row : RuleRow) : List String :=
  match row.port with
  | some port => [row.proto, "dport", port]
  | none => []

def nftPortText (row : RuleRow) : String :=
  match row.port with
  | some port => row.proto ++ " dport " ++ port ++ " "
  | none => ""

theorem nftMatch_reads {row : RuleRow} (checked : row.Checked) (proto : row.OneWordProto) :
    Reads nftDialect (nftMatch row) (sourceWords ["ip", "saddr"] row ++
      (nftPortWords row ++ ([row.action] ++ commentTokens ["comment"] row.comment))) := by
  have verdict : Reads nftDialect (row.action ++ commentText " comment " row.comment)
      ([row.action] ++ commentTokens ["comment"] row.comment) :=
    ((oneWord_action checked).reads nftDialect).nftComment row.comment
  have ports : Reads nftDialect
      (nftPortText row ++ (row.action ++ commentText " comment " row.comment))
      (nftPortWords row ++ ([row.action] ++ commentTokens ["comment"] row.comment)) := by
    unfold nftPortText nftPortWords
    cases given : row.port with
    | none => simpa using verdict
    | some port =>
      have field : Reads nftDialect "dport" ["dport"] := .literal rfl rfl rfl
      have number := (oneWord_port (checked.port port given)).reads nftDialect
      have match' := ((proto (by rw [given]; rfl)).reads nftDialect).append field
      have spaced : (" dport " : String) = " " ++ "dport" ++ " " := by simp
      have joined := (match'.append number).append verdict
      rw [spaced]
      simpa only [String.append_assoc, List.cons_append, List.nil_append] using joined
  have split : nftMatch row = nftSource row ++
      (nftPortText row ++ (row.action ++ commentText " comment " row.comment)) := by
    rw [nftMatch, String.append_assoc]
    rfl
  rw [split]
  unfold nftSource sourceWords
  cases given : truthy row.source with
  | none => simpa using ports
  | some source =>
    have field : Reads nftDialect "ip saddr" ["ip", "saddr"] := .literal rfl rfl rfl
    have address := (oneWord_source (checked.source source given)).reads nftDialect
    have spaced : ("ip saddr " : String) = "ip saddr" ++ " " := by simp
    have joined := (field.append address).append ports
    rw [spaced]
    simpa only [String.append_assoc] using joined

/-- Nothing is cut off at its ends. -/
theorem trim_nftMatch {row : RuleRow} (checked : row.Checked) (proto : row.OneWordProto) :
    trim (nftMatch row) = nftMatch row := by
  have split : (nftMatch row).toList = ((nftSource row).toList ++ (nftPortText row).toList) ++
      row.action.toList ++ (commentText " comment " row.comment).toList := by
    rw [nftMatch]
    simp only [String.toList_append, List.append_assoc]
    rfl
  have action := oneWord_action checked
  have start : ∀ c ∈ (nftMatch row).toList.head?, Text.isBlank c = false := by
    rw [split]
    unfold nftSource nftPortText
    cases truthy row.source with
    | some source =>
      have lead : ("ip saddr " : String).toList = 'i' :: ("p saddr " : String).toList := by
        simp
      simp only [String.toList_append, lead, List.cons_append, List.head?_cons]
      rintro c ⟨⟩
      decide
    | none =>
      have empty : ("" : String).toList = [] := String.toList_ofList
      cases given : row.port with
      | none =>
        simp only [empty, List.nil_append]
        rw [List.head?_append_of_ne_nil _ action.1]
        exact action.tight.1
      | some port =>
        have one : OneWord row.proto := proto (by rw [given]; rfl)
        simp only [empty, List.nil_append, String.toList_append, List.append_assoc]
        rw [List.head?_append_of_ne_nil _ one.1]
        exact one.tight.1
  have tight : Text.Tight (nftMatch row).toList := by
    refine ⟨start, ?_⟩
    rw [split]
    exact visible_end checked _
  rw [trim, Text.trim_of_tight tight, String.ofList_toList]

/-! iptables -/

def iptablesPortWords (row : RuleRow) : List String :=
  match row.port with
  | some port => ["--dport", port]
  | none => []

def target (row : RuleRow) : String := String.ofList (row.action.toList.map Char.toUpper)

/-- The targets of the actions. -/
theorem target_of_checked {row : RuleRow} (checked : row.Checked) :
    (row.action, target row) ∈
      [("accept", "ACCEPT"), ("drop", "DROP"), ("reject", "REJECT"), ("log", "LOG")] := by
  have upper {lower : List Char} (upper : String)
      (mapped : String.ofList (lower.map Char.toUpper) = upper)
      (same : row.action = String.ofList lower) : target row = upper := by
    rw [target, same, String.toList_ofList, mapped]
  have action := checked.action
  simp only [List.mem_cons, List.not_mem_nil, or_false] at action
  rcases action with same | same | same | same
  · rw [upper "ACCEPT" rfl same, same]
    exact List.mem_cons_self
  · rw [upper "DROP" rfl same, same]
    simp
  · rw [upper "REJECT" rfl same, same]
    simp
  · rw [upper "LOG" rfl same, same]
    simp

theorem oneWord_target {row : RuleRow} (checked : row.Checked) : OneWord (target row) := by
  have known := target_of_checked checked
  simp only [List.mem_cons, List.not_mem_nil, or_false, Prod.mk.injEq] at known
  rcases known with ⟨-, same⟩ | ⟨-, same⟩ | ⟨-, same⟩ | ⟨-, same⟩ <;> rw [same]
  all_goals exact .literal rfl

/-- The options between the chain and the target. -/
def specWords (row : RuleRow) : List String :=
  if mentionsEstablished row.comment then ["-m", "conntrack", "--ctstate", "ESTABLISHED,RELATED"]
  else if row.source = some "127.0.0.1/8" then ["-i", "lo"]
  else ["-p", row.proto] ++ (iptablesPortWords row ++ sourceWords ["-s"] row)

/-- iptables prints the protocol of every rule of the third kind. -/
def RuleRow.OneWordOption (row : RuleRow) : Prop :=
  ¬ mentionsEstablished row.comment → row.source ≠ some "127.0.0.1/8" → OneWord row.proto

theorem iptablesPort_reads {row : RuleRow} (checked : row.Checked) {before : String}
    {words : List String} (read : Reads iptablesDialect before words) :
    Reads iptablesDialect (before ++ iptablesPort row) (words ++ iptablesPortWords row) := by
  unfold iptablesPort iptablesPortWords
  cases given : row.port with
  | none => simpa using read
  | some port =>
    have option : Reads iptablesDialect "--dport" ["--dport"] := .literal rfl rfl rfl
    have spaced : (" --dport " : String) = " " ++ "--dport" ++ " " := by simp
    have number := (oneWord_port (checked.port port given)).reads iptablesDialect
    rw [spaced]
    simpa only [String.append_assoc, List.cons_append, List.nil_append] using
      read.append (option.append number)

theorem iptablesSource_reads {row : RuleRow} (checked : row.Checked) {before : String}
    {words : List String} (read : Reads iptablesDialect before words) :
    Reads iptablesDialect (before ++ iptablesSource row) (words ++ sourceWords ["-s"] row) := by
  unfold iptablesSource sourceWords
  cases given : truthy row.source with
  | none => simpa using read
  | some source =>
    have option : Reads iptablesDialect "-s" ["-s"] := .literal rfl rfl rfl
    have spaced : (" -s " : String) = " " ++ "-s" ++ " " := by simp
    have address := (oneWord_source (checked.source source given)).reads iptablesDialect
    rw [spaced]
    simpa only [String.append_assoc, List.append_assoc] using read.append (option.append address)

theorem spec_reads {row : RuleRow} (checked : row.Checked) (proto : row.OneWordOption) :
    Reads iptablesDialect (iptablesSpec row) (specWords row) := by
  unfold iptablesSpec specWords
  split
  · exact .literal rfl rfl rfl
  · rename_i unmentioned
    split
    · exact .literal rfl rfl rfl
    · rename_i remote
      have option : Reads iptablesDialect " -p" ["-p"] := .literal rfl rfl rfl
      have lead : (" -p " : String) = " -p" ++ " " := by simp
      have start := option.append ((proto unmentioned remote).reads iptablesDialect)
      have line := iptablesSource_reads checked (iptablesPort_reads checked start)
      rw [lead]
      simpa only [List.append_assoc, List.cons_append, List.nil_append] using line

/-- The line up to the comment. -/
theorem iptablesFront_reads {row : RuleRow} (checked : row.Checked) (proto : row.OneWordOption) :
    Reads iptablesDialect ("-A " ++ row.chain ++ (" " ++ iptablesSpec row) ++ iptablesTarget row)
      (["-A", row.chain] ++ specWords row ++ ["-j", target row]) := by
  have option : Reads iptablesDialect "-A" ["-A"] := .literal rfl rfl rfl
  have chain : OneWord row.chain := by
    have chain := checked.chain
    simp only [List.mem_cons, List.not_mem_nil, or_false] at chain
    rcases chain with same | same | same | same <;> rw [same]
    all_goals exact .literal rfl
  have jump : Reads iptablesDialect "-j" ["-j"] := .literal rfl rfl rfl
  have front := (option.append (chain.reads iptablesDialect)).append (spec_reads checked proto)
  have line := front.append (jump.append ((oneWord_target checked).reads iptablesDialect))
  have opening : ("-A " : String) = "-A" ++ " " := by simp
  have jumps : (" -j " : String) = " " ++ "-j" ++ " " := by simp
  rw [iptablesTarget, opening, jumps]
  simpa only [String.append_assoc, List.append_assoc, List.cons_append, List.nil_append, target] using line

theorem iptables_reads {row : RuleRow} (checked : row.Checked) (proto : row.OneWordOption)
    (closes : Closes iptablesDialect row.comment) :
    Reads iptablesDialect (iptablesLine row) (["-A", row.chain] ++ specWords row ++ ["-j", target row] ++
      commentTokens ["-m", "comment", "--comment"] row.comment) := by
  have introduced : (" -m comment --comment " : String) = " " ++ "-m comment --comment" ++ " " := by
    simp
  have introduces : Reads iptablesDialect "-m comment --comment" ["-m", "comment", "--comment"] := .literal rfl rfl rfl
  rw [iptablesLine_eq]
  exact (iptablesFront_reads checked proto).comment introduced introduces closes

theorem closes_of_closed {dialect : Dialect} {before lead : List Char} {introduced : String}
    {comment : Option String} (leads : introduced.toList = lead) (closed : dialect.Closed before)
    (closed' : dialect.Closed lead)
    (whole : dialect.Closed (before ++ (commentText introduced comment).toList)) :
    Closes dialect comment := by
  intro text given
  rw [commentText, Option.mem_def.mp given] at whole
  have mark : ("\"" : String).toList = ['"'] := String.toList_ofList
  have opens : dialect.modeAfter .plain ['"'] = .quoted := rfl
  simp only [String.toList_append, leads, mark] at whole
  rw [Dialect.Closed, Dialect.modeAfter_append, closed, Dialect.modeAfter_append,
    Dialect.modeAfter_append, Dialect.modeAfter_append, closed', opens] at whole
  exact Dialect.quoted_of_closes (safeComment_unquoted text) whole

/-- A line that iptables-restore can split has no comment that leaves its quotes open. -/
theorem closes_of_iptables {row : RuleRow} (checked : row.Checked) (proto : row.OneWordOption)
    {words : List String} (read : tokens iptablesDialect (iptablesLine row) = some words) :
    Closes iptablesDialect row.comment := by
  obtain ⟨front, -⟩ := tokens_eq_some.mp (iptablesFront_reads checked proto).tokens
  obtain ⟨whole, -⟩ := tokens_eq_some.mp read
  rw [iptablesLine_eq, String.toList_append] at whole
  have lead : (" -m comment --comment " : String).toList = _ := String.toList_ofList
  exact closes_of_closed lead front rfl whole

/-! The rules that the two lines denote. -/

def nftDenotes (row : RuleRow) : Option FilterRule := (tokens nftDialect (nftLine row)).bind nftRule

def restoreDenotes (names : ProtocolNames) (row : RuleRow) : Option (Hook × FilterRule) :=
  (tokens iptablesDialect (iptablesLine row)).bind (restoreAppend names)

/-- The action that both targets name. -/
def actionOf (action : String) : Action :=
  if action = "accept" then .verdict .accept
  else if action = "drop" then .verdict .drop
  else if action = "reject" then .verdict .reject
  else .log

/-- The condition on the source, where there is one. -/
def sourceConditions (row : RuleRow) : Option (List Condition) :=
  match truthy row.source with
  | some source => (readCidr source).map fun cidr => [.saddr cidr]
  | none => some []

theorem nftAction_row {row : RuleRow} (checked : row.Checked) :
    nftAction ([row.action] ++ commentTokens ["comment"] row.comment) = some (actionOf row.action) := by
  have action : readAction "accept" "drop" "reject" "log" row.action =
      some (actionOf row.action) := by
    have action := checked.action
    simp only [List.mem_cons, List.not_mem_nil, or_false] at action
    rcases action with same | same | same | same <;> rw [same]
    all_goals rfl
  unfold commentTokens
  cases truthy row.comment with
  | none => exact action
  | some text =>
    have quoted := quotedToken_comment text
    simpa [nftAction, quoted] using action

theorem restoreAction_row {row : RuleRow} (checked : row.Checked) :
    restoreAction (["-j", target row] ++ commentTokens ["-m", "comment", "--comment"] row.comment) =
      some (actionOf row.action) := by
  have action : readAction "ACCEPT" "DROP" "REJECT" "LOG" (target row) =
      some (actionOf row.action) := by
    have known := target_of_checked checked
    simp only [List.mem_cons, List.not_mem_nil, or_false, Prod.mk.injEq] at known
    rcases known with ⟨same, upper⟩ | ⟨same, upper⟩ | ⟨same, upper⟩ | ⟨same, upper⟩ <;>
      rw [same, upper]
    all_goals rfl
  unfold commentTokens
  cases truthy row.comment with
  | none => simpa [restoreAction] using action
  | some text =>
    have quoted := quotedToken_comment text
    simpa [restoreAction, quoted] using action

/-- The conditions on the port, as nft reads them. -/
def portConditions (row : RuleRow) : Option (List Condition) :=
  match row.port with
  | some port => do
    let protocol ← portProtocols.lookup row.proto
    let port ← readPort port
    some [.protocol protocol, .dport port]
  | none => some []

theorem nftDenotes_established {row : RuleRow} (checked : row.Checked)
    (established : row.port = none ∧ row.source = none ∧ mentionsEstablished row.comment) :
    nftDenotes row = some ⟨[.established], actionOf row.action⟩ := by
  have fixed : Reads nftDialect "ct state established,related" ["ct", "state", "established,related"] := .literal rfl rfl rfl
  have read := nft_fixed checked fixed
    (by simp : ("ct state established,related " : String) = _ ++ " ")
  rw [nftDenotes, nftLine_eq, if_pos established, read.tokens, List.append_assoc]
  have action := nftAction_row checked
  rw [Option.bind_some, nftRule]
  simp only [List.cons_append, List.nil_append, List.take_succ_cons, List.take_zero, if_true,
    List.drop_succ_cons, List.drop_zero] at action ⊢
  rw [action]
  rfl

theorem nftDenotes_loopback {row : RuleRow} (checked : row.Checked)
    (other : ¬ (row.port = none ∧ row.source = none ∧ mentionsEstablished row.comment))
    (loopback : row.source = some "127.0.0.1/8") :
    nftDenotes row = some ⟨[.iifname "lo"], actionOf row.action⟩ := by
  have fixed : Reads nftDialect "iifname \"lo\"" ["iifname", "\"lo\""] := .literal rfl rfl rfl
  have read := nft_fixed checked fixed (by simp : ("iifname \"lo\" " : String) = _ ++ " ")
  rw [nftDenotes, nftLine_eq, if_neg other, if_pos loopback, read.tokens, List.append_assoc]
  have action := nftAction_row checked
  have three : ((["iifname", "\"lo\""] ++ ([row.action] ++
      commentTokens ["comment"] row.comment)).take 3) ≠ ["ct", "state", "established,related"] := by
    simp
  rw [Option.bind_some, nftRule, if_neg three]
  simp only [List.cons_append, List.nil_append, List.take_succ_cons, List.take_zero, if_true,
    List.drop_succ_cons, List.drop_zero] at action ⊢
  rw [action]
  rfl

theorem nftPorts_row {row : RuleRow} (checked : row.Checked) :
    nftPorts (nftPortWords row ++ ([row.action] ++ commentTokens ["comment"] row.comment)) =
      (portConditions row).map (⟨·, actionOf row.action⟩) := by
  have action := nftAction_row checked
  unfold nftPortWords portConditions
  cases row.port with
  | none =>
    have unported : nftPorts ([row.action] ++ commentTokens ["comment"] row.comment) =
        (nftAction ([row.action] ++ commentTokens ["comment"] row.comment)).map (⟨[], ·⟩) := by
      unfold commentTokens
      cases truthy row.comment with
      | none => rfl
      | some text =>
        have unported : ¬ "comment" = "dport" := by simp
        simp only [List.cons_append, List.nil_append]
        rw [nftPorts, if_neg unported]
    rw [List.nil_append, unported, action]
    rfl
  | some port =>
    simp only [List.cons_append, List.nil_append] at action ⊢
    rw [nftPorts, if_pos rfl, action]
    cases portProtocols.lookup row.proto with
    | none => rfl
    | some protocol => cases readPort port <;> rfl

/-- The line starts neither like the one of the connections nor like that of the loopback. -/
theorem nftRule_ports {row : RuleRow} (checked : row.Checked) :
    nftRule (nftPortWords row ++ ([row.action] ++ commentTokens ["comment"] row.comment)) =
      nftPorts (nftPortWords row ++ ([row.action] ++ commentTokens ["comment"] row.comment)) := by
  have actions := checked.action
  have start : ∀ second, (nftPortWords row ++ ([row.action] ++
      commentTokens ["comment"] row.comment))[1]? = some second → second = "dport" ∨ second = "comment" := by
    unfold nftPortWords commentTokens
    cases row.port with
    | some port => simp
    | none => cases truthy row.comment <;> simp
  have apart {lead : List String} (count : ℕ) (more : 1 < count) (second : String)
      (named : lead[1]? = some second) (other : second ≠ "dport" ∧ second ≠ "comment") :
      (nftPortWords row ++ ([row.action] ++ commentTokens ["comment"] row.comment)).take count ≠ lead := by
    rintro rfl
    rw [List.getElem?_take_of_lt more] at named
    rcases start second named with same | same
    · exact other.1 same
    · exact other.2 same
  rw [nftRule, if_neg (apart 3 (by decide) "state" rfl (by simp)),
    if_neg (apart 2 (by decide) "\"lo\"" rfl (by simp)),
    if_neg (apart 2 (by decide) "saddr" rfl (by simp))]

theorem nftDenotes_match {row : RuleRow} (checked : row.Checked) (proto : row.OneWordProto)
    (other : ¬ (row.port = none ∧ row.source = none ∧ mentionsEstablished row.comment))
    (remote : row.source ≠ some "127.0.0.1/8") :
    nftDenotes row = (sourceConditions row).bind fun source =>
      (portConditions row).map fun ports => ⟨source ++ ports, actionOf row.action⟩ := by
  rw [nftDenotes, nftLine_eq, if_neg other, if_neg remote, trim_nftMatch checked proto,
    (nftMatch_reads checked proto).tokens, Option.bind_some]
  have rest := nftPorts_row checked
  unfold sourceWords sourceConditions
  cases truthy row.source with
  | none =>
    rw [List.nil_append, nftRule_ports checked, rest]
    cases portConditions row <;> rfl
  | some source =>
    have lead (line : List String) : nftRule (["ip", "saddr"] ++ [source] ++ line) =
        (readCidr source).bind fun cidr => (nftPorts line).map fun rule =>
          { rule with conditions := .saddr cidr :: rule.conditions } := by
      simp only [List.cons_append, List.nil_append]
      rw [nftRule]
      simp only [List.take_succ_cons, List.take_zero, List.drop_succ_cons, List.drop_zero]
      rw [if_neg (by simp), if_neg (by simp), if_pos trivial]
      have address : ("ip" :: "saddr" :: source :: line)[2]?.bind readCidr = readCidr source := rfl
      rw [address]
      cases readCidr source with
      | none => rfl
      | some cidr => cases nftPorts line <;> rfl
    rw [lead, rest]
    dsimp only
    cases readCidr source with
    | none => rfl
    | some cidr => cases portConditions row <;> rfl

theorem restoreSource_row {row : RuleRow} (checked : row.Checked) :
    restoreSource (sourceWords ["-s"] row ++ (["-j", target row] ++
      commentTokens ["-m", "comment", "--comment"] row.comment)) =
      (sourceConditions row).map (⟨·, actionOf row.action⟩) := by
  have action := restoreAction_row checked
  unfold sourceWords sourceConditions
  cases truthy row.source with
  | none =>
    have unsourced : ¬ ["-j"] = ["-s"] := by simp
    simp only [List.cons_append, List.nil_append] at action ⊢
    rw [restoreSource, List.take_succ_cons, List.take_zero, if_neg unsourced, action]
    rfl
  | some source =>
    simp only [List.cons_append, List.nil_append] at action ⊢
    rw [restoreSource, List.take_succ_cons, List.take_zero, if_pos rfl]
    simp only [List.drop_succ_cons, List.drop_zero]
    rw [action]
    have address : (("-s" :: source :: "-j" :: target row ::
        commentTokens ["-m", "comment", "--comment"] row.comment)[1]?).bind readCidr =
        readCidr source := rfl
    rw [address]
    cases readCidr source <;> rfl

/-- The conditions on protocol and port, as iptables reads them. -/
def optionConditions (protocol : ℕ) (row : RuleRow) : Option (List Condition) :=
  match row.port with
  | some port =>
    if protocol ∈ portProtocols.map Prod.snd then
      (readPort port).map fun port => [.protocol protocol, .dport port]
    else none
  | none => some (if protocol = 0 then [] else [.protocol protocol])

theorem restoreProtocol_row {row : RuleRow} (checked : row.Checked) (protocol : ℕ) :
    restoreProtocol protocol (iptablesPortWords row ++ (sourceWords ["-s"] row ++ (["-j", target row] ++
      commentTokens ["-m", "comment", "--comment"] row.comment))) =
      (optionConditions protocol row).bind fun options =>
        (sourceConditions row).map fun source => ⟨options ++ source, actionOf row.action⟩ := by
  have rest := restoreSource_row checked
  unfold iptablesPortWords optionConditions
  cases row.port with
  | none =>
    have unported : ((sourceWords ["-s"] row ++ (["-j", target row] ++
        commentTokens ["-m", "comment", "--comment"] row.comment)).take 1) ≠ ["--dport"] := by
      unfold sourceWords
      cases truthy row.source <;> simp
    rw [List.nil_append, restoreProtocol, if_neg unported, rest]
    cases sourceConditions row <;> rfl
  | some port =>
    simp only [List.cons_append, List.nil_append] at rest ⊢
    rw [restoreProtocol, List.take_succ_cons, List.take_zero, if_pos rfl]
    split
    · simp only [List.drop_succ_cons, List.drop_zero, List.getElem?_cons_succ, List.getElem?_cons_zero]
      rw [rest, Option.bind_some]
      cases readPort port with
      | none => rfl
      | some port => cases sourceConditions row <;> rfl
    · rfl

/-- The lines of iptables are read where no comment leaves its quotes open. -/
theorem restoreDenotes_eq (names : ProtocolNames) {row : RuleRow} (checked : row.Checked)
    (proto : row.OneWordOption) (closes : Closes iptablesDialect row.comment) :
    restoreDenotes names row = (tableHook row.chain).bind fun hook =>
      (restoreRule names hook (specWords row ++ (["-j", target row] ++
        commentTokens ["-m", "comment", "--comment"] row.comment))).map fun rule => (hook, rule) := by
  rw [restoreDenotes, (iptables_reads checked proto closes).tokens, Option.bind_some, restoreAppend]
  simp only [List.append_assoc, List.cons_append, List.nil_append, List.take_succ_cons, List.take_zero,
    if_true, List.drop_succ_cons, List.drop_zero, List.getElem?_cons_succ, List.getElem?_cons_zero,
    Option.bind_some]

theorem restoreRule_established {names : ProtocolNames} {row : RuleRow} (checked : row.Checked)
    (established : mentionsEstablished row.comment) (hook : Hook) :
    restoreRule names hook (specWords row ++ (["-j", target row] ++
      commentTokens ["-m", "comment", "--comment"] row.comment)) =
      some ⟨[.established], actionOf row.action⟩ := by
  have action := restoreAction_row checked
  rw [specWords, if_pos established]
  simp only [List.cons_append, List.nil_append] at action ⊢
  rw [restoreRule]
  simp only [List.take_succ_cons, List.take_zero, if_true, List.drop_succ_cons, List.drop_zero]
  rw [action]
  rfl

theorem restoreRule_loopback {names : ProtocolNames} {row : RuleRow} (checked : row.Checked)
    (unmentioned : ¬ mentionsEstablished row.comment) (loopback : row.source = some "127.0.0.1/8")
    (hook : Hook) :
    restoreRule names hook (specWords row ++ (["-j", target row] ++
      commentTokens ["-m", "comment", "--comment"] row.comment)) =
      if hook = .output then none else some ⟨[.iifname "lo"], actionOf row.action⟩ := by
  have action := restoreAction_row checked
  rw [specWords, if_neg unmentioned, if_pos loopback]
  simp only [List.cons_append, List.nil_append] at action ⊢
  rw [restoreRule]
  simp only [List.take_succ_cons, List.take_zero, if_true, List.drop_succ_cons, List.drop_zero]
  rw [if_neg (by simp), action]
  rfl

theorem restoreRule_match {names : ProtocolNames} {row : RuleRow} (checked : row.Checked)
    (unmentioned : ¬ mentionsEstablished row.comment) (remote : row.source ≠ some "127.0.0.1/8")
    (hook : Hook) :
    restoreRule names hook (specWords row ++ (["-j", target row] ++
      commentTokens ["-m", "comment", "--comment"] row.comment)) =
      (names.read row.proto).bind fun protocol => (optionConditions protocol row).bind fun options =>
        (sourceConditions row).map fun source => ⟨options ++ source, actionOf row.action⟩ := by
  have rest := restoreProtocol_row checked
  rw [specWords, if_neg unmentioned, if_neg remote]
  simp only [List.cons_append, List.nil_append, List.append_assoc] at rest ⊢
  rw [restoreRule]
  simp only [List.take_succ_cons, List.take_zero, List.drop_succ_cons, List.drop_zero,
    List.getElem?_cons_succ, List.getElem?_cons_zero, Option.bind_some]
  rw [if_neg (by simp), if_neg (by simp), if_pos trivial]
  cases names.read row.proto with
  | none => rfl
  | some protocol => exact rest protocol

end SysDeck.Web.Firewall
