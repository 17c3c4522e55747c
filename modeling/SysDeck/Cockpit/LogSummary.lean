import SysDeck.Cockpit.LogPipeline

/-! What the summary of the log pipeline says of the entries that were persisted. -/

namespace SysDeck.Cockpit.LogPipeline

open PythonJson
open PackageFiles (universal universal_of_none)

/-! ### Lines -/

theorem logLines_append {text : List Char} (whole : Whole text) (more : List Char) :
    logLines (text ++ more) = logLines text ++ logLines more := by
  induction text with
  | nil => rfl
  | cons c rest ih =>
    cases rest with
    | nil =>
      have ends : c = '\n' := whole c rfl
      simp [logLines, ends]
    | cons d rest =>
      have later := ih fun e last => whole e (by rwa [List.getLast?_cons_cons])
      rw [List.cons_append, logLines, logLines, later]
      split
      · rfl
      · cases lines : logLines (d :: rest) with
        | nil =>
          rw [logLines] at lines
          split at lines
          · cases lines
          · split at lines <;> cases lines
        | cons line others => rfl

theorem logLines_piece {piece : List Char} (one : '\n' ∉ piece) (begun : piece ≠ []) :
    logLines piece = [piece] := by
  induction piece with
  | nil => exact absurd rfl begun
  | cons c rest ih =>
    have inside : c ≠ '\n' := fun same => one (same ▸ List.mem_cons_self)
    rw [logLines, if_neg inside]
    cases rest with
    | nil => rfl
    | cons d rest => rw [ih (List.not_mem_of_not_mem_cons one) (List.cons_ne_nil _ _)]

theorem logLines_line {body : List Char} (one : '\n' ∉ body) :
    logLines (body ++ ['\n']) = [body ++ ['\n']] := by
  induction body with
  | nil => rfl
  | cons c rest ih =>
    have inside : c ≠ '\n' := fun same => one (same ▸ List.mem_cons_self)
    rw [List.cons_append, logLines, if_neg inside, ih (List.not_mem_of_not_mem_cons one)]

/-! ### Entries -/

section Entries

variable {numeral : List Char → Numeral}

/-- An entry as it is read back. -/
def Entry.written (numeral : List Char → Numeral) (entry : Entry) : Value :=
  entry.toJson.reread numeral

theorem loads_line (entry : Entry) :
    Value.loads numeral entry.line = some (entry.written numeral) :=
  Value.loads_dumps entry.toJson

theorem newline_not_mem_dumps (value : Value) : '\n' ∉ value.dumps := fun member =>
  absurd (Value.printable_dumps value _ member) (by decide)

theorem return_not_mem_line (entry : Entry) : '\r' ∉ entry.line := by
  intro member
  rcases List.mem_append.mp member with inside | last
  · exact absurd (Value.printable_dumps entry.toJson _ inside) (by decide)
  · exact absurd (List.mem_singleton.mp last) (by decide)

/-- What the loop counts of an entry. -/
def Summary.count (summary : Summary) (entry : Entry) : Summary where
  totalLogs := summary.totalLogs + 1
  pushedToPrometheus := summary.pushedToPrometheus + if entry.pushed then 1 else 0
  failedPushes := summary.failedPushes + if entry.pushed then 0 else 1
  lastPushAt := if entry.pushed ∧ summary.lastPushAt < entry.stamp.text then entry.stamp.text
    else summary.lastPushAt
  byModule := increment summary.byModule entry.moduleName
  byLevel := increment summary.byLevel entry.level

theorem get_written (numeral : List Char → Numeral) (entry : Entry) :
    (entry.written numeral).get? (units "module") = some (.string entry.moduleName) ∧
    (entry.written numeral).get? (units "level") = some (.string entry.level) ∧
    (entry.written numeral).get? (units "timestamp") = some (.string entry.stamp.text) ∧
    (entry.written numeral).get? (units "pushedToPrometheus") = some (.bool entry.pushed) :=
  ⟨rfl, rfl, rfl, rfl⟩

theorem add_written (summary : Summary) (entry : Entry) :
    summary.add (entry.written numeral) = some (summary.count entry) := by
  obtain ⟨name, level, stamp, pushed⟩ := get_written numeral entry
  change (do
    let name ← textOf ((entry.written numeral).get? (units "module")) (units "unknown")
    let level ← textOf ((entry.written numeral).get? (units "level")) (units "unknown")
    _) = _
  rw [name, level, stamp, pushed]
  cases shown : entry.pushed with
  | true => simp [textOf, truthy, Summary.count, shown]
  | false => simp [textOf, truthy, Summary.count, shown]

end Entries

/-! ### Stamps -/

theorem two_lt_iff {x y : Fin 100} {s t : Text} :
    two x ++ s < two y ++ t ↔ x < y ∨ x = y ∧ s < t := by
  have bound := x.isLt
  have bound' := y.isLt
  have small : ∀ n < 10, (48 + n) % 65536 = 48 + n := by omega
  simp only [two, List.cons_append, List.nil_append, List.cons_lt_cons_iff, Fin.lt_def, Fin.ext_iff,
    Utf16.unit_val, small _ (show x.val / 10 < 10 by omega), small _ (show y.val / 10 < 10 by omega),
    small _ (show x.val % 10 < 10 by omega), small _ (show y.val % 10 < 10 by omega)]
  by_cases lower : s < t
  · simp only [lower, and_true]
    omega
  · simp only [lower, and_false, or_false]
    omega

/-- The order of the texts is the order of the times. -/
theorem text_lt_iff {stamp other : Stamp} : stamp.text < other.text ↔ stamp.fields < other.fields := by
  simp [Stamp.text, Stamp.fields, two_lt_iff, List.cons_lt_cons_iff]

theorem nil_lt_text (stamp : Stamp) : ([] : Text) < stamp.text := List.nil_lt_cons _ _

/-! ### Counting -/

theorem counts_nil : Counts [] .empty := fun _ => rfl

theorem counts_increment {names : List Text} {counts : OrderedMap Text ℕ} (exact : Counts names counts)
    (name : Text) : Counts (names ++ [name]) (increment counts name) := by
  intro other
  rw [increment, OrderedMap.find?_set]
  by_cases same : other = name
  · subst same
    have appended : (names ++ [other]).count other = names.count other + 1 := by simp
    rw [appended, if_pos rfl, if_neg (Nat.succ_ne_zero _), OrderedMap.getD, exact other]
    by_cases absent : names.count other = 0
    · rw [if_pos absent, absent]
      rfl
    · rw [if_neg absent]
      rfl
  · simp [exact other, same, Ne.symm same]

theorem counts_perm {names others : List Text} {counts : OrderedMap Text ℕ} (exact : Counts names counts)
    (perm : names.Perm others) : Counts others counts := by
  intro name
  rw [exact name, perm.count_eq]

theorem exact_start : Exact [] .start where
  total := rfl
  pushed := rfl
  failed := rfl
  byModule := counts_nil
  byLevel := counts_nil
  never := fun _ => rfl
  latest := fun _ member => absurd member List.not_mem_nil

/-- One more entry. -/
theorem exact_count {entries : List Entry} {summary : Summary} (exact : Exact entries summary)
    (entry : Entry) : Exact (entries ++ [entry]) (summary.count entry) where
  total := by simp [Summary.count, exact.total]
  pushed := by simp [Summary.count, exact.pushed, List.countP_append, List.countP_singleton]
  failed := by
    cases shown : entry.pushed <;>
      simp [Summary.count, exact.failed, List.countP_append, shown]
  byModule := by simpa [Summary.count] using counts_increment exact.byModule entry.moduleName
  byLevel := by simpa [Summary.count] using counts_increment exact.byLevel entry.level
  never := by
    intro none
    have unpushed := none entry (by simp)
    have before := exact.never fun other member => none other (by simp [member])
    simp [Summary.count, unpushed, before]
  latest := by
    intro other member shown
    by_cases replaced : entry.pushed ∧ summary.lastPushAt < entry.stamp.text
    · -- the entry is later than all before it
      refine ⟨entry, by simp, replaced.1, by simp [Summary.count, replaced], ?_⟩
      rcases List.mem_append.mp member with earlier | same
      · obtain ⟨last, -, -, stamped, ordered⟩ := exact.latest other earlier shown
        rw [stamped] at replaced
        exact ordered.trans (le_of_lt (text_lt_iff.mp replaced.2))
      · rw [List.mem_singleton.mp same]
    · have kept : (summary.count entry).lastPushAt = summary.lastPushAt := by
        simp [Summary.count, replaced]
      rw [kept]
      rcases List.mem_append.mp member with earlier | same
      · obtain ⟨last, present, pushed, stamped, ordered⟩ := exact.latest other earlier shown
        exact ⟨last, by simp [present], pushed, stamped, ordered⟩
      · rw [List.mem_singleton.mp same] at shown ⊢
        have notLater : ¬ summary.lastPushAt < entry.stamp.text := fun later => replaced ⟨shown, later⟩
        by_cases any : ∃ last ∈ entries, last.pushed
        · obtain ⟨last, present, pushed⟩ := any
          obtain ⟨last, present, pushed, stamped, -⟩ := exact.latest last present pushed
          refine ⟨last, by simp [present], pushed, stamped, ?_⟩
          rw [stamped, text_lt_iff] at notLater
          exact not_lt.mp notLater
        · have none := exact.never fun last present => by
            simpa using fun pushed => any ⟨last, present, pushed⟩
          rw [none] at notLater
          exact absurd (nil_lt_text entry.stamp) notLater

theorem exact_foldl (entries : List Entry) : Exact entries (entries.foldl Summary.count .start) := by
  induction entries using List.reverseRecOn with
  | nil => exact exact_start
  | append_singleton entries entry ih =>
    rw [List.foldl_concat]
    exact exact_count ih entry

theorem exact_perm {entries others : List Entry} {summary : Summary} (exact : Exact entries summary)
    (perm : entries.Perm others) : Exact others summary where
  total := exact.total.trans perm.length_eq
  pushed := exact.pushed.trans (perm.countP_eq _)
  failed := exact.failed.trans (perm.countP_eq _)
  byModule := counts_perm exact.byModule (perm.map _)
  byLevel := counts_perm exact.byLevel (perm.map _)
  never := fun none => exact.never fun entry member => none entry (perm.mem_iff.mp member)
  latest := by
    intro other member shown
    obtain ⟨entry, present, rest⟩ := exact.latest other (perm.mem_iff.mpr member) shown
    exact ⟨entry, perm.mem_iff.mp present, rest⟩

/-! ### Reading the files -/

section Reading

variable {numeral : List Char → Numeral}

/-- The entries that the lines of a file hold. -/
def parsed (numeral : List Char → Numeral) (text : List Char) : List Value :=
  (logLines text).filterMap (Value.loads numeral)

/-- The loop sees the lines that hold JSON, in their order. -/
theorem foldlM_readLine {lines : List (List Char)} {entries : List Entry}
    (holds : lines.filterMap (Value.loads numeral) = entries.map (Entry.written numeral))
    (summary : Summary) :
    lines.foldlM (readLine numeral) summary = some (entries.foldl Summary.count summary) := by
  induction lines generalizing entries summary with
  | nil =>
    cases entries with
    | nil => rfl
    | cons entry rest => cases holds
  | cons line lines ih =>
    rw [List.foldlM_cons]
    cases read : Value.loads numeral line with
    | none =>
      rw [List.filterMap_cons_none read] at holds
      simpa [readLine, read] using ih holds summary
    | some value =>
      rw [List.filterMap_cons_some read] at holds
      cases entries with
      | nil => cases holds
      | cons entry rest =>
        obtain ⟨same, later⟩ := List.cons.inj holds
        simpa [readLine, read, same, add_written] using ih later (summary.count entry)

theorem reads_written (numeral : List Char → Numeral) (entries : List Entry) :
    List.Forall₂ (fun value entry => value = Entry.written numeral entry)
      (entries.map (Entry.written numeral)) entries :=
  List.forall₂_map_left_iff.mpr (List.forall₂_same.mpr fun _ _ => rfl)

/-- The directory holds the entries that were persisted, in some order, and lines without JSON. -/
structure Kept (numeral : List Char → Numeral) (directory : Option Files) (entries : List Entry) :
    Prop where
  named : ∀ file ∈ directory.elim [] (·.entries), units ".jsonl" <:+ file.1
  plain : ∀ file ∈ directory.elim [] (·.entries), '\r' ∉ file.2
  holds : ((directory.elim [] (·.values)).flatMap (parsed numeral)).Perm
    (entries.map (Entry.written numeral))

/-- The summary of a directory, listed in any order. -/
theorem logSummary_kept {directory : Option Files} {entries : List Entry}
    (kept : Kept numeral directory entries) {listing : List (Text × List Char)}
    (listed : listing.Perm (directory.elim [] (·.entries))) :
    ∃ summary, logSummary numeral directory.isSome listing = some summary ∧ Exact entries summary := by
  cases directory with
  | none =>
    have empty : entries = [] := List.map_eq_nil_iff.mp (List.nil_perm.mp kept.holds)
    rw [empty]
    exact ⟨.start, rfl, exact_start⟩
  | some files =>
    have globbed : glob listing = listing := List.filter_eq_self.mpr fun file member =>
      List.isSuffixOf_iff_suffix.mpr (kept.named file (listed.mem_iff.mp member))
    have lines : (listing.flatMap fun file => logLines (universal file.2)) =
        listing.flatMap fun file => logLines file.2 := List.flatMap_congr fun file member => by
      rw [universal_of_none (kept.plain file (listed.mem_iff.mp member))]
    have holds : ((listing.flatMap fun file => logLines file.2).filterMap (Value.loads numeral)).Perm
        (entries.map (Entry.written numeral)) := by
      refine List.Perm.trans ?_ kept.holds
      rw [List.filterMap_flatMap]
      simpa [OrderedMap.values, List.flatMap_map, parsed] using
        listed.flatMap_right fun file => parsed numeral file.2
    obtain ⟨others, reads, perm⟩ := List.perm_comp_forall₂ holds (reads_written numeral entries)
    have same : (listing.flatMap fun file => logLines file.2).filterMap (Value.loads numeral) =
        others.map (Entry.written numeral) := by
      rw [← List.forall₂_eq_eq_eq, List.forall₂_map_right_iff]
      exact reads
    refine ⟨others.foldl Summary.count .start, ?_, exact_perm (exact_foldl others) perm⟩
    rw [logSummary, Option.isSome_some, if_pos rfl, globbed, lines]
    exact foldlM_readLine same .start

end Reading

/-! ### Runs -/

variable {numeral : List Char → Numeral}

theorem parsed_append {text : List Char} (whole : Whole text) (more : List Char) :
    parsed numeral (text ++ more) = parsed numeral text ++ parsed numeral more := by
  rw [parsed, logLines_append whole, List.filterMap_append]
  rfl

theorem parsed_line (entry : Entry) : parsed numeral entry.line = [entry.written numeral] := by
  rw [parsed, Entry.line, logLines_line (newline_not_mem_dumps _), ← Entry.line,
    List.filterMap_cons_some (loads_line entry), List.filterMap_nil]

/-- The first characters of a line are on one line. -/
theorem parsed_take {entry : Entry} {reached : ℕ}
    (unread : Value.loads numeral (entry.line.take reached) = none) :
    parsed numeral (entry.line.take reached) = [] := by
  by_cases whole : entry.line.length ≤ reached
  · rw [List.take_of_length_le whole, loads_line] at unread
    cases unread
  · rw [Entry.line, List.length_append, List.length_singleton] at whole
    rw [Entry.line, List.take_append_of_le_length (by omega)] at unread ⊢
    by_cases begun : entry.toJson.dumps.take reached = []
    · rw [begun]
      rfl
    · have one : '\n' ∉ entry.toJson.dumps.take reached := fun member =>
        newline_not_mem_dumps _ (List.mem_of_mem_take member)
      rw [parsed, logLines_piece one begun, List.filterMap_cons_none unread, List.filterMap_nil]

theorem kept_start (made : Bool) : Kept numeral (Pipeline.start made).directory [] := by
  cases made <;> exact ⟨by simp [Pipeline.start, OrderedMap.empty], by simp [Pipeline.start, OrderedMap.empty],
    by simp [Pipeline.start, OrderedMap.empty, OrderedMap.values]⟩

theorem kept_made {directory : Option Files} {entries : List Entry}
    (kept : Kept numeral directory entries) : Kept numeral (some (directory.getD .empty)) entries := by
  cases directory with
  | none => exact ⟨by simp [OrderedMap.empty], by simp [OrderedMap.empty], kept.holds⟩
  | some files => exact kept

/-- An append to the log file of a module, by what it adds to the entries of the file. -/
theorem kept_append {directory : Option Files} {entries : List Entry}
    (kept : Kept numeral directory entries) (moduleName : Text) {text : List Char} (more : List Entry)
    (plain : '\r' ∉ text)
    (grows : ∀ old, old = (directory.getD .empty).getD (logFile moduleName) [] →
      parsed numeral (old ++ text) = parsed numeral old ++ more.map (Entry.written numeral)) :
    Kept numeral (appendTo directory (logFile moduleName) text) (entries ++ more) := by
  have kept := kept_made kept
  rw [appendTo]
  generalize directory.getD .empty = files at kept grows ⊢
  have grows := grows _ rfl
  have written : ∀ {file}, file ∈ (files.set (logFile moduleName)
      (files.getD (logFile moduleName) [] ++ text)).entries → file ∈ files.entries ∨
        file = (logFile moduleName, files.getD (logFile moduleName) [] ++ text) := by
    rintro ⟨name, content⟩ member
    rw [← OrderedMap.find?_eq_some_iff, OrderedMap.find?_set] at member
    by_cases same : name = logFile moduleName
    · rw [if_pos same, Option.some.injEq] at member
      exact .inr (by rw [same, member])
    · rw [if_neg same] at member
      exact .inl (OrderedMap.find?_eq_some_iff.mp member)
  refine ⟨?_, ?_, ?_⟩
  · intro file member
    rcases written member with old | rfl
    · exact kept.named file old
    · exact List.suffix_append _ _
  · intro file member
    rcases written member with old | rfl
    · exact kept.plain file old
    · have before : '\r' ∉ files.getD (logFile moduleName) [] := by
        rw [OrderedMap.getD]
        cases found : files.find? (logFile moduleName) with
        | none => exact List.not_mem_nil
        | some content => exact kept.plain _ (OrderedMap.find?_eq_some_iff.mp found)
      exact fun inside => (List.mem_append.mp inside).elim before plain
  · have perm := files.flatMap_values_set_perm (logFile moduleName)
      (files.getD (logFile moduleName) [] ++ text) (parsed numeral)
      (more.map (Entry.written numeral)) (by
        rw [grows, OrderedMap.getD]
        cases files.find? (logFile moduleName) <;> rfl)
    rw [List.map_append]
    exact perm.trans (kept.holds.append_right _)

/-- The entries that a call persists. -/
def Reply.entries (reply : Reply) : List Entry := reply.persisted?.toList

theorem kept_pushLog {pipeline : Pipeline} {call : Call} (allowed : Allowed numeral pipeline call)
    {entries : List Entry} (kept : Kept numeral pipeline.directory entries) :
    Kept numeral (pushLog numeral call pipeline.directory).1
      (entries ++ (pushLog numeral call pipeline.directory).2.entries) := by
  rw [pushLog]
  cases accepted : entryOf numeral call with
  | error reply =>
    have refused : reply.entries = [] := by
      unfold entryOf at accepted
      split at accepted
      · cases accepted
        rfl
      · split at accepted
        · cases accepted
          rfl
        · split at accepted <;> cases accepted
          rfl
    simpa [refused] using kept
  | ok entry =>
    have append := allowed entry accepted
    cases outcome : call.outcome with
    | unmade => simpa [persist, outcome, Reply.entries, Reply.persisted?] using kept
    | unopened => simpa [persist, outcome, Reply.entries, Reply.persisted?] using kept_made kept
    | failed reached =>
      rw [outcome] at append
      have plain : '\r' ∉ entry.line.take reached := fun member =>
        return_not_mem_line entry (List.mem_of_mem_take member)
      have added := kept_append kept entry.moduleName [] plain (by
        rintro old rfl
        rcases append with nothing | ⟨fresh, unread⟩
        · simp [nothing]
        · rw [parsed_append fresh, parsed_take unread]
          rfl)
      simpa [persist, outcome, Reply.entries, Reply.persisted?] using added
    | written =>
      rw [outcome] at append
      have added := kept_append kept entry.moduleName [entry]
        (return_not_mem_line entry) (by
          rintro old rfl
          rw [parsed_append append, parsed_line]
          rfl)
      simpa [persist, outcome, Reply.entries, Reply.persisted?] using added

theorem kept_step {pipeline : Pipeline} {call : Call} (allowed : Allowed numeral pipeline call)
    (kept : Kept numeral pipeline.directory pipeline.persisted) :
    Kept numeral (step numeral pipeline call).directory (step numeral pipeline call).persisted := by
  have next := kept_pushLog allowed kept
  have answered : ∀ reply : Reply, [reply].filterMap Reply.persisted? = reply.entries := by
    intro reply
    cases persisted : reply.persisted? <;> simp [Reply.entries, persisted]
  rw [Pipeline.persisted, step, List.filterMap_append, answered]
  exact next

/-- The summary of every run whose appends each begin a line, and fail without leaving an entry. -/
theorem log_summary_exact (numeral : List Char → Numeral) (made : Bool) (calls : List Call)
    (allowed : Execution.Along (step numeral) (Allowed numeral) (.start made) calls)
    (listing : List (Text × List Char))
    (listed : listing.Perm (Pipeline.after numeral made calls).listing) :
    ∃ summary, logSummary numeral (Pipeline.after numeral made calls).directory.isSome listing =
      some summary ∧ Exact (Pipeline.after numeral made calls).persisted summary := by
  have kept := Execution.invariant_along
    (motive := fun pipeline => Kept numeral pipeline.directory pipeline.persisted)
    (fun _ _ allowed kept => kept_step allowed kept) (kept_start made) allowed
  exact logSummary_kept kept listed

/-- A call for the module `a` or `b`. -/
private def callOf (name : CodeUnit) (outcome : Outcome) : Call :=
  ⟨.given ⟨[name], units "info", units "up", none⟩, ⟨20, 26, 1, 2, 3, 4, 5⟩, true, outcome⟩

theorem log_summary_exact_two : ∃ summary,
    logSummary (fun _ => .zero) true
      (Pipeline.after (fun _ => .zero) false [callOf 97 .written, callOf 98 (.failed 3)]).listing =
        some summary ∧
      Exact (Pipeline.after (fun _ => .zero) false
        [callOf 97 .written, callOf 98 (.failed 3)]).persisted summary := by
  refine log_summary_exact (fun _ => .zero) false [callOf 97 .written, callOf 98 (.failed 3)]
    ⟨?_, ?_, trivial⟩ _ (List.Perm.refl _)
  · rintro entry - c last
    cases last
  · intro entry accepted
    refine .inr ⟨?_, ?_⟩
    · have name : entry.moduleName = [98] := by
        cases accepted
        rfl
      have fresh : Whole ((Pipeline.after (fun _ => .zero) false
          [callOf 97 .written]).directory.getD .empty |>.getD (logFile [98]) []) := by
        rintro c last
        cases last
      rw [Fresh, name]
      exact fresh
    · cases accepted
      rfl

/-- A line that follows the start of another is lost: the disk was full for one call. -/
theorem summary_inexact : ∃ calls, ¬ ∃ summary,
    logSummary (fun _ => .zero) true (Pipeline.after (fun _ => .zero) false calls).listing =
        some summary ∧
      Exact (Pipeline.after (fun _ => .zero) false calls).persisted summary := by
  refine ⟨[callOf 97 (.failed 1), callOf 97 .written], ?_⟩
  rintro ⟨summary, summed, exact⟩
  have one : (Pipeline.after (fun _ => .zero) false
      [callOf 97 (.failed 1), callOf 97 .written]).persisted.length = 1 := by rfl
  have none_ : (logSummary (fun _ => .zero) true (Pipeline.after (fun _ => .zero) false
      [callOf 97 (.failed 1), callOf 97 .written]).listing).map (·.totalLogs) = some 0 := by
    decide +kernel
  rw [summed, Option.map_some, exact.total, one] at none_
  cases none_

end SysDeck.Cockpit.LogPipeline
