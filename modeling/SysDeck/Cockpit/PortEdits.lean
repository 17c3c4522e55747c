import SysDeck.Cockpit.PackageText
import SysDeck.Cockpit.PortPatterns

/-! What setting a port does to a configuration file: which files keep all but the digits, and where
the port that is set is the one that is read back. -/

namespace SysDeck.Cockpit.ServicePorts

open Packages (isSpace)
open PackageFiles (universal universal_of_none return_not_mem_universal)
open PythonInt (isDigit)

/-! ### Reading what was written -/

theorem reads_of_search {pattern : Pattern} {text before : List Char} {found : Found}
    (matched : pattern.search true text = some (before, found)) :
    ∃ rest, text = before ++ rest ∧ Reads pattern rest found := by
  obtain ⟨rest, split, hit⟩ := search_split matched
  exact ⟨rest, split, matchAt_eq_some hit⟩

theorem return_not_mem_edited {pattern : Pattern} {text before : List Char} {found : Found} {port : ℕ}
    (plain : '\r' ∉ text) (matched : pattern.search true text = some (before, found)) :
    '\r' ∉ edited port before found := by
  obtain ⟨rest, rfl, reads⟩ := reads_of_search matched
  rw [reads.split] at plain
  intro member
  simp only [edited, List.mem_append] at member plain
  rcases member with ((member | member) | member) | member
  · exact plain (.inl member)
  · exact plain (.inr (.inl member))
  · exact absurd (ascii_of_mem_decimal _ member) (by decide)
  · exact plain (.inr (.inr (.inr (.inr member))))

/-- The text that is written is the text that is read. -/
theorem readText_edited {pattern : Pattern} {bytes : List Byte} {before : List Char} {found : Found} {port : ℕ}
    (matched : pattern.search true (readText bytes) = some (before, found)) :
    readText (Utf8.encode (edited port before found)) = edited port before found := by
  rw [readText, Utf8.decode_encode]
  exact universal_of_none (return_not_mem_edited (return_not_mem_universal _) matched)

/-! ### The frame -/

/-- The file that is written is the old one with the port in the place of the digits of the first
match. -/
def OnlyPort (service : Service) (port : ℕ) (old new : List Byte) : Prop :=
  ∃ before found back, service.pattern.search true (readText old) = some (before, found) ∧
    old = Utf8.encode (before ++ found.pre) ++ Utf8.encode found.digits ++ back ∧
    new = Utf8.encode (before ++ found.pre) ++ Utf8.encode (decimal port) ++ back

/-- No blanks at the start of the text are followed by a line end. -/
def Tight (text : List Char) : Prop :=
  ∀ blank later, text = blank ++ later → (∀ c ∈ blank, isSpace c) → EndsLine later → blank = []

/-- A file of characters without carriage returns, where the line of an assignment ends with its
digits and the next line has something on it. -/
def Kept (service : Service) (bytes : List Byte) : Prop :=
  ∃ text, bytes = Utf8.encode text ∧ '\r' ∉ text ∧ ∀ before found,
    service.pattern.search true text = some (before, found) → service.pattern.line →
      Tight (found.swallowed ++ found.rest)

theorem encode_append (front back : List Char) :
    Utf8.encode (front ++ back) = Utf8.encode front ++ Utf8.encode back := List.flatMap_append

theorem length_universal_le (text : List Char) : (universal text).length ≤ text.length := by
  fun_induction universal text with
  | case1 rest ih => simp only [List.length_cons]; omega
  | case2 rest _ ih => simp only [List.length_cons]; omega
  | case3 c rest _ _ ih => simp only [List.length_cons]; omega
  | case4 => exact le_refl 0

/-- What the expression took after the digits is nothing exactly where no line end is after blanks. -/
theorem swallowed_eq_nil_iff {pattern : Pattern} {text : List Char} {found : Found}
    (reads : Reads pattern text found) :
    found.swallowed = [] ↔ (pattern.line → Tight (found.swallowed ++ found.rest)) := by
  by_cases line : pattern.line
  · have closed := reads.close
    rw [Pattern.close, if_pos line] at closed
    obtain ⟨-, blank, ends, longest⟩ := ending_eq_some closed
    constructor
    · intro nothing _ more later split spaces last
      rw [nothing, List.nil_append] at split
      by_contra begun
      exact longest more later split begun spaces last
    · intro tight
      exact tight line _ _ rfl blank ends
  · have closed := reads.close
    rw [Pattern.close, if_neg line] at closed
    exact iff_of_true (Prod.mk.inj (Option.some.inj closed)).1.symm fun line' => absurd line' line

theorem onlyPort_iff {service : Service} {bytes : List Byte} {before : List Char} {found : Found} (port : ℕ)
    (matched : service.pattern.search true (readText bytes) = some (before, found)) :
    OnlyPort service port bytes (Utf8.encode (edited port before found)) ↔ Kept service bytes := by
  obtain ⟨rest, split, reads⟩ := reads_of_search matched
  rw [reads.split] at split
  constructor
  · rintro ⟨before', found', back, again, old, new⟩
    obtain ⟨rfl, rfl⟩ := Prod.mk.inj (Option.some.inj (matched.symm.trans again))
    have tail : back = Utf8.encode found.rest := by
      rw [edited, encode_append, encode_append (before ++ found.pre)] at new
      exact (List.append_cancel_left new).symm
    rw [tail, ← encode_append, ← encode_append] at old
    have read : readText bytes = universal (before ++ found.pre ++ found.digits ++ found.rest) := by
      rw [readText, old, Utf8.decode_encode]
    -- the text that is read is no longer than the one of the bytes
    have nothing : found.swallowed = [] := by
      have short := length_universal_le (before ++ found.pre ++ found.digits ++ found.rest)
      rw [← read, split] at short
      simp only [List.length_append] at short
      exact List.eq_nil_of_length_eq_zero (by omega)
    have same : readText bytes = before ++ found.pre ++ found.digits ++ found.rest := by
      rw [split, nothing]
      simp only [List.nil_append, List.append_assoc]
    refine ⟨readText bytes, by rw [same]; exact old, return_not_mem_universal _, ?_⟩
    intro before' found' once
    obtain ⟨rfl, rfl⟩ := Prod.mk.inj (Option.some.inj (matched.symm.trans once))
    exact (swallowed_eq_nil_iff reads).mp nothing
  · rintro ⟨text, rfl, plain, tight⟩
    have read : readText (Utf8.encode text) = text := by
      rw [readText, Utf8.decode_encode, universal_of_none plain]
    have nothing := (swallowed_eq_nil_iff reads).mpr (tight before found (read ▸ matched))
    refine ⟨before, found, Utf8.encode found.rest, matched, ?_, ?_⟩
    · rw [← encode_append, ← encode_append, ← read, split, nothing]
      simp only [List.nil_append, List.append_assoc]
    · rw [edited, encode_append, encode_append]

/-! ### Reading back -/

/-- The port is the host of an option, before the digits of another port. -/
def Shadowed (service : Service) (port : ℕ) (found : Found) : Prop :=
  service = .varnish ∧ ∃ space host shadow tail, (∀ c ∈ space, isSpace c) ∧
    found.pre = "-a".toList ++ (space ++ [':']) ∧ (∀ c ∈ host, hostChar c) ∧
    found.rest = host ++ ':' :: (shadow ++ tail) ∧ shadow ≠ [] ∧ (∀ c ∈ shadow, isDigit c) ∧
    (∀ c ∈ tail.head?, isDigit c = false) ∧ shadow ≠ decimal port

theorem hostChar_of_mem_decimal {port : ℕ} : ∀ c ∈ decimal port, hostChar c := by
  intro c member
  simp [hostChar, ascii_of_mem_decimal c member]

theorem close_varnish (text : List Char) : Service.varnish.pattern.close text = some ([], text) := rfl

/-- Without the colon at its end, the option takes the port for its host. -/
theorem wide_of_shadowed {service : Service} {port : ℕ} {found : Found} (shadowed : Shadowed service port found) :
    ∃ other, Reads Service.varnish.pattern (found.pre ++ (decimal port ++ found.rest)) other ∧
      Wide other.pre ∧ other.digits ≠ decimal port := by
  obtain ⟨-, space, host, shadow, tail, blank, pre, all, rest, begun, digits, stop, differ⟩ := shadowed
  have visible : ∀ c ∈ decimal port ++ host, hostChar c := by
    intro c member
    cases List.mem_append.mp member with
    | inl member => exact hostChar_of_mem_decimal c member
    | inr member => exact all c member
  refine ⟨⟨"-a".toList ++ (space ++ ':' :: ((decimal port ++ host) ++ [':'])), shadow, [], tail⟩,
    ⟨?_, ?_, begun, digits, stop, close_varnish _⟩, ⟨space, decimal port ++ host, blank, visible, rfl⟩, differ⟩
  · rw [pre, rest]
    simp
  · refine .inl ⟨_, _, rfl, List.map_id _, _, _, rfl, blank, [':'], _, rfl, .inl ⟨':', rfl, rfl⟩, ?_⟩
    exact ⟨_, [':'], rfl, visible, ':', rfl, rfl⟩

theorem swallowed_varnish {text : List Char} {found : Found}
    (reads : Reads Service.varnish.pattern text found) : found.swallowed = [] :=
  (Prod.mk.inj (Option.some.inj ((close_varnish _).symm.trans reads.close))).1.symm

/-- A colon after letters of a host, where a port comes first. -/
theorem host_after_decimal {port : ℕ} {rest run tail : List Char} (all : ∀ c ∈ run, hostChar c)
    (split : decimal port ++ rest = run ++ ':' :: tail) :
    ∃ host, (∀ c ∈ host, hostChar c) ∧ rest = host ++ ':' :: tail := by
  rcases List.append_eq_append_iff.mp split with ⟨host, rfl, after⟩ | ⟨more, same, after⟩
  · exact ⟨host, fun c member => all c (List.mem_append_right _ member), after⟩
  · cases more with
    | nil => exact ⟨[], fun _ member => absurd member List.not_mem_nil, after.symm⟩
    | cons c more =>
      obtain ⟨rfl, -⟩ := List.cons.inj after
      have digit := ascii_of_mem_decimal ':' (by rw [same]; simp)
      exact absurd digit (by decide)

/-- Where an option takes the port for its host, the prefix was one without a host. -/
theorem shadowed_of_wide {text : List Char} {port : ℕ} {found other : Found}
    (reads : Reads Service.varnish.pattern text found) (narrow : ¬Wide found.pre)
    (again : Reads Service.varnish.pattern (found.pre ++ (decimal port ++ found.rest)) other)
    (wide : Wide other.pre) (differ : other.digits ≠ decimal port) : Shadowed .varnish port found := by
  obtain ⟨space, run, blank, all, same⟩ := wide
  have split := again.split
  have stop := again.stop
  rw [swallowed_varnish again, List.nil_append] at split stop
  rw [same] at split
  rcases narrow_forms reads.pre narrow with assigned | ⟨space', host', blank', all', same'⟩
  · have head := congrArg List.head? split
    rw [List.head?_append, head_of_listenPort assigned] at head
    cases head
  · have left : found.pre ++ (decimal port ++ found.rest) =
        "-a".toList ++ (space' ++ (host' ++ ':' :: (decimal port ++ found.rest))) := by
      rw [same']
      simp
    have right : found.pre ++ (decimal port ++ found.rest) =
        "-a".toList ++ (space ++ ':' :: (run ++ ':' :: (other.digits ++ other.rest))) := by
      rw [split]
      simp
    obtain ⟨rfl, after⟩ := option_space left blank' (head_of_host all' _)
    obtain ⟨-, after'⟩ := option_space right blank (by rintro _ ⟨⟩; rfl)
    have tail := after.symm.trans after'
    cases host' with
    | cons c host' =>
      obtain ⟨rfl, -⟩ := List.cons.inj tail
      have hostColon := all' _ List.mem_cons_self
      exact absurd hostColon (by decide)
    | nil =>
      obtain ⟨host, letters, rest⟩ := host_after_decimal all (List.cons.inj tail).2
      exact ⟨rfl, _, host, other.digits, other.rest, blank', same', letters, rest, again.begun, again.digits,
        stop, differ⟩

theorem narrow_of_shadowed {service : Service} {port : ℕ} {found : Found}
    (shadowed : Shadowed service port found) : ¬Wide found.pre := by
  rintro ⟨space, host, blank, -, wide⟩
  obtain ⟨-, space', -, -, -, blank', bare, -⟩ := shadowed
  have after := (option_space bare blank' (by rintro _ ⟨⟩; rfl)).2
  rw [(option_space wide blank (by rintro _ ⟨⟩; rfl)).2] at after
  simp at after

/-- The match in the text with the port is at the same place, and has the digits of the port but where
these are shadowed. -/
theorem search_edited {service : Service} {text before : List Char} {found : Found} (port : ℕ)
    (matched : service.pattern.search true text = some (before, found)) :
    ∃ again, service.pattern.search true (edited port before found) = some (before, again) ∧
      edited port before found = before ++ again.pre ++ again.digits ++ again.rest ∧
      (again.digits = decimal port ↔ ¬Shadowed service port found) := by
  obtain ⟨rest, rfl, hit⟩ := search_split matched
  have reads := matchAt_eq_some hit
  have whole : edited port before found = before ++ (found.pre ++ (decimal port ++ found.rest)) := by
    rw [edited]
    simp only [List.append_assoc]
  have search : ∀ again, service.pattern.matchAt (found.pre ++ (decimal port ++ found.rest)) = some again →
      service.pattern.search true (edited port before found) = some (before, again) := by
    intro again hit'
    rw [whole]
    exact search_of_apart matched hit' fun skipped begun => matchAt_of_edited reads service.apart port begun
  -- the prefix is matched as before
  have same : service.pattern.matchAt (found.pre ++ (decimal port ++ found.rest)) =
      some ⟨found.pre, decimal port, [], found.rest⟩ → ¬Shadowed service port found →
      ∃ again, service.pattern.search true (edited port before found) = some (before, again) ∧
        edited port before found = before ++ again.pre ++ again.digits ++ again.rest ∧
        (again.digits = decimal port ↔ ¬Shadowed service port found) := by
    intro hit' clear
    exact ⟨_, search _ hit', rfl, iff_of_true rfl clear⟩
  by_cases varnish : service = .varnish
  · subst varnish
    by_cases wide : Wide found.pre
    · exact same ((reads.edit port).matchAt_wide wide) fun shadowed => narrow_of_shadowed shadowed wide
    · by_cases taken : ∃ other, Reads Service.varnish.pattern
          (found.pre ++ (decimal port ++ found.rest)) other ∧ Wide other.pre
      · obtain ⟨other, again, wide'⟩ := taken
        have hit' := again.matchAt_wide wide'
        refine ⟨other, search other hit', ?_, ?_⟩
        · rw [whole, again.split, swallowed_varnish again, List.nil_append]
          simp only [List.append_assoc]
        · constructor
          · intro digits shadowed
            obtain ⟨shadow, later, wideLater, differ⟩ := wide_of_shadowed shadowed
            obtain rfl := Option.some.inj ((later.matchAt_wide wideLater).symm.trans hit')
            exact differ digits
          · intro clear
            by_contra differ
            exact clear (shadowed_of_wide reads wide again wide' differ)
      · refine same ((reads.edit port).matchAt ?_) ?_
        · intro other again
          exact (reads.edit port).narrow again wide fun wide' => taken ⟨other, again, wide'⟩
        · intro shadowed
          obtain ⟨shadow, later, wideLater, -⟩ := wide_of_shadowed shadowed
          exact taken ⟨shadow, later, wideLater⟩
  · refine same ((reads.edit port).matchAt ?_) fun shadowed => varnish shadowed.1
    intro other again
    exact Service.single varnish _ _ _ again (reads.edit port)

theorem intOf_decimal {port : ℕ} (high : port ≤ 65535) : intOf (decimal port) = some port := by
  have short : (decimal port).length ≤ 5 :=
    (Nat.length_toDigits_le_iff (by decide) (by decide)).mpr (Nat.lt_of_le_of_lt high (by decide))
  rw [intOf, if_pos (by omega), PythonInt.digits_ascii (decimal_ne_nil port) ascii_of_mem_decimal, decimal,
    Nat.ofDigitChars_ten_toDigits]

theorem readsBack_iff {service : Service} {port : ℕ} {bytes : List Byte} {before : List Char} {found : Found}
    (low : 1 ≤ port) (high : port ≤ 65535)
    (matched : service.pattern.search true (readText bytes) = some (before, found)) :
    (extractPort service.pattern (Utf8.encode (edited port before found)) = .port port ∧
      ∃ digits, setPort service.pattern port (Utf8.encode (edited port before found)) =
        some (digits, Utf8.encode (edited port before found))) ↔ ¬Shadowed service port found := by
  obtain ⟨again, search, split, clear⟩ := search_edited port matched
  rw [← clear, extractPort, setPort, readText_edited matched, search]
  constructor
  · rintro ⟨-, digits, same⟩
    have text := Utf8.encode_injective (Prod.mk.inj (Option.some.inj same)).2
    rw [split, edited, List.append_cancel_right_eq, List.append_cancel_left_eq] at text
    exact text.symm
  · intro same
    refine ⟨?_, again.digits, ?_⟩
    · simp only [same, intOf_decimal high, low, high, and_self, if_true]
    · have whole : edited port before again = edited port before found := by rw [split, edited, same]
      change some (again.digits, Utf8.encode (edited port before again)) = _
      rw [whole]

/-! ### The command -/

theorem validatePort_range {text : String} {port : ℕ} (valid : validatePort text = some port) :
    1 ≤ port ∧ port ≤ 65535 := by
  unfold validatePort at valid
  split at valid
  · cases valid
  · dsimp only at valid
    split at valid
    · rename_i inside
      simp only [Bool.and_eq_true, decide_eq_true_eq] at inside
      obtain rfl := Option.some.inj valid
      exact ⟨inside.1.2, inside.2⟩
    · cases valid

section Command

variable {host host' : Host} {sid portText : String} {more : List String} {reply : Reply}
variable {service : Service} {port : ℕ} {path : Path} {bytes : List Byte}

/-- A run that succeeds has found a match, and writes the edited text in the place of the file. -/
theorem cmdSetServicePort_eq_ok (done : cmdSetServicePort host (sid :: portText :: more) = .ok (reply, host'))
    (valid : validatePort portText = some port) (entry : registryById sid = some service)
    (file : resolveFirstConfig host service.configFiles = some path) (content : host.content path = some bytes) :
    validateServiceId sid ∧ host.writable path ∧ ∃ before found,
      service.pattern.search true (readText bytes) = some (before, found) ∧
        host' = host.write path (Utf8.encode (edited port before found)) := by
  cases named : validateServiceId sid with
  | false => simp [cmdSetServicePort, named] at done
  | true =>
    cases set : setPort service.pattern port bytes with
    | none => simp [cmdSetServicePort, named, valid, entry, file, content, set] at done
    | some written =>
      cases open_ : host.writable path with
      | false => simp [cmdSetServicePort, named, valid, entry, file, content, set, open_] at done
      | true =>
        simp only [cmdSetServicePort, named, valid, entry, file, content, set, open_, if_true] at done
        obtain ⟨⟨before, found⟩, matched, rfl⟩ := Option.map_eq_some_iff.mp set
        refine ⟨rfl, rfl, before, found, matched, ?_⟩
        exact (Prod.mk.inj (Except.ok.inj done)).2.symm

theorem cmdSetServicePort_ok {digits : List Char} {written : List Byte} (named : validateServiceId sid)
    (valid : validatePort portText = some port) (entry : registryById sid = some service)
    (file : resolveFirstConfig host service.configFiles = some path) (content : host.content path = some bytes)
    (set : setPort service.pattern port bytes = some (digits, written)) (open_ : host.writable path) :
    cmdSetServicePort host (sid :: portText :: more) =
      .ok (⟨service, path, intOf digits, port, service.units.find? host.restarts⟩, host.write path written) := by
  simp [cmdSetServicePort, named, valid, entry, file, content, set, open_]

theorem content_write : (host.write path bytes).content path = some bytes := if_pos rfl

/-- A run that succeeds changes only the digits exactly in the files that are plain text, with
something on the line after the assignment. -/
theorem only_the_port_changes_iff
    (done : cmdSetServicePort host (sid :: portText :: more) = .ok (reply, host'))
    (valid : validatePort portText = some port) (entry : registryById sid = some service)
    (file : resolveFirstConfig host service.configFiles = some path) (content : host.content path = some bytes) :
    (∃ written, host'.content path = some written ∧ OnlyPort service port bytes written) ↔
      Kept service bytes := by
  obtain ⟨-, -, before, found, matched, rfl⟩ := cmdSetServicePort_eq_ok done valid entry file content
  rw [← onlyPort_iff port matched]
  constructor
  · rintro ⟨written, same, only⟩
    rw [content_write] at same
    exact Option.some.inj same ▸ only
  · exact fun only => ⟨_, content_write, only⟩

/-- A host with one configuration file. -/
def servedBy (name : String) (path : Path) (bytes : List Byte) : Host where
  realpath file := if file = name then some path else none
  content place := if place = path then some bytes else none
  writable _ := true
  restarts _ := true

def sshdConfig (text : String) : Host :=
  servedBy "/etc/ssh/sshd_config" ["etc", "ssh", "sshd_config"] (Utf8.encode text.toList)

theorem sshd_port_changes_iff :
    (∃ written, ((sshdConfig "Port 22\nUsePAM yes").write ["etc", "ssh", "sshd_config"]
        (Utf8.encode "Port 8080\nUsePAM yes".toList)).content ["etc", "ssh", "sshd_config"] = some written ∧
      OnlyPort .ssh 8080 (Utf8.encode "Port 22\nUsePAM yes".toList) written) ↔
    Kept .ssh (Utf8.encode "Port 22\nUsePAM yes".toList) :=
  @only_the_port_changes_iff (sshdConfig "Port 22\nUsePAM yes") _ "ssh" "8080" []
    ⟨.ssh, ["etc", "ssh", "sshd_config"], some 22, 8080, some "sshd.service"⟩ _ _ _ _ rfl rfl rfl rfl rfl

/-- The line end at the end of the file goes with the digits. -/
theorem a_last_line_end_is_lost :
    cmdSetServicePort (sshdConfig "Port 22\n") ["ssh", "8080"] =
      .ok (⟨.ssh, ["etc", "ssh", "sshd_config"], some 22, 8080, some "sshd.service"⟩,
        (sshdConfig "Port 22\n").write ["etc", "ssh", "sshd_config"] (Utf8.encode "Port 8080".toList)) ∧
    ¬OnlyPort .ssh 8080 (Utf8.encode "Port 22\n".toList) (Utf8.encode "Port 8080".toList) := by
  refine ⟨rfl, ?_⟩
  rintro ⟨before, found, back, matched, old, new⟩
  obtain ⟨rfl, rfl⟩ := Prod.mk.inj (Option.some.inj (matched.symm.trans
    (show _ = some ([], ⟨"Port ".toList, "22".toList, "\n".toList, []⟩) from rfl)))
  have size := congrArg List.length old
  have size' := congrArg List.length new
  rw [List.length_append, List.length_append] at size size'
  change 8 = 5 + 2 + back.length at size
  change 9 = 5 + 4 + back.length at size'
  omega

/-- The reader returns the port that was set, and setting it once more leaves the file as it is. -/
def ReadsBack (host : Host) (args : List String) (service : Service) (path : Path) (port : ℕ) : Prop :=
  extractPortFromConfig host service path = .port port ∧
    ∃ again after, cmdSetServicePort host args = .ok (again, after) ∧ after.content path = host.content path

theorem reads_back_iff
    (done : cmdSetServicePort host (sid :: portText :: more) = .ok (reply, host'))
    (valid : validatePort portText = some port) (entry : registryById sid = some service)
    (file : resolveFirstConfig host service.configFiles = some path) (content : host.content path = some bytes) :
    ReadsBack host' (sid :: portText :: more) service path port ↔ ∀ before found,
      service.pattern.search true (readText bytes) = some (before, found) → ¬Shadowed service port found := by
  obtain ⟨named, open_, before, found, matched, rfl⟩ := cmdSetServicePort_eq_ok done valid entry file content
  obtain ⟨low, high⟩ := validatePort_range valid
  have clear : (∀ before found, service.pattern.search true (readText bytes) = some (before, found) →
      ¬Shadowed service port found) ↔ ¬Shadowed service port found := by
    constructor
    · exact fun all => all before found matched
    · rintro clear before' found' again
      obtain ⟨rfl, rfl⟩ := Prod.mk.inj (Option.some.inj (matched.symm.trans again))
      exact clear
  rw [clear, ← readsBack_iff low high matched, ReadsBack, extractPortFromConfig, content_write]
  refine and_congr_right fun _ => ?_
  constructor
  · rintro ⟨again, after, twice, same⟩
    obtain ⟨-, -, before', found', matched', rfl⟩ :=
      cmdSetServicePort_eq_ok twice valid entry (show resolveFirstConfig _ _ = _ from file) content_write
    rw [content_write, Option.some_inj] at same
    refine ⟨found'.digits, ?_⟩
    rw [setPort, matched']
    exact congrArg (fun written => some (found'.digits, written)) same
  · rintro ⟨digits, set⟩
    refine ⟨_, _, cmdSetServicePort_ok named valid entry (show resolveFirstConfig _ _ = _ from file)
      content_write set open_, content_write⟩

theorem sshd_port_reads_back_iff :
    ReadsBack ((sshdConfig "Port 22\n").write ["etc", "ssh", "sshd_config"] (Utf8.encode "Port 8080".toList))
      ["ssh", "8080"] .ssh ["etc", "ssh", "sshd_config"] 8080 ↔ ∀ before found,
        Service.ssh.pattern.search true (readText (Utf8.encode "Port 22\n".toList)) = some (before, found) →
          ¬Shadowed .ssh 8080 found :=
  @reads_back_iff (sshdConfig "Port 22\n") _ "ssh" "8080" []
    ⟨.ssh, ["etc", "ssh", "sshd_config"], some 22, 8080, some "sshd.service"⟩ _ _ _ _ rfl rfl rfl rfl rfl

def varnishDefault (text : String) : Host :=
  servedBy "/etc/default/varnish" ["etc", "default", "varnish"] (Utf8.encode text.toList)

/-- A port in other digits is no host, the new one is, and the port after it is read. -/
theorem a_later_port_is_read :
    cmdSetServicePort (varnishDefault "-a :٢٢:80") ["varnish", "8080"] =
      .ok (⟨.varnish, ["etc", "default", "varnish"], some 22, 8080, some "varnish.service"⟩,
        (varnishDefault "-a :٢٢:80").write ["etc", "default", "varnish"]
          (Utf8.encode "-a :8080:80".toList)) ∧
    ¬ReadsBack ((varnishDefault "-a :٢٢:80").write ["etc", "default", "varnish"]
      (Utf8.encode "-a :8080:80".toList)) ["varnish", "8080"] .varnish ["etc", "default", "varnish"] 8080 := by
  have set : setPort Service.varnish.pattern 8080 (Utf8.encode "-a :٢٢:80".toList) =
      some ("٢٢".toList, Utf8.encode "-a :8080:80".toList) := by
    exact of_decide_eq_true rfl
  have old : intOf "٢٢".toList = some 22 := by rfl
  refine ⟨?_, ?_⟩
  · rw [← old]
    exact cmdSetServicePort_ok rfl rfl rfl rfl rfl set rfl
  · rintro ⟨read, -⟩
    have other : extractPortFromConfig ((varnishDefault "-a :٢٢:80").write ["etc", "default", "varnish"]
        (Utf8.encode "-a :8080:80".toList)) .varnish ["etc", "default", "varnish"] = .port 80 := by
      rfl
    rw [other] at read
    cases read

end Command

end SysDeck.Cockpit.ServicePorts
