import Mathlib.Data.List.DropRight
import SysDeck.Library.Matcher

/-! The validators of the firewall bridge: which texts they let through to commands and files. -/

namespace SysDeck.Cockpit.Validators

open Matcher (one many many1 upTo seq)

/-! ### Patterns -/

def templateChar (c : Char) : Bool := c.isAlphanum || c = '_' || c = '-'

def interfaceChar (c : Char) : Bool := c.isAlphanum || c = '.' || c = '_' || c = '-'

def cronFieldChar (c : Char) : Bool := c.isDigit || c = '*' || c = '/' || c = ',' || c = '-'

def mysqlStart (c : Char) : Bool := c.isAlpha || c = '_' || c = '$'

def mysqlChar (c : Char) : Bool := c.isAlphanum || c = '_' || c = '$'

/-- `[p]{1,most}` -/
def run1 (p : Char → Bool) (most : ℕ) : Matcher Char := seq (one p) (upTo p (most - 1))

def TEMPLATE_NAME_RE : Matcher Char := run1 templateChar 64

def BACKEND_NAME_RE : Matcher Char := run1 templateChar 32

def INTERFACE_NAME_RE : Matcher Char := run1 interfaceChar 15

def FILENAME_RE : Matcher Char := run1 interfaceChar 64

def cronField : Matcher Char := many1 cronFieldChar

def spaces : Matcher Char := many1 (· = ' ')

def CRON_SCHEDULE_RE : Matcher Char :=
  seq cronField (seq spaces (seq cronField (seq spaces (seq cronField (seq spaces (seq cronField
    (seq spaces cronField)))))))

def MYSQL_ID_RE : Matcher Char := seq (one mysqlStart) (upTo mysqlChar 63)

def MYSQL_RESERVED : List String :=
  ["mysql", "information_schema", "performance_schema", "sys", "root", "admin", "test", "tmp", "temp",
    "database", "table", "column", "index", "key", "primary", "foreign", "references", "constraint",
    "default", "null", "not", "true", "false", "select", "insert", "update", "delete", "create", "drop",
    "alter", "rename", "grant", "revoke", "user", "password", "host", "db"]

/-! ### Allowlists -/

/-- What the allowlist validators have in common: a bound on the length and a pattern up to `$`. -/
def allowed (pattern : Matcher Char) (most : ℕ) (text : List Char) : Bool :=
  !text.isEmpty && decide (text.length ≤ most) && pattern.matchesLine text

/-- `_validate_template_name` -/
def validateTemplateName (name : List Char) : Bool := allowed TEMPLATE_NAME_RE 64 name

/-- `_validate_backend_name` -/
def validateBackendName (name : List Char) : Bool := allowed BACKEND_NAME_RE 32 name

/-- `_validate_interface` -/
def validateInterface (name : List Char) : Bool := allowed INTERFACE_NAME_RE 15 name

/-- `_validate_filename` -/
def validateFilename (name : List Char) : Bool := allowed FILENAME_RE 64 name

/-- `_validate_cron_schedule` -/
def validateCronSchedule (schedule : List Char) : Bool := allowed CRON_SCHEDULE_RE 200 schedule

/-- `_validate_mysql_identifier`; what gets to `lower()` is ASCII. -/
def validateMysqlIdentifier (identifier : List Char) : Bool :=
  allowed MYSQL_ID_RE 64 identifier &&
    !MYSQL_RESERVED.any (fun word => identifier.map Char.toLower = word.toList) &&
    !identifier.contains '`'

inductive Validator where
  | templateName | backendName | interface | filename | cronSchedule | mysqlIdentifier
  deriving DecidableEq

namespace Validator

def accepts : Validator → List Char → Bool
  | templateName => validateTemplateName
  | backendName => validateBackendName
  | interface => validateInterface
  | filename => validateFilename
  | cronSchedule => validateCronSchedule
  | mysqlIdentifier => validateMysqlIdentifier

def pattern : Validator → Matcher Char
  | templateName => TEMPLATE_NAME_RE
  | backendName => BACKEND_NAME_RE
  | interface => INTERFACE_NAME_RE
  | filename => FILENAME_RE
  | cronSchedule => CRON_SCHEDULE_RE
  | mysqlIdentifier => MYSQL_ID_RE

def most : Validator → ℕ
  | templateName => 64
  | backendName => 32
  | interface => 15
  | filename => 64
  | cronSchedule => 200
  | mysqlIdentifier => 64

/-- The characters that a validator is documented to permit. -/
def alphabet : Validator → Char → Bool
  | templateName => templateChar
  | backendName => templateChar
  | interface => interfaceChar
  | filename => interfaceChar
  | cronSchedule => fun c => cronFieldChar c || c = ' '
  | mysqlIdentifier => mysqlChar

/-- What a validator that accepts the text is relied on for. -/
def Sound (validator : Validator) (text : List Char) : Prop :=
  validator.accepts text → (∀ c ∈ text, validator.alphabet c) ∧
    (validator = .filename → text ≠ "..".toList ∧ '/' ∉ text)

/-- A text of the pattern, and a newline after it that the bound on the length has room for. -/
def Newlined (validator : Validator) (text : List Char) : Prop :=
  text.length ≤ validator.most ∧ ∃ body, text = body ++ ['\n'] ∧ validator.pattern.Lang body

/-! ### What is accepted -/

theorem within_pattern (validator : Validator) :
    validator.pattern.Avoids (validator.alphabet · = false) := by
  have field : cronField.Avoids (cronSchedule.alphabet · = false) :=
    Matcher.avoids_many1 fun c holds => by simp [alphabet, holds]
  have space : spaces.Avoids (cronSchedule.alphabet · = false) :=
    Matcher.avoids_many1 fun c same => by simp_all [alphabet]
  have single (p : Char → Bool) (most : ℕ) : (run1 p most).Avoids (p · = false) :=
    (Matcher.avoids_one fun c holds => by simp [holds]).seq
      (Matcher.avoids_upTo (fun c holds => by simp [holds]) _)
  cases validator with
  | templateName => exact single templateChar 64
  | backendName => exact single templateChar 32
  | interface => exact single interfaceChar 15
  | filename => exact single interfaceChar 64
  | cronSchedule =>
    exact field.seq (space.seq (field.seq (space.seq (field.seq (space.seq (field.seq
      (space.seq field)))))))
  | mysqlIdentifier =>
    refine Matcher.Avoids.seq (Matcher.avoids_one ?_) (Matcher.avoids_upTo ?_ _)
    · intro c start
      have wider : mysqlChar c = true := by
        simp only [mysqlStart, mysqlChar, Char.isAlphanum, Bool.or_eq_true] at start ⊢
        tauto
      simp [alphabet, wider]
    · intro c holds
      simp [alphabet, holds]

theorem alphabet_of_lang {validator : Validator} {text : List Char} (lang : validator.pattern.Lang text) :
    ∀ c ∈ text, validator.alphabet c := fun c member =>
  (Bool.not_eq_false _).mp (within_pattern validator text lang c member)

theorem alphabet_newline (validator : Validator) : validator.alphabet '\n' = false := by
  cases validator <;> decide

theorem not_lang_nil (validator : Validator) : ¬validator.pattern.Lang [] := by
  have single {p : Char → Bool} {next : Matcher Char} : ¬(seq (one p) next).Lang [] := by
    rintro ⟨front, back, split, ⟨c, rfl, -⟩, -⟩
    cases split
  have cron {next : Matcher Char} : ¬(seq cronField next).Lang [] := by
    rintro ⟨front, back, split, begun, -⟩
    obtain ⟨rfl, -⟩ := List.append_eq_nil_iff.mp split.symm
    exact single begun
  cases validator with
  | cronSchedule => exact cron
  | _ => exact single

theorem allowed_iff (validator : Validator) (text : List Char) :
    allowed validator.pattern validator.most text ↔
      (text.length ≤ validator.most ∧ validator.pattern.Lang text) ∨ validator.Newlined text := by
  rw [allowed, Bool.and_eq_true, Bool.and_eq_true, decide_eq_true_eq, Matcher.matchesLine_iff, Newlined,
    Bool.not_eq_true', List.isEmpty_eq_false_iff]
  constructor
  · rintro ⟨⟨-, size⟩, whole | body⟩
    · exact .inl ⟨size, whole⟩
    · exact .inr ⟨size, body⟩
  · rintro (⟨size, lang⟩ | ⟨size, body, rfl, lang⟩)
    · refine ⟨⟨?_, size⟩, .inl lang⟩
      rintro rfl
      exact not_lang_nil validator lang
    · exact ⟨⟨List.append_ne_nil_of_right_ne_nil _ (List.cons_ne_nil _ _), size⟩, .inr ⟨body, rfl, lang⟩⟩

theorem allowed_of_accepts {validator : Validator} {text : List Char} (accepted : validator.accepts text) :
    allowed validator.pattern validator.most text := by
  cases validator with
  | mysqlIdentifier =>
    rw [accepts, validateMysqlIdentifier, Bool.and_eq_true, Bool.and_eq_true] at accepted
    exact accepted.1.1
  | _ => exact accepted

/-- With a newline after it even a reserved word is accepted. -/
theorem accepts_of_newlined {validator : Validator} {text : List Char} (newlined : validator.Newlined text) :
    validator.accepts text := by
  have passes : allowed validator.pattern validator.most text := (allowed_iff validator text).mpr (.inr newlined)
  cases validator with
  | mysqlIdentifier =>
    obtain ⟨-, body, rfl, lang⟩ := newlined
    rw [accepts, validateMysqlIdentifier, Bool.and_eq_true, Bool.and_eq_true]
    refine ⟨⟨passes, ?_⟩, ?_⟩
    · rw [Bool.not_eq_true', List.any_eq_false]
      intro word listed same
      have plain : ∀ word ∈ MYSQL_RESERVED, '\n' ∉ word.toList := by decide
      refine plain word listed ?_
      rw [← of_decide_eq_true same, List.map_append]
      exact List.mem_append_right _ List.mem_cons_self
    · rw [Bool.not_eq_true', List.contains_eq_mem, decide_eq_false_iff_not]
      intro member
      cases List.mem_append.mp member with
      | inl inside =>
        have permitted := alphabet_of_lang lang _ inside
        exact absurd permitted (by decide)
      | inr last => exact absurd (List.mem_singleton.mp last) (by decide)
  | _ => exact passes

/-- A text that is accepted is of the alphabet, except for a newline at its end; and two dots are a file
name. -/
theorem validator_sound_iff (validator : Validator) (text : List Char) :
    validator.Sound text ↔ ¬validator.Newlined text ∧ ¬(validator = .filename ∧ text = "..".toList) := by
  constructor
  · intro sound
    constructor
    · intro newlined
      have permitted := (sound (accepts_of_newlined newlined)).1
      obtain ⟨-, body, rfl, -⟩ := newlined
      have newline := permitted '\n' (List.mem_append_right _ List.mem_cons_self)
      rw [alphabet_newline] at newline
      cases newline
    · rintro ⟨rfl, rfl⟩
      have accepted : validateFilename "..".toList := by decide
      exact ((sound accepted).2 rfl).1 rfl
  · rintro ⟨bare, dots⟩ accepted
    have lang : validator.pattern.Lang text := by
      rcases (allowed_iff validator text).mp (allowed_of_accepts accepted) with ⟨-, lang⟩ | newlined
      · exact lang
      · exact absurd newlined bare
    refine ⟨alphabet_of_lang lang, ?_⟩
    rintro rfl
    refine ⟨fun same => dots ⟨rfl, same⟩, fun slash => ?_⟩
    have permitted := alphabet_of_lang lang '/' slash
    exact absurd permitted (by decide)

theorem a_newline_and_two_dots_are_accepted :
    validateInterface "eth0\n".toList ∧ validateMysqlIdentifier "root\n".toList ∧ validateFilename "..".toList ∧
      ¬∀ validator text, Sound validator text := by
  refine ⟨by decide, by decide, by decide, fun sound => ?_⟩
  have accepted : interface.accepts "eth0\n".toList := by decide
  have newline := (sound interface _ accepted).1 '\n' (by decide)
  exact absurd newline (by decide)

end Validator

/-! ### Addresses -/

def localChar (c : Char) : Bool :=
  c.isAlphanum || c = '.' || c = '_' || c = '%' || c = '+' || c = '-'

def domainChar (c : Char) : Bool := c.isAlphanum || c = '.' || c = '-'

def EMAIL_RE : Matcher Char :=
  seq (many1 localChar) (seq (one (· = '@')) (seq (many1 domainChar) (seq (one (· = '.'))
    (seq (one Char.isAlpha) (many1 Char.isAlpha)))))

def metacharacters : List Char := ";|&$`()<>!\x7b\x7d\n\r\x00".toList

/-- No mark of the syntax of addresses, and no control character. -/
def phraseChar (c : Char) : Bool := !"()<>@,:;.\\\"[]".toList.contains c && decide (32 ≤ c.toNat)

/-- `email.utils.parseaddr`: a name and the address part. -/
structure Parseaddr where
  parseaddr : List Char → List Char × List Char
  bare : ∀ addr, EMAIL_RE.Lang addr → (parseaddr addr).2 = addr
  named : ∀ name addr, (∀ c ∈ name, phraseChar c) → EMAIL_RE.Lang addr →
    (parseaddr (name ++ '<' :: (addr ++ ['>']))).2 = addr

/-- `_validate_email` -/
def validateEmail (email : Parseaddr) (addrStr : List Char) : Bool :=
  !addrStr.isEmpty && decide (addrStr.length ≤ 254) &&
    let addr := (email.parseaddr addrStr).2
    !addr.isEmpty && addr.contains '@' && EMAIL_RE.matchesLine addr && !metacharacters.any (addr.contains ·)

/-- A single bare address without any of the listed characters. -/
def Bare (text : List Char) : Prop := EMAIL_RE.Lang text ∧ ∀ c ∈ text, c ∉ metacharacters

theorem email_avoids {bad : Char → Prop} (letters : ∀ c, localChar c → ¬bad c) (mark : ¬bad '@') :
    EMAIL_RE.Avoids bad := by
  have domain : ∀ c, domainChar c → ¬bad c := by
    intro c holds
    refine letters c ?_
    simp only [domainChar, localChar, Bool.or_eq_true] at holds ⊢
    tauto
  have alpha : ∀ c, c.isAlpha → ¬bad c := by
    intro c holds
    refine letters c ?_
    simp [localChar, Char.isAlphanum, holds]
  have single : ∀ c, decide (c = '@') → ¬bad c := by
    intro c same
    rw [of_decide_eq_true same]
    exact mark
  have dot : ∀ c, decide (c = '.') → ¬bad c := by
    intro c same
    rw [of_decide_eq_true same]
    exact letters '.' (by decide)
  exact (Matcher.avoids_many1 letters).seq ((Matcher.avoids_one single).seq ((Matcher.avoids_many1 domain).seq
    ((Matcher.avoids_one dot).seq ((Matcher.avoids_one alpha).seq (Matcher.avoids_many1 alpha)))))

theorem metacharacters_avoided : EMAIL_RE.Avoids (· ∈ metacharacters) := by
  refine email_avoids (fun c letter listed => ?_) (by decide)
  have none : metacharacters.all (fun c => !localChar c) := by decide
  have other := List.all_eq_true.mp none c listed
  rw [letter] at other
  cases other

theorem bare_of_lang {text : List Char} (lang : EMAIL_RE.Lang text) : Bare text :=
  ⟨lang, metacharacters_avoided text lang⟩

theorem at_mem_of_lang {text : List Char} (lang : EMAIL_RE.Lang text) : '@' ∈ text := by
  obtain ⟨front, _, rfl, -, _, _, rfl, ⟨c, rfl, same⟩, -⟩ := lang
  obtain rfl := of_decide_eq_true same
  simp

/-- The check of the listed characters is what refuses a newline at the end of the address. -/
theorem validateEmail_iff (email : Parseaddr) (text : List Char) :
    validateEmail email text ↔
      text ≠ [] ∧ text.length ≤ 254 ∧ EMAIL_RE.Lang (email.parseaddr text).2 := by
  simp only [validateEmail, Bool.and_eq_true, Bool.not_eq_true', List.isEmpty_eq_false_iff, decide_eq_true_eq,
    Matcher.matchesLine_iff, List.any_eq_false, List.contains_iff_mem]
  constructor
  · rintro ⟨⟨begun, size⟩, ⟨-, lang | ⟨body, whole, -⟩⟩, clean⟩
    · exact ⟨begun, size, lang⟩
    · refine absurd ?_ (clean '\n' (by decide))
      rw [whole]
      exact List.mem_append_right _ List.mem_cons_self
  · rintro ⟨begun, size, lang⟩
    have mark := at_mem_of_lang lang
    refine ⟨⟨begun, size⟩, ⟨⟨List.ne_nil_of_mem mark, mark⟩, .inl lang⟩, ?_⟩
    intro c listed member
    exact metacharacters_avoided _ lang c member listed

/-- An accepted text is a bare address, except where a name, brackets, a comment or blanks stand around the
address that is checked. -/
theorem accepted_bare_iff (email : Parseaddr) (text : List Char) :
    (validateEmail email text → Bare text) ↔
      ¬(text ≠ [] ∧ text.length ≤ 254 ∧ EMAIL_RE.Lang (email.parseaddr text).2 ∧
        (email.parseaddr text).2 ≠ text) := by
  rw [validateEmail_iff]
  constructor
  · rintro sound ⟨begun, size, lang, differ⟩
    exact differ (email.bare text (sound ⟨begun, size, lang⟩).1)
  · rintro clear ⟨begun, size, lang⟩
    by_cases same : (email.parseaddr text).2 = text
    · rw [same] at lang
      exact bare_of_lang lang
    · exact absurd ⟨begun, size, lang, same⟩ clear

/-- Any name may stand before an address in brackets. -/
theorem named_is_accepted (email : Parseaddr) {name addr : List Char} (phrase : ∀ c ∈ name, phraseChar c)
    (lang : EMAIL_RE.Lang addr) (size : name.length + addr.length ≤ 252) :
    validateEmail email (name ++ '<' :: (addr ++ ['>'])) ∧ ¬Bare (name ++ '<' :: (addr ++ ['>'])) := by
  constructor
  · rw [validateEmail_iff, email.named name addr phrase lang]
    refine ⟨by simp, ?_, lang⟩
    simp only [List.length_append, List.length_cons, List.length_nil]
    omega
  · rintro ⟨-, clean⟩
    exact clean '<' (by simp) (by decide)

/-- What stands in brackets, or else the whole text. -/
def bracketed : Parseaddr where
  parseaddr text :=
    if '<' ∈ text then
      ((text.takeWhile (· ≠ '<')).rdropWhile (· = ' '), (text.dropWhile (· ≠ '<')).tail.takeWhile (· ≠ '>'))
    else ([], text)
  bare addr lang := by
    have absent : '<' ∉ addr := fun member => metacharacters_avoided addr lang '<' member (by decide)
    rw [if_neg absent]
  named name addr phrase lang := by
    have outside : ∀ c ∈ name, (!decide (c = '<')) = true := by
      intro c member
      have plain := phrase c member
      rw [Bool.not_eq_true', decide_eq_false_iff_not]
      rintro rfl
      exact absurd plain (by decide)
    have inside : ∀ c ∈ addr, (!decide (c = '>')) = true := by
      intro c member
      rw [Bool.not_eq_true', decide_eq_false_iff_not]
      rintro rfl
      exact metacharacters_avoided addr lang '>' member (by decide)
    rw [if_pos (List.mem_append_right _ List.mem_cons_self)]
    simp [List.dropWhile_append_of_pos outside, List.takeWhile_append_of_pos inside]

theorem a_name_with_metacharacters_is_accepted :
    validateEmail bracketed "$x|sh& <a@b.co>".toList ∧ ¬Bare "$x|sh& <a@b.co>".toList := by
  refine ⟨by decide, ?_⟩
  rintro ⟨-, clean⟩
  exact clean '$' (by decide) (by decide)

end SysDeck.Cockpit.Validators
