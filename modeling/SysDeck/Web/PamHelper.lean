import SysDeck.Library.CString
import SysDeck.Web.Http
import SysDeck.Web.Users

/-! The helper that asks the host's PAM stack: the credentials come as a JSON document,
and cross to PAM as C strings. -/

namespace SysDeck.Web

def maxDocBytes : ℕ := 64 * 1024
def pamSuccess : Int32 := 0
def pamPromptEchoOff : Int32 := 1
def pamPromptEchoOn : Int32 := 2

/-- The replies to the messages of a conversation, by their styles. -/
abbrev Conversation := List Int32 → List (Option CString)

/-- What the host does in an attempt. -/
structure PamHost where
  /-- Whether libpam and libc can be loaded. -/
  libraries : Bool
  /-- Whether a stack of that name is configured. -/
  haveStack : JsString → Bool
  start (service user : CString) : Int32
  authenticate (service user : CString) (conv : Conversation) : Int32
  acctMgmt (service user : CString) (conv : Conversation) : Int32

/-- The conversation answers prompts for a password and for a user. -/
def conv (user password : CString) : Conversation := fun styles =>
  styles.map fun style =>
    if style = pamPromptEchoOff then some password
    else if style = pamPromptEchoOn then some user
    else none

/-- The stack lets the user in with the password. -/
structure PamHost.Accepts (host : PamHost) (service user password : CString) : Prop where
  started : host.start service user = pamSuccess
  authenticated : host.authenticate service user (conv user password) = pamSuccess
  allowed : host.acctMgmt service user (conv user password) = pamSuccess

inductive HelperRefusal where
  | stdinReadError
  | badRequest
  | badJson
  | oversizedCredential
  | pamUnavailable
  | pamStartError (code : Int32)
  | authFailed (code : Int32)

namespace HelperRefusal

def reason : HelperRefusal → JsString
  | stdinReadError => js "stdin-read-error"
  | badRequest => js "bad-request"
  | badJson => js "bad-json"
  | oversizedCredential => js "oversized-credential"
  | pamUnavailable => js "pam-unavailable"
  | pamStartError _ => js "pam-start-error"
  | authFailed _ => js "auth-failed"

def code : HelperRefusal → Option Int32
  | pamStartError code | authFailed code => some code
  | stdinReadError | badRequest | badJson | oversizedCredential | pamUnavailable => none

end HelperRefusal

/-- What the helper answers, unless an exception ends it. -/
inductive HelperAnswer where
  | ok (user : JsString)
  | refused (refusal : HelperRefusal)

/-- A field of an answer: its name, its text and its value. -/
abbrev AnswerField := JsString × List Char × Json

def stringField (name : String) (text : JsString) : AnswerField :=
  (js name, Json.dumpQuote text, .string text)

def codeField (code : Int32) : AnswerField :=
  (js "code", Json.writeInteger code.toInt, .number (Number.ofText (Json.writeInteger code.toInt)))

namespace HelperAnswer

def fields : HelperAnswer → List AnswerField
  | ok user => [(js "ok", "true".toList, .bool true), stringField "user" user]
  | refused refusal =>
    (js "ok", "false".toList, .bool false) :: stringField "reason" refusal.reason ::
      refusal.code.toList.map codeField

def document (answer : HelperAnswer) : Json :=
  .object (answer.fields.map fun field => (field.1, field.2.2))

/-- `out(doc, code)`: the line on stdout. -/
def line (answer : HelperAnswer) : List Char :=
  Json.writeObject [' '] (answer.fields.map fun field => (field.1, field.2.1)) ++ ['\n']

end HelperAnswer

/-- The length of a string in Python, where a surrogate pair is one character. -/
def pyLength : JsString → ℕ
  | [] => 0
  | [_] => 1
  | u :: v :: rest =>
    if Utf16.isHigh u ∧ Utf16.isLow v then pyLength rest + 1 else pyLength (v :: rest) + 1

/-- `value or default`, where `value` is none when it is missing. -/
def pyOr (value : Option Json) (default : Json) : Json :=
  match value with
  | none | some .null | some (.bool false) | some (.string []) | some (.array [])
  | some (.object []) => default
  | some (.number (.finite size)) => if size.value = 0 then default else .number (.finite size)
  | some json => json

/-- The stack to ask; a service without one is served by the one of the console. -/
def PamHost.chosen (host : PamHost) (service : JsString) : JsString :=
  if host.haveStack service then service else js "login"

/-- The attempt on a stack. -/
def PamHost.attempt (host : PamHost) (service user password : CString) (name : JsString) :
    HelperAnswer :=
  let rc := host.start service user
  if rc ≠ pamSuccess then .refused (.pamStartError rc)
  else
    let rc := host.authenticate service user (conv user password)
    let rc := if rc = pamSuccess then host.acctMgmt service user (conv user password) else rc
    if rc = pamSuccess then .ok name else .refused (.authFailed rc)

/-- The bytes of a string that a C function is given; none when it cannot be encoded. -/
def cString? (text : JsString) : Option CString :=
  (Utf16.decode? text).map fun text => CString.ofBytes (Utf8.encode text)

/-- The part of `main` that has both credentials; none is an exception. -/
def PamHost.ask (host : PamHost) (user password : JsString) (service : Json) :
    Option HelperAnswer :=
  if user = [] then some (.refused .badRequest)
  else if 64 < pyLength user ∨ 512 < pyLength password then some (.refused .oversizedCredential)
  else if host.libraries = false then some (.refused .pamUnavailable)
  else do
    let cUser ← cString? user
    let cPassword ← cString? password
    match service with
    | .string service =>
      let stack ← cString? (host.chosen service)
      some (host.attempt stack cUser cPassword user)
    | _ => none

/-- `main` up to its answer; stdin is none when it cannot be read. -/
def PamHost.main (host : PamHost) (stdin : Option (List Byte)) : Option HelperAnswer :=
  match stdin.map (·.take (maxDocBytes + 1)) with
  | none => some (.refused .stdinReadError)
  | some raw =>
    if raw = [] ∨ maxDocBytes < raw.length then some (.refused .badRequest)
    else
      match (Utf8.decodeStrict raw).bind Json.parse with
      | none => some (.refused .badJson)
      | some (.object fields) =>
        let doc := Json.object fields
        match doc.get? (js "user"), doc.get? (js "password") with
        | some (.string user), some (.string password) =>
          host.ask user password (pyOr (doc.get? (js "service")) (.string (js "sysdeck")))
        | _, _ => some (.refused .badRequest)
      | some _ => none

/-- All that the helper writes on stdout. -/
def PamHost.stdout (host : PamHost) (stdin : Option (List Byte)) : List Char :=
  match host.main stdin with
  | some answer => answer.line
  | none => []

/-! The line of an answer: one object of ASCII text, whose last brace is its only one. -/

/-- A name that the helper can be asked about has no brace and no blank. -/
theorem Username.visible (user : Username) : ∀ c ∈ user.name, 0x20 < c.toNat ∧ c.toNat < 0x7D := by
  have nameChar : ∀ c, isNameChar c → 0x20 < c.toNat ∧ c.toNat < 0x7D := by
    intro c name
    simp only [isNameChar, isNameStart, Bool.or_eq_true, Bool.and_eq_true, decide_eq_true_eq,
      Char.le_def, UInt32.le_iff_toNat_le] at name
    rcases name with ((((lower | upper) | rfl) | digit) | rfl) | rfl
    · change 97 ≤ c.toNat ∧ c.toNat ≤ 122 at lower
      omega
    · change 65 ≤ c.toNat ∧ c.toNat ≤ 90 at upper
      omega
    · decide
    · change 48 ≤ c.toNat ∧ c.toNat ≤ 57 at digit
      omega
    · decide
    · decide
  have valid := user.valid
  unfold validUsername at valid
  rw [Bool.and_eq_true] at valid
  intro c member
  cases shape : user.name with
  | nil =>
    rw [shape] at member
    exact absurd member List.not_mem_nil
  | cons head tail =>
    rw [shape] at member valid
    obtain ⟨first, rest⟩ := Bool.and_eq_true_iff.mp valid.2
    rcases List.mem_cons.mp member with rfl | member
    · exact nameChar _ (by rw [isNameChar, first]; rfl)
    · split at rest
      · rename_i dollar
        obtain ⟨inner, split⟩ := List.getLast?_eq_some_iff.mp dollar
        rw [split, List.dropLast_concat] at rest
        rw [split, List.mem_append, List.mem_singleton] at member
        rcases member with member | rfl
        · exact nameChar c (List.all_eq_true.mp rest c member)
        · decide
      · exact nameChar c (List.all_eq_true.mp rest c member)

theorem Username.length_encode_le (user : Username) : (Utf16.encode user.name).length ≤ 64 := by
  rw [Utf16.length_encode]
  exact user.length_le

/-- Characters before the braces, as a test. -/
def unbraced (text : List Char) : Bool := text.all fun c => c.toNat < 0x7D

theorem lt_of_unbraced {text : List Char} (plain : unbraced text) : ∀ c ∈ text, c.toNat < 0x7D :=
  fun c member => of_decide_eq_true (List.all_eq_true.mp plain c member)

theorem HelperRefusal.reason_eq (refusal : HelperRefusal) : ∃ text : String,
    refusal.reason = js text ∧ text.toList.length ≤ 64 ∧ unbraced text.toList := by
  cases refusal <;> exact ⟨_, rfl, by decide, by decide⟩

/-- Units of short text without braces. -/
structure Small (units : JsString) : Prop where
  short : units.length ≤ 64
  plain : ∀ u ∈ units, u.val < 0x7D

theorem small_encode {text : List Char} (short : (Utf16.encode text).length ≤ 64)
    (plain : ∀ c ∈ text, c.toNat < 0x7D) : Small (Utf16.encode text) := by
  refine ⟨short, ?_⟩
  have basic : ∀ c ∈ text, c.toNat < 0x10000 := fun c member =>
    Nat.lt_trans (plain c member) (by decide)
  rw [Utf16.encode_of_basic basic]
  intro u member
  obtain ⟨c, inside, rfl⟩ := List.mem_map.mp member
  have low := plain c inside
  rw [Utf16.unit_val]
  omega

theorem Username.small (user : Username) : Small (Utf16.encode user.name) :=
  small_encode user.length_encode_le fun c member => (user.visible c member).2

theorem HelperRefusal.small (refusal : HelperRefusal) : Small refusal.reason := by
  obtain ⟨text, same, short, unbraced⟩ := refusal.reason_eq
  have plain := lt_of_unbraced unbraced
  have basic : ∀ c ∈ text.toList, c.toNat < 0x10000 := fun c member =>
    Nat.lt_trans (plain c member) (by decide)
  rw [same]
  refine small_encode ?_ plain
  rw [Utf16.encode_of_basic basic, List.length_map]
  exact short

/-- The text of a field, which is its value, without braces and not long. -/
structure AnswerField.Fits (field : AnswerField) : Prop where
  written : Json.Writes field.2.1 field.2.2
  plain : ∀ c ∈ Json.quote field.1 ++ field.2.1, c.toNat < 0x7D
  short : (Json.quote field.1 ++ field.2.1).length ≤ 400

/-- The names of the fields. -/
theorem name_fits {name : String} (member : name ∈ ["ok", "user", "reason", "code"]) :
    (Json.quote (js name)).length ≤ 8 ∧ ∀ c ∈ Json.quote (js name), c.toNat < 0x7D := by
  have all : ∀ name ∈ ["ok", "user", "reason", "code"],
      (Json.quote (js name)).length ≤ 8 ∧ unbraced (Json.quote (js name)) := by
    decide +kernel
  obtain ⟨short, plain⟩ := all name member
  exact ⟨short, lt_of_unbraced plain⟩

theorem stringField_fits {name : String} {text : JsString}
    (member : name ∈ ["ok", "user", "reason", "code"]) (small : Small text) :
    AnswerField.Fits (stringField name text) := by
  obtain ⟨short, plain⟩ := name_fits member
  refine ⟨Json.writes_dumpQuote text, ?_, ?_⟩
  · intro c inside
    rcases List.mem_append.mp inside with inside | inside
    · exact plain c inside
    · simp only [stringField, Json.dumpQuote, List.mem_cons, List.mem_append, List.mem_flatMap,
        List.not_mem_nil, or_false] at inside
      rcases inside with rfl | ⟨u, member, dumped⟩ | rfl
      · decide
      · rcases Json.mem_dumpUnit dumped with low | ⟨same, -⟩
        · exact low
        · rw [same]
          exact small.plain u member
      · decide
  · have dumped := Json.length_dumpUnits_le text
    have bound := small.short
    simp only [stringField, Json.dumpQuote, List.length_append, List.length_cons, List.length_nil]
    omega

theorem codeField_fits (code : Int32) : AnswerField.Fits (codeField code) := by
  have member : "code" ∈ ["ok", "user", "reason", "code"] := by decide
  obtain ⟨short, plain⟩ := name_fits member
  refine ⟨Json.writes_integer _, ?_, ?_⟩
  · intro c inside
    rcases List.mem_append.mp inside with inside | inside
    · exact plain c inside
    · rcases Json.mem_writeInteger inside with rfl | digit
      · decide
      · have high : c.toNat ≤ 57 := (Char.isDigit_iff_toNat.mp digit).2
        omega
  · have written : (Json.writeInteger code.toInt).length ≤ 10 + 1 := by
      have lower := code.le_toInt
      have upper := code.toInt_lt
      exact Json.length_writeInteger_le (by decide) (by omega)
    simp only [codeField, List.length_append]
    omega

namespace HelperAnswer

/-- An answer names the user it was asked about. -/
def About (user : Username) (answer : HelperAnswer) : Prop :=
  ∀ name, answer = ok name → name = Utf16.encode user.name

variable {user : Username} {answer : HelperAnswer}

theorem fields_ne_nil (answer : HelperAnswer) : answer.fields ≠ [] := by
  cases answer <;> exact List.cons_ne_nil _ _

theorem length_fields_le (answer : HelperAnswer) : answer.fields.length ≤ 3 := by
  rcases answer with _ | refusal
  · exact Nat.le_of_ble_eq_true rfl
  · cases refusal <;> exact Nat.le_of_ble_eq_true rfl

theorem fits_of_about (about : answer.About user) :
    ∀ field ∈ answer.fields, AnswerField.Fits field := by
  have member : "ok" ∈ ["ok", "user", "reason", "code"] := by decide
  obtain ⟨okShort, okPlain⟩ := name_fits member
  have flag : ∀ (text : List Char) (value : Bool), text.length ≤ 5 → unbraced text →
      Json.Writes text (.bool value) → AnswerField.Fits (js "ok", text, .bool value) := by
    intro text value short plain written
    refine ⟨written, ?_, ?_⟩
    · intro c inside
      rcases List.mem_append.mp inside with inside | inside
      · exact okPlain c inside
      · exact lt_of_unbraced plain c inside
    · rw [List.length_append]
      dsimp only
      omega
  cases answer with
  | ok name =>
    have same := about name rfl
    intro field member
    rcases List.mem_pair.mp member with rfl | rfl
    · exact flag _ true (by decide) (by decide) Json.writes_true
    · rw [same]
      exact stringField_fits (by decide) user.small
  | refused refusal =>
    intro field member
    rcases List.mem_cons.mp member with rfl | member
    · exact flag _ false (by decide) (by decide) Json.writes_false
    · rcases List.mem_cons.mp member with rfl | member
      · exact stringField_fits (by decide) refusal.small
      · obtain ⟨code, -, rfl⟩ := List.mem_map.mp member
        exact codeField_fits code

theorem line_spec (about : answer.About user) : ∃ inner,
    answer.line = '{' :: (inner ++ ['}', '\n']) ∧ (∀ c ∈ inner, c.toNat < 0x7D) ∧
    Json.parse ('{' :: (inner ++ ['}'])) = some answer.document ∧ answer.line.length ≤ 8192 := by
  have fits := fits_of_about about
  obtain ⟨inner, same, chars⟩ :=
    Json.writeFields_eq_append [' '] (answer.fields.map fun field => (field.1, field.2.1))
  refine ⟨inner, ?_, ?_, ?_, ?_⟩
  · rw [line, Json.writeObject, same, List.cons_append, List.append_assoc]
    rfl
  · intro c member
    rcases chars c member with rfl | rfl | space | ⟨pair, named, member⟩
    · decide
    · decide
    · rw [List.mem_singleton.mp space]
      decide
    · obtain ⟨field, listed, rfl⟩ := List.mem_map.mp named
      exact (fits field listed).plain c (List.mem_append.mpr member)
  · have space : [' '].all Json.isSpace := rfl
    have parsed := Json.parse_writeObject space answer.fields_ne_nil
      fun field listed => (fits field listed).written
    rw [Json.writeObject, same] at parsed
    exact parsed
  · have short : (Json.writeFields [' '] (answer.fields.map fun field => (field.1, field.2.1))).length ≤
        (answer.fields.map fun field => (field.1, field.2.1)).length * (400 + 2 * 1 + 2) + 1 := by
      apply Json.length_writeFields_le
      intro pair named
      obtain ⟨field, listed, rfl⟩ := List.mem_map.mp named
      have fit := (fits field listed).short
      rw [List.length_append] at fit
      exact fit
    have few := answer.length_fields_le
    rw [List.length_map] at short
    rw [line, Json.writeObject, List.length_append, List.length_cons, List.length_singleton]
    omega

end HelperAnswer

namespace PamHost

variable {host : PamHost}

/-- The stack accepts exactly when all of its three calls succeed. -/
theorem attempt_ok_iff {service user password : CString} {name other : JsString} :
    host.attempt service user password name = .ok other ↔
      host.Accepts service user password ∧ other = name := by
  constructor
  · intro accepted
    unfold attempt at accepted
    dsimp only at accepted
    split at accepted
    · cases accepted
    · rename_i started
      split at accepted
      · rename_i authenticated
        split at accepted
        · rename_i allowed
          cases accepted
          exact ⟨⟨not_not.mp started, authenticated, allowed⟩, rfl⟩
        · cases accepted
      · cases accepted
  · rintro ⟨accepts, rfl⟩
    unfold attempt
    dsimp only
    rw [accepts.started, accepts.authenticated, if_pos rfl, accepts.allowed, if_neg (not_not.mpr rfl),
      if_pos rfl]

theorem ask_about {user password : JsString} {service : Json} {name : JsString}
    (asked : host.ask user password service = some (.ok name)) : name = user := by
  unfold ask at asked
  split at asked
  · cases asked
  · split at asked
    · cases asked
    · split at asked
      · cases asked
      · simp only [Option.bind_eq_bind, Option.bind_eq_some_iff] at asked
        obtain ⟨cUser, _, cPassword, _, result⟩ := asked
        split at result
        · rw [Option.bind_eq_some_iff] at result
          obtain ⟨stack, _, same⟩ := result
          exact (attempt_ok_iff.mp (Option.some.inj same)).2
        · cases result

/-- The helper says ok when the stack accepts the C strings of the credentials. -/
theorem ask_ok_iff {user password service : JsString} :
    host.ask user password (.string service) = some (.ok user) ↔
      user ≠ [] ∧ pyLength user ≤ 64 ∧ pyLength password ≤ 512 ∧ host.libraries ∧
      ∃ cUser cPassword stack, cString? user = some cUser ∧ cString? password = some cPassword ∧
        cString? (host.chosen service) = some stack ∧ host.Accepts stack cUser cPassword := by
  unfold ask
  constructor
  · intro asked
    split at asked
    · cases asked
    · rename_i nonempty
      split at asked
      · cases asked
      · rename_i fits
        rw [not_or, Nat.not_lt, Nat.not_lt] at fits
        split at asked
        · cases asked
        · rename_i loaded
          simp only [Option.bind_eq_bind, Option.bind_eq_some_iff] at asked
          obtain ⟨cUser, user, cPassword, password, stack, service, same⟩ := asked
          exact ⟨nonempty, fits.1, fits.2, Bool.not_eq_false _ ▸ loaded, cUser, cPassword, stack, user,
            password, service, (attempt_ok_iff.mp (Option.some.inj same)).1⟩
  · rintro ⟨nonempty, userFits, passwordFits, loaded, cUser, cPassword, stack, user, password, service,
      accepts⟩
    rw [if_neg nonempty, if_neg (by rw [not_or, Nat.not_lt, Nat.not_lt]; exact ⟨userFits, passwordFits⟩),
      if_neg (by rw [loaded]; exact Bool.noConfusion), user, password]
    simp only [Option.bind_eq_bind, Option.bind_some, service]
    rw [attempt_ok_iff.mpr ⟨accepts, rfl⟩]

/-- A document of strings is read whole, or refused for its size. -/
theorem main_document {text : List Char} {fields : List (JsString × Json)} {user password : JsString}
    (parsed : Json.parse text = some (.object fields))
    (named : (Json.object fields).get? (js "user") = some (.string user))
    (secret : (Json.object fields).get? (js "password") = some (.string password)) :
    host.main (some (Utf8.encode text)) =
      if maxDocBytes < (Utf8.encode text).length then some (.refused .badRequest)
      else host.ask user password
        (pyOr ((Json.object fields).get? (js "service")) (.string (js "sysdeck"))) := by
  have nonempty : Utf8.encode text ≠ [] := by
    intro empty
    have blank : text = [] := Utf8.encode_injective empty
    rw [blank] at parsed
    cases parsed
  unfold main
  rw [Option.map_some]
  dsimp only
  by_cases large : maxDocBytes < (Utf8.encode text).length
  · have cut : maxDocBytes < ((Utf8.encode text).take (maxDocBytes + 1)).length := by
      rw [List.length_take]
      omega
    rw [if_pos large, if_pos (.inr cut)]
  · rw [if_neg large, List.take_of_length_le (by omega), if_neg (by rw [not_or]; exact ⟨nonempty, large⟩),
      Utf8.decodeStrict_encode, Option.bind_some, parsed]
    simp only [named, secret]

theorem main_about {text : List Char} {fields : List (JsString × Json)} {user password name : JsString}
    (parsed : Json.parse text = some (.object fields))
    (named : (Json.object fields).get? (js "user") = some (.string user))
    (secret : (Json.object fields).get? (js "password") = some (.string password))
    (answered : host.main (some (Utf8.encode text)) = some (.ok name)) : name = user := by
  rw [main_document parsed named secret] at answered
  split at answered
  · cases answered
  · exact ask_about answered

end PamHost

end SysDeck.Web
