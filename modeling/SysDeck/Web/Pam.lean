import SysDeck.Web.Lockout
import SysDeck.Web.PamHelper

/-! A sign-in through PAM. The helper is a process: its output arrives in pieces, and it
can fail, end or outlast the timer in any order; the first of these settles the promise
that the sign-in route awaits. -/

namespace SysDeck.Web

structure PamResult where
  ok : Option Json
  user : Option Json
  reason : Option Json
  code : Option Json

def PamResult.failure (reason : String) : PamResult where
  ok := some (.bool false)
  user := none
  reason := some (.string (js reason))
  code := none

/-- What the route makes of a result. -/
def PamResult.verdict (result : PamResult) : PamVerdict :=
  if Json.truthy result.ok then .accepted
  else
    match result.reason with
    | some (.string reason) => if reason = js "auth-failed" then .refused else .broken
    | _ => .broken

/-- How a promise settles. -/
inductive Settlement where
  | resolved (result : PamResult)
  | rejected

inductive HelperEvent where
  /-- The next bytes of stdout arrive. -/
  | data (count : ℕ)
  | error
  | timeout
  | close (rc : Option ℤ)

/-- The events that call `done`. -/
def HelperEvent.ends : HelperEvent → Bool
  | data _ => false
  | error | timeout | close _ => true

/-- How the call begins. -/
inductive Spawn where
  /-- There is no helper on this install. -/
  | missing
  /-- `spawn` throws. -/
  | thrown
  /-- The helper runs, and reads its stdin or cannot. -/
  | running (readable : Bool)

structure PamCall where
  /-- What the helper writes and has not arrived. -/
  unread : List Byte
  out : List Char
  settled : Bool
  settlements : List Settlement

namespace PamCall

def start (stdout : List Char) : PamCall where
  unread := Utf8.encode stdout
  out := []
  settled := false
  settlements := []

def done (call : PamCall) (result : PamResult) : PamCall :=
  if call.settled then call
  else { call with settled := true, settlements := call.settlements ++ [.resolved result] }

def exitCode : Option ℤ → Option Json
  | none => none
  | some rc => if rc = 0 then none else some (.number (Number.ofRat rc))

/-- The result that the output holds when the helper has closed. -/
def closing (out : List Char) (rc : Option ℤ) : PamResult :=
  let text := Text.trim out
  match Json.parse (if text = [] then ['{', '}'] else text) with
  | none | some .null => .failure "helper-protocol-error"
  | some doc =>
    { ok := doc.get? (js "ok")
      user := doc.get? (js "user")
      reason := doc.get? (js "reason")
      code :=
        match doc.get? (js "code") with
        | none | some .null => exitCode rc
        | code => code }

def maxOut : ℕ := 8192

def step (call : PamCall) : HelperEvent → PamCall
  | .data count => { call with
      unread := call.unread.drop count
      out := Text.lastUnits maxOut (call.out ++ Utf8.decode (call.unread.take count)) }
  | .error => call.done (.failure "pam-unavailable")
  | .timeout => call.done (.failure "timeout")
  | .close rc => call.done (closing call.out rc)

def run (call : PamCall) (events : List HelperEvent) : PamCall := Execution.run step call events

end PamCall

/-- The document that the helper is given. -/
def pamDocument (service : Option JsString) (username : Username) (password : JsString) :
    List Char :=
  Json.writeObject [] [(js "user", Json.quote (Utf16.encode username.name)),
    (js "password", Json.quote password),
    (js "service", Json.quote (service.getD (js "sysdeck")))]

/-- What the helper writes about the credentials. -/
def helperOutput (host : PamHost) (service : Option JsString) (username : Username)
    (password : JsString) (readable : Bool) : List Char :=
  host.stdout (if readable then some (Utf8.encode (pamDocument service username password)) else none)

/-- The calls of `resolve` and `reject` on the promise, in order. -/
def authenticateViaPam (host : PamHost) (service : Option JsString) (username : Username)
    (password : JsString) (spawn : Spawn) (events : List HelperEvent) : List Settlement :=
  match spawn with
  | .missing => [.resolved (.failure "pam-unavailable")]
  | .thrown => [.rejected]
  | .running readable =>
    ((PamCall.start (helperOutput host service username password readable)).run events).settlements

namespace LoginDesk

/-- The route goes on when its promise has settled; a rejection leaves the route. -/
def resume (mode : AuthMode) (trustProxy : Bool) (desk : LoginDesk) (request : ℕ) :
    Option Settlement → LoginDesk
  | none => desk
  | some (.resolved result) => desk.step mode trustProxy (.pamAnswers request result.verdict)
  | some .rejected => (desk.finish request).happen (.answered request .crashed)

/-- The request waits for PAM to answer about the user. -/
def Awaits (desk : LoginDesk) (request : ℕ) (username : Username) : Prop :=
  ∃ attempt, desk.attempts.find? request = some attempt ∧ attempt.username = username ∧
    attempt.phase = .pam

/-- Between the two states of the desk the request was given a session. -/
def Mints (desk later : LoginDesk) (request : ℕ) : Prop :=
  ∃ bucket events, later.log = events ++ desk.log ∧ .accepted request bucket ∈ events

end LoginDesk

namespace PamCall

variable {call : PamCall}

/-- The flag counts the settlements. -/
def Once (call : PamCall) : Prop := call.settlements.length = call.settled.toNat

theorem done_once (once : call.Once) (result : PamResult) : (call.done result).Once := by
  unfold done
  split
  · exact once
  · rename_i fresh
    rw [Bool.not_eq_true] at fresh
    rw [Once, fresh] at once
    rw [Once, List.length_append, once]
    rfl

theorem step_once (once : call.Once) (event : HelperEvent) : (call.step event).Once := by
  cases event with
  | data count => exact once
  | error => exact done_once once _
  | timeout => exact done_once once _
  | close rc => exact done_once once _

theorem run_once (once : call.Once) (events : List HelperEvent) : (call.run events).Once :=
  Execution.invariant once (fun _ event once => step_once once event) events

theorem done_settled (call : PamCall) (result : PamResult) : (call.done result).settled := by
  unfold done
  split
  · assumption
  · rfl

theorem step_settled (settled : call.settled ∨ event.ends) : (call.step event).settled := by
  cases event with
  | data count => exact settled.resolve_right Bool.false_ne_true
  | error => exact done_settled call _
  | timeout => exact done_settled call _
  | close rc => exact done_settled call _

/-- One ending event is enough. -/
theorem run_settled {events : List HelperEvent} (settled : call.settled ∨ ∃ event ∈ events, event.ends) :
    (call.run events).settled := by
  induction events generalizing call with
  | nil => exact settled.resolve_right (by simp)
  | cons event events ih =>
    apply ih
    rcases settled with settled | ⟨last, member, ends⟩
    · exact .inl (step_settled (.inl settled))
    · rcases List.mem_cons.mp member with rfl | member
      · exact .inl (step_settled (.inr ends))
      · exact .inr ⟨last, member, ends⟩

/-! What has arrived of ASCII output is the output so far, wherever it was cut. -/

/-- The output is what has arrived and what is to come; a result was read from a part of it. -/
structure Reads (stdout : List Char) (call : PamCall) : Prop where
  arrived : ∃ pending, call.out ++ pending = stdout ∧ call.unread = Utf8.encode pending
  results : ∀ result, .resolved result ∈ call.settlements →
    (∃ reason, result = .failure reason) ∨ ∃ text rc, text <+: stdout ∧ result = closing text rc

section Reading

variable {stdout : List Char} (ascii : Utf8.Ascii stdout) (short : stdout.length ≤ maxOut)

theorem done_reads (reads : call.Reads stdout) {result : PamResult}
    (read : (∃ reason, result = .failure reason) ∨
      ∃ text rc, text <+: stdout ∧ result = closing text rc) : (call.done result).Reads stdout := by
  unfold done
  split
  · exact reads
  · refine ⟨reads.arrived, ?_⟩
    intro other member
    rcases List.mem_append.mp member with member | member
    · exact reads.results other member
    · cases List.mem_singleton.mp member
      exact read

theorem start_reads (stdout : List Char) : (start stdout).Reads stdout :=
  ⟨⟨stdout, rfl, rfl⟩, fun _ member => absurd member List.not_mem_nil⟩

include ascii short

/-- The tail that is kept of a part of the output is all of it. -/
theorem lastUnits_part {text : List Char} (part : text <+: stdout) :
    Text.lastUnits maxOut text = text := by
  apply Text.lastUnits_of_le
  rw [Text.utf16Length_of_basic]
  · exact le_trans part.length_le short
  · intro c member
    exact Nat.lt_trans (ascii c (part.subset member)) (by decide)

theorem step_reads (reads : call.Reads stdout) (event : HelperEvent) :
    (call.step event).Reads stdout := by
  obtain ⟨pending, whole, unread⟩ := reads.arrived
  cases event with
  | data count =>
    have later : Utf8.Ascii pending := fun c member =>
      ascii c (whole ▸ List.mem_append_right _ member)
    have cut : call.out ++ pending.take count ++ pending.drop count = stdout := by
      rw [List.append_assoc, List.take_append_drop, whole]
    refine ⟨⟨pending.drop count, ?_, ?_⟩, reads.results⟩
    · have kept := lastUnits_part ascii short ⟨_, cut⟩
      rw [step, unread, later.take_encode, Utf8.decode_encode, kept, cut]
    · rw [step, unread, later.drop_encode]
  | error => exact done_reads reads (.inl ⟨_, rfl⟩)
  | timeout => exact done_reads reads (.inl ⟨_, rfl⟩)
  | close rc => exact done_reads reads (.inr ⟨call.out, rc, ⟨pending, whole⟩, rfl⟩)

theorem run_reads (reads : call.Reads stdout) (events : List HelperEvent) :
    (call.run events).Reads stdout :=
  Execution.invariant reads (fun _ event reads => step_reads ascii short reads event) events

end Reading

/-! A part of an answer's line says ok only when the answer does. -/

/-- Without a closing brace the output is no document. -/
theorem closing_open {inner : List Char} (free : '}' ∉ inner) (rc : Option ℤ) :
    closing ('{' :: inner) rc = .failure "helper-protocol-error" := by
  have begun : Text.trimStart ('{' :: inner) = '{' :: inner :=
    Text.trimStart_of_head (by rintro c ⟨⟩; rfl)
  obtain ⟨rest, trimmed, part⟩ :
      ∃ rest, Text.trim ('{' :: inner) = '{' :: rest ∧ rest <+: inner := by
    have part : Text.trim ('{' :: inner) <+: '{' :: inner := by
      rw [Text.trim, begun]
      exact List.rdropWhile_prefix _ _
    cases trimmed : Text.trim ('{' :: inner) with
    | nil =>
      rw [Text.trim, begun, List.rdropWhile_eq_nil_iff] at trimmed
      exact absurd (trimmed '{' (List.mem_cons_self ..)) (by decide)
    | cons c rest =>
      rw [trimmed, List.cons_prefix_cons] at part
      exact ⟨rest, by rw [part.1], part.2⟩
  have refused : Json.parse ('{' :: rest) = none := by
    cases parsed : Json.parse ('{' :: rest) with
    | none => rfl
    | some json => exact absurd (part.subset (Json.brace_mem_of_parse parsed)) free
  unfold closing
  dsimp only
  rw [trimmed, if_neg (List.cons_ne_nil _ _), refused]

/-- A whole object is read, with or without the blanks after it. -/
theorem closing_object {text : List Char} {fields : List (JsString × Json)} {out : List Char}
    (parsed : Json.parse text = some (.object fields)) (trimmed : Text.trim out = text)
    (nonempty : text ≠ []) (rc : Option ℤ) :
    (closing out rc).ok = (Json.object fields).get? (js "ok") := by
  unfold closing
  dsimp only
  rw [trimmed, if_neg nonempty, parsed]

theorem document_ok (answer : HelperAnswer) :
    Json.truthy (answer.document.get? (js "ok")) ↔ ∃ name, answer = .ok name := by
  have user : js "user" ≠ js "ok" := by decide +kernel
  have reason : js "reason" ≠ js "ok" := by decide +kernel
  have code : js "code" ≠ js "ok" := by decide +kernel
  rcases answer with name | refusal
  · refine iff_of_true ?_ ⟨name, rfl⟩
    simp [HelperAnswer.document, HelperAnswer.fields, stringField, Json.get?, user, Json.truthy]
  · refine iff_of_false ?_ (by rintro ⟨name, same⟩; cases same)
    cases shape : refusal.code with
    | none => simp [HelperAnswer.document, HelperAnswer.fields, stringField, Json.get?, shape, reason,
        Json.truthy]
    | some value => simp [HelperAnswer.document, HelperAnswer.fields, stringField, codeField, Json.get?,
        shape, reason, code, Json.truthy]

theorem trim_braced (inner : List Char) :
    Text.trim ('{' :: (inner ++ ['}'])) = '{' :: (inner ++ ['}']) ∧
      Text.trim ('{' :: (inner ++ ['}', '\n'])) = '{' :: (inner ++ ['}']) := by
  have begun : ∀ rest, Text.trimStart ('{' :: rest) = '{' :: rest :=
    fun rest => Text.trimStart_of_head (by rintro c ⟨⟩; rfl)
  have closed : ('{' :: (inner ++ ['}'])).rdropWhile Text.isBlank = '{' :: (inner ++ ['}']) :=
    List.rdropWhile_concat_neg (l := '{' :: inner) Text.isBlank '}' (by decide)
  refine ⟨?_, ?_⟩
  · rw [Text.trim, begun, closed]
  · have shape : '{' :: (inner ++ ['}', '\n']) = '{' :: (inner ++ ['}']) ++ ['\n'] := by simp
    rw [Text.trim, begun, shape, List.rdropWhile_concat_pos _ _ _ (by decide), closed]

variable {user : Username} {answer : HelperAnswer}

theorem closing_line (about : answer.About user) (rc : Option ℤ) :
    (closing answer.line rc).ok = answer.document.get? (js "ok") := by
  obtain ⟨inner, line, -, parsed, -⟩ := HelperAnswer.line_spec about
  rw [line]
  exact closing_object parsed (trim_braced inner).2 (List.cons_ne_nil _ _) rc

theorem closing_part (about : answer.About user) {text : List Char} {rc : Option ℤ}
    (part : text <+: answer.line) (accepts : Json.truthy (closing text rc).ok) :
    ∃ name, answer = .ok name := by
  obtain ⟨inner, line, plain, parsed, -⟩ := HelperAnswer.line_spec about
  cases text with
  | nil => exact absurd accepts Bool.false_ne_true
  | cons c text =>
    rw [line, List.cons_prefix_cons] at part
    obtain ⟨rfl, part⟩ := part
    rw [show inner ++ ['}', '\n'] = inner ++ ['}'] ++ ['\n'] by simp, List.prefix_concat_iff,
      List.prefix_concat_iff] at part
    rcases part with whole | object | part
    · have same : '{' :: text = answer.line := by rw [whole, line]; simp
      rw [same, closing_line about] at accepts
      exact (document_ok answer).mp accepts
    · rw [object, closing_object parsed (trim_braced inner).1 (List.cons_ne_nil _ _)] at accepts
      exact (document_ok answer).mp accepts
    · have free : '}' ∉ text := by
        intro member
        exact absurd (plain '}' (part.subset member)) (by decide)
      rw [closing_open free] at accepts
      exact absurd accepts Bool.false_ne_true

end PamCall

end SysDeck.Web
