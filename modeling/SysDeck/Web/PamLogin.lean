import SysDeck.Web.Pam

/-! What a sign-in through PAM comes to, over every course of its helper. -/

namespace SysDeck.Web

/-! The credentials on their way to the host. -/

/-- The service that the helper looks for. -/
def serviceName (service : Option JsString) : JsString :=
  if service.getD (js "sysdeck") = [] then js "sysdeck" else service.getD (js "sysdeck")

section Document

variable (service : Option JsString) (username : Username) (password : JsString)

def pamFields : List (JsString × Json) :=
  [(js "user", .string (Utf16.encode username.name)), (js "password", .string password),
    (js "service", .string (service.getD (js "sysdeck")))]

theorem pamDocument_parse :
    Json.parse (pamDocument service username password) =
      some (.object (pamFields service username password)) := by
  have written : ∀ field ∈ [
      (js "user", Json.quote (Utf16.encode username.name), Json.string (Utf16.encode username.name)),
      (js "password", Json.quote password, Json.string password),
      (js "service", Json.quote (service.getD (js "sysdeck")),
        Json.string (service.getD (js "sysdeck")))], Json.Writes field.2.1 field.2.2 := by
    intro field member
    simp only [List.mem_cons, List.not_mem_nil, or_false] at member
    rcases member with rfl | rfl | rfl <;> exact Json.writes_quote _
  have empty : [].all Json.isSpace := rfl
  exact Json.parse_writeObject empty (List.cons_ne_nil _ _) written

theorem pamFields_get :
    (Json.object (pamFields service username password)).get? (js "user") =
        some (.string (Utf16.encode username.name)) ∧
      (Json.object (pamFields service username password)).get? (js "password") =
        some (.string password) ∧
      (Json.object (pamFields service username password)).get? (js "service") =
        some (.string (service.getD (js "sysdeck"))) := by
  have userPassword : js "password" ≠ js "user" := by decide +kernel
  have userService : js "service" ≠ js "user" := by decide +kernel
  have passwordService : js "service" ≠ js "password" := by decide +kernel
  refine ⟨?_, ?_, ?_⟩
  · simp [pamFields, Json.get?, userPassword, userService]
  · simp [pamFields, Json.get?, passwordService]
  · simp [pamFields, Json.get?]

theorem pyOr_string (text : JsString) (default : JsString) :
    pyOr (some (.string text)) (.string default) =
      .string (if text = [] then default else text) := by
  cases text <;> rfl

/-- What the helper answers about the credentials. -/
theorem main_pamDocument (host : PamHost) :
    host.main (some (Utf8.encode (pamDocument service username password))) =
      if maxDocBytes < (Utf8.encode (pamDocument service username password)).length then
        some (.refused .badRequest)
      else host.ask (Utf16.encode username.name) password (.string (serviceName service)) := by
  obtain ⟨named, secret, served⟩ := pamFields_get service username password
  rw [PamHost.main_document (pamDocument_parse service username password) named secret, served,
    pyOr_string, serviceName]

theorem main_about_user (host : PamHost) {answer : HelperAnswer} {readable : Bool}
    (answered : host.main (if readable then some (Utf8.encode (pamDocument service username password))
      else none) = some answer) : answer.About username := by
  rintro name rfl
  cases readable with
  | false => cases answered
  | true =>
    obtain ⟨named, secret, -⟩ := pamFields_get service username password
    exact PamHost.main_about (pamDocument_parse service username password) named secret answered

end Document

/-- The stack lets in exactly this user with exactly this password: its C strings are
their UTF-8. -/
def PamHost.AcceptsExactly (host : PamHost) (service : Option JsString) (username : Username)
    (password : JsString) : Prop :=
  ∃ (stack user secret : CString) (text : List Char),
    cString? (host.chosen (serviceName service)) = some stack ∧ Utf16.decode? password = some text ∧
    user.bytes = Utf8.encode username.name ∧ secret.bytes = Utf8.encode text ∧
    host.Accepts stack user secret

/-- A password that PAM can be given as it is, or that the helper does not give to PAM. -/
def Deliverable (password : JsString) : Prop :=
  0 ∉ password ∨ Utf16.decode? password = none ∨ 512 < pyLength password

section Answer

variable {host : PamHost} {service : Option JsString} {username : Username} {password : JsString}

theorem pyLength_le (units : JsString) : pyLength units ≤ units.length ∧ units.length ≤ 2 * pyLength units := by
  induction units using pyLength.induct with
  | case1 => exact ⟨le_refl 0, le_refl 0⟩
  | case2 u => exact ⟨le_refl 1, Nat.le_succ 1⟩
  | case3 u v rest surrogates ih =>
    rw [pyLength, if_pos surrogates, List.length_cons, List.length_cons]
    omega
  | case4 u v rest apart ih =>
    rw [pyLength, if_neg apart, List.length_cons]
    omega

theorem cString?_username (username : Username) : ∃ user,
    cString? (Utf16.encode username.name) = some user ∧ user.bytes = Utf8.encode username.name := by
  refine ⟨_, by rw [cString?, Utf16.decode?_encode, Option.map_some], ?_⟩
  rw [CString.bytes_ofBytes_iff, CString.zero_mem_encode]
  intro zero
  exact absurd (username.visible _ zero).1 (by decide)

/-- The helper says ok to a password that it can encode, as far as its C string goes. -/
theorem main_ok (answered : host.main (some (Utf8.encode (pamDocument service username password))) =
    some (.ok (Utf16.encode username.name))) :
    pyLength password ≤ 512 ∧ ∃ stack user text, cString? (host.chosen (serviceName service)) = some stack ∧
      user.bytes = Utf8.encode username.name ∧ Utf16.decode? password = some text ∧
      host.Accepts stack user (CString.ofBytes (Utf8.encode text)) := by
  rw [main_pamDocument] at answered
  split at answered
  · cases answered
  · obtain ⟨-, -, fits, -, user, secret, stack, named, encoded, chosen, accepts⟩ :=
      PamHost.ask_ok_iff.mp answered
    obtain ⟨name, same, bytes⟩ := cString?_username username
    rw [same] at named
    cases named
    obtain ⟨text, decoded, rfl⟩ := Option.map_eq_some_iff.mp encoded
    exact ⟨fits, stack, user, text, chosen, bytes, decoded, accepts⟩

theorem acceptsExactly_of_main (deliverable : Deliverable password)
    (answered : host.main (some (Utf8.encode (pamDocument service username password))) =
      some (.ok (Utf16.encode username.name))) : host.AcceptsExactly service username password := by
  obtain ⟨fits, stack, user, text, chosen, named, decoded, accepts⟩ := main_ok answered
  have plain : 0 ∉ Utf8.encode text := by
    rw [CString.zero_mem_encode, ← Utf16.zero_mem_encode, Utf16.encode_of_decode? decoded]
    rcases deliverable with free | refused | long
    · exact free
    · rw [decoded] at refused
      cases refused
    · exact absurd fits (Nat.not_le.mpr long)
  exact ⟨stack, user, _, text, chosen, decoded, named, CString.bytes_ofBytes_iff.mpr plain, accepts⟩

/-- A password with a zero that reaches PAM is not the one PAM gets. -/
theorem not_acceptsExactly (zero : 0 ∈ password) : ¬ host.AcceptsExactly service username password := by
  rintro ⟨stack, user, secret, text, -, decoded, -, same, -⟩
  apply secret.terminated
  rw [same, CString.zero_mem_encode, ← Utf16.zero_mem_encode, Utf16.encode_of_decode? decoded]
  exact zero

end Answer

/-! From the helper to the session. -/

theorem helperOutput_part {host : PamHost} {service : Option JsString} {username : Username}
    {password : JsString} {readable : Bool} {text : List Char} {rc : Option ℤ}
    (part : text <+: helperOutput host service username password readable)
    (accepts : Json.truthy (PamCall.closing text rc).ok) :
    host.main (some (Utf8.encode (pamDocument service username password))) =
      some (.ok (Utf16.encode username.name)) := by
  unfold helperOutput PamHost.stdout at part
  split at part
  · rename_i answer answered
    have about := main_about_user service username password host answered
    obtain ⟨name, rfl⟩ := PamCall.closing_part about part accepts
    rw [about name rfl] at answered
    cases readable with
    | false => cases answered
    | true => exact answered
  · rw [List.prefix_nil.mp part] at accepts
    exact absurd accepts Bool.false_ne_true

theorem helperOutput_ascii (host : PamHost) (service : Option JsString) (username : Username)
    (password : JsString) (readable : Bool) :
    Utf8.Ascii (helperOutput host service username password readable) ∧
      (helperOutput host service username password readable).length ≤ PamCall.maxOut := by
  unfold helperOutput PamHost.stdout
  split
  · rename_i answer answered
    obtain ⟨inner, line, plain, -, short⟩ :=
      HelperAnswer.line_spec (main_about_user service username password host answered)
    refine ⟨?_, short⟩
    rw [line]
    intro c member
    simp only [List.mem_cons, List.mem_append, List.not_mem_nil, or_false] at member
    rcases member with rfl | inside | rfl | rfl
    · decide
    · exact Nat.lt_trans (plain c inside) (by decide)
    · decide
    · decide
  · exact ⟨fun c member => absurd member List.not_mem_nil, Nat.zero_le _⟩

/-- A result that says ok was read from an answer that does. -/
theorem answered_of_resolved {host : PamHost} {service : Option JsString} {username : Username}
    {password : JsString} {spawn : Spawn} {events : List HelperEvent} {result : PamResult}
    (resolved : .resolved result ∈ authenticateViaPam host service username password spawn events)
    (accepts : Json.truthy result.ok) :
    host.main (some (Utf8.encode (pamDocument service username password))) =
      some (.ok (Utf16.encode username.name)) := by
  cases spawn with
  | missing =>
    cases List.mem_singleton.mp resolved
    exact absurd accepts Bool.false_ne_true
  | thrown => cases List.mem_singleton.mp resolved
  | running readable =>
    obtain ⟨ascii, short⟩ := helperOutput_ascii host service username password readable
    have reads := PamCall.run_reads ascii short (PamCall.start_reads _) events
    rcases reads.results result resolved with ⟨reason, rfl⟩ | ⟨text, rc, part, rfl⟩
    · exact absurd accepts Bool.false_ne_true
    · exact helperOutput_part part accepts

/-- The timer ends every call that is not over before. -/
def Spawn.Complete : Spawn → List HelperEvent → Prop
  | missing, _ | thrown, _ => True
  | running _, events => ∃ event ∈ events, event.ends

theorem settles_once (host : PamHost) (service : Option JsString) (username : Username)
    (password : JsString) (spawn : Spawn) (events : List HelperEvent) :
    (authenticateViaPam host service username password spawn events).length ≤ 1 ∧
      (spawn.Complete events →
        (authenticateViaPam host service username password spawn events).length = 1) := by
  cases spawn with
  | missing => exact ⟨le_refl 1, fun _ => rfl⟩
  | thrown => exact ⟨le_refl 1, fun _ => rfl⟩
  | running readable =>
    have fresh : (PamCall.start (helperOutput host service username password readable)).Once := rfl
    have once := PamCall.run_once fresh events
    refine ⟨?_, fun ends => ?_⟩
    · rw [authenticateViaPam, once]
      exact Bool.toNat_le _
    · rw [authenticateViaPam, once, PamCall.run_settled (.inr ends)]
      rfl

namespace LoginDesk

variable {desk : LoginDesk} {request : ℕ} {username : Username}

theorem mints_iff_of_log {later : LoginDesk} {events : List LoginEvent}
    (log : later.log = events ++ desk.log) :
    desk.Mints later request ↔ ∃ bucket, .accepted request bucket ∈ events := by
  constructor
  · rintro ⟨bucket, other, same, member⟩
    rw [log] at same
    rw [← List.append_cancel_right same] at member
    exact ⟨bucket, member⟩
  · rintro ⟨bucket, member⟩
    exact ⟨bucket, events, log, member⟩

theorem verdict_accepted_iff (result : PamResult) :
    result.verdict = .accepted ↔ Json.truthy result.ok := by
  unfold PamResult.verdict
  split
  · rename_i accepts
    exact iff_of_true rfl accepts
  · rename_i refuses
    refine iff_of_false ?_ refuses
    split
    · split <;> intro same <;> cases same
    · intro same
      cases same

theorem not_mints_fail (desk : LoginDesk) (request : ℕ) (attempt : Attempt) :
    ¬ desk.Mints (desk.fail request attempt) request := by
  have log : (desk.fail request attempt).log = [.answered request incorrect,
    .rejected request attempt.userBucket] ++ desk.log := rfl
  rw [mints_iff_of_log log]
  simp

/-- In mode pam the answer of the helper is the decision. -/
theorem mints_resume_iff (trustProxy : Bool) (awaits : desk.Awaits request username)
    (settlement : Option Settlement) :
    desk.Mints (desk.resume .pam trustProxy request settlement) request ↔
      ∃ result, settlement = some (.resolved result) ∧ Json.truthy result.ok := by
  obtain ⟨attempt, found, -, phase⟩ := awaits
  rcases settlement with _ | result | _
  · have log : (desk.resume .pam trustProxy request none).log = [] ++ desk.log := rfl
    rw [mints_iff_of_log log]
    simp
  · simp only [Option.some.injEq, Settlement.resolved.injEq, exists_eq_left']
    rw [← verdict_accepted_iff result]
    cases verdict : result.verdict with
    | accepted =>
      have resumed : desk.resume .pam trustProxy request (some (.resolved result)) =
          desk.succeed request attempt := by
        simp only [resume, step, found, phase, verdict, if_true]
      rw [resumed]
      exact iff_of_true ⟨attempt.userBucket, [_], rfl, List.mem_singleton_self _⟩ rfl
    | refused =>
      have resumed : desk.resume .pam trustProxy request (some (.resolved result)) =
          desk.fail request attempt := by
        simp only [resume, step, found, phase, verdict, if_true, AuthMode.localAllowed,
          Bool.false_eq_true, if_false]
      rw [resumed]
      exact iff_of_false (not_mints_fail desk request attempt) (fun same => by cases same)
    | broken =>
      have resumed : desk.resume .pam trustProxy request (some (.resolved result)) =
          desk.fail request attempt := by
        simp only [resume, step, found, phase, verdict, if_true]
      rw [resumed]
      exact iff_of_false (not_mints_fail desk request attempt) (fun same => by cases same)
  · have log : (desk.resume .pam trustProxy request (some .rejected)).log =
        [.answered request .crashed] ++ desk.log := rfl
    rw [mints_iff_of_log log]
    simp

/-! In mode pam no request waits for the local store, and only PAM's answers sign anyone in. -/

def OnlyPam (desk : LoginDesk) : Prop :=
  ∀ request attempt, desk.attempts.find? request = some attempt → attempt.phase = .pam

/-- A step that signs nobody in and waits for no other authenticator. -/
structure Quiet (desk later : LoginDesk) : Prop where
  onlyPam : desk.OnlyPam → later.OnlyPam
  log : ∃ events, later.log = events ++ desk.log ∧ ∀ request bucket, .accepted request bucket ∉ events

theorem Quiet.refl (desk : LoginDesk) : desk.Quiet desk :=
  ⟨id, [], rfl, fun _ _ => List.not_mem_nil⟩

theorem Quiet.trans {first second third : LoginDesk} (before : first.Quiet second)
    (after : second.Quiet third) : first.Quiet third := by
  obtain ⟨early, earlyLog, earlyQuiet⟩ := before.log
  obtain ⟨late, lateLog, lateQuiet⟩ := after.log
  refine ⟨after.onlyPam ∘ before.onlyPam, late ++ early, ?_, ?_⟩
  · rw [lateLog, earlyLog, List.append_assoc]
  · intro request bucket member
    exact (List.mem_append.mp member).elim (lateQuiet request bucket) (earlyQuiet request bucket)

theorem happen_quiet (desk : LoginDesk) {event : LoginEvent}
    (other : ∀ request bucket, .accepted request bucket ≠ event) : desk.Quiet (desk.happen event) :=
  ⟨id, [event], rfl, fun request bucket member => other request bucket (List.mem_singleton.mp member)⟩

theorem extends_quiet {later : LoginDesk} (extend : desk.Extends later) : desk.Quiet later := by
  refine ⟨?_, [], extend.log, fun _ _ => List.not_mem_nil⟩
  intro onlyPam
  unfold OnlyPam
  rw [extend.attempts]
  exact onlyPam

theorem finish_onlyPam (onlyPam : desk.OnlyPam) (request : ℕ) : (desk.finish request).OnlyPam := by
  intro other attempt found
  rw [finish, OrderedMap.find?_erase] at found
  split at found
  · cases found
  · exact onlyPam other attempt found

theorem finish_quiet (desk : LoginDesk) (request : ℕ) : desk.Quiet (desk.finish request) :=
  ⟨fun onlyPam => finish_onlyPam onlyPam request, [], rfl, fun _ _ => List.not_mem_nil⟩

theorem handOver_quiet (desk : LoginDesk) (request : ℕ) (attempt : Attempt) (pam : PamViability) :
    desk.Quiet (desk.handOver .pam request attempt pam) := by
  cases pam with
  | viable =>
    refine ⟨?_, [.handed request attempt.userBucket], rfl, by simp⟩
    intro onlyPam other held found
    change (desk.attempts.set request { attempt with phase := .pam }).find? other = some held at found
    rw [OrderedMap.find?_set] at found
    split at found
    · cases found
      rfl
    · exact onlyPam other held found
  | missing reason =>
    exact (finish_quiet desk request).trans (happen_quiet _ (fun _ _ => LoginEvent.noConfusion))

theorem arrive_quiet (sound : desk.Sound) (trustProxy : Bool) (request : ℕ) (sent : LoginRequest)
    (ipNow userNow replyNow : ℤ) (pam : PamViability) :
    desk.Quiet (desk.arrive .pam trustProxy request sent ipNow userNow replyNow pam) := by
  cases absent : desk.attempts.find? request with
  | some attempt =>
    rw [arrive_repeated absent]
    exact Quiet.refl desk
  | none =>
    cases read : readCredentials sent with
    | error reply =>
      rw [arrive_refused absent read]
      exact happen_quiet desk (fun _ _ => LoginEvent.noConfusion)
    | ok credentials =>
      obtain ⟨-, extend, -⟩ :=
        approach_spec sound trustProxy sent credentials.username ipNow userNow
      rw [arrive_eq absent read]
      dsimp only
      split
      · exact (extends_quiet extend).trans (happen_quiet _ (fun _ _ => LoginEvent.noConfusion))
      · rw [if_neg (by decide)]
        exact ((extends_quiet extend).trans (happen_quiet _ (fun _ _ => LoginEvent.noConfusion))).trans
          (handOver_quiet _ request _ pam)

theorem fail_quiet (desk : LoginDesk) (request : ℕ) (attempt : Attempt) :
    desk.Quiet (desk.fail request attempt) :=
  ⟨fun onlyPam => finish_onlyPam onlyPam request,
    [.answered request incorrect, .rejected request attempt.userBucket], rfl, by simp⟩

/-- Every step of a desk in mode pam is quiet but an accepting answer of PAM. -/
theorem step_quiet (sound : desk.Sound) (onlyPam : desk.OnlyPam) (trustProxy : Bool)
    (label : LoginLabel) : desk.Quiet (desk.step .pam trustProxy label) ∨
      ∃ request username, label = .pamAnswers request .accepted ∧ desk.Awaits request username := by
  cases label with
  | arrive request sent ipNow userNow replyNow pam =>
    exact .inl (arrive_quiet sound trustProxy request sent ipNow userNow replyNow pam)
  | seeded request pam =>
    rw [step]
    split
    · rename_i attempt found
      rw [onlyPam request attempt found, if_neg (by decide)]
      exact .inl (Quiet.refl desk)
    · exact .inl (Quiet.refl desk)
  | pamAnswers request verdict =>
    cases found : desk.attempts.find? request with
    | none =>
      simp only [step, found]
      exact .inl (Quiet.refl desk)
    | some attempt =>
      have phase := onlyPam request attempt found
      cases verdict with
      | accepted => exact .inr ⟨request, attempt.username, rfl, attempt, found, rfl, phase⟩
      | refused =>
        simp only [step, found, phase, if_true, AuthMode.localAllowed, Bool.false_eq_true, if_false]
        exact .inl (fail_quiet desk request attempt)
      | broken =>
        simp only [step, found, phase, if_true]
        exact .inl (fail_quiet desk request attempt)
  | localAnswers request accepted =>
    rw [step]
    split
    · rename_i attempt found
      rw [onlyPam request attempt found, if_neg (by decide)]
      exact .inl (Quiet.refl desk)
    · exact .inl (Quiet.refl desk)

theorem reached_onlyPam (trustProxy : Bool) (labels : List LoginLabel) :
    (Execution.run (step .pam trustProxy) init labels).OnlyPam := by
  have start : init.Sound ∧ init.OnlyPam := ⟨init_sound, fun _ _ found => by cases found⟩
  suffices kept : ∀ (desk : LoginDesk) label, desk.Sound ∧ desk.OnlyPam →
      (desk.step .pam trustProxy label).Sound ∧ (desk.step .pam trustProxy label).OnlyPam from
    (Execution.invariant (motive := fun desk : LoginDesk => desk.Sound ∧ desk.OnlyPam) start kept
      labels).2
  intro desk label kept
  refine ⟨step_sound .pam trustProxy kept.1 label, ?_⟩
  rcases step_quiet kept.1 kept.2 trustProxy label with quiet | ⟨request, username, rfl, awaits⟩
  · exact quiet.onlyPam kept.2
  · obtain ⟨attempt, found, -, phase⟩ := awaits
    have accepted : desk.step .pam trustProxy (.pamAnswers request .accepted) =
        desk.succeed request attempt := by
      simp only [step, found, phase, if_true]
    rw [accepted]
    exact finish_onlyPam kept.2 request

/-- In a run in mode pam a session is minted by PAM's answer to a request that waits for it. -/
theorem reached_mints {trustProxy : Bool} {labels : List LoginLabel} {label : LoginLabel}
    (minted : (Execution.run (step .pam trustProxy) init labels).Mints
      ((Execution.run (step .pam trustProxy) init labels).step .pam trustProxy label) request) :
    ∃ other username, label = .pamAnswers other .accepted ∧
      (Execution.run (step .pam trustProxy) init labels).Awaits other username := by
  rcases step_quiet (reached_sound .pam trustProxy labels) (reached_onlyPam trustProxy labels)
    trustProxy label with quiet | answered
  · obtain ⟨events, log, silent⟩ := quiet.log
    obtain ⟨bucket, member⟩ := (mints_iff_of_log log).mp minted
    exact absurd member (silent request bucket)
  · exact answered

end LoginDesk

section Minting

variable {host : PamHost} {service : Option JsString} {username : Username} {password : JsString}

/-- The life of a helper whose whole output arrives before it closes. -/
def delivery (host : PamHost) (service : Option JsString) (username : Username)
    (password : JsString) : List HelperEvent :=
  [.data (Utf8.encode (helperOutput host service username password true)).length, .close (some 0)]

theorem mints_of_main (answered : host.main (some (Utf8.encode (pamDocument service username password))) =
    some (.ok (Utf16.encode username.name))) {desk : LoginDesk} {request : ℕ}
    (awaits : desk.Awaits request username) (trustProxy : Bool) :
    desk.Mints (desk.resume .pam trustProxy request
      (authenticateViaPam host service username password (.running true)
        (delivery host service username password)).head?) request := by
  have about : (HelperAnswer.ok (Utf16.encode username.name)).About username := by
    rintro name ⟨⟩
    rfl
  obtain ⟨ascii, short⟩ := helperOutput_ascii host service username password true
  have written : helperOutput host service username password true =
      (HelperAnswer.ok (Utf16.encode username.name)).line := by
    rw [helperOutput, if_pos rfl, PamHost.stdout, answered]
  rw [LoginDesk.mints_resume_iff trustProxy awaits]
  refine ⟨PamCall.closing (helperOutput host service username password true) (some 0), ?_, ?_⟩
  · have arrived : (PamCall.start (helperOutput host service username password true)).run
        (delivery host service username password) = PamCall.done
          { unread := []
            out := helperOutput host service username password true
            settled := false
            settlements := [] }
          (PamCall.closing (helperOutput host service username password true) (some 0)) := by
      have kept := PamCall.lastUnits_part ascii short (List.prefix_refl _)
      simp only [PamCall.run, delivery, Execution.run_cons, Execution.run_nil, PamCall.step,
        PamCall.start, List.take_length, List.drop_length, Utf8.decode_encode, List.nil_append, kept]
    rw [authenticateViaPam, arrived]
    rfl
  · rw [written, PamCall.closing_line about]
    exact (PamCall.document_ok _).mpr ⟨_, rfl⟩

/-- The helper never refuses a password of 512 characters for the size of the document. -/
theorem pamDocument_fits (fits : pyLength password ≤ 512) :
    (Utf8.encode (pamDocument none username password)).length ≤ maxDocBytes := by
  have encoded := Utf8.length_encode_le (pamDocument none username password)
  have named := Json.length_quote_le (Utf16.encode username.name)
  have short := username.length_encode_le
  have secret := Json.length_quote_le password
  have units := (pyLength_le password).2
  have marks : (Json.quote (js "user")).length + (Json.quote (js "password")).length +
      (Json.quote (js "service")).length + (Json.quote (js "sysdeck")).length ≤ 100 := by
    decide +kernel
  have whole : (pamDocument none username password).length =
      (Json.quote (js "user")).length + (Json.quote (Utf16.encode username.name)).length +
      (Json.quote (js "password")).length + (Json.quote password).length +
      (Json.quote (js "service")).length + (Json.quote (js "sysdeck")).length + 7 := by
    simp only [pamDocument, Json.writeObject, Json.writeFields, List.length_append, List.length_cons,
      List.length_nil, Option.getD_none]
    omega
  unfold maxDocBytes
  omega

/-- A host that accepts a password as its C string says is given every password that the
helper passes on. -/
theorem main_ok_of_accepts {text : List Char} (decoded : Utf16.decode? password = some text)
    (fits : pyLength password ≤ 512) (loaded : host.libraries) {stack user : CString}
    (chosen : cString? (host.chosen (js "sysdeck")) = some stack)
    (named : cString? (Utf16.encode username.name) = some user)
    (accepts : host.Accepts stack user (CString.ofBytes (Utf8.encode text))) :
    host.main (some (Utf8.encode (pamDocument none username password))) =
      some (.ok (Utf16.encode username.name)) := by
  have small : (Utf8.encode (pamDocument none username password)).length ≤ maxDocBytes :=
    pamDocument_fits fits
  have sysdeck : serviceName none = js "sysdeck" := by
    unfold serviceName
    rw [Option.getD_none, ite_self]
  rw [main_pamDocument, if_neg (Nat.not_lt.mpr small), sysdeck]
  refine PamHost.ask_ok_iff.mpr ⟨?_, ?_, fits, loaded, user, _, stack, named, ?_, chosen, accepts⟩
  · intro empty
    have none : username.name = [] := by
      have back := Utf16.decode?_encode username.name
      rw [empty] at back
      exact (Option.some.inj back).symm
    exact username.ne_nil none
  · exact le_trans (pyLength_le _).1 username.length_encode_le
  · rw [cString?, decoded, Option.map_some]

end Minting

/-- What a sign-in through PAM promises over one course of its helper. -/
structure ExactSignIn (host : PamHost) (service : Option JsString) (username : Username)
    (password : JsString) (spawn : Spawn) (events : List HelperEvent) (trustProxy : Bool)
    (desk : LoginDesk) (request : ℕ) : Prop where
  minted : desk.Mints (desk.resume .pam trustProxy request
    (authenticateViaPam host service username password spawn events).head?) request →
      host.AcceptsExactly service username password
  settled : (authenticateViaPam host service username password spawn events).length ≤ 1
  once : spawn.Complete events →
    (authenticateViaPam host service username password spawn events).length = 1

/-- The stacks of a host that lets everyone in. -/
def permissiveHost : PamHost where
  libraries := true
  haveStack _ := true
  start _ _ := pamSuccess
  authenticate _ _ _ := pamSuccess
  acctMgmt _ _ _ := pamSuccess

/-- A desk that waits for PAM's answer about a user. -/
def LoginDesk.awaiting (username : Username) : LoginDesk :=
  { LoginDesk.init with
    attempts := OrderedMap.empty.set 0 { username, ipBucket := 0, userBucket := 1, phase := .pam } }

theorem LoginDesk.awaiting_awaits (username : Username) :
    (LoginDesk.awaiting username).Awaits 0 username := by
  refine ⟨{ username, ipBucket := 0, userBucket := 1, phase := .pam }, ?_, rfl, rfl⟩
  rw [LoginDesk.awaiting, OrderedMap.find?_set, if_pos rfl]

/-- A sign-in through PAM is exact, whatever the host and the helper do, for the passwords
that a C string can hold or that PAM never gets; a zero character cuts any other one. -/
theorem pam_login_exact (username : Username) (password : JsString) :
    (∀ host service spawn events trustProxy desk request, LoginDesk.Awaits desk request username →
      ExactSignIn host service username password spawn events trustProxy desk request) ↔
      Deliverable password := by
  constructor
  · intro holds
    by_contra undeliverable
    simp only [Deliverable, not_or, not_not, Nat.not_lt] at undeliverable
    obtain ⟨zero, encodable, fits⟩ := undeliverable
    obtain ⟨text, decoded⟩ := Option.ne_none_iff_exists'.mp encodable
    obtain ⟨user, named, -⟩ := cString?_username username
    have chosen : cString? (permissiveHost.chosen (js "sysdeck")) =
        some (CString.ofBytes (Utf8.encode "sysdeck".toList)) := by
      have same : permissiveHost.chosen (js "sysdeck") = js "sysdeck" := rfl
      rw [same, cString?, js, Utf16.decode?_encode, Option.map_some]
    have awaits := LoginDesk.awaiting_awaits username
    have answered := main_ok_of_accepts decoded fits rfl chosen named ⟨rfl, rfl, rfl⟩
    have minted := mints_of_main answered awaits false
    exact not_acceptsExactly zero ((holds _ none _ _ false _ 0 awaits).minted minted)
  · intro deliverable host service spawn events trustProxy desk request awaits
    obtain ⟨settled, once⟩ := settles_once host service username password spawn events
    refine ⟨?_, settled, once⟩
    intro minted
    obtain ⟨result, first, accepts⟩ := (LoginDesk.mints_resume_iff trustProxy awaits _).mp minted
    exact acceptsExactly_of_main deliverable
      (answered_of_resolved (List.mem_of_mem_head? first) accepts)

/-- A host where every password is x, and the only stack is the console's. -/
def consoleHost : PamHost where
  libraries := true
  haveStack _ := false
  start _ _ := pamSuccess
  authenticate _ _ conv :=
    if conv [pamPromptEchoOff] = [some (CString.ofBytes (Utf8.encode ['x']))] then pamSuccess else 7
  acctMgmt _ _ _ := pamSuccess

/-- A sign-in with another password, which begins like the right one up to a zero. -/
def zeroLogin : LoginRequest where
  forwardedFor := none
  contentLength := none
  raw := some "\x7b\"username\":\"operator\",\"password\":\"x\\u0000y\"\x7d".toList

def zeroCredentials : Credentials where
  username := ⟨"operator".toList, by decide⟩
  password := js "x\x00y"
  nonempty := by decide +kernel

/-- The desk where that sign-in has been handed to PAM. -/
def zeroDesk : LoginDesk :=
  Execution.run (LoginDesk.step .pam false) .init [.arrive 0 zeroLogin 0 0 0 .viable]

/-- The operator is signed in with a password that is not the operator's. -/
theorem pam_login_inexact :
    (readCredentials zeroLogin).toOption = some zeroCredentials ∧
      zeroDesk.Awaits 0 zeroCredentials.username ∧
      ¬ ∀ events, ExactSignIn consoleHost none zeroCredentials.username zeroCredentials.password
        (.running true) events false zeroDesk 0 := by
  have read : (readCredentials zeroLogin).toOption = some zeroCredentials := by decide +kernel
  have awaits : zeroDesk.Awaits 0 zeroCredentials.username := by
    have waits : (zeroDesk.attempts.find? 0).map (fun attempt => (attempt.username, attempt.phase)) =
        some (zeroCredentials.username, .pam) := by decide +kernel
    obtain ⟨attempt, found, same⟩ := Option.map_eq_some_iff.mp waits
    exact ⟨attempt, found, congrArg Prod.fst same, congrArg Prod.snd same⟩
  refine ⟨read, awaits, ?_⟩
  intro holds
  have decoded : Utf16.decode? zeroCredentials.password = some "x\x00y".toList :=
    Utf16.decode?_encode _
  obtain ⟨user, named, -⟩ := cString?_username zeroCredentials.username
  have chosen : cString? (consoleHost.chosen (js "sysdeck")) =
      some (CString.ofBytes (Utf8.encode "login".toList)) := by
    have same : consoleHost.chosen (js "sysdeck") = js "login" := rfl
    rw [same, cString?, js, Utf16.decode?_encode, Option.map_some]
  have cut : CString.ofBytes (Utf8.encode "x\x00y".toList) = CString.ofBytes (Utf8.encode ['x']) := by
    decide +kernel
  have fits : pyLength zeroCredentials.password ≤ 512 := by decide +kernel
  have answered := main_ok_of_accepts decoded fits rfl chosen named ⟨rfl, by rw [cut]; rfl, rfl⟩
  have zero : 0 ∈ zeroCredentials.password := by decide +kernel
  exact not_acceptsExactly zero ((holds _).minted (mints_of_main answered awaits false))

end SysDeck.Web
