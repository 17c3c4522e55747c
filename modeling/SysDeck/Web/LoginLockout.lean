import SysDeck.Web.Lockout

/-! The lockout over whole runs: five rejections close a window, as long as no request
passes it while the requests in flight may already use up the five. -/

namespace SysDeck.Web

namespace LoginDesk

variable {desk : LoginDesk}

/-- A request whose bucket has had its rejections is answered at once. -/
theorem arrive_locked {mode : AuthMode} {trustProxy : Bool} (sound : desk.Sound) {request : ℕ}
    {sent : LoginRequest} {credentials : Credentials}
    (absent : desk.attempts.find? request = none) (read : readCredentials sent = .ok credentials)
    {ipNow userNow replyNow : ℤ} {pam : PamViability}
    (spent : maxFailures ≤ rejections
      (desk.approach trustProxy sent credentials.username ipNow userNow).1.userBucket desk.log) :
    (desk.arrive mode trustProxy request sent ipNow userNow replyNow pam).attempts = desk.attempts ∧
      ∃ reply, reply.status = 429 ∧
        (desk.arrive mode trustProxy request sent ipNow userNow replyNow pam).log =
          .answered request reply :: desk.log := by
  obtain ⟨nextSound, extend, holds⟩ :=
    approach_spec sound trustProxy sent credentials.username ipNow userNow
  have counted := nextSound.counted _ ⟨holds.userMade, credentials.username, holds.userKeyed⟩
  rw [extend.log] at counted
  have locked : (desk.approach trustProxy sent credentials.username ipNow userNow).2.locked
      (desk.approach trustProxy sent credentials.username ipNow userNow).1.ipBucket
      (desk.approach trustProxy sent credentials.username ipNow userNow).1.userBucket = true := by
    simp only [LoginDesk.locked, Bool.or_eq_true, decide_eq_true_eq]
    exact .inr (by omega)
  rw [arrive_eq absent read]
  dsimp only
  rw [if_pos locked]
  exact ⟨extend.attempts, _, rfl, by rw [happen, extend.log]⟩

/-- What the rejection of a request in flight does to the bucket of its user. -/
structure Counts (desk later : LoginDesk) (bucket : ℕ) : Prop where
  sound : later.Sound
  owned : later.OfUser bucket
  failures : (later.heap bucket).failures = (desk.heap bucket).failures + 1
  pending : later.pending bucket + 1 = desk.pending bucket

theorem fail_counts (sound : desk.Sound) {request : ℕ} {attempt : Attempt}
    (found : desk.attempts.find? request = some attempt) :
    desk.Counts (desk.fail request attempt) attempt.userBucket := by
  have holds := sound.held request attempt found
  have owned : desk.OfUser attempt.userBucket := ⟨holds.userMade, attempt.username, holds.userKeyed⟩
  have count := pending_finish found attempt.userBucket
  rw [if_pos rfl] at count
  refine ⟨(fail_keeps sound found).sound, ⟨holds.userMade, attempt.username, ?_⟩, ?_, count⟩
  · change ((desk.settle request attempt _ _ (.rejected request attempt.userBucket)).heap
      attempt.userBucket).key = _
    rw [key_settle]
    exact holds.userKeyed
  change ((desk.settle request attempt _ _ (.rejected request attempt.userBucket)).heap
    attempt.userBucket).failures = _
  rw [failures_settle holds owned, if_pos rfl]

/-- An authenticator that has been asked may reject. -/
theorem reject_asked (mode : AuthMode) (trustProxy : Bool) {request : ℕ} {attempt : Attempt}
    (found : desk.attempts.find? request = some attempt) (asked : attempt.phase ≠ .seeding) :
    ∃ label, desk.step mode trustProxy label = desk.fail request attempt := by
  cases phase : attempt.phase with
  | seeding => exact absurd phase asked
  | pam =>
    refine ⟨.pamAnswers request .broken, ?_⟩
    simp only [step, found, phase, if_true]
  | localStore =>
    refine ⟨.localAnswers request false, ?_⟩
    simp only [step, found, phase, if_true, Bool.false_eq_true, if_false]

/-- A request in flight may be rejected. -/
theorem reject_one (mode : AuthMode) (trustProxy : Bool) (sound : desk.Sound) {request : ℕ}
    {attempt : Attempt} (found : desk.attempts.find? request = some attempt) :
    ∃ labels, desk.Counts (Execution.run (step mode trustProxy) desk labels) attempt.userBucket := by
  by_cases seeding : attempt.phase = .seeding
  · obtain ⟨phase, asked, handed⟩ : ∃ phase, phase ≠ .seeding ∧
        desk.step mode trustProxy (.seeded request .viable) = desk.hand request attempt phase := by
      cases allowed : mode.pamAllowed with
      | true =>
        refine ⟨.pam, (fun same => by cases same), ?_⟩
        simp only [step, found, seeding, handOver, allowed, if_true]
      | false =>
        refine ⟨.localStore, (fun same => by cases same), ?_⟩
        simp only [step, found, seeding, handOver, allowed, if_true, Bool.false_eq_true, if_false]
    have next := (hand_keeps sound found phase).sound
    have present : (desk.hand request attempt phase).attempts.find? request =
        some { attempt with phase } := OrderedMap.find?_set_self ..
    have count := pending_wait desk request attempt phase attempt.userBucket
    rw [found, Option.map_some, Option.getD_some, if_pos rfl] at count
    obtain ⟨label, rejected⟩ := reject_asked mode trustProxy present asked
    obtain ⟨later, owned, failures, pending⟩ := fail_counts next present
    refine ⟨[.seeded request .viable, label], ?_⟩
    rw [Execution.run_cons, Execution.run_cons, Execution.run_nil, handed, rejected]
    refine ⟨later, owned, failures, ?_⟩
    change _ = (desk.wait request attempt phase).pending attempt.userBucket at pending
    dsimp only at pending
    omega
  · obtain ⟨label, rejected⟩ := reject_asked mode trustProxy found seeding
    refine ⟨[label], ?_⟩
    rw [Execution.run_cons, Execution.run_nil, rejected]
    exact fail_counts sound found

/-- All the requests in flight on a bucket may be rejected. -/
theorem reject_all (mode : AuthMode) (trustProxy : Bool) (sound : desk.Sound) {bucket : ℕ}
    (owned : desk.OfUser bucket) :
    ∃ labels, rejections bucket (Execution.run (step mode trustProxy) desk labels).log =
      (desk.heap bucket).failures + desk.pending bucket := by
  induction count : desk.pending bucket generalizing desk with
  | zero => exact ⟨[], (sound.counted bucket owned).symm⟩
  | succ n ih =>
    obtain ⟨attempt, member, same⟩ := List.countP_pos_iff.mp
      (show 0 < desk.pending bucket by omega)
    obtain ⟨request, found⟩ := OrderedMap.mem_values_iff.mp member
    have holder : attempt.userBucket = bucket := of_decide_eq_true same
    obtain ⟨first, next⟩ := reject_one mode trustProxy sound found
    rw [holder] at next
    obtain ⟨rest, rejected⟩ := ih next.sound next.owned (by have := next.pending; omega)
    refine ⟨first ++ rest, ?_⟩
    rw [Execution.run_append, rejected, next.failures]
    omega

theorem handOver_available {mode : AuthMode} {pam : PamViability}
    (available : unavailable mode pam = false) (request : ℕ) (attempt : Attempt) :
    ∃ phase, desk.handOver mode request attempt pam = desk.hand request attempt phase := by
  unfold handOver
  split
  · cases pam with
    | viable => exact ⟨.pam, rfl⟩
    | missing reason =>
      have localAllowed : mode.localAllowed = true := by simpa [unavailable] using available
      exact ⟨.localStore, by simp only [localAllowed, if_true]⟩
  · exact ⟨.localStore, rfl⟩

/-- The condition is exact: a request that passes without room may lead to more
rejections than the window allows. -/
theorem overrun {mode : AuthMode} {trustProxy : Bool} (sound : desk.Sound) {request : ℕ}
    {sent : LoginRequest} {ipNow userNow replyNow : ℤ} {pam : PamViability}
    (absent : desk.attempts.find? request = none)
    (crowded : ¬ Allowed mode trustProxy desk
      (.arrive request sent ipNow userNow replyNow pam)) :
    ∃ bucket labels, maxFailures < rejections bucket (Execution.run (step mode trustProxy) desk
      (.arrive request sent ipNow userNow replyNow pam :: labels)).log := by
  cases read : readCredentials sent with
  | error reply =>
    rw [Allowed, read] at crowded
    exact absurd trivial crowded
  | ok credentials =>
    rw [Allowed, read] at crowded
    dsimp only at crowded
    rw [not_or, not_or, Bool.not_eq_true (unavailable mode pam), Nat.not_lt] at crowded
    obtain ⟨unlocked, available, full⟩ := crowded
    have next := arrive_sound mode trustProxy sound request sent ipNow userNow replyNow pam
    have arrived : desk.arrive mode trustProxy request sent ipNow userNow replyNow pam = _ :=
      arrive_eq absent read ipNow userNow replyNow pam
    dsimp only at arrived
    rw [if_neg unlocked] at arrived
    obtain ⟨-, extend, holds⟩ :=
      approach_spec sound trustProxy sent credentials.username ipNow userNow
    rw [← extend.attempts] at absent
    generalize desk.approach trustProxy sent credentials.username ipNow userNow = approached
      at absent arrived holds full
    obtain ⟨attempt, ready⟩ := approached
    obtain ⟨phase, heap, made, attempts⟩ : ∃ phase,
        (desk.arrive mode trustProxy request sent ipNow userNow replyNow pam).heap = ready.heap ∧
        (desk.arrive mode trustProxy request sent ipNow userNow replyNow pam).made = ready.made ∧
        (desk.arrive mode trustProxy request sent ipNow userNow replyNow pam).attempts =
          (ready.wait request attempt phase).attempts := by
      rw [arrived]
      split
      · exact ⟨.seeding, rfl, rfl, rfl⟩
      · obtain ⟨phase, handed⟩ : ∃ phase,
            (ready.happen (.passed request attempt.userBucket)).handOver mode request attempt pam =
              (ready.happen (.passed request attempt.userBucket)).hand request attempt phase :=
          handOver_available available request attempt
        rw [handed]
        exact ⟨phase, rfl, rfl, rfl⟩
    have owned : (desk.arrive mode trustProxy request sent ipNow userNow replyNow pam).OfUser
        attempt.userBucket := by
      rw [OfUser, heap, made]
      exact ⟨holds.userMade, attempt.username, holds.userKeyed⟩
    have count := pending_wait ready request attempt phase attempt.userBucket
    rw [absent, Option.map_none, Option.getD_none, if_pos rfl] at count
    obtain ⟨labels, rejected⟩ := reject_all mode trustProxy next owned
    refine ⟨attempt.userBucket, labels, ?_⟩
    rw [Execution.run_cons, step, rejected, heap, pending, attempts, ← pending]
    dsimp only at full
    omega

end LoginDesk

/-- Five wrong guesses close the window of a user name, in every run where no request
passes the lockout while the requests in flight may use up what is left of the five. -/
theorem login_lockout (mode : AuthMode) (trustProxy : Bool) (labels : List LoginLabel)
    (allowed : Execution.Along (LoginDesk.step mode trustProxy)
      (LoginDesk.Allowed mode trustProxy) .init labels) :
    (∀ username bucket,
      bucket < (Execution.run (LoginDesk.step mode trustProxy) .init labels).made →
      ((Execution.run (LoginDesk.step mode trustProxy) .init labels).heap bucket).key =
        userKey username →
      rejections bucket (Execution.run (LoginDesk.step mode trustProxy) .init labels).log ≤
        maxFailures) ∧
    ∀ request sent credentials ipNow userNow replyNow pam,
      (Execution.run (LoginDesk.step mode trustProxy) .init labels).attempts.find? request = none →
      readCredentials sent = .ok credentials →
      maxFailures ≤ rejections
        ((Execution.run (LoginDesk.step mode trustProxy) .init labels).approach trustProxy sent
          credentials.username ipNow userNow).1.userBucket
        (Execution.run (LoginDesk.step mode trustProxy) .init labels).log →
      ∃ reply, reply.status = 429 ∧
        (Execution.run (LoginDesk.step mode trustProxy) .init
          (labels ++ [.arrive request sent ipNow userNow replyNow pam])).log =
          .answered request reply ::
            (Execution.run (LoginDesk.step mode trustProxy) .init labels).log ∧
        (Execution.run (LoginDesk.step mode trustProxy) .init
          (labels ++ [.arrive request sent ipNow userNow replyNow pam])).attempts =
          (Execution.run (LoginDesk.step mode trustProxy) .init labels).attempts := by
  have sound := LoginDesk.reached_sound mode trustProxy labels
  have bounded := LoginDesk.reached_bounded allowed
  refine ⟨?_, ?_⟩
  · intro username bucket made keyed
    have room := bounded bucket ⟨made, username, keyed⟩
    rw [← sound.counted bucket ⟨made, username, keyed⟩]
    exact le_trans (Nat.le_add_right _ _) room
  · intro request sent credentials ipNow userNow replyNow pam absent read spent
    rw [Execution.run_append, Execution.run_cons, Execution.run_nil]
    obtain ⟨attempts, reply, status, log⟩ := LoginDesk.arrive_locked sound absent read spent
    exact ⟨reply, status, log, attempts⟩

/-- A guess at the password of root. -/
def sampleLogin : LoginRequest where
  forwardedFor := none
  contentLength := none
  raw := some "\x7b\"username\":\"root\",\"password\":\"guess\"\x7d".toList

def sampleCredentials : Credentials where
  username := ⟨"root".toList, by decide⟩
  password := js "guess"
  nonempty := by decide +kernel

def guess (request : ℕ) : LoginLabel := .arrive request sampleLogin 0 0 0 .viable

def sampleDesk (labels : List LoginLabel) : LoginDesk :=
  Execution.run (LoginDesk.step .pam false) .init labels

/-- Five guesses, one after the other. -/
def guessesInTurn : List LoginLabel :=
  (List.range 5).flatMap fun request => [guess request, .pamAnswers request .refused]

/-- Six guesses before the first answer. -/
def guessesAtOnce : List LoginLabel :=
  (List.range 6).map guess ++ (List.range 6).map fun request => .pamAnswers request .refused

theorem sampleLogin_read : readCredentials sampleLogin = .ok sampleCredentials := by
  have read : (readCredentials sampleLogin).toOption = some sampleCredentials := by decide +kernel
  cases outcome : readCredentials sampleLogin with
  | error reply =>
    rw [outcome] at read
    cases read
  | ok credentials =>
    rw [outcome] at read
    cases read
    rfl

/-- The sixth guess of a minute is answered 429. -/
theorem login_lockout_in_turn :
    rejections 1 (sampleDesk guessesInTurn).log = 5 ∧
      ∃ reply, reply.status = 429 ∧ (sampleDesk (guessesInTurn ++ [guess 5])).log =
        .answered 5 reply :: (sampleDesk guessesInTurn).log := by
  have rejected : rejections 1 (sampleDesk guessesInTurn).log = 5 := by decide +kernel
  have given : ((sampleDesk guessesInTurn).approach false sampleLogin sampleCredentials.username 0
      0).1.userBucket = 1 := by decide +kernel
  refine ⟨rejected, ?_⟩
  obtain ⟨-, later⟩ := login_lockout .pam false guessesInTurn (by decide +kernel)
  obtain ⟨reply, status, log, -⟩ := later 5 sampleLogin sampleCredentials 0 0 0 .viable
    (Option.isNone_iff_eq_none.mp (by decide +kernel)) sampleLogin_read (by
      change maxFailures ≤ rejections ((sampleDesk guessesInTurn).approach false sampleLogin
        sampleCredentials.username 0 0).1.userBucket (sampleDesk guessesInTurn).log
      rw [given, rejected]
      decide)
  exact ⟨reply, status, log⟩

/-- Six guesses are handed to the host and rejected in one window. -/
theorem login_lockout_at_once :
    ∃ bucket, bucket < (sampleDesk guessesAtOnce).made ∧
      ((sampleDesk guessesAtOnce).heap bucket).key = userKey sampleCredentials.username ∧
      maxFailures < rejections bucket (sampleDesk guessesAtOnce).log :=
  ⟨1, by decide +kernel⟩

end SysDeck.Web
