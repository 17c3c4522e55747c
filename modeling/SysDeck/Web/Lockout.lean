import SysDeck.Library.Execution
import SysDeck.Library.OrderedMap
import SysDeck.Web.Login

/-! The lockout of the sign-in route. A request keeps the buckets of its address and its
user name as objects; it tests their failures before it asks an authenticator, and counts
a failure after the answer. The buckets live in a heap, and the map names the current one
of each key. -/

namespace SysDeck.Web

def failWindowMs : ℤ := 60000
def maxFailures : ℕ := 5

structure FailBucket where
  /-- The key the bucket was made for. -/
  key : List Char
  windowStart : ℤ
  failures : ℕ
  deriving DecidableEq

def FailBucket.expired (bucket : FailBucket) (now : ℤ) : Bool :=
  failWindowMs < now - bucket.windowStart

def ipKey (ip : List Char) : List Char := "ip:".toList ++ ip

def userKey (username : Username) : List Char :=
  "user:".toList ++ username.name.map Char.toLower

/-- What a request awaits. -/
inductive AttemptPhase where
  | seeding
  | pam
  | localStore
  deriving DecidableEq

/-- A request past the lockout, with the buckets it holds. -/
structure Attempt where
  username : Username
  ipBucket : ℕ
  userBucket : ℕ
  phase : AttemptPhase

inductive LoginEvent where
  | passed (request bucket : ℕ)
  | handed (request bucket : ℕ)
  | rejected (request bucket : ℕ)
  | accepted (request bucket : ℕ)
  | answered (request : ℕ) (reply : HttpReply)

inductive PamVerdict where
  | accepted
  | refused
  /-- The helper did not come to an answer. -/
  | broken
  deriving DecidableEq

/-- pamViable(): whether the helper is there, or why not. -/
inductive PamViability where
  | viable
  | missing (reason : JsString)

structure LoginDesk where
  heap : ℕ → FailBucket
  /-- The buckets made so far. -/
  made : ℕ
  failBuckets : OrderedMap (List Char) ℕ
  attempts : OrderedMap ℕ Attempt
  /-- What has happened, the latest first. -/
  log : List LoginEvent

inductive LoginLabel where
  | arrive (request : ℕ) (sent : LoginRequest) (ipNow userNow replyNow : ℤ)
    (pam : PamViability)
  | seeded (request : ℕ) (pam : PamViability)
  | pamAnswers (request : ℕ) (verdict : PamVerdict)
  | localAnswers (request : ℕ) (accepted : Bool)

namespace LoginDesk

def init : LoginDesk where
  heap _ := { key := [], windowStart := 0, failures := 0 }
  made := 0
  failBuckets := .empty
  attempts := .empty
  log := []

/-- A new bucket under the key; a large map first drops the expired ones. -/
def makeBucket (desk : LoginDesk) (key : List Char) (now : ℤ) : ℕ × LoginDesk :=
  let kept := if 1024 < desk.failBuckets.size
    then desk.failBuckets.filter fun _ id => !(desk.heap id).expired now
    else desk.failBuckets
  (desk.made, { desk with
    heap := Function.update desk.heap desk.made { key, windowStart := now, failures := 0 }
    made := desk.made + 1
    failBuckets := kept.set key desk.made })

def bucket (desk : LoginDesk) (key : List Char) (now : ℤ) : ℕ × LoginDesk :=
  match desk.failBuckets.find? key with
  | some id => if (desk.heap id).expired now then desk.makeBucket key now else (id, desk)
  | none => desk.makeBucket key now

def happen (desk : LoginDesk) (event : LoginEvent) : LoginDesk :=
  { desk with log := event :: desk.log }

def setFailures (desk : LoginDesk) (id failures : ℕ) : LoginDesk :=
  { desk with heap := Function.update desk.heap id { desk.heap id with failures } }

/-- `Math.max(Math.ceil(ms / 1000), 1)`. -/
def waitSeconds (ms : ℤ) : ℤ := max (-((-ms) / 1000)) 1

def lockedReply (desk : LoginDesk) (ipBucket userBucket : ℕ) (now : ℤ) : HttpReply :=
  let wait := waitSeconds
    (max (desk.heap ipBucket).windowStart (desk.heap userBucket).windowStart + failWindowMs - now)
  denied 429 (js "too many failed attempts — try again in " ++
    Utf16.encode (Json.writeInteger wait) ++ js "s")

def pamUnavailable (reason : JsString) : HttpReply :=
  denied 503 (js "PAM unavailable (" ++ reason ++ js ") — see web/README.md §login")

/-- The request waits for the next answer. -/
def wait (desk : LoginDesk) (request : ℕ) (attempt : Attempt) (phase : AttemptPhase) : LoginDesk :=
  { desk with attempts := desk.attempts.set request { attempt with phase } }

def finish (desk : LoginDesk) (request : ℕ) : LoginDesk :=
  { desk with attempts := desk.attempts.erase request }

/-- The credentials are handed to an authenticator. -/
def hand (desk : LoginDesk) (request : ℕ) (attempt : Attempt) (phase : AttemptPhase) : LoginDesk :=
  (desk.wait request attempt phase).happen (.handed request attempt.userBucket)

/-- The first authenticator of the mode, if there is one. -/
def handOver (mode : AuthMode) (desk : LoginDesk) (request : ℕ) (attempt : Attempt)
    (pam : PamViability) : LoginDesk :=
  if mode.pamAllowed then
    match pam with
    | .viable => desk.hand request attempt .pam
    | .missing reason =>
      if mode.localAllowed then desk.hand request attempt .localStore
      else (desk.finish request).happen (.answered request (pamUnavailable reason))
  else desk.hand request attempt .localStore

/-- The request is decided, with new counts in the two buckets it holds. -/
def settle (desk : LoginDesk) (request : ℕ) (attempt : Attempt) (ipFailures userFailures : ℕ)
    (event : LoginEvent) : LoginDesk :=
  ((((desk.setFailures attempt.ipBucket ipFailures).setFailures attempt.userBucket
    userFailures).finish request).happen event)

/-- `fail(reason)`: both buckets count. -/
def fail (desk : LoginDesk) (request : ℕ) (attempt : Attempt) : LoginDesk :=
  (desk.settle request attempt ((desk.heap attempt.ipBucket).failures + 1)
    ((desk.heap attempt.userBucket).failures + 1)
    (.rejected request attempt.userBucket)).happen (.answered request incorrect)

/-- A success: both buckets start over. -/
def succeed (desk : LoginDesk) (request : ℕ) (attempt : Attempt) : LoginDesk :=
  desk.settle request attempt 0 0 (.accepted request attempt.userBucket)

def locked (desk : LoginDesk) (ipBucket userBucket : ℕ) : Bool :=
  maxFailures ≤ (desk.heap ipBucket).failures || maxFailures ≤ (desk.heap userBucket).failures

/-- The buckets of a request, and the attempt that holds them. -/
def approach (desk : LoginDesk) (trustProxy : Bool) (sent : LoginRequest) (username : Username)
    (ipNow userNow : ℤ) : Attempt × LoginDesk :=
  let ip := desk.bucket (ipKey (clientIp trustProxy sent.forwardedFor)) ipNow
  let user := ip.2.bucket (userKey username) userNow
  ({ username, ipBucket := ip.1, userBucket := user.1, phase := .seeding }, user.2)

def arrive (mode : AuthMode) (trustProxy : Bool) (desk : LoginDesk) (request : ℕ)
    (sent : LoginRequest) (ipNow userNow replyNow : ℤ) (pam : PamViability) : LoginDesk :=
  if desk.attempts.contains request then desk
  else
    match readCredentials sent with
    | .error reply => desk.happen (.answered request reply)
    | .ok credentials =>
      let approached := desk.approach trustProxy sent credentials.username ipNow userNow
      let attempt := approached.1
      let desk := approached.2
      if desk.locked attempt.ipBucket attempt.userBucket then
        desk.happen (.answered request
          (desk.lockedReply attempt.ipBucket attempt.userBucket replyNow))
      else
        let desk := desk.happen (.passed request attempt.userBucket)
        if mode.localAllowed then desk.wait request attempt .seeding
        else desk.handOver mode request attempt pam

def step (mode : AuthMode) (trustProxy : Bool) (desk : LoginDesk) : LoginLabel → LoginDesk
  | .arrive request sent ipNow userNow replyNow pam =>
    desk.arrive mode trustProxy request sent ipNow userNow replyNow pam
  | .seeded request pam =>
    match desk.attempts.find? request with
    | some attempt =>
      if attempt.phase = .seeding then desk.handOver mode request attempt pam else desk
    | none => desk
  | .pamAnswers request verdict =>
    match desk.attempts.find? request with
    | some attempt =>
      if attempt.phase = .pam then
        match verdict with
        | .accepted => desk.succeed request attempt
        | .refused =>
          if mode.localAllowed then desk.wait request attempt .localStore
          else desk.fail request attempt
        | .broken => desk.fail request attempt
      else desk
    | none => desk
  | .localAnswers request accepted =>
    match desk.attempts.find? request with
    | some attempt =>
      if attempt.phase = .localStore then
        if accepted then desk.succeed request attempt else desk.fail request attempt
      else desk
    | none => desk

end LoginDesk

/-! The failures of a bucket are the rejections that the log charges to it. -/

/-- The requests that were rejected on a bucket since its last reset. -/
def rejections (bucket : ℕ) : List LoginEvent → ℕ
  | [] => 0
  | .rejected _ other :: past => rejections bucket past + if other = bucket then 1 else 0
  | .accepted _ other :: past => if other = bucket then 0 else rejections bucket past
  | .passed .. :: past | .handed .. :: past | .answered .. :: past => rejections bucket past

/-- A request passes the lockout only on a bucket that has not had its failures. -/
def Guarded (log : List LoginEvent) : Prop :=
  ∀ later request bucket past, log = later ++ .passed request bucket :: past →
    rejections bucket past < maxFailures

theorem Guarded.cons {log : List LoginEvent} {event : LoginEvent} (guarded : Guarded log)
    (passes : ∀ request bucket, event = .passed request bucket →
      rejections bucket log < maxFailures) : Guarded (event :: log) := by
  intro later request bucket past split
  cases later with
  | nil =>
    cases split
    exact passes request bucket rfl
  | cons first rest =>
    cases split
    exact guarded rest request bucket past rfl

theorem key_ne (ip : List Char) (username : Username) : ipKey ip ≠ userKey username := by
  intro same
  have heads : some 'i' = some 'u' := congrArg List.head? same
  exact absurd heads (by decide)

namespace LoginDesk

variable {desk : LoginDesk}

/-- The requests in flight that hold a bucket as their user's. -/
def pending (desk : LoginDesk) (bucket : ℕ) : ℕ :=
  desk.attempts.values.countP fun attempt => attempt.userBucket = bucket

/-- The bucket of a user name. -/
def OfUser (desk : LoginDesk) (bucket : ℕ) : Prop :=
  bucket < desk.made ∧ ∃ username, (desk.heap bucket).key = userKey username

/-- The buckets that an attempt holds exist, and are of its keys. -/
structure Holds (desk : LoginDesk) (attempt : Attempt) : Prop where
  ipMade : attempt.ipBucket < desk.made
  userMade : attempt.userBucket < desk.made
  ipKeyed : ∃ ip, (desk.heap attempt.ipBucket).key = ipKey ip
  userKeyed : (desk.heap attempt.userBucket).key = userKey attempt.username

structure Sound (desk : LoginDesk) : Prop where
  keyed : ∀ key id, desk.failBuckets.find? key = some id → id < desk.made ∧
    (desk.heap id).key = key
  held : ∀ request attempt, desk.attempts.find? request = some attempt → desk.Holds attempt
  counted : ∀ bucket, desk.OfUser bucket →
    (desk.heap bucket).failures = rejections bucket desk.log
  unmade : ∀ bucket, desk.made ≤ bucket → rejections bucket desk.log = 0
  guarded : Guarded desk.log

theorem init_sound : init.Sound := by
  refine ⟨?_, ?_, ?_, ?_, ?_⟩
  · intro key id found
    cases found
  · intro request attempt found
    cases found
  · rintro bucket ⟨made, -⟩
    exact absurd made (Nat.not_lt_zero bucket)
  · intro bucket _
    rfl
  · intro later request bucket past split
    cases later <;> cases split

/-- What is held stays held while the buckets keep their keys. -/
theorem Holds.mono {later : LoginDesk} {attempt : Attempt} (holds : desk.Holds attempt)
    (made : desk.made ≤ later.made)
    (keys : ∀ bucket < desk.made, (later.heap bucket).key = (desk.heap bucket).key) :
    later.Holds attempt := by
  refine ⟨Nat.lt_of_lt_of_le holds.ipMade made, Nat.lt_of_lt_of_le holds.userMade made, ?_, ?_⟩
  · rw [keys _ holds.ipMade]
    exact holds.ipKeyed
  · rw [keys _ holds.userMade]
    exact holds.userKeyed

theorem Holds.happen {attempt : Attempt} (holds : desk.Holds attempt) (event : LoginEvent) :
    (desk.happen event).Holds attempt :=
  ⟨holds.ipMade, holds.userMade, holds.ipKeyed, holds.userKeyed⟩

/-- No address's bucket is a user's. -/
theorem Holds.not_ofUser {attempt : Attempt} (holds : desk.Holds attempt) :
    ¬ desk.OfUser attempt.ipBucket := by
  rintro ⟨-, username, keyed⟩
  obtain ⟨ip, other⟩ := holds.ipKeyed
  rw [keyed] at other
  exact key_ne ip username other.symm

theorem pending_unmade (sound : desk.Sound) {bucket : ℕ} (unmade : desk.made ≤ bucket) :
    desk.pending bucket = 0 := by
  rw [pending, List.countP_eq_zero]
  intro attempt member same
  obtain ⟨request, found⟩ := OrderedMap.mem_values_iff.mp member
  have made := (sound.held request attempt found).userMade
  rw [decide_eq_true_eq] at same
  omega

/-- Buckets are made, and nothing else happens. -/
structure Extends (desk later : LoginDesk) : Prop where
  made : desk.made ≤ later.made
  heap : ∀ bucket < desk.made, later.heap bucket = desk.heap bucket
  fresh : ∀ bucket, desk.made ≤ bucket → bucket < later.made → (later.heap bucket).failures = 0
  log : later.log = desk.log
  attempts : later.attempts = desk.attempts

theorem Extends.refl (desk : LoginDesk) : desk.Extends desk :=
  ⟨le_refl _, fun _ _ => rfl, fun _ low high => absurd high (Nat.not_lt.mpr low), rfl, rfl⟩

theorem Extends.trans {first second third : LoginDesk} (before : first.Extends second)
    (after : second.Extends third) : first.Extends third := by
  refine ⟨le_trans before.made after.made, ?_, ?_, after.log.trans before.log,
    after.attempts.trans before.attempts⟩
  · intro bucket made
    exact (after.heap bucket (Nat.lt_of_lt_of_le made before.made)).trans (before.heap bucket made)
  · intro bucket unmade made
    by_cases early : bucket < second.made
    · rw [after.heap bucket early]
      exact before.fresh bucket unmade early
    · exact after.fresh bucket (Nat.not_lt.mp early) made

/-- Making buckets keeps a desk sound when the map names made ones. -/
theorem Extends.sound {later : LoginDesk} (extend : desk.Extends later) (sound : desk.Sound)
    (keyed : ∀ key id, later.failBuckets.find? key = some id → id < later.made ∧
      (later.heap id).key = key) : later.Sound := by
  refine ⟨keyed, ?_, ?_, ?_, ?_⟩
  · intro request attempt found
    rw [extend.attempts] at found
    refine (sound.held request attempt found).mono extend.made ?_
    intro bucket made
    rw [extend.heap bucket made]
  · rintro bucket ⟨made, username, owner⟩
    rw [extend.log]
    by_cases old : bucket < desk.made
    · rw [extend.heap bucket old] at owner ⊢
      exact sound.counted bucket ⟨old, username, owner⟩
    · rw [extend.fresh bucket (Nat.not_lt.mp old) made, sound.unmade bucket (Nat.not_lt.mp old)]
  · intro bucket unmade
    rw [extend.log]
    exact sound.unmade bucket (le_trans extend.made unmade)
  · rw [extend.log]
    exact sound.guarded

theorem makeBucket_spec (sound : desk.Sound) (key : List Char) (now : ℤ) :
    (desk.makeBucket key now).2.Sound ∧ desk.Extends (desk.makeBucket key now).2 ∧
      (desk.makeBucket key now).1 < (desk.makeBucket key now).2.made ∧
      ((desk.makeBucket key now).2.heap (desk.makeBucket key now).1).key = key := by
  have extend : desk.Extends (desk.makeBucket key now).2 := by
    refine ⟨Nat.le_succ _, ?_, ?_, rfl, rfl⟩
    · intro bucket made
      exact Function.update_of_ne (Nat.ne_of_lt made) ..
    · intro bucket unmade made
      have same : bucket = desk.made := Nat.le_antisymm (Nat.lt_succ_iff.mp made) unmade
      rw [same]
      simp [makeBucket]
  have owner : ((desk.makeBucket key now).2.heap desk.made).key = key := by simp [makeBucket]
  refine ⟨extend.sound sound ?_, extend, Nat.lt_succ_self _, owner⟩
  intro other id found
  have named : (desk.makeBucket key now).2.failBuckets.find? other =
      if other = key then some desk.made else
        (if 1024 < desk.failBuckets.size
          then desk.failBuckets.filter fun _ id => !(desk.heap id).expired now
          else desk.failBuckets).find? other := OrderedMap.find?_set ..
  rw [named] at found
  split at found
  · rename_i same
    cases found
    rw [same]
    exact ⟨Nat.lt_succ_self _, owner⟩
  · have old : desk.failBuckets.find? other = some id := by
      split at found
      · exact (OrderedMap.find?_of_filter found).1
      · exact found
    obtain ⟨made, keyed⟩ := sound.keyed other id old
    rw [extend.heap id made]
    exact ⟨Nat.lt_succ_of_lt made, keyed⟩

/-- The bucket of a key is a made one of that key. -/
theorem bucket_spec (sound : desk.Sound) (key : List Char) (now : ℤ) :
    (desk.bucket key now).2.Sound ∧ desk.Extends (desk.bucket key now).2 ∧
      (desk.bucket key now).1 < (desk.bucket key now).2.made ∧
      ((desk.bucket key now).2.heap (desk.bucket key now).1).key = key := by
  unfold bucket
  split
  · rename_i id found
    split
    · exact makeBucket_spec sound key now
    · obtain ⟨made, keyed⟩ := sound.keyed key id found
      exact ⟨sound, Extends.refl desk, made, keyed⟩
  · exact makeBucket_spec sound key now

/-- An approaching request holds the buckets of its keys. -/
theorem approach_spec (sound : desk.Sound) (trustProxy : Bool) (sent : LoginRequest)
    (username : Username) (ipNow userNow : ℤ) :
    (desk.approach trustProxy sent username ipNow userNow).2.Sound ∧
      desk.Extends (desk.approach trustProxy sent username ipNow userNow).2 ∧
      (desk.approach trustProxy sent username ipNow userNow).2.Holds
        (desk.approach trustProxy sent username ipNow userNow).1 := by
  obtain ⟨ipSound, ipExtend, ipMade, ipKeyed⟩ :=
    bucket_spec sound (ipKey (clientIp trustProxy sent.forwardedFor)) ipNow
  obtain ⟨userSound, userExtend, userMade, userKeyed⟩ := bucket_spec ipSound (userKey username) userNow
  refine ⟨userSound, ipExtend.trans userExtend, Nat.lt_of_lt_of_le ipMade userExtend.made, userMade,
    ⟨clientIp trustProxy sent.forwardedFor, ?_⟩, userKeyed⟩
  exact (congrArg FailBucket.key (userExtend.heap _ ipMade)).trans ipKeyed

/-- The failures of a user's bucket and the requests that can still add to them. -/
def Bounded (desk : LoginDesk) : Prop :=
  ∀ bucket, desk.OfUser bucket → (desk.heap bucket).failures + desk.pending bucket ≤ maxFailures

/-- What a step keeps when no request passes the lockout in it. -/
structure Keeps (desk later : LoginDesk) : Prop where
  sound : later.Sound
  bounded : desk.Bounded → later.Bounded

theorem Keeps.refl (sound : desk.Sound) : desk.Keeps desk := ⟨sound, id⟩

theorem Extends.bounded {later : LoginDesk} (extend : desk.Extends later) (sound : desk.Sound)
    (bounded : desk.Bounded) : later.Bounded := by
  rintro bucket ⟨made, username, owner⟩
  have same : later.pending bucket = desk.pending bucket := by rw [pending, pending, extend.attempts]
  rw [same]
  by_cases old : bucket < desk.made
  · rw [extend.heap bucket old] at owner ⊢
    exact bounded bucket ⟨old, username, owner⟩
  · rw [extend.fresh bucket (Nat.not_lt.mp old) made, pending_unmade sound (Nat.not_lt.mp old)]
    exact Nat.zero_le _

theorem happen_keeps (sound : desk.Sound) {event : LoginEvent}
    (quiet : ∀ bucket, rejections bucket (event :: desk.log) = rejections bucket desk.log)
    (passes : ∀ request bucket, event = .passed request bucket →
      rejections bucket desk.log < maxFailures) : desk.Keeps (desk.happen event) := by
  refine ⟨⟨sound.keyed, ?_, ?_, ?_, sound.guarded.cons passes⟩, fun bounded => bounded⟩
  · intro other attempt found
    exact (sound.held other attempt found).mono (le_refl _) fun _ _ => rfl
  · intro bucket owned
    exact (sound.counted bucket owned).trans (quiet bucket).symm
  · intro bucket unmade
    exact (quiet bucket).trans (sound.unmade bucket unmade)

theorem answer_keeps (sound : desk.Sound) (request : ℕ) (reply : HttpReply) :
    desk.Keeps (desk.happen (.answered request reply)) :=
  happen_keeps sound (fun _ => rfl) nofun

theorem handed_keeps (sound : desk.Sound) (request bucket : ℕ) :
    desk.Keeps (desk.happen (.handed request bucket)) :=
  happen_keeps sound (fun _ => rfl) nofun

theorem wait_sound (sound : desk.Sound) (request : ℕ) {attempt : Attempt}
    (holds : desk.Holds attempt) (phase : AttemptPhase) :
    (desk.wait request attempt phase).Sound := by
  refine ⟨sound.keyed, ?_, sound.counted, sound.unmade, sound.guarded⟩
  intro other found present
  rw [wait, OrderedMap.find?_set] at present
  split at present
  · cases present
    exact ⟨holds.ipMade, holds.userMade, holds.ipKeyed, holds.userKeyed⟩
  · exact (sound.held other found present).mono (le_refl _) fun _ _ => rfl

theorem pending_wait (desk : LoginDesk) (request : ℕ) (attempt : Attempt) (phase : AttemptPhase)
    (bucket : ℕ) : (desk.wait request attempt phase).pending bucket +
      ((desk.attempts.find? request).map fun old =>
        if old.userBucket = bucket then 1 else 0).getD 0 =
      desk.pending bucket + if attempt.userBucket = bucket then 1 else 0 := by
  have count := OrderedMap.countP_values_set desk.attempts request { attempt with phase }
    fun attempt => attempt.userBucket = bucket
  unfold pending wait
  simpa only [decide_eq_true_eq] using count

/-- A request in flight moves on to its next answer. -/
theorem wait_keeps (sound : desk.Sound) {request : ℕ} {attempt : Attempt}
    (found : desk.attempts.find? request = some attempt) (phase : AttemptPhase) :
    desk.Keeps (desk.wait request attempt phase) := by
  refine ⟨wait_sound sound request (sound.held request attempt found) phase, ?_⟩
  intro bounded bucket owned
  have count := pending_wait desk request attempt phase bucket
  rw [found, Option.map_some, Option.getD_some] at count
  have room := bounded bucket owned
  change (desk.heap bucket).failures + _ ≤ maxFailures
  omega

theorem pending_finish {request : ℕ} {attempt : Attempt}
    (found : desk.attempts.find? request = some attempt) (bucket : ℕ) :
    (desk.finish request).pending bucket + (if attempt.userBucket = bucket then 1 else 0) =
      desk.pending bucket := by
  have count := OrderedMap.countP_values_erase found fun attempt => attempt.userBucket = bucket
  unfold pending finish
  simpa only [decide_eq_true_eq] using count

theorem finish_sound (sound : desk.Sound) (request : ℕ) : (desk.finish request).Sound := by
  refine ⟨sound.keyed, ?_, sound.counted, sound.unmade, sound.guarded⟩
  intro other attempt present
  rw [finish, OrderedMap.find?_erase] at present
  split at present
  · cases present
  · exact (sound.held other attempt present).mono (le_refl _) fun _ _ => rfl

theorem pending_finish_le (request bucket : ℕ) :
    (desk.finish request).pending bucket ≤ desk.pending bucket :=
  List.Sublist.countP_le (List.filter_sublist.map Prod.snd)

theorem finish_keeps (sound : desk.Sound) (request : ℕ) : desk.Keeps (desk.finish request) := by
  refine ⟨finish_sound sound request, ?_⟩
  intro bounded bucket owned
  exact le_trans (Nat.add_le_add_left (pending_finish_le request bucket) _) (bounded bucket owned)

theorem Keeps.trans {first second third : LoginDesk} (before : first.Keeps second)
    (after : second.Keeps third) : first.Keeps third :=
  ⟨after.sound, fun bounded => after.bounded (before.bounded bounded)⟩

theorem hand_keeps (sound : desk.Sound) {request : ℕ} {attempt : Attempt}
    (found : desk.attempts.find? request = some attempt) (phase : AttemptPhase) :
    desk.Keeps (desk.hand request attempt phase) :=
  (wait_keeps sound found phase).trans
    (handed_keeps (wait_keeps sound found phase).sound request attempt.userBucket)

theorem handOver_keeps (sound : desk.Sound) {request : ℕ} {attempt : Attempt}
    (found : desk.attempts.find? request = some attempt) (mode : AuthMode) (pam : PamViability) :
    desk.Keeps (desk.handOver mode request attempt pam) := by
  unfold handOver
  split
  · split
    · exact hand_keeps sound found .pam
    · split
      · exact hand_keeps sound found .localStore
      · exact (finish_keeps sound request).trans
          (answer_keeps (finish_sound sound request) request _)
  · exact hand_keeps sound found .localStore

theorem heap_setFailures (desk : LoginDesk) (id failures bucket : ℕ) :
    (desk.setFailures id failures).heap bucket =
      if bucket = id then { desk.heap id with failures } else desk.heap bucket := by
  by_cases same : bucket = id
  · simp [setFailures, same]
  · simp [setFailures, same]

/-- The keys of the buckets never change. -/
theorem key_setFailures (desk : LoginDesk) (id failures bucket : ℕ) :
    ((desk.setFailures id failures).heap bucket).key = (desk.heap bucket).key := by
  rw [heap_setFailures]
  split
  · rename_i same
    rw [same]
  · rfl

section Settle

variable {request : ℕ} {attempt : Attempt} {ipFailures userFailures : ℕ} {event : LoginEvent}

theorem key_settle (bucket : ℕ) :
    ((desk.settle request attempt ipFailures userFailures event).heap bucket).key =
      (desk.heap bucket).key := by
  change (((desk.setFailures _ _).setFailures _ _).heap bucket).key = _
  rw [key_setFailures, key_setFailures]

theorem ofUser_settle {bucket : ℕ} :
    (desk.settle request attempt ipFailures userFailures event).OfUser bucket ↔
      desk.OfUser bucket := by
  unfold OfUser
  rw [key_settle]
  rfl

/-- The count of a user's bucket is the new one, or as it was. -/
theorem failures_settle (holds : desk.Holds attempt) {bucket : ℕ} (owned : desk.OfUser bucket) :
    ((desk.settle request attempt ipFailures userFailures event).heap bucket).failures =
      if bucket = attempt.userBucket then userFailures else (desk.heap bucket).failures := by
  have notIp : bucket ≠ attempt.ipBucket := by
    rintro rfl
    exact holds.not_ofUser owned
  change (((desk.setFailures _ _).setFailures _ _).heap bucket).failures = _
  rw [heap_setFailures, heap_setFailures]
  split
  · rfl
  · rw [heap_setFailures, if_neg notIp]

/-- Settling keeps a desk sound when the event accounts for the new count. -/
theorem settle_sound (sound : desk.Sound) (holds : desk.Holds attempt)
    (user : rejections attempt.userBucket (event :: desk.log) = userFailures)
    (others : ∀ bucket, bucket ≠ attempt.userBucket →
      rejections bucket (event :: desk.log) = rejections bucket desk.log)
    (passes : ∀ request bucket, event ≠ .passed request bucket) :
    (desk.settle request attempt ipFailures userFailures event).Sound := by
  refine ⟨?_, ?_, ?_, ?_, ?_⟩
  · intro key id found
    rw [key_settle]
    exact sound.keyed key id found
  · intro other held present
    exact ((finish_sound sound request).held other held present).mono (le_refl _)
      fun bucket _ => key_settle bucket
  · intro bucket owned
    have old := ofUser_settle.mp owned
    rw [failures_settle holds old]
    split
    · rename_i same
      rw [same]
      exact user.symm
    · rename_i other
      exact (sound.counted bucket old).trans (others bucket other).symm
  · intro bucket unmade
    have other : bucket ≠ attempt.userBucket := by
      have made := holds.userMade
      rintro rfl
      exact absurd made (Nat.not_lt.mpr unmade)
    exact (others bucket other).trans (sound.unmade bucket unmade)
  · exact sound.guarded.cons fun request bucket same => absurd same (passes request bucket)

/-- A settled request no longer counts among those in flight. -/
theorem settle_bounded (sound : desk.Sound) (found : desk.attempts.find? request = some attempt)
    (few : userFailures ≤ (desk.heap attempt.userBucket).failures + 1) (bounded : desk.Bounded) :
    (desk.settle request attempt ipFailures userFailures event).Bounded := by
  intro bucket owned
  have old := ofUser_settle.mp owned
  have count := pending_finish found bucket
  have room := bounded bucket old
  rw [failures_settle (sound.held request attempt found) old]
  change _ + (desk.finish request).pending bucket ≤ maxFailures
  split
  · rename_i same
    rw [if_pos same.symm] at count
    rw [same] at room count ⊢
    omega
  · omega

end Settle

theorem fail_keeps (sound : desk.Sound) {request : ℕ} {attempt : Attempt}
    (found : desk.attempts.find? request = some attempt) :
    desk.Keeps (desk.fail request attempt) := by
  have holds := sound.held request attempt found
  have counted := sound.counted attempt.userBucket ⟨holds.userMade, attempt.username, holds.userKeyed⟩
  have settled : desk.Keeps (desk.settle request attempt ((desk.heap attempt.ipBucket).failures + 1)
      ((desk.heap attempt.userBucket).failures + 1) (.rejected request attempt.userBucket)) := by
    refine ⟨settle_sound sound holds ?_ ?_ nofun, settle_bounded sound found (le_refl _)⟩
    · rw [rejections, if_pos rfl, counted]
    · intro bucket other
      rw [rejections, if_neg other.symm, Nat.add_zero]
  exact settled.trans (answer_keeps settled.sound request incorrect)

theorem succeed_keeps (sound : desk.Sound) {request : ℕ} {attempt : Attempt}
    (found : desk.attempts.find? request = some attempt) :
    desk.Keeps (desk.succeed request attempt) := by
  have holds := sound.held request attempt found
  refine ⟨settle_sound sound holds ?_ ?_ nofun, settle_bounded sound found (Nat.zero_le _)⟩
  · rw [rejections, if_pos rfl]
  · intro bucket other
    rw [rejections, if_neg other.symm]

theorem seeded_keeps (mode : AuthMode) (trustProxy : Bool) (sound : desk.Sound) (request : ℕ)
    (pam : PamViability) : desk.Keeps (desk.step mode trustProxy (.seeded request pam)) := by
  rw [step]
  split
  · rename_i attempt found
    split
    · exact handOver_keeps sound found mode pam
    · exact Keeps.refl sound
  · exact Keeps.refl sound

theorem pamAnswers_keeps (mode : AuthMode) (trustProxy : Bool) (sound : desk.Sound) (request : ℕ)
    (verdict : PamVerdict) :
    desk.Keeps (desk.step mode trustProxy (.pamAnswers request verdict)) := by
  rw [step]
  split
  · rename_i attempt found
    split
    · cases verdict with
      | accepted => exact succeed_keeps sound found
      | refused =>
        dsimp only
        split
        · exact wait_keeps sound found .localStore
        · exact fail_keeps sound found
      | broken => exact fail_keeps sound found
    · exact Keeps.refl sound
  · exact Keeps.refl sound

theorem localAnswers_keeps (mode : AuthMode) (trustProxy : Bool) (sound : desk.Sound)
    (request : ℕ) (accepted : Bool) :
    desk.Keeps (desk.step mode trustProxy (.localAnswers request accepted)) := by
  rw [step]
  split
  · rename_i attempt found
    split
    · split
      · exact succeed_keeps sound found
      · exact fail_keeps sound found
    · exact Keeps.refl sound
  · exact Keeps.refl sound

/-- Nobody can be asked: the mode is PAM alone, and its helper is missing. -/
def unavailable (mode : AuthMode) : PamViability → Bool
  | .viable => false
  | .missing _ => !mode.localAllowed

/-- A request passes the lockout only while the failures of its user's bucket, and the
requests in flight that can add to them, leave room for its own. -/
def Allowed (mode : AuthMode) (trustProxy : Bool) (desk : LoginDesk) : LoginLabel → Prop
  | .arrive _ sent ipNow userNow _ pam =>
    match readCredentials sent with
    | .error _ => True
    | .ok credentials =>
      let approached := desk.approach trustProxy sent credentials.username ipNow userNow
      approached.2.locked approached.1.ipBucket approached.1.userBucket = true ∨
        unavailable mode pam = true ∨
        (approached.2.heap approached.1.userBucket).failures +
          approached.2.pending approached.1.userBucket < maxFailures
  | _ => True

instance (mode : AuthMode) (trustProxy : Bool) (desk : LoginDesk) (label : LoginLabel) :
    Decidable (Allowed mode trustProxy desk label) := by
  unfold Allowed
  split
  · split <;> infer_instance
  · infer_instance

section Admit

variable {request : ℕ} {attempt : Attempt} (sound : desk.Sound) (holds : desk.Holds attempt)
  (absent : desk.attempts.find? request = none)

include sound holds

theorem hand_sound (phase : AttemptPhase) : (desk.hand request attempt phase).Sound :=
  (handed_keeps (wait_sound sound request holds phase) request attempt.userBucket).sound

theorem handOver_sound (mode : AuthMode) (pam : PamViability) :
    (desk.handOver mode request attempt pam).Sound := by
  unfold handOver
  split
  · split
    · exact hand_sound sound holds .pam
    · split
      · exact hand_sound sound holds .localStore
      · exact (answer_keeps (finish_sound sound request) request _).sound
  · exact hand_sound sound holds .localStore

omit sound holds
include absent

/-- A new request takes up the room that is left. -/
theorem wait_bounded (bounded : desk.Bounded) (phase : AttemptPhase)
    (room : (desk.heap attempt.userBucket).failures + desk.pending attempt.userBucket < maxFailures) :
    (desk.wait request attempt phase).Bounded := by
  intro bucket owned
  have count := pending_wait desk request attempt phase bucket
  rw [absent, Option.map_none, Option.getD_none, Nat.add_zero] at count
  have before := bounded bucket owned
  change (desk.heap bucket).failures + _ ≤ maxFailures
  rw [count]
  split
  · rename_i same
    rw [← same]
    omega
  · omega

theorem handOver_bounded (bounded : desk.Bounded) (mode : AuthMode) (pam : PamViability)
    (room : unavailable mode pam = true ∨
      (desk.heap attempt.userBucket).failures + desk.pending attempt.userBucket < maxFailures) :
    (desk.handOver mode request attempt pam).Bounded := by
  have free (asked : unavailable mode pam = false) :
      (desk.heap attempt.userBucket).failures + desk.pending attempt.userBucket < maxFailures := by
    rcases room with missing | room
    · rw [asked] at missing
      cases missing
    · exact room
  unfold handOver
  split
  · split
    · exact wait_bounded absent bounded .pam (free rfl)
    · rename_i reason
      split
      · rename_i localAllowed
        exact wait_bounded absent bounded .localStore (free (by simp [unavailable, localAllowed]))
      · intro bucket owned
        exact le_trans (Nat.add_le_add_left (pending_finish_le request bucket) _)
          (bounded bucket owned)
  · rename_i pamAllowed
    have localAllowed : mode.localAllowed = true := by
      cases mode with
      | pam => exact absurd rfl pamAllowed
      | localOnly => rfl
      | pamLocal => rfl
    refine wait_bounded absent bounded .localStore (free ?_)
    cases pam with
    | viable => rfl
    | missing reason => simp [unavailable, localAllowed]

end Admit

/-- What the lockout does with a request, from the buckets it is given. -/
theorem arrive_eq {mode : AuthMode} {trustProxy : Bool} {request : ℕ} {sent : LoginRequest}
    {credentials : Credentials} (absent : desk.attempts.find? request = none)
    (read : readCredentials sent = .ok credentials) (ipNow userNow replyNow : ℤ)
    (pam : PamViability) :
    desk.arrive mode trustProxy request sent ipNow userNow replyNow pam =
      let approached := desk.approach trustProxy sent credentials.username ipNow userNow
      if approached.2.locked approached.1.ipBucket approached.1.userBucket then
        approached.2.happen (.answered request
          (approached.2.lockedReply approached.1.ipBucket approached.1.userBucket replyNow))
      else if mode.localAllowed then
        (approached.2.happen (.passed request approached.1.userBucket)).wait request approached.1
          .seeding
      else
        (approached.2.happen (.passed request approached.1.userBucket)).handOver mode request
          approached.1 pam := by
  simp only [arrive, OrderedMap.contains, absent, Option.isSome_none, Bool.false_eq_true, if_false,
    read]

/-- A request that is not locked out passes on a bucket with failures to go. -/
theorem passed_keeps (sound : desk.Sound) (request : ℕ) {attempt : Attempt}
    (holds : desk.Holds attempt)
    (unlocked : ¬ desk.locked attempt.ipBucket attempt.userBucket = true) :
    desk.Keeps (desk.happen (.passed request attempt.userBucket)) := by
  refine happen_keeps sound (fun _ => rfl) ?_
  rintro _ _ ⟨⟩
  rw [← sound.counted attempt.userBucket ⟨holds.userMade, attempt.username, holds.userKeyed⟩]
  simp only [locked, Bool.or_eq_true, decide_eq_true_eq, not_or, Nat.not_le] at unlocked
  exact unlocked.2

theorem arrive_refused {mode : AuthMode} {trustProxy : Bool} {request : ℕ} {sent : LoginRequest}
    {reply : HttpReply} (absent : desk.attempts.find? request = none)
    (read : readCredentials sent = .error reply) (ipNow userNow replyNow : ℤ)
    (pam : PamViability) :
    desk.arrive mode trustProxy request sent ipNow userNow replyNow pam =
      desk.happen (.answered request reply) := by
  simp only [arrive, OrderedMap.contains, absent, Option.isSome_none, Bool.false_eq_true, if_false,
    read]

theorem arrive_repeated {mode : AuthMode} {trustProxy : Bool} {request : ℕ} {sent : LoginRequest}
    {attempt : Attempt} (present : desk.attempts.find? request = some attempt)
    (ipNow userNow replyNow : ℤ) (pam : PamViability) :
    desk.arrive mode trustProxy request sent ipNow userNow replyNow pam = desk := by
  simp only [arrive, OrderedMap.contains, present, Option.isSome_some, if_true]

theorem arrive_sound (mode : AuthMode) (trustProxy : Bool) (sound : desk.Sound) (request : ℕ)
    (sent : LoginRequest) (ipNow userNow replyNow : ℤ) (pam : PamViability) :
    (desk.arrive mode trustProxy request sent ipNow userNow replyNow pam).Sound := by
  cases absent : desk.attempts.find? request with
  | some attempt =>
    rw [arrive_repeated absent]
    exact sound
  | none =>
    cases read : readCredentials sent with
    | error reply =>
      rw [arrive_refused absent read]
      exact (answer_keeps sound request reply).sound
    | ok credentials =>
      obtain ⟨nextSound, -, holds⟩ :=
        approach_spec sound trustProxy sent credentials.username ipNow userNow
      rw [arrive_eq absent read]
      dsimp only
      split
      · exact (answer_keeps nextSound request _).sound
      · rename_i unlocked
        have passed := (passed_keeps nextSound request holds unlocked).sound
        split
        · exact wait_sound passed request (holds.happen _) .seeding
        · exact handOver_sound passed (holds.happen _) mode pam

theorem arrive_bounded {mode : AuthMode} {trustProxy : Bool} (sound : desk.Sound) {request : ℕ}
    {sent : LoginRequest} {ipNow userNow replyNow : ℤ} {pam : PamViability}
    (allowed : Allowed mode trustProxy desk (.arrive request sent ipNow userNow replyNow pam))
    (bounded : desk.Bounded) :
    (desk.arrive mode trustProxy request sent ipNow userNow replyNow pam).Bounded := by
  cases absent : desk.attempts.find? request with
  | some attempt =>
    rw [arrive_repeated absent]
    exact bounded
  | none =>
    cases read : readCredentials sent with
    | error reply =>
      rw [arrive_refused absent read]
      exact bounded
    | ok credentials =>
      obtain ⟨nextSound, extend, holds⟩ :=
        approach_spec sound trustProxy sent credentials.username ipNow userNow
      have next := extend.bounded sound bounded
      rw [Allowed, read] at allowed
      rw [arrive_eq absent read]
      dsimp only at allowed ⊢
      rw [← extend.attempts] at absent
      split
      · exact next
      · rename_i unlocked
        rcases allowed with locked | allowed
        · exact absurd locked unlocked
        · generalize (desk.approach trustProxy sent credentials.username ipNow userNow).1 = attempt
            at allowed ⊢
          have passed : ((desk.approach trustProxy sent credentials.username ipNow userNow).2.happen
              (.passed request attempt.userBucket)).Bounded := next
          have unknown : ((desk.approach trustProxy sent credentials.username ipNow userNow).2.happen
              (.passed request attempt.userBucket)).attempts.find? request = none := absent
          split
          · rename_i localAllowed
            have asked : unavailable mode pam = false := by
              cases pam with
              | viable => rfl
              | missing reason => simp [unavailable, localAllowed]
            rw [asked] at allowed
            exact wait_bounded absent passed .seeding (allowed.resolve_left Bool.false_ne_true)
          · exact handOver_bounded unknown passed mode pam allowed

theorem step_sound (mode : AuthMode) (trustProxy : Bool) (sound : desk.Sound)
    (label : LoginLabel) : (desk.step mode trustProxy label).Sound := by
  cases label with
  | arrive request sent ipNow userNow replyNow pam =>
    exact arrive_sound mode trustProxy sound request sent ipNow userNow replyNow pam
  | seeded request pam => exact (seeded_keeps mode trustProxy sound request pam).sound
  | pamAnswers request verdict =>
    exact (pamAnswers_keeps mode trustProxy sound request verdict).sound
  | localAnswers request accepted =>
    exact (localAnswers_keeps mode trustProxy sound request accepted).sound

theorem step_bounded {mode : AuthMode} {trustProxy : Bool} (sound : desk.Sound) {label : LoginLabel}
    (allowed : Allowed mode trustProxy desk label) (bounded : desk.Bounded) :
    (desk.step mode trustProxy label).Bounded := by
  cases label with
  | arrive request sent ipNow userNow replyNow pam => exact arrive_bounded sound allowed bounded
  | seeded request pam => exact (seeded_keeps mode trustProxy sound request pam).bounded bounded
  | pamAnswers request verdict =>
    exact (pamAnswers_keeps mode trustProxy sound request verdict).bounded bounded
  | localAnswers request accepted =>
    exact (localAnswers_keeps mode trustProxy sound request accepted).bounded bounded

theorem reached_sound (mode : AuthMode) (trustProxy : Bool) (labels : List LoginLabel) :
    (Execution.run (step mode trustProxy) init labels).Sound :=
  Execution.invariant init_sound (fun _ label sound => step_sound mode trustProxy sound label) labels

theorem reached_bounded {mode : AuthMode} {trustProxy : Bool} {labels : List LoginLabel}
    (allowed : Execution.Along (step mode trustProxy) (Allowed mode trustProxy) init labels) :
    (Execution.run (step mode trustProxy) init labels).Bounded := by
  have start : init.Sound ∧ init.Bounded := by
    refine ⟨init_sound, ?_⟩
    rintro bucket ⟨made, -⟩
    exact absurd made (Nat.not_lt_zero bucket)
  have kept : ∀ (desk : LoginDesk) label, Allowed mode trustProxy desk label →
      desk.Sound ∧ desk.Bounded →
      (desk.step mode trustProxy label).Sound ∧ (desk.step mode trustProxy label).Bounded := by
    rintro desk label allowed ⟨sound, bounded⟩
    exact ⟨step_sound mode trustProxy sound label, step_bounded sound allowed bounded⟩
  exact (Execution.invariant_along kept start allowed).2

end LoginDesk

end SysDeck.Web
