import SysDeck.Library.Execution
import SysDeck.Web.SessionTokens

/-! The session gate of the service. The cookie is taken from its header by a regular
expression, the checks of the token are a copy of the console's, and the secret is read
from the console's database behind a cache of one minute. -/

namespace SysDeck.Fester

open SysDeck.Web (Hmac isHexDigit Live Reads)

def cookieName : List Char := "sd_session=".toList

/-- `sd_session=([^;]+)` at the beginning of a text. -/
def cookieValue (text : List Char) : Option (List Char) :=
  if cookieName <+: text then
    match (text.drop cookieName.length).takeWhile (· ≠ ';') with
    | [] => none
    | value => some value
  else none

/-- The matches that begin with a semicolon, the first of them. -/
def laterCookie : List Char → Option (List Char)
  | [] => none
  | c :: rest =>
    if c = ';' then (cookieValue (Text.trimStart rest)).or (laterCookie rest)
    else laterCookie rest

/-- `/(?:^|;\s*)sd_session=([^;]+)/` on the whole header. -/
def sessionCookie (header : List Char) : Option (List Char) :=
  (cookieValue header).or (laterCookie header)

def expiryOk (expires : List Char) (now : Int) : Bool :=
  match (Number.ofText expires).finite? with
  | none => false
  | some expiresAt =>
    if (Number.finite expiresAt).toText ≠ expires then false
    else if expiresAt.value < now then false
    else true

def tagOk (tag expected : List Char) : Bool :=
  if Text.utf16Length tag ≠ Text.utf16Length expected ∨ !(tag ≠ [] ∧ tag.all isHexDigit) then false
  else expected = tag

def tokenOk (hmac : Hmac) (secret : List Char) (now : Int) (token : List Char) : Bool :=
  match token.splitOn '.' with
  | [version, expires, user64, tag] =>
    if version = "v2".toList then
      if !expiryOk expires now then false
      else
        let user := Utf8.decode (Base64.decode user64)
        if user = [] ∨ 64 < Text.utf16Length user then false
        else tagOk tag (hmac.digest secret ("v2.".toList ++ (expires ++ '.' :: user64)))
    else false
  | [version, expires, tag] =>
    if version = "v1".toList then
      if !expiryOk expires now then false
      else tagOk tag (hmac.digest secret ("v1.".toList ++ expires))
    else false
  | _ => false

/-- A secret that a read returned. -/
abbrev SharedSecret := { secret : List Char // secret ≠ [] }

def sessionOk (hmac : Hmac) (secret : Option SharedSecret) (now : Int)
    (cookie : Option (List Char)) : Bool :=
  match secret with
  | none => true
  | some secret =>
    match sessionCookie (cookie.getD []) with
    | none => false
    | some token => tokenOk hmac secret now token

theorem expiryOk_eq (expires : List Char) (now : Int) :
    expiryOk expires now = (Web.readExpiry expires now).isSome := by
  unfold expiryOk Web.readExpiry
  cases (Number.ofText expires).finite? with
  | none => rfl
  | some expiresAt =>
    dsimp only
    split
    · rfl
    · split <;> rfl

theorem tagOk_eq (tag expected : List Char) : tagOk tag expected = Web.sameHex tag expected := by
  unfold tagOk Web.sameHex
  split
  · rfl
  · exact decide_eq_decide.mpr eq_comm

/-- The copied checks accept the tokens that the console verifies. -/
theorem tokenOk_eq (hmac : Hmac) (secret : List Char) (now : Int) (token : List Char) :
    tokenOk hmac secret now token =
      (Web.verifySessionToken hmac secret now (some token)).isSome := by
  rw [Web.verifySessionToken_eq]
  unfold tokenOk Web.verifyParts
  generalize token.splitOn '.' = parts
  match parts with
  | [version, expires, user64, tag] =>
    have body : "v2.".toList ++ (expires ++ '.' :: user64) = Web.bodyV2 expires user64 := rfl
    dsimp only
    rw [expiryOk_eq, tagOk_eq, body]
    split
    · cases Web.readExpiry expires now with
      | none => rfl
      | some expiresAt =>
        simp only [Web.unb64u, Text.utf16Length_eq_zero, Option.isSome_some, Bool.not_true,
          Bool.false_eq_true, if_false, Option.bind_eq_bind, Option.bind_some]
        split
        · rfl
        · rw [Bool.eq_iff_iff, Option.isSome_ite]
    · rfl
  | [version, expires, tag] =>
    have body : "v1.".toList ++ expires = Web.bodyV1 expires := rfl
    dsimp only
    rw [expiryOk_eq, tagOk_eq, body]
    split
    · cases Web.readExpiry expires now with
      | none => rfl
      | some expiresAt =>
        simp only [Option.isSome_some, Bool.not_true, Bool.false_eq_true, if_false,
          Option.bind_eq_bind, Option.bind_some]
        rw [Bool.eq_iff_iff, Option.isSome_ite]
    · rfl
  | [] | [_] | [_, _] | _ :: _ :: _ :: _ :: _ :: _ => rfl

theorem tokenOk_iff {hmac : Hmac} {secret : List Char} {now : Int} {token : List Char} :
    tokenOk hmac secret now token ↔ Live hmac secret now token := by
  rw [tokenOk_eq, Web.isSome_verifySessionToken_iff]

theorem sessionOk_iff {hmac : Hmac} {secret : SharedSecret} {now : Int}
    {cookie : Option (List Char)} :
    sessionOk hmac (some secret) now cookie ↔
      ∃ token, sessionCookie (cookie.getD []) = some token ∧ Live hmac secret now token := by
  unfold sessionOk
  dsimp only
  cases sessionCookie (cookie.getD []) with
  | none => simp
  | some token => simp [tokenOk_iff]

/-- A request that was answered: the value of the row `web.session.secret` when it came,
the time of its check, its cookies and whether it passed the gate. -/
structure GateRequest where
  stored : Option (List Char)
  now : Int
  cookie : Option (List Char)
  served : Bool

structure SessionGate where
  row : Option (List Char) := none
  cachedSecret : Option SharedSecret := none
  secretReadAt : Int := 0
  requests : List GateRequest := []

inductive SessionGateLabel where
  /-- The console creates the row, unless there is one. -/
  | create (value : List Char)
  /-- A request, with the times of its read and its check; an open or a read may fail. -/
  | request (readNow now : Int) (cookie : Option (List Char)) (readable : Bool)
  /-- The service starts again. -/
  | restart

namespace SessionGate

/-- The secret that the requests are checked with, and the cache after the read. -/
def readSharedSecret (gate : SessionGate) (now : Int) (readable : Bool) : Option SharedSecret × SessionGate :=
  if gate.cachedSecret.isSome ∧ now - gate.secretReadAt < 60000 then (gate.cachedSecret, gate)
  else
    match readable, gate.row with
    | true, some (head :: tail) =>
      let secret : SharedSecret := ⟨head :: tail, List.cons_ne_nil _ _⟩
      (some secret, { gate with cachedSecret := some secret, secretReadAt := now })
    | _, _ => (gate.cachedSecret, gate)

/-- A request is served or answered 401. -/
def fetch (hmac : Hmac) (gate : SessionGate) (readNow now : Int) (cookie : Option (List Char))
    (readable : Bool) : SessionGate :=
  let (secret, gate) := gate.readSharedSecret readNow readable
  { gate with requests := gate.requests ++
      [{ stored := gate.row, now, cookie, served := sessionOk hmac secret now cookie }] }

def step (hmac : Hmac) (gate : SessionGate) : SessionGateLabel → SessionGate
  | .create value => { gate with row := gate.row.or (some value) }
  | .request readNow now cookie readable => gate.fetch hmac readNow now cookie readable
  | .restart => { gate with cachedSecret := none, secretReadAt := 0 }

/-- The cookies carry a token that is live under the secret. -/
def Authentic (hmac : Hmac) (secret : List Char) (now : Int) (cookie : Option (List Char)) : Prop :=
  ∃ token, sessionCookie (cookie.getD []) = some token ∧ Live hmac secret now token

/-- With a secret in the row, only requests that carry a live token were served. -/
def Guarded (hmac : Hmac) (gate : SessionGate) : Prop :=
  ∀ request ∈ gate.requests, request.served →
    ∀ secret, request.stored = some secret → secret ≠ [] →
      Authentic hmac secret request.now request.cookie

/-- No read fails while the cache is empty and the row has a secret, except for a
request that carries a live token. -/
def Readable (hmac : Hmac) (gate : SessionGate) : SessionGateLabel → Prop
  | .request _ now cookie readable =>
    readable = true ∨ gate.cachedSecret.isSome ∨
      ∀ secret, gate.row = some secret → secret ≠ [] → Authentic hmac secret now cookie
  | _ => True

/-- The cache is the row. -/
def Coherent (gate : SessionGate) : Prop :=
  ∀ secret : SharedSecret, gate.cachedSecret = some secret → gate.row = some secret.val

/-- A read returns what the cache holds after it, and touches nothing else. -/
theorem readSharedSecret_spec (gate : SessionGate) (now : Int) (readable : Bool) :
    (gate.readSharedSecret now readable).1 = (gate.readSharedSecret now readable).2.cachedSecret ∧
      (gate.readSharedSecret now readable).2.row = gate.row ∧
      (gate.readSharedSecret now readable).2.requests = gate.requests := by
  unfold readSharedSecret
  split
  · exact ⟨rfl, rfl, rfl⟩
  · split <;> exact ⟨rfl, rfl, rfl⟩

theorem requests_fetch (hmac : Hmac) (gate : SessionGate) (readNow now : Int)
    (cookie : Option (List Char)) (readable : Bool) :
    (gate.fetch hmac readNow now cookie readable).requests = gate.requests ++
      [{ stored := gate.row, now, cookie,
         served := sessionOk hmac (gate.readSharedSecret readNow readable).1 now cookie }] := by
  obtain ⟨_, row, requests⟩ := gate.readSharedSecret_spec readNow readable
  rw [← requests, ← row]
  rfl

theorem Coherent.read {gate : SessionGate} (coherent : gate.Coherent) (now : Int) (readable : Bool) :
    (gate.readSharedSecret now readable).2.Coherent := by
  unfold readSharedSecret
  split
  · exact coherent
  · split
    · rename_i stored
      intro secret cached
      rw [← Option.some.inj cached]
      exact stored
    · exact coherent

/-- With a secret in the row, a read that does not fail on an empty cache returns one. -/
theorem readSharedSecret_isSome {gate : SessionGate} {now : Int} {readable : Bool} {secret : List Char}
    (stored : gate.row = some secret) (nonempty : secret ≠ [])
    (possible : readable = true ∨ gate.cachedSecret.isSome) :
    (gate.readSharedSecret now readable).1.isSome := by
  unfold readSharedSecret
  split
  · rename_i hit
    exact hit.1
  · split
    · rfl
    · rename_i missed
      rcases possible with rfl | cached
      · obtain ⟨head, tail, rfl⟩ := List.exists_cons_of_ne_nil nonempty
        exact absurd stored (missed head tail rfl)
      · exact cached

theorem Coherent.step {gate : SessionGate} (coherent : gate.Coherent) (hmac : Hmac) (label : SessionGateLabel) :
    (gate.step hmac label).Coherent := by
  cases label with
  | create value =>
    intro secret cached
    show gate.row.or (some value) = some secret.val
    rw [coherent secret cached]
    rfl
  | request readNow now cookie readable => exact coherent.read readNow readable
  | restart => exact fun secret cached => nomatch cached

theorem Guarded.step {hmac : Hmac} {gate : SessionGate} (coherent : gate.Coherent)
    (guarded : gate.Guarded hmac) {label : SessionGateLabel} (readable : gate.Readable hmac label) :
    (gate.step hmac label).Guarded hmac := by
  cases label with
  | create value => exact guarded
  | restart => exact guarded
  | request readNow now cookie opened =>
    obtain ⟨returned, row, _⟩ := gate.readSharedSecret_spec readNow opened
    intro request member served secret stored nonempty
    rw [SessionGate.step, requests_fetch] at member
    rcases List.mem_append.mp member with old | new
    · exact guarded request old served secret stored nonempty
    obtain rfl := List.mem_singleton.mp new
    dsimp only at stored served ⊢
    by_cases possible : opened = true ∨ gate.cachedSecret.isSome
    · -- the check was made with the secret of the row
      have present : (gate.readSharedSecret readNow opened).1.isSome :=
        readSharedSecret_isSome stored nonempty possible
      obtain ⟨shared, found⟩ := Option.isSome_iff_exists.mp present
      have same := coherent.read readNow opened shared (returned.symm.trans found)
      rw [row, stored] at same
      rw [found] at served
      rw [Option.some.inj same]
      exact sessionOk_iff.mp served
    · rcases readable with opened | cached | authentic
      · exact absurd (.inl opened) possible
      · exact absurd (.inr cached) possible
      · exact authentic secret stored nonempty

/-- A failed read on an empty cache serves the request. -/
theorem not_guarded_step {hmac : Hmac} {gate : SessionGate} {label : SessionGateLabel}
    (unreadable : ¬ gate.Readable hmac label) : ¬ (gate.step hmac label).Guarded hmac := by
  cases label with
  | create value => exact absurd trivial unreadable
  | restart => exact absurd trivial unreadable
  | request readNow now cookie opened =>
    rw [Readable, not_or, not_or] at unreadable
    obtain ⟨failed, empty, unauthentic⟩ := unreadable
    have none : (gate.readSharedSecret readNow opened).1 = none := by
      unfold readSharedSecret
      rw [if_neg fun hit => empty hit.1, Bool.eq_false_of_not_eq_true failed]
      exact Option.not_isSome_iff_eq_none.mp empty
    intro guarded
    refine unauthentic fun secret stored nonempty => ?_
    refine guarded { stored := gate.row, now, cookie, served := true } ?_ rfl secret stored nonempty
    rw [SessionGate.step, requests_fetch, none]
    exact List.mem_append_right _ (List.mem_singleton.mpr rfl)

end SessionGate

/-- The gate stays closed in exactly the runs without such a failed read. -/
theorem session_gate_closed (hmac : Hmac) (labels : List SessionGateLabel) :
    (∀ before rest, labels = before ++ rest →
      (Execution.run (SessionGate.step hmac) {} before).Guarded hmac) ↔
    Execution.Along (SessionGate.step hmac) (SessionGate.Readable hmac) {} labels := by
  constructor
  · intro guarded
    exact Execution.along_of_reached (fun gate label => SessionGate.not_guarded_step) guarded
  · rintro allowed before rest rfl
    have start : SessionGate.Coherent {} ∧ SessionGate.Guarded hmac {} :=
      ⟨fun _ cached => (nomatch cached), fun _ member => (nomatch member)⟩
    refine (Execution.invariant_along (motive := fun gate => gate.Coherent ∧ gate.Guarded hmac)
      (fun gate label readable holds => ?_) start (Execution.along_append.mp allowed).1).2
    exact ⟨holds.1.step hmac label, holds.2.step holds.1 readable⟩

/-- The secret is stored, the first read of it fails: a request without cookies is served. -/
theorem session_gate_opened :
    ¬ (Execution.run (SessionGate.step Web.sampleHmac) {}
      [.create Web.sampleSecret, .request 0 0 none false]).Guarded Web.sampleHmac := by
  intro guarded
  obtain ⟨token, carried, _⟩ := guarded
    { stored := some Web.sampleSecret, now := 0, cookie := none, served := true }
    (List.mem_singleton.mpr rfl) rfl Web.sampleSecret rfl (by decide)
  cases carried

end SysDeck.Fester
