import SysDeck.Library.Execution
import SysDeck.Library.OrderedMap
import SysDeck.Web.SessionTokens

/-! The session key of an install: sessionSecret in any number of processes over one
row of the database. Each statement is one step and may fail without an effect. -/

namespace SysDeck.Web

/-- Where a call of sessionSecret stands. -/
inductive SecretPhase where
  | reading
  | upserting (secret : List Char)
  | rereading (secret : List Char)
  | returned (value : List Char)
  | thrown
  deriving DecidableEq

structure SecretCall where
  process : ℕ
  now : Int
  phase : SecretPhase
  deriving DecidableEq

structure CachedSecret where
  value : List Char
  readAt : Int

structure Secrets where
  /-- The row `web.session.secret`. -/
  row : Option (List Char)
  /-- secretCache of each process. -/
  caches : OrderedMap ℕ CachedSecret := .empty
  calls : List SecretCall := []

inductive SecretLabel where
  | call (process : ℕ) (now : Int)
  /-- The statement that a call waits for, and the random secret if the call needs one next. -/
  | resume (index : ℕ) (succeeds : Bool) (random : List Char)

namespace Secrets

def call (state : Secrets) (process : ℕ) (now : Int) : Secrets :=
  let phase := match state.caches.find? process with
    | some hit => if now - hit.readAt < 60000 then .returned hit.value else .reading
    | none => .reading
  { state with calls := state.calls ++ [{ process, now, phase }] }

def goto (state : Secrets) (index : ℕ) (phase : SecretPhase) : Secrets :=
  { state with calls := state.calls.modify index fun call => { call with phase } }

/-- The call caches its value and returns it. -/
def settle (state : Secrets) (index : ℕ) (call : SecretCall) (value : List Char) : Secrets :=
  { state with caches := state.caches.set call.process { value, readAt := call.now } }.goto index
    (.returned value)

def resume (state : Secrets) (index : ℕ) (succeeds : Bool) (random : List Char) : Secrets :=
  match state.calls[index]? with
  | none => state
  | some call =>
    match call.phase with
    | .reading =>
      if !succeeds then state.goto index .thrown
      else match state.row with
        | some (head :: tail) => state.settle index call (head :: tail)
        | _ => state.goto index (.upserting random)
    | .upserting secret =>
      -- a failure is swallowed; `update: {}` keeps the row that is there
      let row := if succeeds then state.row.or (some secret) else state.row
      { state with row }.goto index (.rereading secret)
    | .rereading secret =>
      if !succeeds then state.goto index .thrown
      else state.settle index call (state.row.getD secret)
    | .returned _ | .thrown => state

def step (state : Secrets) : SecretLabel → Secrets
  | .call process now => state.call process now
  | .resume index succeeds random => state.resume index succeeds random

/-- A call that has returned has the value of the row. -/
def Agreed (state : Secrets) : Prop :=
  ∀ call ∈ state.calls, ∀ value, call.phase = .returned value → state.row = some value

/-- So does every cache. -/
structure Held (state : Secrets) : Prop where
  caches : ∀ process hit, state.caches.find? process = some hit → state.row = some hit.value
  calls : state.Agreed

/-- The second read of a call does not find the row absent. -/
def Found (state : Secrets) : SecretLabel → Prop
  | .call _ _ => True
  | .resume index succeeds _ =>
    ∀ call secret, state.calls[index]? = some call → call.phase = .rereading secret →
      succeeds = true → state.row.isSome

theorem mem_goto {state : Secrets} {index : ℕ} {phase : SecretPhase} {call : SecretCall}
    (member : call ∈ (state.goto index phase).calls) :
    call ∈ state.calls ∨ call.phase = phase := by
  obtain ⟨place, present⟩ := List.mem_iff_getElem?.mp member
  rw [goto, List.getElem?_modify] at present
  obtain ⟨old, stored, changed⟩ := Option.map_eq_some_iff.mp present
  by_cases here : index = place
  · rw [if_pos here] at changed
    exact .inr (by rw [← changed])
  · rw [if_neg here] at changed
    exact .inl (changed ▸ List.mem_of_getElem? stored)

/-- A call that goes on without returning. -/
theorem Held.goto {state : Secrets} (held : state.Held) (index : ℕ) {phase : SecretPhase}
    (unsettled : ∀ value, phase ≠ .returned value) : (state.goto index phase).Held where
  caches := held.caches
  calls call member value returned := by
    rcases mem_goto member with old | here
    · exact held.calls call old value returned
    · exact absurd (here.symm.trans returned) (unsettled value)

/-- A call that returns the row. -/
theorem Held.settle {state : Secrets} (held : state.Held) (index : ℕ) (call : SecretCall)
    {value : List Char} (stored : state.row = some value) : (state.settle index call value).Held where
  caches process hit found := by
    change (state.caches.set call.process { value, readAt := call.now }).find? process = some hit
      at found
    rw [OrderedMap.find?_set] at found
    split at found
    · rw [← Option.some.inj found]
      exact stored
    · exact held.caches process hit found
  calls other member result returned := by
    rcases mem_goto member with old | here
    · exact held.calls other old result returned
    · have same := SecretPhase.returned.inj (here.symm.trans returned)
      rw [← same]
      exact stored

/-- The row is created at most, and nothing but the calls changes. -/
theorem Held.create {state : Secrets} (held : state.Held) (secret : List Char) :
    Held { state with row := state.row.or (some secret) } where
  caches process hit found := by
    show state.row.or (some secret) = some hit.value
    rw [held.caches process hit found]
    rfl
  calls call member value returned := by
    show state.row.or (some secret) = some value
    rw [held.calls call member value returned]
    rfl

theorem Held.call {state : Secrets} (held : state.Held) (process : ℕ) (now : Int) :
    (state.call process now).Held where
  caches := held.caches
  calls other member value returned := by
    rcases List.mem_append.mp member with old | new
    · exact held.calls other old value returned
    · rw [List.mem_singleton.mp new] at returned
      dsimp only at returned
      split at returned
      · rename_i hit found
        split at returned
        · rw [← SecretPhase.returned.inj returned]
          exact held.caches process hit found
        · cases returned
      · cases returned

theorem Held.step {state : Secrets} (held : state.Held) {label : SecretLabel}
    (found : state.Found label) : (state.step label).Held := by
  cases label with
  | call process now => exact held.call process now
  | resume index succeeds random =>
    unfold Secrets.step resume
    dsimp only
    cases present : state.calls[index]? with
    | none => exact held
    | some call =>
      dsimp only
      cases phase : call.phase with
      | reading =>
        dsimp only
        split
        · exact held.goto index fun _ same => nomatch same
        · split
          · rename_i head tail stored
            exact held.settle index call stored
          · exact held.goto index fun _ same => nomatch same
      | upserting secret =>
        dsimp only
        split
        · exact (held.create secret).goto index fun _ same => nomatch same
        · exact held.goto index fun _ same => nomatch same
      | rereading secret =>
        dsimp only
        split
        · exact held.goto index fun _ same => nomatch same
        · rename_i succeeded
          rw [Bool.not_eq_true, Bool.not_eq_false'] at succeeded
          obtain ⟨value, stored⟩ := Option.isSome_iff_exists.mp
            (found call secret present phase succeeded)
          exact held.settle index call (by rw [stored]; rfl)
      | returned value => exact held
      | thrown => exact held

/-- A second read that finds no row returns a value that no row has. -/
theorem not_agreed_step {state : Secrets} {label : SecretLabel} (missing : ¬ state.Found label) :
    ¬ (state.step label).Agreed := by
  cases label with
  | call process now => exact absurd trivial missing
  | resume index succeeds random =>
    intro agreed
    refine missing fun call secret present phase succeeded => ?_
    by_contra absent
    rw [Bool.not_eq_true, Option.isSome_eq_false_iff, Option.isNone_iff_eq_none] at absent
    have settled : state.step (.resume index succeeds random) = state.settle index call secret := by
      unfold step resume
      dsimp only
      rw [present]
      dsimp only
      rw [phase, succeeded, absent]
      rfl
    have member : { call with phase := .returned secret } ∈ (state.settle index call secret).calls := by
      refine List.mem_of_getElem? (i := index) ?_
      show (state.calls.modify index _)[index]? = _
      rw [List.getElem?_modify, present, Option.map_eq_map, Option.map_some, if_pos rfl]
    rw [settled] at agreed
    have stored : state.row = some secret := agreed _ member secret rfl
    rw [absent] at stored
    cases stored

/-- A token minted under the one key verifies under the other until it expires. -/
def Accepts (hmac : Hmac) (minting verifying : List Char) : Prop :=
  ∀ (user : Username) (ttlMs : Number) (now : Int) (expiresAt : Binary64),
    (createSessionToken hmac minting now user.name ttlMs).expiresAt = .finite expiresAt →
    '.' ∉ (Number.finite expiresAt).toText → ∀ later : Int, ¬ expiresAt.value < later →
    verifySessionToken hmac verifying later
        (some (createSessionToken hmac minting now user.name ttlMs).token) =
      some { expiresAt, user := some user.name, version := .v2 }

theorem accepts_self (hmac : Hmac) (secret : List Char) : Accepts hmac secret secret := by
  intro user ttlMs now expiresAt expiry plain later alive
  exact (verify_minted hmac secret user expiry plain later).trans (if_neg alive)

/-- What returned is the row, and a key for the tokens of every other that returned. -/
def OneKey (hmac : Hmac) (state : Secrets) : Prop :=
  ∀ call ∈ state.calls, ∀ value, call.phase = .returned value →
    state.row = some value ∧
      ∀ other ∈ state.calls, ∀ value', other.phase = .returned value' → Accepts hmac value value'

theorem oneKey_iff {hmac : Hmac} {state : Secrets} : state.OneKey hmac ↔ state.Agreed := by
  constructor
  · exact fun oneKey call member value returned => (oneKey call member value returned).1
  · intro agreed call member value returned
    have stored := agreed call member value returned
    refine ⟨stored, fun other present value' returned' => ?_⟩
    have same : value' = value :=
      Option.some.inj ((agreed other present value' returned').symm.trans stored)
    rw [same]
    exact accepts_self hmac value

end Secrets

/-- Every call returns the one key in exactly the runs in which no second read finds
the row absent. -/
theorem session_secret (hmac : Hmac) (initial : Option (List Char)) (labels : List SecretLabel) :
    (∀ before rest, labels = before ++ rest →
      (Execution.run Secrets.step { row := initial } before).OneKey hmac) ↔
    Execution.Along Secrets.step Secrets.Found { row := initial } labels := by
  simp only [Secrets.oneKey_iff]
  constructor
  · intro agreed
    exact Execution.along_of_reached (fun state label => Secrets.not_agreed_step) agreed
  · rintro found before rest rfl
    have start : Secrets.Held { row := initial } :=
      ⟨fun _ _ present => (nomatch present), fun _ member => (nomatch member)⟩
    exact (Execution.invariant_along (motive := Secrets.Held)
      (fun state label allowed held => held.step allowed) start
      (Execution.along_append.mp found).1).calls

/-- Two first calls whose upserts both fail. -/
def unstoredCalls : List SecretLabel :=
  [.call 0 0, .call 1 0, .resume 0 true (List.replicate 64 'a'), .resume 1 true (List.replicate 64 'b'),
    .resume 0 false [], .resume 1 false [], .resume 0 true [], .resume 1 true []]

/-- Each returns a key of its own. -/
theorem session_secret_unstored :
    ((Execution.run Secrets.step { row := none } unstoredCalls).calls.map (·.phase) =
      [.returned (List.replicate 64 'a'), .returned (List.replicate 64 'b')]) ∧
    ¬ (Execution.run Secrets.step { row := none } unstoredCalls).OneKey sampleHmac := by
  refine ⟨by decide, fun oneKey => ?_⟩
  have stored := (oneKey ⟨0, 0, .returned (List.replicate 64 'a')⟩ (by decide) _ rfl).1
  cases stored

end SysDeck.Web
