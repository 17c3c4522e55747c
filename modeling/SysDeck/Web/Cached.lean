import SysDeck.Library.Execution
import SysDeck.Library.OrderedMap

/-! The TTL and single-flight cache under the read side of the bridge. cached()
and its continuations run between the awaits; a probe's promise settles on its own,
and invalidateCache may come at any time. -/

universe u

namespace SysDeck.Web

/-- A value, with the probe that produced it. -/
structure Produced (Value : Type u) where
  probe : Nat
  value : Value
  deriving DecidableEq, Repr

/-- An entry of the settled map. -/
structure Settled (Value : Type u) where
  produced : Produced Value
  expires : Int
  deriving DecidableEq, Repr

/-- What a promise has come to. -/
inductive Outcome (Value : Type u) where
  | pending
  | resolved (value : Value)
  | rejected
  deriving DecidableEq, Repr

/-- One call of fn(), the moment it started and its promise. -/
structure Probe (Value : Type u) where
  started : Nat
  outcome : Outcome Value := .pending
  deriving DecidableEq, Repr

/-- The promise settles, once. -/
def Probe.settle {Value : Type u} (probe : Probe Value) (outcome : Outcome Value) : Probe Value :=
  match probe.outcome with
  | .pending => { probe with outcome }
  | .resolved _ | .rejected => probe

@[simp] theorem Probe.settle_started {Value : Type u} (probe : Probe Value)
    (outcome : Outcome Value) : (probe.settle outcome).started = probe.started := by
  unfold settle
  split <;> rfl

/-- What a cached() call awaits, the probe it started itself or one in flight, or
what it has come to. -/
inductive Reply (Value : Type u) where
  | own (probe : Nat)
  | joined (probe : Nat)
  | value (produced : Produced Value)
  | thrown
  deriving DecidableEq, Repr

/-- The probe behind a reply. -/
def Reply.probe {Value : Type u} : Reply Value → Option Nat
  | own probe | joined probe => some probe
  | value produced => some produced.probe
  | thrown => none

structure Call (Value : Type u) where
  key : String
  ttlMs : Int
  started : Nat
  reply : Reply Value
  deriving DecidableEq, Repr

structure Invalidation where
  keyPrefix : String
  moment : Nat
  deriving DecidableEq, Repr

/-- `key.startsWith(prefix)`. -/
def Invalidation.covers (invalidation : Invalidation) (key : String) : Bool :=
  invalidation.keyPrefix.toList.isPrefixOf key.toList

/-- The two maps of the module, and what has happened so far. -/
structure Cache (Value : Type u) where
  settled : OrderedMap String (Settled Value) := OrderedMap.empty
  inflight : OrderedMap String Nat := OrderedMap.empty
  probes : List (Probe Value) := []
  calls : List (Call Value) := []
  invalidations : List Invalidation := []
  moment : Nat := 0

def cacheMax : Nat := 256

variable {Value : Type u}

namespace Cache

def call (state : Cache Value) (key : String) (ttlMs : Int) (reply : Reply Value) : Cache Value :=
  { state with calls := state.calls ++ [{ key, ttlMs, started := state.moment, reply }] }

/-- `hit && hit.expires > now`. -/
def hit? (state : Cache Value) (now : Int) (key : String) : Option (Settled Value) :=
  (state.settled.find? key).filter fun hit => now < hit.expires

end Cache

/-- cached() up to its first await. -/
def cached (state : Cache Value) (now : Int) (key : String) (ttlMs : Int) : Cache Value :=
  match state.hit? now key with
  | some hit => state.call key ttlMs (.value hit.produced)
  | none =>
    match state.inflight.find? key with
    | some pending => state.call key ttlMs (.joined pending)
    | none =>
      let promise := state.probes.length
      let state : Cache Value :=
        { state with
          inflight := state.inflight.set key promise
          probes := state.probes ++ [{ started := state.moment }] }
      state.call key ttlMs (.own promise)

namespace Cache

/-- The FIFO sweep before a write. -/
def sweep (state : Cache Value) : OrderedMap String (Settled Value) :=
  if cacheMax ≤ state.settled.size then
    match state.settled.keys.head? with
    | some oldest => state.settled.erase oldest
    | none => state.settled
  else state.settled

/-- `if (inflight.get(key) === promise) inflight.delete(key)`. -/
def release (state : Cache Value) (key : String) (promise : Nat) : OrderedMap String Nat :=
  if state.inflight.find? key = some promise then state.inflight.erase key else state.inflight

/-- What the promise of a probe has come to. -/
def outcome? (state : Cache Value) (probe : Nat) : Option (Outcome Value) :=
  (state.probes[probe]?).map (·.outcome)

def answer (state : Cache Value) (index : Nat) (reply : Reply Value) : Cache Value :=
  { state with calls := state.calls.modify index fun call => { call with reply } }

/-- A call goes on after its await; its promise has settled. -/
def resume (state : Cache Value) (now : Int) (index : Nat) : Cache Value :=
  match state.calls[index]? with
  | none => state
  | some call =>
    match call.reply with
    | .value _ | .thrown => state
    | .joined probe =>
      match state.outcome? probe with
      | some (.resolved value) => state.answer index (.value ⟨probe, value⟩)
      | some .rejected => state.answer index .thrown
      | _ => state
    | .own probe =>
      match state.outcome? probe with
      | some (.resolved value) =>
        { state with
          settled := state.sweep.set call.key ⟨⟨probe, value⟩, now + call.ttlMs⟩
          inflight := state.release call.key probe }.answer index (.value ⟨probe, value⟩)
      | some .rejected =>
        { state with inflight := state.release call.key probe }.answer index .thrown
      | _ => state

/-- fn() comes back. -/
def complete (state : Cache Value) (probe : Nat) (outcome : Outcome Value) : Cache Value :=
  { state with probes := state.probes.modify probe (·.settle outcome) }

end Cache

def invalidateCache (state : Cache Value) (keyPrefix : String) : Cache Value :=
  let invalidation : Invalidation := ⟨keyPrefix, state.moment⟩
  { state with
    settled := state.settled.filter fun key _ => !invalidation.covers key
    inflight := state.inflight.filter fun key _ => !invalidation.covers key
    invalidations := state.invalidations ++ [invalidation] }

inductive CacheLabel (Value : Type u) where
  | call (now : Int) (key : String) (ttlMs : Int)
  | complete (probe : Nat) (outcome : Outcome Value)
  | resume (now : Int) (index : Nat)
  | invalidate (keyPrefix : String)
  deriving DecidableEq, Repr

namespace Cache

/-- What a label does before the clock of moments moves on. -/
def act (state : Cache Value) : CacheLabel Value → Cache Value
  | .call now key ttlMs => cached state now key ttlMs
  | .complete probe outcome => state.complete probe outcome
  | .resume now index => state.resume now index
  | .invalidate keyPrefix => invalidateCache state keyPrefix

def step (state : Cache Value) (label : CacheLabel Value) : Cache Value :=
  { state.act label with moment := state.moment + 1 }

def after (labels : List (CacheLabel Value)) : Cache Value := Execution.run step {} labels

/-- No call that started after an invalidation of its key has a value of a probe
that started before it. -/
def Fresh (state : Cache Value) : Prop :=
  ∀ call ∈ state.calls, ∀ produced, call.reply = .value produced →
    ∀ probe, state.probes[produced.probe]? = some probe →
      ∀ invalidation ∈ state.invalidations, invalidation.covers call.key = true →
        invalidation.moment < call.started → invalidation.moment < probe.started

/-- A call whose own probe succeeded goes on only while that probe is still the one
in flight for its key: no invalidation of the key came in between. -/
def Registered (state : Cache Value) : CacheLabel Value → Prop
  | .resume _ index => ∀ call probe value, state.calls[index]? = some call →
      call.reply = .own probe →
      state.outcome? probe = some (.resolved value) →
      state.inflight.find? call.key = some probe
  | .call .. | .complete .. | .invalidate _ => True

/-- Every invalidation of the key before a moment came before the probe started. -/
def Current (state : Cache Value) (key : String) (before probe : Nat) : Prop :=
  ∃ entry, state.probes[probe]? = some entry ∧
    ∀ invalidation ∈ state.invalidations, invalidation.covers key = true →
      invalidation.moment < before → invalidation.moment < entry.started

/-- The probes of a state are still there, with the moment they started. -/
def Grows (state next : Cache Value) : Prop :=
  ∀ (index : Nat) (entry : Probe Value), state.probes[index]? = some entry →
    ∃ later : Probe Value, next.probes[index]? = some later ∧ later.started = entry.started

theorem Current.grow {state next : Cache Value} {key : String} {before after probe : Nat}
    (current : state.Current key before probe) (grows : state.Grows next)
    (older : ∀ invalidation ∈ next.invalidations, invalidation.covers key = true →
      invalidation.moment < after →
        invalidation ∈ state.invalidations ∧ invalidation.moment < before) :
    next.Current key after probe := by
  obtain ⟨entry, present, fresh⟩ := current
  obtain ⟨later, found, started⟩ := grows probe entry present
  refine ⟨later, found, ?_⟩
  intro invalidation member covers early
  obtain ⟨known, earlier⟩ := older invalidation member covers early
  rw [started]
  exact fresh invalidation known covers earlier

/-- The invariant of a cache whose overtaken probes never succeed. -/
structure Sound (state : Cache Value) : Prop where
  started : ∀ entry ∈ state.probes, entry.started < state.moment
  invalidated : ∀ invalidation ∈ state.invalidations, invalidation.moment < state.moment
  inflight : ∀ key probe, state.inflight.find? key = some probe →
    state.Current key state.moment probe
  settled : ∀ key hit, state.settled.find? key = some hit →
    state.Current key state.moment hit.produced.probe
  behind : ∀ key probe hit, state.inflight.find? key = some probe →
    state.settled.find? key = some hit → hit.produced.probe < probe
  called : ∀ call ∈ state.calls, call.started < state.moment ∧
    ∀ probe, call.reply.probe = some probe → state.Current call.key call.started probe

/-- Without an invalidation what was current stays so. -/
theorem Sound.keep {state next : Cache Value} (sound : state.Sound) (grows : state.Grows next)
    (same : next.invalidations = state.invalidations) {key : String} {before after probe : Nat}
    (current : state.Current key before probe) (reach : after ≤ before ∨ before = state.moment) :
    next.Current key after probe := by
  refine current.grow grows ?_
  intro invalidation member covers early
  rw [same] at member
  refine ⟨member, ?_⟩
  rcases reach with shorter | now
  · exact Nat.lt_of_lt_of_le early shorter
  · rw [now]
    exact sound.invalidated invalidation member

theorem grows_of_probes {state next : Cache Value} (same : next.probes = state.probes) :
    state.Grows next := by
  intro index entry present
  exact ⟨entry, same ▸ present, rfl⟩

theorem grows_append {state next : Cache Value} {added : List (Probe Value)}
    (more : next.probes = state.probes ++ added) : state.Grows next := by
  intro index entry present
  refine ⟨entry, ?_, rfl⟩
  rw [more, List.getElem?_append_left (List.getElem?_eq_some_iff.mp present).1]
  exact present

theorem grows_complete (state : Cache Value) (probe : Nat) (outcome : Outcome Value) :
    state.Grows (state.complete probe outcome) := by
  intro index entry present
  rw [complete, List.getElem?_modify, present]
  refine ⟨_, rfl, ?_⟩
  split
  · exact Probe.settle_started entry outcome
  · rfl

/-- A call after a step without an invalidation is one from before, which may now
have its probe's answer, or a new one with a current probe. -/
def Continues (state next : Cache Value) (call : Call Value) : Prop :=
  (∃ old ∈ state.calls, call.key = old.key ∧ call.started = old.started ∧
    ∀ probe, call.reply.probe = some probe → old.reply.probe = some probe) ∨
  (call.started = state.moment ∧
    ∀ probe, call.reply.probe = some probe → next.Current call.key state.moment probe)

theorem Continues.old {state next : Cache Value} {call : Call Value} (member : call ∈ state.calls) :
    state.Continues next call :=
  .inl ⟨call, member, rfl, rfl, fun _ same => same⟩

theorem continues_answer {state next : Cache Value} {index : Nat} {call answered : Call Value}
    {reply : Reply Value} (found : state.calls[index]? = some call)
    (same : ∀ probe, reply.probe = some probe → call.reply.probe = some probe)
    (member : answered ∈ (state.answer index reply).calls) : state.Continues next answered := by
  obtain ⟨place, present⟩ := List.mem_iff_getElem?.mp member
  rw [answer, List.getElem?_modify] at present
  obtain ⟨old, stored, changed⟩ := Option.map_eq_some_iff.mp present
  have known := List.mem_of_getElem? stored
  by_cases here : index = place
  · subst here
    obtain rfl := Option.some.inj (found.symm.trans stored)
    rw [if_pos rfl] at changed
    subst changed
    exact .inl ⟨call, known, rfl, rfl, same⟩
  · rw [if_neg here] at changed
    obtain rfl : old = answered := changed
    exact .old known

/-- A step without an invalidation keeps the invariant when the two maps stay current. -/
theorem Sound.advance {state next : Cache Value} (sound : state.Sound) (grows : state.Grows next)
    (same : next.invalidations = state.invalidations) (moment : next.moment = state.moment + 1)
    (started : ∀ entry ∈ next.probes, entry.started ≤ state.moment)
    (inflight : ∀ key probe, next.inflight.find? key = some probe →
      next.Current key state.moment probe)
    (settled : ∀ key hit, next.settled.find? key = some hit →
      next.Current key state.moment hit.produced.probe)
    (behind : ∀ key probe hit, next.inflight.find? key = some probe →
      next.settled.find? key = some hit → hit.produced.probe < probe)
    (called : ∀ call ∈ next.calls, state.Continues next call) : next.Sound := by
  have later : ∀ {key probe}, next.Current key state.moment probe →
      next.Current key (state.moment + 1) probe := by
    intro key probe current
    refine current.grow (grows_of_probes rfl) ?_
    intro invalidation member covers early
    exact ⟨member, sound.invalidated invalidation (same ▸ member)⟩
  refine ⟨?_, ?_, ?_, ?_, behind, ?_⟩
  · intro entry member
    rw [moment]
    exact Nat.lt_succ_of_le (started entry member)
  · intro invalidation member
    rw [same] at member
    rw [moment]
    exact Nat.lt_succ_of_lt (sound.invalidated invalidation member)
  · intro key probe found
    rw [moment]
    exact later (inflight key probe found)
  · intro key hit found
    rw [moment]
    exact later (settled key hit found)
  · intro call member
    rw [moment]
    rcases called call member with ⟨old, known, key, began, reply⟩ | ⟨began, current⟩
    · obtain ⟨early, current⟩ := sound.called old known
      rw [key, began]
      refine ⟨Nat.lt_succ_of_lt early, fun probe answered => ?_⟩
      exact sound.keep grows same (current probe (reply probe answered)) (.inl (Nat.le_refl _))
    · rw [began]
      exact ⟨Nat.lt_succ_self _, current⟩

theorem Sound.still {state next : Cache Value} (sound : state.Sound) (grows : state.Grows next)
    (same : next.invalidations = state.invalidations) {key : String} {probe : Nat}
    (current : state.Current key state.moment probe) : next.Current key state.moment probe :=
  sound.keep grows same current (.inl (Nat.le_refl _))

/-- A call that joins a current probe, or has its value. -/
theorem Sound.join {state : Cache Value} (sound : state.Sound) {key : String} {ttlMs : Int}
    {reply : Reply Value}
    (current : ∀ probe, reply.probe = some probe → state.Current key state.moment probe) :
    Sound { state.call key ttlMs reply with moment := state.moment + 1 } := by
  have grows : state.Grows { state.call key ttlMs reply with moment := state.moment + 1 } :=
    grows_of_probes rfl
  have still := fun {other : String} {probe : Nat} (current : state.Current other state.moment probe) =>
    sound.still grows rfl current
  refine sound.advance (grows_of_probes rfl) rfl rfl ?_ ?_ ?_ sound.behind ?_
  · exact fun entry member => Nat.le_of_lt (sound.started entry member)
  · exact fun other probe found => still (sound.inflight other probe found)
  · exact fun other hit found => still (sound.settled other hit found)
  · intro call member
    rcases List.mem_append.mp member with old | new
    · exact .old old
    · rw [List.mem_singleton.mp new]
      exact .inr ⟨rfl, fun probe answered => still (current probe answered)⟩

/-- A call that starts a probe. -/
theorem Sound.start {state : Cache Value} (sound : state.Sound) (key : String) (ttlMs : Int) :
    Sound { Cache.call { state with
      inflight := state.inflight.set key state.probes.length
      probes := state.probes ++ [{ started := state.moment }] } key ttlMs
        (.own state.probes.length) with moment := state.moment + 1 } := by
  generalize next : ({ Cache.call { state with
      inflight := state.inflight.set key state.probes.length
      probes := state.probes ++ [{ started := state.moment }] } key ttlMs
        (.own state.probes.length) with moment := state.moment + 1 } : Cache Value) = state'
  have probes : state'.probes = state.probes ++ [{ started := state.moment }] := by rw [← next]; rfl
  have grows : state.Grows state' := grows_append probes
  have same : state'.invalidations = state.invalidations := by rw [← next]; rfl
  have fresh : state'.Current key state.moment state.probes.length := by
    refine ⟨{ started := state.moment }, by simp [probes], ?_⟩
    intro invalidation member _ early
    exact early
  have running : ∀ other probe, state'.inflight.find? other = some probe →
      (other = key ∧ probe = state.probes.length) ∨ state.inflight.find? other = some probe := by
    intro other probe found
    rw [← next] at found
    change (state.inflight.set key state.probes.length).find? other = some probe at found
    rw [OrderedMap.find?_set] at found
    split at found
    · rename_i here
      exact .inl ⟨here, (Option.some.inj found).symm⟩
    · exact .inr found
  have settled : state'.settled = state.settled := by rw [← next]; rfl
  have bound : ∀ other hit, state.settled.find? other = some hit →
      hit.produced.probe < state.probes.length := by
    intro other hit found
    obtain ⟨entry, present, _⟩ := sound.settled other hit found
    exact (List.getElem?_eq_some_iff.mp present).1
  refine sound.advance grows same (by rw [← next]) ?_ ?_ ?_ ?_ ?_
  · intro entry member
    rw [probes] at member
    rcases List.mem_append.mp member with old | new
    · exact Nat.le_of_lt (sound.started entry old)
    · exact Nat.le_of_eq (congrArg Probe.started (List.mem_singleton.mp new))
  · intro other probe found
    rcases running other probe found with ⟨rfl, rfl⟩ | old
    · exact fresh
    · exact sound.still grows same (sound.inflight other probe old)
  · intro other hit found
    rw [settled] at found
    exact sound.still grows same (sound.settled other hit found)
  · intro other probe hit found stored
    rw [settled] at stored
    rcases running other probe found with ⟨rfl, rfl⟩ | old
    · exact bound other hit stored
    · exact sound.behind other probe hit old stored
  · intro call member
    rw [← next] at member
    rcases List.mem_append.mp member with old | new
    · exact .old old
    · rw [List.mem_singleton.mp new]
      refine .inr ⟨rfl, ?_⟩
      rintro probe ⟨⟩
      exact fresh

theorem Sound.call {state : Cache Value} (sound : state.Sound) (now : Int) (key : String)
    (ttlMs : Int) : (state.step (.call now key ttlMs)).Sound := by
  rw [step, act, cached]
  cases hit : state.hit? now key with
  | some found =>
    refine sound.join ?_
    rintro probe ⟨⟩
    exact sound.settled key found (Option.filter_eq_some_iff.mp hit).1
  | none =>
    dsimp only
    cases pending : state.inflight.find? key with
    | some probe =>
      refine sound.join ?_
      rintro _ ⟨⟩
      exact sound.inflight key probe pending
    | none => exact sound.start key ttlMs

theorem Sound.complete {state : Cache Value} (sound : state.Sound) (probe : Nat)
    (outcome : Outcome Value) : (state.step (.complete probe outcome)).Sound := by
  have grows : state.Grows (state.step (.complete probe outcome)) :=
    grows_complete state probe outcome
  refine sound.advance grows rfl rfl ?_ ?_ ?_ sound.behind (fun call member => .old member)
  · intro entry member
    obtain ⟨index, present⟩ := List.mem_iff_getElem?.mp member
    change (state.probes.modify probe (·.settle outcome))[index]? = some entry at present
    rw [List.getElem?_modify] at present
    obtain ⟨old, stored, changed⟩ := Option.map_eq_some_iff.mp present
    have early := sound.started old (List.mem_of_getElem? stored)
    rw [← changed]
    split
    · rw [Probe.settle_started]
      exact Nat.le_of_lt early
    · exact Nat.le_of_lt early
  · exact fun other probe found => sound.still grows rfl (sound.inflight other probe found)
  · exact fun other hit found => sound.still grows rfl (sound.settled other hit found)

theorem find?_sweep {state : Cache Value} {key : String} {hit : Settled Value}
    (found : state.sweep.find? key = some hit) : state.settled.find? key = some hit := by
  unfold sweep at found
  split at found
  · cases oldest : state.settled.keys.head? with
    | none => simpa [oldest] using found
    | some first =>
      rw [oldest] at found
      exact (OrderedMap.find?_of_filter found).1
  · exact found

theorem find?_release {state : Cache Value} {key other : String} {promise probe : Nat}
    (found : (state.release key promise).find? other = some probe) :
    state.inflight.find? other = some probe ∧ (other = key → probe ≠ promise) := by
  unfold release at found
  split at found
  · rename_i own
    rw [OrderedMap.find?_erase] at found
    split at found
    · cases found
    · rename_i differ
      exact ⟨found, fun same => absurd same differ⟩
  · rename_i foreign
    refine ⟨found, ?_⟩
    rintro rfl rfl
    exact foreign found

/-- A call that goes on without writing a value. -/
theorem Sound.answered {state : Cache Value} (sound : state.Sound) {index : Nat}
    {call : Call Value} (found : state.calls[index]? = some call) {reply : Reply Value}
    (same : ∀ probe, reply.probe = some probe → call.reply.probe = some probe)
    {inflight : OrderedMap String Nat}
    (released : ∀ key probe, inflight.find? key = some probe →
      state.inflight.find? key = some probe) :
    Sound { Cache.answer { state with inflight } index reply with moment := state.moment + 1 } := by
  refine sound.advance (grows_of_probes rfl) rfl rfl ?_ ?_ ?_ ?_ ?_
  · exact fun entry member => Nat.le_of_lt (sound.started entry member)
  · exact fun key probe running =>
      sound.still (grows_of_probes rfl) rfl (sound.inflight key probe (released key probe running))
  · exact fun key hit stored =>
      sound.still (grows_of_probes rfl) rfl (sound.settled key hit stored)
  · exact fun key probe hit running stored =>
      sound.behind key probe hit (released key probe running) stored
  · exact fun _ member => continues_answer found same member

/-- A call whose probe succeeded while still in flight writes its value. -/
theorem Sound.written {state : Cache Value} (sound : state.Sound) {index probe : Nat}
    {call : Call Value} (found : state.calls[index]? = some call)
    (own : call.reply = .own probe) (registered : state.inflight.find? call.key = some probe)
    (value : Value) (expires : Int) :
    Sound { Cache.answer { state with
      settled := state.sweep.set call.key ⟨⟨probe, value⟩, expires⟩
      inflight := state.release call.key probe } index (.value ⟨probe, value⟩) with
        moment := state.moment + 1 } := by
  have stored : ∀ key hit,
      (state.sweep.set call.key ⟨⟨probe, value⟩, expires⟩).find? key = some hit →
        (key = call.key ∧ hit.produced.probe = probe) ∨
          key ≠ call.key ∧ state.settled.find? key = some hit := by
    intro key hit present
    rw [OrderedMap.find?_set] at present
    split at present
    · rename_i here
      exact .inl ⟨here, congrArg (·.produced.probe) (Option.some.inj present).symm⟩
    · rename_i differ
      exact .inr ⟨differ, find?_sweep present⟩
  refine sound.advance (grows_of_probes rfl) rfl rfl ?_ ?_ ?_ ?_ ?_
  · exact fun entry member => Nat.le_of_lt (sound.started entry member)
  · exact fun key other running =>
      sound.still (grows_of_probes rfl) rfl (sound.inflight key other (find?_release running).1)
  · intro key hit present
    rcases stored key hit present with ⟨rfl, same⟩ | ⟨_, old⟩
    · rw [same]
      exact sound.still (grows_of_probes rfl) rfl (sound.inflight _ probe registered)
    · exact sound.still (grows_of_probes rfl) rfl (sound.settled key hit old)
  · intro key other hit running present
    obtain ⟨before, left⟩ := find?_release running
    rcases stored key hit present with ⟨rfl, _⟩ | ⟨_, old⟩
    · -- the entry of this key was the call's own probe, which just left
      exact absurd (Option.some.inj (before.symm.trans registered)) (left rfl)
    · exact sound.behind key other hit before old
  · intro answered member
    refine continues_answer found ?_ member
    rw [own]
    exact fun _ same => same

theorem Sound.idle {state : Cache Value} (sound : state.Sound) :
    Sound { state with moment := state.moment + 1 } := by
  refine sound.advance (grows_of_probes rfl) rfl rfl ?_ ?_ ?_ sound.behind
    (fun call member => .old member)
  · exact fun entry member => Nat.le_of_lt (sound.started entry member)
  · exact fun key probe found => sound.still (grows_of_probes rfl) rfl (sound.inflight key probe found)
  · exact fun key hit found => sound.still (grows_of_probes rfl) rfl (sound.settled key hit found)

theorem Sound.resume {state : Cache Value} (sound : state.Sound) (now : Int) (index : Nat)
    (registered : state.Registered (.resume now index)) :
    (state.step (.resume now index)).Sound := by
  rw [step, act, Cache.resume]
  cases found : state.calls[index]? with
  | none => exact sound.idle
  | some call =>
    dsimp only
    cases reply : call.reply with
    | value | thrown => exact sound.idle
    | joined probe =>
      dsimp only
      cases promise : state.outcome? probe with
      | none => exact sound.idle
      | some comes =>
        cases comes with
        | pending => exact sound.idle
        | resolved value =>
          refine sound.answered found ?_ fun _ _ running => running
          rw [reply]
          exact fun _ same => same
        | rejected => exact sound.answered found (by rintro _ ⟨⟩) fun _ _ running => running
    | own probe =>
      dsimp only
      cases promise : state.outcome? probe with
      | none => exact sound.idle
      | some comes =>
        cases comes with
        | pending => exact sound.idle
        | resolved value =>
          exact sound.written found reply (registered call probe value found reply promise) value _
        | rejected =>
          exact sound.answered found (by rintro _ ⟨⟩) fun _ _ running => (find?_release running).1

theorem Sound.invalidate {state : Cache Value} (sound : state.Sound) (keyPrefix : String) :
    (state.step (.invalidate keyPrefix)).Sound := by
  have grows : state.Grows (state.step (.invalidate keyPrefix)) := grows_of_probes rfl
  -- a key the invalidation leaves in a map is not covered by it
  have survives : ∀ {key : String} {probe : Nat},
      (!Invalidation.covers ⟨keyPrefix, state.moment⟩ key) = true →
      state.Current key state.moment probe →
      (state.step (.invalidate keyPrefix)).Current key (state.moment + 1) probe := by
    intro key probe spared current
    refine current.grow grows ?_
    intro invalidation member covers _
    rcases List.mem_append.mp member with old | new
    · exact ⟨old, sound.invalidated invalidation old⟩
    · rw [List.mem_singleton.mp new] at covers
      rw [covers] at spared
      cases spared
  refine ⟨?_, ?_, ?_, ?_, ?_, ?_⟩
  · exact fun entry member => Nat.lt_succ_of_lt (sound.started entry member)
  · intro invalidation member
    rcases List.mem_append.mp member with old | new
    · exact Nat.lt_succ_of_lt (sound.invalidated invalidation old)
    · rw [List.mem_singleton.mp new]
      exact Nat.lt_succ_self state.moment
  · intro key probe found
    obtain ⟨before, spared⟩ := OrderedMap.find?_of_filter found
    exact survives spared (sound.inflight key probe before)
  · intro key hit found
    obtain ⟨before, spared⟩ := OrderedMap.find?_of_filter found
    exact survives spared (sound.settled key hit before)
  · intro key probe hit running stored
    exact sound.behind key probe hit (OrderedMap.find?_of_filter running).1
      (OrderedMap.find?_of_filter stored).1
  · intro call member
    obtain ⟨early, current⟩ := sound.called call member
    refine ⟨Nat.lt_succ_of_lt early, fun probe reply => (current probe reply).grow grows ?_⟩
    intro invalidation listed _ earlier
    rcases List.mem_append.mp listed with old | new
    · exact ⟨old, earlier⟩
    · rw [List.mem_singleton.mp new] at earlier
      exact absurd earlier (Nat.lt_asymm early)

theorem Sound.step {state : Cache Value} {label : CacheLabel Value}
    (registered : state.Registered label) (sound : state.Sound) : (state.step label).Sound := by
  cases label with
  | call now key ttlMs => exact sound.call now key ttlMs
  | complete probe outcome => exact sound.complete probe outcome
  | resume now index => exact sound.resume now index registered
  | invalidate keyPrefix => exact sound.invalidate keyPrefix

theorem sound_after {labels : List (CacheLabel Value)}
    (registered : Execution.Along step Registered {} labels) : (after labels).Sound := by
  refine Execution.invariant_along (fun _ _ allowed sound => sound.step allowed) ?_ registered
  constructor <;> intros <;> simp_all

theorem Sound.fresh {state : Cache Value} (sound : state.Sound) : state.Fresh := by
  intro call member produced reply probe present invalidation listed covers early
  obtain ⟨entry, found, fresh⟩ := (sound.called call member).2 produced.probe (by rw [reply]; rfl)
  obtain rfl := Option.some.inj (found.symm.trans present)
  exact fresh invalidation listed covers early

/-- A write to the settled map never goes back to an older probe. -/
theorem Sound.newer {state : Cache Value} (sound : state.Sound) {label : CacheLabel Value}
    (registered : state.Registered label) {key : String} {old new : Settled Value}
    (before : state.settled.find? key = some old)
    (later : (state.step label).settled.find? key = some new) :
    old.produced.probe ≤ new.produced.probe := by
  have kept : ∀ {other}, state.settled.find? key = some other →
      old.produced.probe ≤ other.produced.probe := by
    intro other found
    exact Nat.le_of_eq (congrArg (·.produced.probe) (Option.some.inj (before.symm.trans found)))
  cases label with
  | call now name ttlMs =>
    have same : (cached state now name ttlMs).settled = state.settled := by
      unfold cached
      cases state.hit? now name with
      | some hit => rfl
      | none => cases state.inflight.find? name <;> rfl
    rw [Cache.step, Cache.act] at later
    exact kept (same ▸ later)
  | complete probe outcome => exact kept later
  | invalidate keyPrefix => exact kept (OrderedMap.find?_of_filter later).1
  | resume now index =>
    rw [Cache.step, Cache.act, Cache.resume] at later
    cases found : state.calls[index]? with
    | none =>
      rw [found] at later
      exact kept later
    | some call =>
      rw [found] at later
      dsimp only at later
      cases reply : call.reply with
      | value | thrown =>
        rw [reply] at later
        exact kept later
      | joined probe =>
        rw [reply] at later
        dsimp only at later
        cases promise : state.outcome? probe with
        | none =>
          rw [promise] at later
          exact kept later
        | some comes =>
          rw [promise] at later
          cases comes <;> exact kept later
      | own probe =>
        rw [reply] at later
        dsimp only at later
        cases promise : state.outcome? probe with
        | none =>
          rw [promise] at later
          exact kept later
        | some comes =>
          rw [promise] at later
          cases comes with
          | pending | rejected => exact kept later
          | resolved value =>
            change (state.sweep.set call.key _).find? key = some new at later
            rw [OrderedMap.find?_set] at later
            split at later
            · rename_i here
              subst here
              obtain rfl := Option.some.inj later
              have running := registered call probe value found reply promise
              exact Nat.le_of_lt (sound.behind call.key probe old running before)
            · exact kept (find?_sweep later)

end Cache

/-- In every run in which no probe succeeds after an invalidation of its key overtook
it, no call that starts after an invalidation has the value of a probe from before
it, and a settled value only gives way to one of a later probe. -/
theorem cached_freshness (labels : List (CacheLabel Value))
    (registered : Execution.Along Cache.step Cache.Registered {} labels) :
    (Cache.after labels).Fresh ∧
      ∀ before label rest, labels = before ++ label :: rest → ∀ key old new,
        (Cache.after before).settled.find? key = some old →
        ((Cache.after before).step label).settled.find? key = some new →
          old.produced.probe ≤ new.produced.probe := by
  refine ⟨(Cache.sound_after registered).fresh, ?_⟩
  rintro before label rest rfl key old new stored later
  obtain ⟨earlier, next, _⟩ := Execution.along_append.mp registered
  exact (Cache.sound_after earlier).newer next stored later

/-- A probe that answers before the invalidation, and one that starts after it. -/
def invalidatedBetween : List (CacheLabel Nat) :=
  [.call 0 "firewall:live" 5000, .complete 0 (.resolved 1), .resume 10 0, .invalidate "firewall:",
    .call 20 "firewall:live" 5000, .complete 1 (.resolved 2), .resume 30 1,
    .call 40 "firewall:live" 5000]

theorem cached_freshness_between :
    (Cache.after invalidatedBetween).Fresh ∧
      ((Cache.after invalidatedBetween).calls.map (·.reply)) =
        [.value ⟨0, 1⟩, .value ⟨1, 2⟩, .value ⟨1, 2⟩] := by
  refine ⟨(cached_freshness invalidatedBetween ?_).1, by decide⟩
  refine ⟨trivial, trivial, ?_, trivial, trivial, trivial, ?_, trivial, trivial⟩
  · rintro call probe value found reply _
    obtain rfl := Option.some.inj found
    obtain rfl := Reply.own.inj reply
    decide
  · rintro call probe value found reply _
    obtain rfl := Option.some.inj found
    obtain rfl := Reply.own.inj reply
    decide

/-- The invalidation overtakes the probe, which then settles: the next call is
served the value from before it. -/
theorem cached_freshness_overtaken :
    ¬ (Cache.after ([.call 0 "firewall:live" 5000, .invalidate "firewall:",
        .complete 0 (.resolved 1), .resume 10 0, .call 20 "firewall:live" 5000] :
          List (CacheLabel Nat))).Fresh := by
  intro fresh
  refine absurd (fresh ⟨"firewall:live", 5000, 4, .value ⟨0, 1⟩⟩ ?_ ⟨0, 1⟩ rfl ⟨0, .resolved 1⟩ ?_
    ⟨"firewall:", 1⟩ ?_ ?_ ?_) ?_ <;> decide

end SysDeck.Web
