import SysDeck.Web.Fleet

/-! The runs of the fleet bridge whose lists show the changes that were answered. -/

namespace SysDeck.Web.Fleet

open Execution (Along run)

/-! ### The invariant -/

/-- The table against what was stored, deleted and answered, before a moment. -/
structure Stored (state : State) (before : ℕ) : Prop where
  single : state.registry.rows.countP (·.isLocal) ≤ 1
  added : ∀ id ∈ state.added, id ∈ state.registry.rows.map (·.id) ∨ id ∈ state.removed
  gone : ∀ id ∈ state.removed, id < state.registry.nextId ∧ id ∉ state.registry.rows.map (·.id)
  early : ∀ answer ∈ state.answers, answer.moment < before
  answered : ∀ id moment, ⟨.added id, moment⟩ ∈ state.answers → id ∈ state.added
  dropped : ∀ id moment, ⟨.removed id, moment⟩ ∈ state.answers → id ∈ state.removed
  adding : ∀ id, .addAudit id ∈ state.requests → id ∈ state.added
  removing : ∀ id, .removeAudit id ∈ state.requests → id ∈ state.removed

/-- The ids of rows, with the local one marked. -/
def rowMarks (rows : List FleetRow) : List (NodeId × Bool) := rows.map fun row => (.row row.id, row.isLocal)

/-- A list of rows, without peers. -/
def Plain (out : List Node) : Prop := ∀ node ∈ out, ∃ id, node.id = .row id

/-- What a probe relies on, and what it has read. -/
def Body.Holds (state : State) (before : ℕ) : Body → Prop
  | .findLocal => True
  | .createLocal => state.registry.hasLocal = false
  | .located | .purge | .findMany => state.registry.hasLocal
  | .probing read rows => read < before ∧ ReadsWrites state read (rowMarks rows)
  | .discovering read out => read < before ∧ ReadsWrites state read (marksOf out) ∧ Plain out
  | .probingPeers read out newPeers =>
    read < before ∧ ReadsWrites state read (marksOf out) ∧ Plain out ∧ (newPeers.map (·.name)).Nodup
  | .done read out => read < before ∧ ReadsWrites state read (marksOf out)
  | .failed => False

/-- The cache against the probes: one is in flight at most, and what has settled came of one. -/
structure Served (state : State) : Prop where
  outcomes : state.cache.probes.map Probe.outcome = state.bodies.map Body.outcome
  flight : ∀ index body, state.bodies[index]? = some body → body.outcome = .pending →
    state.cache.inflight.find? key = some index
  settled : ∀ hit, state.cache.settled.find? key = some hit →
    ∃ read, state.bodies[hit.produced.probe]? = some (.done read hit.produced.value)

/-- A probe that has read the table read it after the changes that were answered before a moment. -/
def Covers (state : State) (index before : ℕ) : Prop :=
  ∀ body read, state.bodies[index]? = some body → body.read? = some read →
    ∀ answer ∈ state.answers, answer.moment < before → answer.moment < read

/-- What a call has, or waits for. -/
def Answered (state : State) (call : Call (List Node)) : Prop :=
  match call.reply with
  | .own index | .joined index => Covers state index call.started
  | .value produced => ReadsWrites state call.started (marksOf produced.value)
  | .thrown => False

structure Sound (state : State) (before : ℕ) : Prop where
  stored : Stored state before
  bodies : ∀ body ∈ state.bodies, body.Holds state before
  served : Served state
  calls : ∀ call ∈ state.cache.calls,
    call.key = key ∧ call.ttlMs = 10000 ∧ call.started < before ∧ Answered state call

/-! ### What stays -/

/-- A later state has the answers of an earlier one, and those that came since a moment. -/
structure Later (state next : State) (since : ℕ) : Prop where
  removed : state.removed ⊆ next.removed
  answers : ∀ answer ∈ next.answers, answer.moment < since → answer ∈ state.answers

theorem Later.same {state next : State} (removed : next.removed = state.removed)
    (answers : next.answers = state.answers) (since : ℕ) : Later state next since :=
  ⟨removed ▸ List.Subset.refl _, fun _ member _ => answers ▸ member⟩

theorem ReadsWrites.later {state next : State} {before since : ℕ} {marks : List (NodeId × Bool)}
    (reads : ReadsWrites state before marks) (later : Later state next since) (early : before ≤ since) :
    ReadsWrites next before marks where
  added := by
    intro id moment member sooner
    refine (reads.added id moment (later.answers _ member (Nat.lt_of_lt_of_le sooner early)) sooner).imp_right ?_
    exact fun gone => later.removed gone
  removed := fun id moment member sooner =>
    reads.removed id moment (later.answers _ member (Nat.lt_of_lt_of_le sooner early)) sooner
  distinct := reads.distinct
  one := reads.one

/-- A list that shows the changes before its read shows those before a call that it covers. -/
theorem ReadsWrites.covered {state : State} {read before : ℕ} {marks : List (NodeId × Bool)}
    (reads : ReadsWrites state read marks)
    (covers : ∀ answer ∈ state.answers, answer.moment < before → answer.moment < read) :
    ReadsWrites state before marks where
  added := fun id moment member sooner => reads.added id moment member (covers _ member sooner)
  removed := fun id moment member sooner => reads.removed id moment member (covers _ member sooner)
  distinct := reads.distinct
  one := reads.one

/-- What a probe holds stays while the table has a local node as before. -/
theorem Body.Holds.later {state next : State} {before : ℕ} {body : Body} (holds : body.Holds state before)
    (later : Later state next before)
    (created : body = .createLocal → state.registry.hasLocal = false → next.registry.hasLocal = false)
    (relied : body.relies → state.registry.hasLocal → next.registry.hasLocal) :
    body.Holds next (before + 1) := by
  have early {read : ℕ} (sooner : read < before) : read < before + 1 := Nat.lt_succ_of_lt sooner
  cases body with
  | findLocal => trivial
  | createLocal => exact created rfl holds
  | located | purge | findMany => exact relied rfl holds
  | probing read rows => exact ⟨early holds.1, holds.2.later later (Nat.le_of_lt holds.1)⟩
  | discovering read out => exact ⟨early holds.1, holds.2.1.later later (Nat.le_of_lt holds.1), holds.2.2⟩
  | probingPeers read out newPeers =>
    exact ⟨early holds.1, holds.2.1.later later (Nat.le_of_lt holds.1), holds.2.2⟩
  | done read out => exact ⟨early holds.1, holds.2.later later (Nat.le_of_lt holds.1)⟩
  | failed => exact holds

/-- A call whose reply is as it was. -/
theorem Answered.later {state next : State} {before : ℕ} {call : Call (List Node)}
    (answered : Answered state call) (started : call.started ≤ before) (later : Later state next before)
    (bodies : ∀ (index : ℕ) (body : Body) (read : ℕ), next.bodies[index]? = some body →
      body.read? = some read →
      (∃ old : Body, state.bodies[index]? = some old ∧ old.read? = some read) ∨ before ≤ read) :
    Answered next call := by
  have covers {index : ℕ} (covers : Covers state index call.started) : Covers next index call.started := by
    intro body read found past answer member sooner
    rcases bodies index body read found past with ⟨old, there, same⟩ | new
    · exact covers old read there same answer
        (later.answers answer member (Nat.lt_of_lt_of_le sooner started)) sooner
    · exact Nat.lt_of_lt_of_le sooner (started.trans new)
  unfold Answered at answered ⊢
  cases reply : call.reply with
  | own index | joined index =>
    rw [reply] at answered
    exact covers answered
  | value produced =>
    rw [reply] at answered
    exact answered.later later started
  | thrown =>
    rw [reply] at answered
    exact answered

theorem Stored.quiet {state next : State} {before : ℕ} (stored : Stored state before)
    (registry : next.registry = state.registry) (added : next.added = state.added)
    (removed : next.removed = state.removed) (answers : next.answers = state.answers)
    (adding : ∀ id, .addAudit id ∈ next.requests → .addAudit id ∈ state.requests)
    (removing : ∀ id, .removeAudit id ∈ next.requests → .removeAudit id ∈ state.requests) :
    Stored next (before + 1) where
  single := registry ▸ stored.single
  added := by rw [added, registry, removed]; exact stored.added
  gone := by rw [registry, removed]; exact stored.gone
  early := fun answer member => Nat.lt_succ_of_lt (stored.early answer (answers ▸ member))
  answered := by rw [answers, added]; exact stored.answered
  dropped := by rw [answers, removed]; exact stored.dropped
  adding := fun id member => added ▸ stored.adding id (adding id member)
  removing := fun id member => removed ▸ stored.removing id (removing id member)

/-- A step that leaves the table, the probes and what was answered as they are. -/
theorem Sound.quiet {state next : State} {before : ℕ} (sound : Sound state before)
    (stored : Stored next (before + 1)) (registry : next.registry = state.registry)
    (removed : next.removed = state.removed) (answers : next.answers = state.answers)
    (bodies : next.bodies = state.bodies) (served : Served next)
    (calls : ∀ call ∈ next.cache.calls, call ∈ state.cache.calls ∨
      call.key = key ∧ call.ttlMs = 10000 ∧ call.started < before + 1 ∧ Answered state call) :
    Sound next (before + 1) where
  stored := stored
  bodies := by
    intro body member
    refine (sound.bodies body (bodies ▸ member)).later (.same removed answers before) ?_ ?_
    · exact fun _ none => registry ▸ none
    · exact fun _ present => registry ▸ present
  served := served
  calls := by
    intro call member
    have old : call.key = key ∧ call.ttlMs = 10000 ∧ call.started < before + 1 ∧ Answered state call := by
      rcases calls call member with old | new
      · obtain ⟨here, ttl, started, answered⟩ := sound.calls call old
        exact ⟨here, ttl, Nat.lt_succ_of_lt started, answered⟩
      · exact new
    obtain ⟨here, ttl, started, answered⟩ := old
    refine ⟨here, ttl, started, answered.later (Nat.le_of_lt_succ started) (.same removed answers before) ?_⟩
    intro index body read found past
    exact .inl ⟨body, bodies ▸ found, past⟩

/-- The cache as it is, at a later moment. -/
theorem Served.quiet {state next : State} (served : Served state) (bodies : next.bodies = state.bodies)
    (probes : next.cache.probes = state.cache.probes) (inflight : next.cache.inflight = state.cache.inflight)
    (settled : ∀ hit, next.cache.settled.find? key = some hit → state.cache.settled.find? key = some hit) :
    Served next where
  outcomes := by rw [probes, bodies]; exact served.outcomes
  flight := by rw [bodies, inflight]; exact served.flight
  settled := by
    intro hit found
    rw [bodies]
    exact served.settled hit (settled hit found)

/-! ### The calls of the cache -/

theorem outcome_of_body {state : State} (served : Served state) (index : ℕ) :
    state.cache.outcome? index = (state.bodies[index]?).map Body.outcome := by
  rw [Cache.outcome?, ← List.getElem?_map, ← List.getElem?_map]
  exact congrArg (·[index]?) served.outcomes

/-- A probe that has resolved has its list. -/
theorem body_of_resolved {state : State} (served : Served state) {index : ℕ} {out : List Node}
    (resolved : state.cache.outcome? index = some (.resolved out)) :
    ∃ read, state.bodies[index]? = some (.done read out) := by
  rw [outcome_of_body served] at resolved
  obtain ⟨body, found, same⟩ := Option.map_eq_some_iff.mp resolved
  cases body with
  | done read out' =>
    obtain rfl := Outcome.resolved.inj same
    exact ⟨read, found⟩
  | _ => cases same

/-- No probe is rejected. -/
theorem not_rejected {state : State} {before : ℕ} (sound : Sound state before) {index : ℕ} :
    state.cache.outcome? index ≠ some .rejected := by
  intro rejected
  rw [outcome_of_body sound.served] at rejected
  obtain ⟨body, found, same⟩ := Option.map_eq_some_iff.mp rejected
  cases body with
  | failed => exact sound.bodies _ (List.mem_of_getElem? found)
  | _ => cases same

/-- A list that a probe came to, for a call that its read covers. -/
theorem reads_of_done {state : State} {before : ℕ} (sound : Sound state before) {index read started : ℕ}
    {out : List Node} (found : state.bodies[index]? = some (.done read out))
    (covers : Covers state index started) : ReadsWrites state started (marksOf out) :=
  (sound.bodies _ (List.mem_of_getElem? found)).2.covered (covers _ read found rfl)

theorem mem_answer {cache : Cache (List Node)} {index : ℕ} {reply : Reply (List Node)}
    {call : Call (List Node)} (member : call ∈ (cache.answer index reply).calls) :
    call ∈ cache.calls ∨ ∃ old, cache.calls[index]? = some old ∧ call = { old with reply } := by
  obtain ⟨place, found⟩ := List.mem_iff_getElem?.mp member
  rw [Cache.answer, List.getElem?_modify] at found
  obtain ⟨old, there, same⟩ := Option.map_eq_some_iff.mp found
  by_cases here : index = place
  · subst here
    rw [if_pos rfl] at same
    exact .inr ⟨old, there, same.symm⟩
  · rw [if_neg here] at same
    exact .inl (same ▸ List.mem_of_getElem? there)

/-- The probe of a running body stays in flight when another probe is released. -/
theorem find?_release_of_ne {cache : Cache (List Node)} {promise index : ℕ}
    (found : cache.inflight.find? key = some index) (other : index ≠ promise) :
    (cache.release key promise).find? key = some index := by
  unfold Cache.release
  rw [if_neg]
  · exact found
  · exact fun own => other (Option.some.inj (found.symm.trans own))

/-- A call goes on, with the list of its probe. -/
theorem Sound.resume {state : State} {before : ℕ} (sound : Sound state before) (now : ℤ) (index moment : ℕ) :
    Sound { state with cache := { state.cache.resume now index with moment } } (before + 1) := by
  have stored : ∀ cache, Stored { state with cache } (before + 1) := fun cache =>
    sound.stored.quiet rfl rfl rfl rfl (fun _ member => member) (fun _ member => member)
  have still : ∀ cache : Cache (List Node), cache = state.cache →
      Sound { state with cache := { cache with moment } } (before + 1) := by
    rintro cache rfl
    exact sound.quiet (stored _) rfl rfl rfl rfl (sound.served.quiet rfl rfl rfl fun _ found => found)
      fun _ member => .inl member
  -- What the call that goes on has, where its probe has resolved.
  have answer {call : Call (List Node)} {probe : ℕ} {out : List Node}
      (found : state.cache.calls[index]? = some call) (covers : Covers state probe call.started)
      (resolved : state.cache.outcome? probe = some (.resolved out)) {given : Call (List Node)}
      (member : given ∈ (state.cache.answer index (.value ⟨probe, out⟩)).calls) :
      given ∈ state.cache.calls ∨
        given.key = key ∧ given.ttlMs = 10000 ∧ given.started < before + 1 ∧ Answered state given := by
    refine (mem_answer member).imp_right ?_
    rintro ⟨old, there, rfl⟩
    obtain rfl := Option.some.inj (found.symm.trans there)
    obtain ⟨here, ttl, started, -⟩ := sound.calls call (List.mem_of_getElem? found)
    obtain ⟨read, done⟩ := body_of_resolved sound.served resolved
    exact ⟨here, ttl, Nat.lt_succ_of_lt started, reads_of_done sound done covers⟩
  unfold Cache.resume
  cases found : state.cache.calls[index]? with
  | none => exact still _ rfl
  | some call =>
    obtain ⟨here, ttl, -, answered⟩ := sound.calls call (List.mem_of_getElem? found)
    unfold Answered at answered
    dsimp only
    cases reply : call.reply with
    | value produced => exact still _ rfl
    | thrown => exact still _ rfl
    | joined probe =>
      rw [reply] at answered
      dsimp only
      cases promise : state.cache.outcome? probe with
      | none => exact still _ rfl
      | some comes =>
        cases comes with
        | pending => exact still _ rfl
        | rejected => exact absurd promise (not_rejected sound)
        | resolved out =>
          exact sound.quiet (stored _) rfl rfl rfl rfl
            (sound.served.quiet rfl rfl rfl fun _ found => found)
            fun _ member => answer found answered promise member
    | own probe =>
      rw [reply] at answered
      dsimp only
      cases promise : state.cache.outcome? probe with
      | none => exact still _ rfl
      | some comes =>
        cases comes with
        | pending => exact still _ rfl
        | rejected => exact absurd promise (not_rejected sound)
        | resolved out =>
          refine sound.quiet (stored _) rfl rfl rfl rfl ⟨sound.served.outcomes, ?_, ?_⟩
            fun _ member => answer found answered promise member
          · intro index body running pending
            rw [here]
            refine find?_release_of_ne (sound.served.flight index body running pending) ?_
            rintro rfl
            rw [outcome_of_body sound.served, running, Option.map_some, pending] at promise
            cases promise
          · intro hit stored
            rw [here] at stored
            change (state.cache.sweep.set key ⟨⟨probe, out⟩, now + call.ttlMs⟩).find? key = some hit at stored
            rw [OrderedMap.find?_set_self] at stored
            obtain rfl := Option.some.inj stored
            exact body_of_resolved sound.served promise

/-! ### The other events -/

theorem Sound.evict {state : State} {before : ℕ} (sound : Sound state before) (moment : ℕ) :
    Sound { state with cache :=
      { state.cache with settled := state.cache.settled.erase key, moment } } (before + 1) := by
  refine sound.quiet (sound.stored.quiet rfl rfl rfl rfl (fun _ member => member) fun _ member => member)
    rfl rfl rfl rfl (sound.served.quiet rfl rfl rfl ?_) fun _ member => .inl member
  intro hit found
  exact (OrderedMap.find?_of_filter found).1

/-- A request arrives, which has stored and deleted nothing yet. -/
theorem Sound.arrive {state : State} {before : ℕ} (sound : Sound state before) (moment : ℕ)
    {request : Request} (adding : ∀ id, request ≠ .addAudit id) (removing : ∀ id, request ≠ .removeAudit id) :
    Sound { state with cache := { state.cache with moment }, requests := state.requests ++ [request] }
      (before + 1) := by
  refine sound.quiet (sound.stored.quiet rfl rfl rfl rfl ?_ ?_) rfl rfl rfl rfl
    (sound.served.quiet rfl rfl rfl fun _ found => found) fun _ member => .inl member
  · intro id member
    refine (List.mem_append.mp member).resolve_right fun new => ?_
    exact adding id (List.mem_singleton.mp new).symm
  · intro id member
    refine (List.mem_append.mp member).resolve_right fun new => ?_
    exact removing id (List.mem_singleton.mp new).symm

theorem addNode_ne (name host role : String) :
    (∀ id, addNode name host role ≠ .addAudit id) ∧ ∀ id, addNode name host role ≠ .removeAudit id := by
  unfold addNode
  dsimp only
  split
  · exact ⟨fun _ => nofun, fun _ => nofun⟩
  split
  · exact ⟨fun _ => nofun, fun _ => nofun⟩
  · exact ⟨fun _ => nofun, fun _ => nofun⟩

theorem removeNode_ne (id : Option NodeId) :
    (∀ other, removeNode id ≠ .addAudit other) ∧ ∀ other, removeNode id ≠ .removeAudit other := by
  rcases id with _ | _ | _ <;> exact ⟨fun _ => nofun, fun _ => nofun⟩

/-- A list or a probe that is up to date covers a call that starts now. -/
theorem State.UpToDate.covers {state : State} {index : ℕ} (current : state.UpToDate index) (started : ℕ) :
    Covers state index started :=
  fun body read found past answer member _ => current body found read past answer member

/-- Where a list with one more has an element. -/
theorem getElem?_append_singleton {α : Type} {list : List α} {last found : α} {index : ℕ}
    (here : (list ++ [last])[index]? = some found) :
    list[index]? = some found ∨ index = list.length ∧ found = last := by
  rcases Nat.lt_trichotomy index list.length with inside | rfl | outside
  · exact .inl (by rwa [List.getElem?_append_left inside] at here)
  · rw [List.getElem?_concat_length] at here
    exact .inr ⟨rfl, (Option.some.inj here).symm⟩
  · rw [List.getElem?_eq_none] at here
    · cases here
    · rw [List.length_append]
      exact outside

/-- A call that starts a probe, where none is in flight. -/
theorem Sound.own {state : State} {cache : Cache (List Node)} (sound : Sound state state.cache.moment)
    (idle : state.cache.inflight.find? key = none)
    (inflight : cache.inflight = state.cache.inflight.set key state.cache.probes.length)
    (probes : cache.probes = state.cache.probes ++ [{ started := state.cache.moment }])
    (settled : cache.settled = state.cache.settled)
    (calls : cache.calls =
      state.cache.calls ++ [⟨key, 10000, state.cache.moment, .own state.cache.probes.length⟩]) :
    Sound { state with cache, bodies := state.bodies ++ [.findLocal] } (state.cache.moment + 1) := by
  have length : state.cache.probes.length = state.bodies.length := by
    simpa using congrArg List.length sound.served.outcomes
  have later : Later state { state with cache, bodies := state.bodies ++ [.findLocal] } state.cache.moment :=
    ⟨List.Subset.refl _, fun _ member _ => member⟩
  refine ⟨?_, ?_, ⟨?_, ?_, ?_⟩, ?_⟩
  · exact sound.stored.quiet rfl rfl rfl rfl (fun _ member => member) fun _ member => member
  · intro body member
    rcases List.mem_append.mp member with old | new
    · exact (sound.bodies body old).later later (fun _ none => none) fun _ present => present
    · rw [List.mem_singleton.mp new]
      trivial
  · change cache.probes.map Probe.outcome = (state.bodies ++ [Body.findLocal]).map Body.outcome
    rw [probes, List.map_append, List.map_append, sound.served.outcomes]
    rfl
  · intro index body found pending
    change cache.inflight.find? key = some index
    rw [inflight, OrderedMap.find?_set_self, length]
    rcases getElem?_append_singleton found with old | ⟨here, -⟩
    · cases idle.symm.trans (sound.served.flight index body old pending)
    · rw [here]
  · intro hit found
    change cache.settled.find? key = some hit at found
    rw [settled] at found
    obtain ⟨read, done⟩ := sound.served.settled hit found
    exact ⟨read, (List.getElem?_append_left (List.getElem?_eq_some_iff.mp done).1).trans done⟩
  · intro call member
    change call ∈ cache.calls at member
    rw [calls] at member
    rcases List.mem_append.mp member with old | new
    · obtain ⟨here, ttl, started, answered⟩ := sound.calls call old
      refine ⟨here, ttl, Nat.lt_succ_of_lt started, answered.later (Nat.le_of_lt started) later ?_⟩
      intro index body read found past
      rcases getElem?_append_singleton found with there | ⟨-, rfl⟩
      · exact .inl ⟨body, there, past⟩
      · cases past
    · rw [List.mem_singleton.mp new]
      refine ⟨rfl, rfl, Nat.lt_succ_self _, ?_⟩
      intro body read found past
      rcases getElem?_append_singleton found with old | ⟨-, rfl⟩
      · exact absurd (List.getElem?_eq_some_iff.mp old).1 (by rw [length]; exact Nat.lt_irrefl _)
      · cases past

theorem Sound.nodes {state : State} (sound : Sound state state.cache.moment) {hostname : String} {now : ℤ}
    (allowed : state.Allowed hostname (.nodes now)) (moment : ℕ) :
    Sound { state.nodes now with cache := { (state.nodes now).cache with moment } }
      (state.cache.moment + 1) := by
  -- A call that starts no probe of its own.
  have joins (reply : Reply (List Node))
      (answered : Answered state ⟨key, 10000, state.cache.moment, reply⟩)
      (same : cached state.cache now key 10000 = state.cache.call key 10000 reply) :
      Sound { state.nodes now with cache := { (state.nodes now).cache with moment } }
        (state.cache.moment + 1) := by
    have nodes : state.nodes now = { state with cache := state.cache.call key 10000 reply } := by
      simp only [State.nodes, same, Cache.call, if_true]
    rw [nodes]
    refine sound.quiet ?_ rfl rfl rfl rfl (sound.served.quiet rfl rfl rfl fun _ found => found) ?_
    · exact sound.stored.quiet rfl rfl rfl rfl (fun _ member => member) fun _ member => member
    · intro call member
      refine (List.mem_append.mp member).imp_right fun new => ?_
      rw [List.mem_singleton.mp new]
      exact ⟨rfl, rfl, Nat.lt_succ_self _, answered⟩
  cases hit : state.cache.hit? now key with
  | some entry =>
    obtain ⟨read, done⟩ := sound.served.settled entry (Option.filter_eq_some_iff.mp hit).1
    refine joins (.value entry.produced) (reads_of_done sound done ((allowed.1 entry hit).covers _)) ?_
    simp only [cached, hit]
  | none =>
    cases running : state.cache.inflight.find? key with
    | some index =>
      refine joins (.joined index) ((allowed.2 hit index running).covers _) ?_
      simp only [cached, hit, running]
    | none =>
      have own : cached state.cache now key 10000 =
          Cache.call
            { state.cache with
              inflight := state.cache.inflight.set key state.cache.probes.length
              probes := state.cache.probes ++ [{ started := state.cache.moment }] }
            key 10000 (.own state.cache.probes.length) := by
        simp only [cached, hit, running]
      have bodies : (state.nodes now).bodies = state.bodies ++ [.findLocal] := by
        simp [State.nodes, own, Cache.call]
      have nodes : state.nodes now =
          { state with cache := (state.nodes now).cache, bodies := state.bodies ++ [.findLocal] } :=
        congrArg (fun bodies => { state with cache := (state.nodes now).cache, bodies }) bodies
      rw [nodes]
      have cache : (state.nodes now).cache = _ := own
      apply sound.own running
      · rw [cache]; rfl
      · rw [cache]; rfl
      · rw [cache]; rfl
      · rw [cache]; rfl

/-! ### The requests -/

/-- A step of a request, which leaves the probes and the calls as they are. -/
theorem Sound.change {state next : State} {before : ℕ} (sound : Sound state before)
    (stored : Stored next (before + 1)) (later : Later state next before)
    (created : state.registry.hasLocal = false → next.registry.hasLocal = false)
    (relied : ∀ body ∈ state.bodies, body.relies → state.registry.hasLocal → next.registry.hasLocal)
    (bodies : next.bodies = state.bodies) (probes : next.cache.probes = state.cache.probes)
    (inflight : next.cache.inflight = state.cache.inflight)
    (settled : next.cache.settled = state.cache.settled) (calls : next.cache.calls = state.cache.calls) :
    Sound next (before + 1) where
  stored := stored
  bodies := by
    intro body member
    rw [bodies] at member
    exact (sound.bodies body member).later later (fun _ => created) (relied body member)
  served := sound.served.quiet bodies probes inflight fun _ found => settled ▸ found
  calls := by
    intro call member
    obtain ⟨here, ttl, started, answered⟩ := sound.calls call (calls ▸ member)
    refine ⟨here, ttl, Nat.lt_succ_of_lt started, answered.later (Nat.le_of_lt started) later ?_⟩
    intro index body read found past
    exact .inl ⟨body, bodies ▸ found, past⟩

/-- A row is added to the table, a local one only where there is none. -/
theorem Stored.insert {state : State} {before : ℕ} (stored : Stored state before) (name host : String)
    (role : Role) (online isLocal : Bool) (alone : isLocal → state.registry.hasLocal = false)
    (cache : Cache (List Node)) (bodies : List Body) :
    Stored
      { state with
        cache
        bodies
        registry := state.registry.insert name host role online isLocal } (before + 1) where
  single := by
    change (state.registry.rows ++ [_]).countP _ ≤ 1
    rw [List.countP_append, List.countP_singleton]
    cases isLocal with
    | false => exact stored.single
    | true =>
      have none := alone rfl
      rw [Registry.hasLocal, List.any_eq_false] at none
      rw [List.countP_eq_zero.mpr none]
      exact Nat.le_refl 1
  added := by
    intro id member
    change id ∈ (state.registry.rows ++ [_]).map _ ∨ id ∈ state.removed
    rw [List.map_append, List.mem_append]
    exact (stored.added id member).imp_left .inl
  gone := by
    intro id member
    obtain ⟨sooner, absent⟩ := stored.gone id member
    refine ⟨Nat.lt_succ_of_lt sooner, ?_⟩
    change id ∉ (state.registry.rows ++ [_]).map _
    rw [List.map_append, List.mem_append]
    rintro (old | new)
    · exact absent old
    · exact Nat.ne_of_lt sooner (List.mem_singleton.mp new)
  early := fun answer member => Nat.lt_succ_of_lt (stored.early answer member)
  answered := stored.answered
  dropped := stored.dropped
  adding := stored.adding
  removing := stored.removing

/-- Rows are deleted, and those that addNode had stored are noted. -/
theorem Stored.keep {state : State} {before : ℕ} (stored : Stored state before) {kept : FleetRow → Bool}
    {removed : List ℕ} (grows : state.removed ⊆ removed)
    (noted : ∀ row ∈ state.registry.rows, row.id ∈ state.added → kept row ∨ row.id ∈ removed)
    (gone : ∀ id ∈ removed, id ∈ state.removed ∨
      ∃ row ∈ state.registry.rows, row.id = id ∧ ∀ other ∈ state.registry.rows, other.id = id → kept other = false)
    (cache : Cache (List Node)) (bodies : List Body) :
    Stored { state with cache, bodies, registry := state.registry.keep kept, removed } (before + 1) where
  single := (List.filter_sublist.countP_le).trans stored.single
  added := by
    intro id member
    rcases stored.added id member with inside | out
    · obtain ⟨row, here, rfl⟩ := List.mem_map.mp inside
      refine (noted row here member).imp_left fun stays => ?_
      exact List.mem_map_of_mem (List.mem_filter.mpr ⟨here, stays⟩)
    · exact .inr (grows out)
  gone := by
    intro id member
    rcases gone id member with old | ⟨row, here, rfl, drops⟩
    · obtain ⟨sooner, absent⟩ := stored.gone id old
      exact ⟨sooner, fun inside => absent ((List.filter_sublist.map _).subset inside)⟩
    · refine ⟨state.registry.bound row here, fun inside => ?_⟩
      obtain ⟨other, there, same⟩ := List.mem_map.mp inside
      obtain ⟨inside, stays⟩ := List.mem_filter.mp there
      cases (drops other inside same).symm.trans stays
  early := fun answer member => Nat.lt_succ_of_lt (stored.early answer member)
  answered := stored.answered
  dropped := fun id moment member => grows (stored.dropped id moment member)
  adding := stored.adding
  removing := fun id member => grows (stored.removing id member)

/-- A node is stored. -/
theorem Stored.stores {state : State} {before : ℕ} (stored : Stored state before) {place : ℕ}
    (name host : String) (role : Role) (online : Bool) (cache : Cache (List Node)) :
    Stored
      { state with
        cache
        registry := state.registry.insert name host role online false
        requests := state.requests.set place (.addAudit state.registry.nextId)
        added := state.registry.nextId :: state.added } (before + 1) := by
  have grown := stored.insert name host role online false (fun isLocal => nomatch isLocal) cache state.bodies
  refine { grown with added := ?_, answered := ?_, adding := ?_, removing := ?_ }
  · intro id member
    rcases List.mem_cons.mp member with rfl | old
    · exact .inl (List.mem_map_of_mem (List.mem_append_right _ (List.mem_singleton_self _)))
    · exact grown.added id old
  · exact fun id moment member => List.mem_cons_of_mem _ (stored.answered id moment member)
  · intro id member
    rcases List.mem_or_eq_of_mem_set member with old | new
    · exact List.mem_cons_of_mem _ (stored.adding id old)
    · rw [Request.addAudit.inj new]
      exact List.mem_cons_self
  · exact fun id member => stored.removing id ((List.mem_or_eq_of_mem_set member).resolve_right nofun)

/-- A node is deleted. -/
theorem Stored.delete {state : State} {before : ℕ} (stored : Stored state before) {place id : ℕ}
    (present : ∃ row ∈ state.registry.rows, row.id = id) (cache : Cache (List Node)) :
    Stored
      { state with
        cache
        registry := state.registry.keep (·.id ≠ id)
        requests := state.requests.set place (.removeAudit id)
        removed := id :: state.removed } (before + 1) := by
  have shrunk : Stored { state with cache, registry := state.registry.keep (·.id ≠ id), removed := id :: state.removed }
      (before + 1) := by
    refine stored.keep (List.subset_cons_self ..) ?_ ?_ cache state.bodies
    · intro row _ _
      by_cases same : row.id = id
      · exact .inr (same ▸ List.mem_cons_self)
      · exact .inl (decide_eq_true same)
    · intro other member
      rcases List.mem_cons.mp member with rfl | old
      · obtain ⟨row, here, rfl⟩ := present
        exact .inr ⟨row, here, rfl, fun _ _ same => decide_eq_false (not_not_intro same)⟩
      · exact .inl old
  refine { shrunk with adding := ?_, removing := ?_ }
  · exact fun other member => stored.adding other ((List.mem_or_eq_of_mem_set member).resolve_right nofun)
  · intro other member
    rcases List.mem_or_eq_of_mem_set member with old | new
    · exact List.mem_cons_of_mem _ (stored.removing other old)
    · rw [Request.removeAudit.inj new]
      exact List.mem_cons_self

/-- The change of a request is answered, which was stored or deleted before. -/
theorem Stored.answer {state : State} {before place : ℕ} (stored : Stored state before) (change : Change)
    (made : match change with
      | .added id => id ∈ state.added
      | .removed id => id ∈ state.removed) (cache : Cache (List Node)) :
    Stored
      { state with
        cache
        requests := state.requests.set place .answered
        answers := ⟨change, before⟩ :: state.answers } (before + 1) where
  single := stored.single
  added := stored.added
  gone := stored.gone
  early := by
    intro answer member
    rcases List.mem_cons.mp member with rfl | old
    · exact Nat.lt_succ_self _
    · exact Nat.lt_succ_of_lt (stored.early answer old)
  answered := by
    intro id moment member
    rcases List.mem_cons.mp member with new | old
    · obtain ⟨rfl, -⟩ := Answer.mk.inj new
      exact made
    · exact stored.answered id moment old
  dropped := by
    intro id moment member
    rcases List.mem_cons.mp member with new | old
    · obtain ⟨rfl, -⟩ := Answer.mk.inj new
      exact made
    · exact stored.dropped id moment old
  adding := fun id member => stored.adding id ((List.mem_or_eq_of_mem_set member).resolve_right nofun)
  removing := fun id member => stored.removing id ((List.mem_or_eq_of_mem_set member).resolve_right nofun)

theorem Registry.hasLocal_insert (registry : Registry) (name host : String) (role : Role) (online : Bool) :
    (registry.insert name host role online false).hasLocal = registry.hasLocal := by
  simp [Registry.hasLocal, Registry.insert]

theorem Registry.hasLocal_of_keep {registry : Registry} {kept : FleetRow → Bool}
    (none : registry.hasLocal = false) : (registry.keep kept).hasLocal = false := by
  rw [Registry.hasLocal, List.any_eq_false] at none ⊢
  exact fun row member => none row (List.mem_of_mem_filter member)

theorem Registry.hasLocal_keep {registry : Registry} {kept : FleetRow → Bool} (present : registry.hasLocal)
    (stays : ∀ row ∈ registry.rows, row.isLocal → kept row) : (registry.keep kept).hasLocal := by
  obtain ⟨row, member, here⟩ := List.any_eq_true.mp present
  exact List.any_eq_true.mpr ⟨row, List.mem_filter.mpr ⟨member, stays row member here⟩, here⟩

/-- An addNode or a removeNode goes on. -/
theorem Sound.request {state : State} (sound : Sound state state.cache.moment) {hostname : String}
    {place : ℕ} {reachable : Bool} (allowed : state.Allowed hostname (.request place reachable)) (moment : ℕ) :
    Sound { state.request place reachable with cache := { (state.request place reachable).cache with moment } }
      (state.cache.moment + 1) := by
  -- A request that answers without a change.
  have refused : Sound
      { state with cache := { state.cache with moment }, requests := state.requests.set place .answered }
      (state.cache.moment + 1) := by
    refine sound.quiet ?_ rfl rfl rfl rfl (sound.served.quiet rfl rfl rfl fun _ found => found)
      fun _ member => .inl member
    refine sound.stored.quiet rfl rfl rfl rfl ?_ ?_
    · exact fun _ member => (List.mem_or_eq_of_mem_set member).resolve_right nofun
    · exact fun _ member => (List.mem_or_eq_of_mem_set member).resolve_right nofun
  have still : Sound { state with cache := { state.cache with moment } } (state.cache.moment + 1) := by
    refine sound.quiet ?_ rfl rfl rfl rfl (sound.served.quiet rfl rfl rfl fun _ found => found)
      fun _ member => .inl member
    exact sound.stored.quiet rfl rfl rfl rfl (fun _ member => member) fun _ member => member
  -- An answer comes at this moment, and the state before has those that came sooner.
  have answer (change : Change) {given : Answer}
      (member : given ∈ ⟨change, state.cache.moment⟩ :: state.answers) (sooner : given.moment < state.cache.moment) :
      given ∈ state.answers := by
    rcases List.mem_cons.mp member with rfl | old
    · exact absurd sooner (Nat.lt_irrefl _)
    · exact old
  unfold State.request
  cases found : state.requests[place]? with
  | none => exact still
  | some request =>
    cases request with
    | answered => exact still
    | addProbe name host role =>
      dsimp only
      split
      · exact refused
      · refine sound.change (sound.stored.stores name host role reachable _)
          ⟨List.Subset.refl _, fun _ member _ => member⟩ ?_ ?_ rfl rfl rfl rfl rfl
        · exact fun none => (Registry.hasLocal_insert ..).trans none
        · exact fun _ _ _ present => (Registry.hasLocal_insert ..).trans present
    | addAudit id =>
      have made := sound.stored.adding id (List.mem_of_getElem? found)
      refine sound.change (sound.stored.answer (.added id) made _)
        ⟨List.Subset.refl _, fun _ member sooner => answer _ member sooner⟩ ?_ ?_ rfl rfl rfl rfl rfl
      · exact fun none => none
      · exact fun _ _ _ present => present
    | removeAudit id =>
      have made := sound.stored.removing id (List.mem_of_getElem? found)
      refine sound.change (sound.stored.answer (.removed id) made _)
        ⟨List.Subset.refl _, fun _ member sooner => answer _ member sooner⟩ ?_ ?_ rfl rfl rfl rfl rfl
      · exact fun none => none
      · exact fun _ _ _ present => present
    | removeDelete id =>
      have free : (Request.removeDelete id).Allowed state := allowed _ found
      dsimp only
      split
      next present =>
        have there : ∃ row ∈ state.registry.rows, row.id = id := by simpa using present
        refine sound.change (sound.stored.delete there _)
          ⟨List.subset_cons_self .., fun _ member _ => member⟩ ?_ ?_ rfl rfl rfl rfl rfl
        · exact fun none => Registry.hasLocal_of_keep none
        · -- The row is not the local one while a probe relies on that.
          intro body member relies present
          refine Registry.hasLocal_keep present fun row inside here => decide_eq_true fun same => ?_
          rw [free ⟨row, inside, same, here⟩ body member] at relies
          cases relies
      next => exact refused

/-! ### The probe -/

/-- The outcomes of the probes stay those of their bodies. -/
theorem outcomes_complete {probes : List (Probe (List Node))} {bodies : List Body}
    (outcomes : probes.map Probe.outcome = bodies.map Body.outcome) {index : ℕ} {body after : Body}
    (found : bodies[index]? = some body) (pending : body.outcome = .pending) :
    (probes.modify index (·.settle after.outcome)).map Probe.outcome =
      (bodies.set index after).map Body.outcome := by
  apply List.ext_getElem?
  intro place
  have here : (probes[place]?).map Probe.outcome = (bodies[place]?).map Body.outcome := by
    rw [← List.getElem?_map, outcomes, List.getElem?_map]
  rw [List.getElem?_map, List.getElem?_map]
  by_cases same : index = place
  · subst same
    rw [found] at here
    obtain ⟨probe, there, was⟩ := Option.map_eq_some_iff.mp here
    rw [List.getElem?_modify_eq, List.getElem?_set_self (List.getElem?_eq_some_iff.mp found).1, there]
    simp [Probe.settle, was, pending]
  · rw [List.getElem?_modify_ne _ _ same, List.getElem?_set_ne same]
    exact here

/-- A probe that has not settled goes on. -/
theorem Sound.goes {state next : State} {before : ℕ} (sound : Sound state before) {index : ℕ} {body after : Body}
    (found : state.bodies[index]? = some body) (pending : body.outcome = .pending)
    (stored : Stored next (before + 1)) (later : Later state next before)
    (holds : after.Holds next (before + 1))
    (read : ∀ read, after.read? = some read → body.read? = some read ∨ before ≤ read)
    (bodies : next.bodies = state.bodies.set index after)
    (probes : next.cache.probes = state.cache.probes.modify index (·.settle after.outcome))
    (inflight : next.cache.inflight = state.cache.inflight)
    (settled : next.cache.settled = state.cache.settled) (calls : next.cache.calls = state.cache.calls) :
    Sound next (before + 1) := by
  have flight := sound.served.flight index body found pending
  have at_place {place : ℕ} {given : Body} (here : next.bodies[place]? = some given) :
      index ≠ place ∧ state.bodies[place]? = some given ∨ index = place ∧ given = after := by
    rw [bodies, List.getElem?_set] at here
    by_cases same : index = place
    · subst same
      rw [if_pos rfl, if_pos (List.getElem?_eq_some_iff.mp found).1] at here
      exact .inr ⟨rfl, (Option.some.inj here).symm⟩
    · rw [if_neg same] at here
      exact .inl ⟨same, here⟩
  refine ⟨stored, ?_, ⟨?_, ?_, ?_⟩, ?_⟩
  · intro given member
    obtain ⟨place, here⟩ := List.mem_iff_getElem?.mp member
    rcases at_place here with ⟨other, there⟩ | ⟨-, rfl⟩
    · -- No other probe is running.
      have settled : given.outcome ≠ .pending := fun running =>
        other (Option.some.inj (flight.symm.trans (sound.served.flight place given there running)))
      refine (sound.bodies given (List.mem_of_getElem? there)).later later ?_ ?_
      · rintro rfl
        exact absurd rfl settled
      · intro relies
        cases given <;> first | exact absurd rfl settled | cases relies
    · exact holds
  · rw [probes, bodies]
    exact outcomes_complete sound.served.outcomes found pending
  · intro place given here running
    rw [inflight]
    rcases at_place here with ⟨-, there⟩ | ⟨rfl, -⟩
    · exact sound.served.flight place given there running
    · exact flight
  · intro hit here
    rw [settled] at here
    obtain ⟨read, done⟩ := sound.served.settled hit here
    refine ⟨read, ?_⟩
    rw [bodies, List.getElem?_set_ne]
    · exact done
    · rintro rfl
      rw [Option.some.inj (found.symm.trans done)] at pending
      cases pending
  · intro call member
    obtain ⟨here, ttl, started, answered⟩ := sound.calls call (calls ▸ member)
    refine ⟨here, ttl, Nat.lt_succ_of_lt started, answered.later (Nat.le_of_lt started) later ?_⟩
    intro place given moment there past
    rcases at_place there with ⟨-, old⟩ | ⟨rfl, rfl⟩
    · exact .inl ⟨given, old, past⟩
    · exact (read moment past).imp_left fun same => ⟨body, found, same⟩

/-- The rows of the table, in any order, show the changes that were answered. -/
theorem Stored.reads {state : State} {before : ℕ} (stored : Stored state before)
    (present : state.registry.hasLocal) {rows : List FleetRow} (perm : rows.Perm state.registry.rows) :
    ReadsWrites state before (rowMarks rows) := by
  have ids : (rowMarks rows).map Prod.fst = rows.map fun row => .row row.id := List.map_map ..
  have mem_iff (id : ℕ) : .row id ∈ (rowMarks rows).map Prod.fst ↔ id ∈ state.registry.rows.map (·.id) := by
    rw [ids, (perm.map _).mem_iff]
    simp
  refine ⟨?_, ?_, ?_, ?_⟩
  · intro id moment member _
    rw [mem_iff]
    exact stored.added id (stored.answered id moment member)
  · intro id moment member _
    rw [mem_iff]
    exact (stored.gone id (stored.dropped id moment member)).2
  · rw [ids, (perm.map _).nodup_iff]
    have nodup := state.registry.nodup
    have rows : state.registry.rows.Nodup := List.Nodup.of_map _ nodup
    rw [List.nodup_map_iff_inj_on rows] at nodup ⊢
    exact fun first one second two same => nodup first one second two (NodeId.row.inj same)
  · have one : (rowMarks rows).countP Prod.snd = state.registry.rows.countP (·.isLocal) := by
      rw [rowMarks, List.countP_map, perm.countP_eq]
      rfl
    rw [one]
    obtain ⟨row, member, here⟩ := List.any_eq_true.mp present
    exact Nat.le_antisymm stored.single (List.countP_pos_iff.mpr ⟨row, member, here⟩)

/-- New peers of distinct names leave what a list of rows shows. -/
theorem ReadsWrites.append {state : State} {before : ℕ} {out : List Node}
    (reads : ReadsWrites state before (marksOf out)) (plain : Plain out) {peers : List MachinePeer}
    (distinct : (peers.map (·.name)).Nodup) (reachable : String → Bool) :
    ReadsWrites state before (marksOf (out ++ peers.map (peerNode reachable))) := by
  have peerMarks : marksOf (peers.map (peerNode reachable)) =
      peers.map fun peer => (.cockpit peer.name, false) := List.map_map ..
  have split : marksOf (out ++ peers.map (peerNode reachable)) =
      marksOf out ++ peers.map fun peer => (.cockpit peer.name, false) := by
    rw [← peerMarks]
    exact List.map_append
  rw [split]
  refine ⟨?_, ?_, ?_, ?_⟩
  · intro id moment member sooner
    rw [List.map_append]
    exact (reads.added id moment member sooner).imp_left (List.mem_append_left _)
  · intro id moment member sooner inside
    rw [List.map_append, List.map_map] at inside
    rcases List.mem_append.mp inside with row | peer
    · exact reads.removed id moment member sooner row
    · obtain ⟨_, _, same⟩ := List.mem_map.mp peer
      cases same
  · rw [List.map_append, List.map_map, List.nodup_append]
    refine ⟨reads.distinct, ?_, ?_⟩
    · have names : (peers.map fun peer => NodeId.cockpit peer.name) =
          (peers.map (·.name)).map .cockpit := (List.map_map ..).symm
      change (peers.map fun peer => NodeId.cockpit peer.name).Nodup
      rw [names]
      exact distinct.map fun _ _ same => NodeId.cockpit.inj same
    · intro id inside other peer same
      rw [marksOf, List.map_map] at inside
      obtain ⟨node, member, rfl⟩ := List.mem_map.mp inside
      obtain ⟨row, named⟩ := plain node member
      obtain ⟨_, _, rfl⟩ := List.mem_map.mp peer
      cases named.symm.trans same
  · rw [List.countP_append, reads.one, List.countP_map]
    simp

theorem marksOf_nodeOf (rows : List FleetRow) (reachable : String → Bool) :
    marksOf (rows.map (nodeOf reachable)) = rowMarks rows := List.map_map ..

/-- A settled probe is as it was. -/
theorem probe_of_settled {state : State} (served : Served state) {index : ℕ} {body : Body}
    (found : state.bodies[index]? = some body) (settled : body.outcome ≠ .pending) :
    state.bodies.set index body = state.bodies ∧ state.cache.complete index body.outcome = state.cache := by
  constructor
  · obtain ⟨inside, rfl⟩ := List.getElem?_eq_some_iff.mp found
    exact List.set_getElem_self inside
  · have come : state.cache.outcome? index = some body.outcome := by
      rw [outcome_of_body served, found, Option.map_some]
    obtain ⟨probe, there, same⟩ := Option.map_eq_some_iff.mp come
    have stays : probe.settle body.outcome = probe := by
      unfold Probe.settle
      split
      next pending => exact absurd (same.symm.trans pending) settled
      next => rfl
      next => rfl
    have probes : state.cache.probes.modify index (·.settle body.outcome) = state.cache.probes := by
      apply List.ext_getElem?
      intro place
      by_cases here : index = place
      · subst here
        rw [List.getElem?_modify_eq, there]
        exact congrArg some stays
      · exact List.getElem?_modify_ne _ _ here
    rw [Cache.complete, probes]

/-- A probe goes on. -/
theorem Sound.probe {state : State} (sound : Sound state state.cache.moment) {hostname : String} {index : ℕ}
    {input : Input} (allowed : state.Allowed hostname (.probe index input)) (moment : ℕ) :
    Sound
      { state.probe hostname index input with
        cache := { (state.probe hostname index input).cache with moment } } (state.cache.moment + 1) := by
  have stored : ∀ cache bodies migrationDone, Stored { state with cache, bodies, migrationDone }
      (state.cache.moment + 1) :=
    fun _ _ _ => sound.stored.quiet rfl rfl rfl rfl (fun _ member => member) fun _ member => member
  have still : Sound { state with cache := { state.cache with moment } } (state.cache.moment + 1) :=
    sound.quiet (stored _ _ _) rfl rfl rfl rfl (sound.served.quiet rfl rfl rfl fun _ found => found)
      fun _ member => .inl member
  unfold State.probe
  cases found : state.bodies[index]? with
  | none => exact still
  | some body =>
    have held := sound.bodies body (List.mem_of_getElem? found)
    have allowed : body.Allowed hostname state input := allowed body found
    -- The state where a running probe has gone on.
    let next (registry : Registry) (migrationDone : Bool) (after : Body) : State :=
      { state with
        registry
        migrationDone
        bodies := state.bodies.set index after
        cache := { state.cache.complete index after.outcome with moment } }
    have later (registry : Registry) (migrationDone : Bool) (after : Body) :
        Later state (next registry migrationDone after) state.cache.moment :=
      ⟨List.Subset.refl _, fun _ member _ => member⟩
    have moves (pending : body.outcome = .pending) (registry : Registry) (migrationDone : Bool) (after : Body)
        (stored : Stored (next registry migrationDone after) (state.cache.moment + 1))
        (holds : after.Holds (next registry migrationDone after) (state.cache.moment + 1))
        (read : ∀ read, after.read? = some read → body.read? = some read ∨ state.cache.moment ≤ read) :
        Sound (next registry migrationDone after) (state.cache.moment + 1) :=
      sound.goes found pending stored (later registry migrationDone after) holds read rfl rfl rfl rfl rfl
    have early {read : ℕ} (sooner : read < state.cache.moment) : read < state.cache.moment + 1 :=
      Nat.lt_succ_of_lt sooner
    have keeps {read : ℕ} {marks : List (NodeId × Bool)} (after : Body) (sooner : read < state.cache.moment)
        (reads : ReadsWrites state read marks) :
        ReadsWrites (next state.registry state.migrationDone after) read marks :=
      reads.later (later _ _ _) (Nat.le_of_lt sooner)
    cases body with
    | failed => exact held.elim
    | done read out =>
      obtain ⟨bodies, cache⟩ := probe_of_settled sound.served found nofun
      dsimp only [State.advance]
      rw [bodies, cache]
      exact still
    | findLocal =>
      dsimp only [State.advance]
      cases present : state.registry.hasLocal with
      | true => exact moves rfl _ _ .located (stored _ _ _) present fun _ => nofun
      | false => exact moves rfl _ _ .createLocal (stored _ _ _) present fun _ => nofun
    | createLocal =>
      have free : state.registry.named hostname = false := allowed
      dsimp only [State.advance]
      rw [free]
      refine moves rfl _ _ .located (sound.stored.insert _ _ _ _ _ (fun _ => held) _ _) ?_ fun _ => nofun
      exact List.any_eq_true.mpr ⟨_, List.mem_append_right _ (List.mem_singleton_self _), rfl⟩
    | located =>
      dsimp only [State.advance]
      cases state.migrationDone with
      | true => exact moves rfl _ _ .findMany (stored _ _ _) held fun _ => nofun
      | false => exact moves rfl _ true .purge (stored _ _ _) held fun _ => nofun
    | purge =>
      dsimp only [State.advance]
      refine moves rfl _ _ .findMany (sound.stored.keep (List.Subset.refl _) ?_ (fun _ => .inl) _ _) ?_
        fun _ => nofun
      · intro row member stored
        refine .inl ?_
        cases legacy : row.legacy with
        | false => rfl
        | true => exact absurd stored (allowed row member legacy)
      · refine Registry.hasLocal_keep held fun row _ here => ?_
        simp [FleetRow.legacy, here]
    | findMany =>
      refine moves rfl _ _ (.probing state.cache.moment _) (stored _ _ _) ⟨Nat.lt_succ_self _, ?_⟩ ?_
      · exact (sound.stored.reads held (List.mergeSort_perm ..)).later (later _ _ _) (Nat.le_refl _)
      · exact fun _ same => .inr (Option.some.inj same).le
    | probing read rows =>
      refine moves rfl _ _ (.discovering read _) (stored _ _ _) ⟨early held.1, ?_, ?_⟩ fun _ => .inl
      · rw [marksOf_nodeOf]
        exact keeps _ held.1 held.2
      · intro node member
        obtain ⟨row, -, rfl⟩ := List.mem_map.mp member
        exact ⟨row.id, rfl⟩
    | discovering read out =>
      refine moves rfl _ _ (.probingPeers read out _) (stored _ _ _)
        ⟨early held.1, keeps _ held.1 held.2.1, held.2.2, allowed⟩ fun _ => .inl
    | probingPeers read out newPeers =>
      refine moves rfl _ _ (.done read _) (stored _ _ _) ⟨early held.1, ?_⟩ fun _ => .inl
      exact keeps _ held.1 (held.2.1.append held.2.2.1 held.2.2.2 input.reachable)

/-! ### The runs -/

theorem sound_start {registry : Registry} (single : registry.rows.countP (·.isLocal) ≤ 1) :
    Sound (State.start registry) 0 where
  stored := ⟨single, nofun, nofun, nofun, nofun, nofun, nofun, nofun⟩
  bodies := nofun
  served := ⟨rfl, nofun, nofun⟩
  calls := nofun

/-- An event keeps the state sound. -/
theorem Sound.step {state : State} (sound : Sound state state.cache.moment) {hostname : String} {event : Event}
    (allowed : state.Allowed hostname event) :
    Sound (state.step hostname event) (state.step hostname event).cache.moment := by
  cases event with
  | nodes now => exact sound.nodes allowed _
  | probe index input => exact sound.probe allowed _
  | resume now index => exact sound.resume now index _
  | evict => exact sound.evict _
  | addNode name host role => exact sound.arrive _ (addNode_ne name host role).1 (addNode_ne name host role).2
  | removeNode id => exact sound.arrive _ (removeNode_ne id).1 (removeNode_ne id).2
  | request place reachable => exact sound.request allowed _

theorem Sound.correct {state : State} {before : ℕ} (sound : Sound state before) : Correct state := by
  intro call member
  obtain ⟨-, -, -, answered⟩ := sound.calls call member
  unfold Answered at answered
  constructor
  · intro thrown
    rw [thrown] at answered
    exact answered
  · intro produced reply
    rw [reply] at answered
    exact answered

/-- In every run whose events are all allowed, from a table with at most one local node, every list shows the
changes that were answered before its call. -/
theorem fleet_reads_writes (hostname : String) (registry : Registry)
    (single : registry.rows.countP (·.isLocal) ≤ 1) (events : List Event)
    (allowed : Along (State.step hostname) (State.Allowed hostname) (State.start registry) events) :
    Correct (run (State.step hostname) (State.start registry) events) := by
  have sound : Sound (run (State.step hostname) (State.start registry) events)
      (run (State.step hostname) (State.start registry) events).cache.moment := by
    apply @Execution.invariant_along _ _ (State.step hostname) (fun state => Sound state state.cache.moment)
      (State.Allowed hostname)
    · exact fun _ _ allowed sound => sound.step allowed
    · exact sound_start single
    · exact allowed
  exact sound.correct

/-- A table with the local node alone. -/
def localOnly : Registry where
  rows := [⟨0, "tower", "127.0.0.1", .control, true, true⟩]
  nextId := 1
  nodup := by decide
  bound := by decide

def allReachable : Input := ⟨fun _ => true, []⟩

def addWeb : List Event := [.addNode "web" "10.0.0.2" "edge", .request 0 true, .request 0 true]

/-- The awaits of a whole probe. -/
def wholeProbe (index : ℕ) : List Event := List.replicate 7 (.probe index allReachable)

/-- A poll, and one after its list has expired; before each a change was answered. -/
def polls : List Event :=
  addWeb ++ [.nodes 0] ++ wholeProbe 0 ++ [.resume 0 0, .removeNode (some (.row 1)), .request 1 true, .request 1 true,
    .nodes 20000] ++ wholeProbe 1 ++ [.resume 20000 1]

theorem fleet_reads_writes_polls :
    localOnly.rows.countP (·.isLocal) ≤ 1 ∧
      Along (State.step "tower") (State.Allowed "tower") (State.start localOnly) polls ∧
      Correct (run (State.step "tower") (State.start localOnly) polls) := by
  have allowed : Along (State.step "tower") (State.Allowed "tower") (State.start localOnly) polls := by
    decide +kernel
  exact ⟨by decide, allowed, fleet_reads_writes "tower" localOnly (by decide) polls allowed⟩

/-- A node is added within ten seconds of a poll, and a call after the answer is served the list of before. -/
theorem fleet_addedUnseen :
    ¬ Correct (run (State.step "tower") (State.start localOnly)
      ([.nodes 0] ++ wholeProbe 0 ++ [.resume 0 0] ++ addWeb ++ [.nodes 5000])) := by
  intro correct
  have served : ⟨key, 10000, 12, .value ⟨0, [⟨.row 0, "tower", "127.0.0.1", .control, true, true⟩]⟩⟩ ∈
      (run (State.step "tower") (State.start localOnly)
        ([.nodes 0] ++ wholeProbe 0 ++ [.resume 0 0] ++ addWeb ++ [.nodes 5000])).cache.calls := by
    decide +kernel
  have answered : ⟨.added 1, 11⟩ ∈ (run (State.step "tower") (State.start localOnly)
      ([.nodes 0] ++ wholeProbe 0 ++ [.resume 0 0] ++ addWeb ++ [.nodes 5000])).answers := by
    decide +kernel
  have kept : 1 ∉ (run (State.step "tower") (State.start localOnly)
      ([.nodes 0] ++ wholeProbe 0 ++ [.resume 0 0] ++ addWeb ++ [.nodes 5000])).removed := by
    decide +kernel
  have reads := (correct _ served).2 _ rfl
  rcases reads.added 1 11 answered (by decide) with listed | removed
  · exact absurd listed (by decide)
  · exact kept removed

end SysDeck.Web.Fleet
