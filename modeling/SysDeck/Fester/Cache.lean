import SysDeck.Fester.EventProtocol

/-! Cache soundness: an entry of the content-addressed cache names a build in
which the action of that hash ran and was done, so a hit repeats a success. -/

namespace SysDeck.Fester

variable {hashAction : HashedAction → String}

/-- The action of this name ran in the run and was done, not served from the cache. -/
structure BuildRun.Executed (run : BuildRun) (name : String) (action : ActionNode) : Prop where
  present : run.actions.find? name = some action
  done : action.state = .done
  missed : action.cacheHit = false
  ran : TaskToken.running ∈ run.word name

/-- The run produced the entry of this key. -/
def BuildRun.Produces (hashAction : HashedAction → String) (run : BuildRun) (key : String) : Prop :=
  ∃ name action, run.Executed name action ∧ hashAction action.hashed = key

/-- The action is completed from the cache, now or after its sleep. -/
def ActionNode.served (action : ActionNode) : Prop :=
  action.cacheHit = true ∨ ∃ decision key, action.point = .cacheWait decision key

theorem View.hashed_eq {context : Context} {action changed : ActionNode}
    {events : List FesterEvent} (view : View hashAction context action events changed) :
    changed.hashed = action.hashed := by
  cases view with
  | still => rfl
  | gated move => cases move <;> rfl
  | acted step => simp [ActionNode.hashed, step.name_eq, step.deps_eq.1, step.deps_eq.2.1]

/-- A completed action is not touched by the cache any more. -/
theorem View.hit_of_done {context : Context} {action changed : ActionNode}
    {events : List FesterEvent} (view : View hashAction context action events changed)
    (valid : StateAt hashAction context.run action) (done : action.state = .done) :
    changed.cacheHit = action.cacheHit := by
  cases view with
  | still => rfl
  | gated move => cases move <;> rfl
  | acted step =>
    cases step with
    | cached now decision key point => simp [StateAt, point, done] at valid
    | _ => rfl

theorem Micro.word_grows {context next : Context} (step : Micro hashAction context next)
    (valid : RunInvariant hashAction context.run) {name : String} {action : ActionNode}
    (found : context.run.actions.find? name = some action) {token : TaskToken}
    (spelt : token ∈ context.run.word name) : token ∈ next.run.word name := by
  obtain ⟨changed, events, _, appended, _⟩ := step.view found (valid.named name action found)
  simp only [BuildRun.word, appended, List.filterMap_append]
  exact List.mem_append_left _ spelt

/-- An executed action stays executed. -/
theorem Micro.executed {context next : Context} (step : Micro hashAction context next)
    (valid : RunInvariant hashAction context.run) {name : String} {action : ActionNode}
    (executed : context.run.Executed name action) :
    ∃ changed, next.run.Executed name changed ∧ changed.hashed = action.hashed := by
  obtain ⟨found, done, missed, ran⟩ := executed
  obtain ⟨changed, events, present, _, view⟩ := step.view found (valid.named name action found)
  have placed := (valid.coherent name action found).1
  refine ⟨changed, ⟨present, ?_, ?_, step.word_grows valid found ran⟩, view.hashed_eq⟩
  · rw [view.ended placed (by rw [done]; rfl), done]
  · rw [view.hit_of_done placed done, missed]

theorem Micro.produces {context next : Context} (step : Micro hashAction context next)
    (valid : RunInvariant hashAction context.run) {key : String}
    (produces : context.run.Produces hashAction key) : next.run.Produces hashAction key := by
  obtain ⟨name, action, executed, rfl⟩ := produces
  obtain ⟨changed, still, same⟩ := step.executed valid executed
  exact ⟨name, changed, still, by rw [same]⟩

theorem Evolves.produces {run next : BuildRun} (evolves : Evolves hashAction run next)
    (valid : RunInvariant hashAction run) {key : String}
    (produces : run.Produces hashAction key) : next.Produces hashAction key :=
  (evolves.preserves (motive := fun run => run.Produces hashAction key)
    (fun _ _ valid step => step.produces valid) valid produces).2

theorem opened_running_mem (number : Nat) : TaskToken.running ∈ tried number := by
  simp [tried, attempts]

/-- A new cache entry comes from an action of this run that was just done. -/
theorem Micro.fills {context next : Context} (step : Micro hashAction context next)
    (valid : RunInvariant hashAction context.run) (spelling : Spelling context.run)
    {key buildId : String} (found : next.cas.find? key = some buildId) :
    context.cas.find? key = some buildId ∨
      (buildId = context.run.buildId ∧ next.run.Produces hashAction key) := by
  rcases step.acts_or_rests with ⟨action, changed, events, slot, entry, present, own, rfl⟩ | rests
  · cases entry with
    | none => exact .inl found
    | some filledKey =>
      change (context.cas.set filledKey context.run.buildId).find? key = some buildId at found
      rw [OrderedMap.find?_set] at found
      split at found
      · rename_i same
        subst same
        obtain rfl := Option.some.inj found
        refine .inr ⟨rfl, action.name, changed, ?_, ?_⟩
        · have coherent := valid.coherent action.name action present
          have spelt := spelling action.name action present
          cases own with
          | done now attempt point live succeeds =>
            refine ⟨BuildRun.find?_put present rfl, rfl, ?_, ?_⟩
            · obtain ⟨placed, hit⟩ := coherent
              simp only [StateAt, point] at placed
              cases served : action.cacheHit with
              | false => exact served
              | true => simp [placed.2] at hit; simp [hit] at served
            · simp only [WordAt, point] at spelt
              refine step.word_grows valid present ?_
              rw [spelt]
              exact opened_running_mem attempt.number
        · have placed := (valid.coherent action.name action present).1
          cases own with
          | done now attempt point live succeeds =>
            simp only [StateAt, point] at placed
            exact placed.1.1.2.symm
      · exact .inl found
  · rw [rests.cas] at found
    exact .inl found

/-- Entries are replaced but never removed. -/
theorem Micro.cas_keeps {context next : Context} (step : Micro hashAction context next)
    {key : String} (stored : context.cas.contains key = true) : next.cas.contains key = true := by
  rcases step.acts_or_rests with ⟨action, changed, events, slot, entry, present, own, rfl⟩ | rests
  · cases entry with
    | none => exact stored
    | some filledKey =>
      change (context.cas.set filledKey context.run.buildId).contains key = true
      simp only [OrderedMap.contains, OrderedMap.find?_set]
      split
      · rfl
      · exact stored
  · rw [rests.cas]
    exact stored

/-- Every action of the run that the cache serves has its entry. -/
def Served (hashAction : HashedAction → String) (context : Context) : Prop :=
  ∀ name action, context.run.actions.find? name = some action → action.served →
    context.cas.contains (hashAction action.hashed) = true

theorem ActionStep.served {context : Context} {action changed : ActionNode}
    {events : List FesterEvent} {slot : Slot} {key : Option String}
    (step : ActionStep hashAction context action events slot key changed)
    (stored : action.served → context.cas.contains (hashAction action.hashed) = true)
    (served : changed.served) : context.cas.contains (hashAction action.hashed) = true := by
  cases step with
  | schedule now decision next point live registered onward =>
    rcases onward with ⟨_, _, present⟩ | ⟨rfl, _⟩
    · exact present
    · rcases served with hit | ⟨_, _, waiting⟩
      · exact stored (.inl hit)
      · cases waiting
  | cached now decision key point => exact stored (.inr ⟨decision, key, point⟩)
  | skip | windDown => exact stored served
  | enter | abandon | cancel | start | retry | fail | done | again | stamp =>
    rcases served with hit | ⟨_, _, waiting⟩
    · exact stored (.inl hit)
    · cases waiting

theorem Served.micro {context next : Context} (valid : RunInvariant hashAction context.run)
    (step : Micro hashAction context next) (served : Served hashAction context) :
    Served hashAction next := by
  intro name changed found hit
  obtain ⟨action, events, present, _, view⟩ := step.before valid.named found
  apply step.cas_keeps
  rw [view.hashed_eq]
  have stored := served name action present
  cases view with
  | still => exact stored hit
  | acted own => exact own.served stored hit
  | gated move =>
    rcases hit with hit | ⟨_, _, waiting⟩
    · refine stored (.inl ?_)
      cases move <;> exact hit
    · cases move <;> cases waiting

/-- What a sequence of moves of one run does to the cache. -/
structure Caching (hashAction : HashedAction → String) (context next : Context) : Prop where
  fills : ∀ key buildId, next.cas.find? key = some buildId →
    context.cas.find? key = some buildId ∨
      (buildId = next.run.buildId ∧ next.run.Produces hashAction key)
  keeps : ∀ key, context.cas.contains key = true → next.cas.contains key = true
  served : Served hashAction next

theorem Moves.caching {context next : Context} (moves : Moves hashAction context next)
    (valid : RunInvariant hashAction context.run) (spelling : Spelling context.run)
    (served : Served hashAction context) : Caching hashAction context next := by
  have chain : Spelling next.run ∧ Caching hashAction context next := by
    induction moves with
    | refl => exact ⟨spelling, fun _ _ => .inl, fun _ => id, served⟩
    | tail before step ih =>
      obtain ⟨spelling, fills, keeps, served⟩ := ih
      have middle := valid.moves before
      refine ⟨spelling.micro middle step, ?_, fun key stored => step.cas_keeps (keeps key stored),
        served.micro middle step⟩
      intro key buildId found
      rcases step.fills middle spelling found with old | ⟨same, produces⟩
      · rcases fills key buildId old with oldest | ⟨same, produces⟩
        · exact .inl oldest
        · exact .inr ⟨same.trans step.frame.buildId.symm, step.produces middle produces⟩
      · exact .inr ⟨same.trans step.frame.buildId.symm, produces⟩
  exact chain.2

theorem newRun_served (engine : Engine) (now : Nat) (project : String) (targets : List String)
    (opts : BuildOptions) :
    Served hashAction (startContext engine (newRun now project targets opts)) := by
  intro name action found hit
  obtain ⟨_, _, step, _, _, rfl⟩ := newRun_origin found
  rcases hit with hit | ⟨_, _, waiting⟩
  · cases hit
  · cases waiting

/-- Every entry was produced by a run of its build, and every action the cache
serves has its entry. -/
structure Engine.CacheSound (hashAction : HashedAction → String) (engine : Engine) : Prop where
  entries : ∀ key buildId, engine.cas.find? key = some buildId →
    ∃ (index : Nat) (run : BuildRun), engine.created[index]? = some run ∧ run.buildId = buildId ∧
      run.Produces hashAction key
  served : ∀ (index : Nat) (run : BuildRun), engine.created[index]? = some run →
    Served hashAction (engine.context run)

/-- What produced an entry keeps doing so. -/
theorem EngineStep.produced {engine next : Engine} {label : Label}
    (move : EngineStep hashAction engine label next) (sound : engine.Sound hashAction)
    {index : Nat} {run : BuildRun} (found : engine.created[index]? = some run) {key : String}
    (produces : run.Produces hashAction key) :
    ∃ later, next.created[index]? = some later ∧ later.buildId = run.buildId ∧
      later.Produces hashAction key := by
  obtain ⟨later, present, evolves⟩ := move.evolves found
  exact ⟨later, present, evolves.buildId_eq, evolves.produces (sound index run found) produces⟩

theorem EngineStep.cacheSound {labels : List Label} {label : Label} {next : Engine}
    (move : EngineStep hashAction (Engine.after hashAction labels) label next)
    (cached : (Engine.after hashAction labels).CacheSound hashAction) :
    next.CacheSound hashAction := by
  have kept : ∀ key buildId, (Engine.after hashAction labels).cas.find? key = some buildId →
      ∃ (index : Nat) (run : BuildRun), next.created[index]? = some run ∧ run.buildId = buildId ∧
        run.Produces hashAction key := by
    intro key buildId found
    obtain ⟨index, run, present, rfl, produces⟩ := cached.entries key buildId found
    obtain ⟨later, there, same, still⟩ :=
      move.produced (Engine.sound_after labels) present produces
    exact ⟨index, later, there, same, still⟩
  cases move with
  | still quiet store same => exact ⟨kept, cached.served⟩
  | @run _ index run next found _ moves =>
    obtain ⟨valid, spelling, _⟩ := protocol_after labels found
    have caching := moves.caching valid spelling (cached.served index run found)
    have here := Engine.getElem?_update found next index
    rw [if_pos rfl] at here
    refine ⟨?_, ?_⟩
    · intro key buildId stored
      rcases caching.fills key buildId stored with old | ⟨rfl, produces⟩
      · exact kept key buildId old
      · exact ⟨index, next.run, here, rfl, produces⟩
    · intro other result present
      rw [Engine.getElem?_update found] at present
      split at present
      · obtain rfl := Option.some.inj present
        exact caching.served
      · intro name action listed hit
        exact caching.keeps _ (cached.served other result present name action listed hit)
  | @start now project targets opts next call _ moves =>
    have caching := moves.caching (newRun_invariant now project targets opts)
      (newRun_spelling now project targets opts) (newRun_served _ now project targets opts)
    refine ⟨?_, ?_⟩
    · intro key buildId stored
      rcases caching.fills key buildId stored with old | ⟨rfl, produces⟩
      · exact kept key buildId old
      · exact ⟨_, next.run, List.getElem?_concat_length, rfl, produces⟩
    · intro other result present
      rcases getElem?_concat_cases present with old | ⟨_, rfl⟩
      · intro name action listed hit
        exact caching.keeps _ (cached.served other result old name action listed hit)
      · exact caching.served

theorem cacheSound_after (hashAction : HashedAction → String) (labels : List Label) :
    (Engine.after hashAction labels).CacheSound hashAction :=
  Engine.invariant_after (motive := fun _ engine => engine.CacheSound hashAction)
    ⟨fun key buildId found => by simp [Engine.init] at found,
      fun index run found => by simp [Engine.init] at found⟩
    (fun _ _ _ move cached => move.cacheSound cached) labels

/-- Some run of the build executed an action that hashes this subject. -/
def Engine.Executed (engine : Engine) (buildId : String) (subject : HashedAction) : Prop :=
  ∃ (index : Nat) (run : BuildRun) (name : String) (action : ActionNode),
    engine.created[index]? = some run ∧ run.buildId = buildId ∧ run.Executed name action ∧
      action.hashed = subject

/-- With a collision-free hash every cache entry stands for one action and names a
build that executed it, and what the cache serves was executed before. -/
theorem cache_soundness (hashAction : HashedAction → String)
    (injective : Function.Injective hashAction) (labels : List Label) :
    let engine := Engine.after hashAction labels
    (∀ key buildId, engine.cas.find? key = some buildId →
      ∃ subject, (∀ other, hashAction other = key ↔ other = subject) ∧
        engine.Executed buildId subject) ∧
    ∀ (index : Nat) (run : BuildRun), engine.created[index]? = some run →
      ∀ name action, run.actions.find? name = some action → action.served →
        ∃ buildId, engine.Executed buildId action.hashed := by
  intro engine
  have cached : engine.CacheSound hashAction := cacheSound_after hashAction labels
  constructor
  · intro key buildId stored
    obtain ⟨index, run, found, same, name, action, executed, rfl⟩ :=
      cached.entries key buildId stored
    exact ⟨action.hashed, fun other => injective.eq_iff,
      index, run, name, action, found, same, executed, rfl⟩
  · intro index run found name action present hit
    obtain ⟨buildId, stored⟩ :=
      Option.isSome_iff_exists.mp (cached.served index run found name action present hit)
    obtain ⟨producer, maker, there, same, original, twin, executed, hashes⟩ :=
      cached.entries _ buildId stored
    exact ⟨buildId, producer, maker, original, twin, there, same, executed, injective hashes⟩

/-- Escape every character of a text and close it. -/
def encodeText (text : String) : List Char :=
  text.toList.flatMap (fun char => ['e', char]) ++ ['c']

theorem encodeText_inj {first second : String} {rest tail : List Char}
    (same : encodeText first ++ rest = encodeText second ++ tail) : first = second ∧ rest = tail := by
  have lists : ∀ left right : List Char,
      left.flatMap (fun char => ['e', char]) ++ ['c'] ++ rest =
        right.flatMap (fun char => ['e', char]) ++ ['c'] ++ tail → left = right ∧ rest = tail := by
    intro left
    induction left with
    | nil =>
      intro right equal
      cases right with
      | nil => exact ⟨rfl, by simpa using equal⟩
      | cons char right => simp at equal
    | cons char left ih =>
      intro right equal
      cases right with
      | nil => simp at equal
      | cons other right =>
        simp only [List.flatMap_cons, List.cons_append, List.nil_append, List.cons.injEq,
          true_and] at equal
        obtain ⟨chars, rests⟩ := ih right equal.2
        exact ⟨by rw [equal.1, chars], rests⟩
  obtain ⟨lettersEq, restEq⟩ := lists first.toList second.toList same
  exact ⟨String.toList_injective lettersEq, restEq⟩

theorem encodeTexts_inj {first second : List String}
    (same : first.flatMap encodeText = second.flatMap encodeText) : first = second := by
  induction first generalizing second with
  | nil =>
    cases second with
    | nil => rfl
    | cons text second => simp [encodeText] at same
  | cons text first ih =>
    cases second with
    | nil => simp [encodeText] at same
    | cons other second =>
      obtain ⟨head, tail⟩ := encodeText_inj (by simpa using same)
      rw [head, ih tail]

/-- A collision-free hash: the texts of the action, each escaped and closed. -/
def HashedAction.encode (subject : HashedAction) : String :=
  String.ofList (encodeText subject.name ++ (encodeText subject.command ++
    subject.deps.flatMap encodeText))

theorem HashedAction.encode_injective : Function.Injective HashedAction.encode := by
  intro first second same
  obtain ⟨names, rest⟩ := encodeText_inj (String.ofList_injective same)
  obtain ⟨commands, deps⟩ := encodeText_inj rest
  have waits := encodeTexts_inj deps
  cases first
  cases second
  simp_all

/-- A first build runs its fetch; a second one takes it from the cache. -/
def cachedBuilds : List Label :=
  let decision : ScheduleDecision := ⟨"ryzen-1", 10, "free"⟩
  let resume (now index : Nat) : Label := .resume now index "nginx:main:fetch" decision
  [.startBuild 0 "nginx" ["main"] {}, resume 1 0, resume 2 0, resume 3 0,
    .startBuild 4 "nginx" ["main"] {}, resume 5 1, resume 6 1]

theorem cache_soundness_hit :
    ∃ run action, (Engine.after HashedAction.encode cachedBuilds).created[1]? = some run ∧
      run.actions.find? "nginx:main:fetch" = some action ∧ action.cacheHit = true ∧
      ∃ buildId, (Engine.after HashedAction.encode cachedBuilds).Executed buildId action.hashed := by
  obtain ⟨run, found⟩ := Option.isSome_iff_exists.mp
    (show ((Engine.after HashedAction.encode cachedBuilds).created[1]?).isSome = true by decide)
  have seen : ((Engine.after HashedAction.encode cachedBuilds).created[1]?).all (fun run =>
      (run.actions.find? "nginx:main:fetch").isSome &&
        (run.actions.find? "nginx:main:fetch").all (·.cacheHit)) = true := by
    decide
  simp only [found, Option.all_some, Bool.and_eq_true] at seen
  obtain ⟨action, present⟩ := Option.isSome_iff_exists.mp seen.1
  have hit : action.cacheHit = true := by simpa [present] using seen.2
  exact ⟨run, action, found, present, hit,
    (cache_soundness HashedAction.encode HashedAction.encode_injective cachedBuilds).2 1 run found
      "nginx:main:fetch" action present (.inl hit)⟩

end SysDeck.Fester
