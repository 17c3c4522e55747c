import Mathlib.Data.Finset.Card
import Mathlib.Logic.Relation

/-! Depth-first search with a list of marked keys, over a partial successor
function. A search is determined by the relation `Explores`, which forgets the
fuel; what it marks is exactly what can be reached. -/

universe u

namespace DepthFirst

variable {Key : Type u} [DecidableEq Key]

/-- The keys marked so far and the keys whose visit is over, both in that order. -/
structure Trail (Key : Type u) where
  seen : List Key
  finished : List Key

def Trail.mark (trail : Trail Key) (key : Key) : Trail Key :=
  { trail with seen := trail.seen ++ [key] }

def Trail.finish (trail : Trail Key) (key : Key) : Trail Key :=
  { trail with finished := trail.finished ++ [key] }

/-- Visit a key: mark it, visit its successors, finish it. A marked key and a key
without a list of successors are passed over. The fuel bounds the recursion depth. -/
def visit (next : Key → Option (List Key)) : Nat → Trail Key → Key → Option (Trail Key)
  | 0, _, _ => none
  | fuel + 1, trail, key =>
    match next key with
    | none => some trail
    | some successors =>
      if key ∈ trail.seen then some trail
      else (successors.foldlM (visit next fuel) (trail.mark key)).map (·.finish key)

/-- Visit the keys of a list in order. -/
def explore (next : Key → Option (List Key)) (fuel : Nat) (trail : Trail Key) (keys : List Key) :
    Option (Trail Key) :=
  keys.foldlM (visit next fuel) trail

/-- A completed search from the keys of a list. -/
inductive Explores (next : Key → Option (List Key)) : Trail Key → List Key → Trail Key → Prop where
  | nil (trail : Trail Key) : Explores next trail [] trail
  | pass {trail result : Trail Key} {key : Key} {rest : List Key}
      (known : next key = none ∨ key ∈ trail.seen) (after : Explores next trail rest result) :
      Explores next trail (key :: rest) result
  | enter {trail below result : Trail Key} {key : Key} {rest successors : List Key}
      (node : next key = some successors) (fresh : key ∉ trail.seen)
      (inside : Explores next (trail.mark key) successors below)
      (after : Explores next (below.finish key) rest result) :
      Explores next trail (key :: rest) result

variable {next : Key → Option (List Key)}

theorem explore_cons (fuel : Nat) (trail : Trail Key) (key : Key) (rest : List Key) :
    explore next fuel trail (key :: rest) =
      (visit next fuel trail key).bind fun middle => explore next fuel middle rest := rfl

theorem visit_passed {fuel : Nat} {trail result : Trail Key} {key : Key}
    (known : next key = none ∨ key ∈ trail.seen)
    (done : visit next fuel trail key = some result) : result = trail := by
  cases fuel with
  | zero => cases done
  | succ fuel =>
    rw [visit] at done
    cases node : next key with
    | none =>
      rw [node] at done
      exact (Option.some.inj done).symm
    | some successors =>
      have marked : key ∈ trail.seen := known.resolve_left (by simp [node])
      simp only [node, if_pos marked] at done
      exact (Option.some.inj done).symm

theorem visit_entered {fuel : Nat} {trail result : Trail Key} {key : Key} {successors : List Key}
    (node : next key = some successors) (fresh : key ∉ trail.seen)
    (done : visit next fuel trail key = some result) :
    ∃ deeper below, fuel = deeper + 1 ∧
      explore next deeper (trail.mark key) successors = some below ∧ result = below.finish key := by
  cases fuel with
  | zero => cases done
  | succ fuel =>
    simp only [visit, node, if_neg fresh, Option.map_eq_some_iff] at done
    obtain ⟨below, inside, rfl⟩ := done
    exact ⟨fuel, below, rfl, inside, rfl⟩

/-- A search that does not run out of fuel is completed. -/
theorem explores_of_explore {fuel : Nat} {trail result : Trail Key} {keys : List Key}
    (done : explore next fuel trail keys = some result) : Explores next trail keys result := by
  induction fuel using Nat.strong_induction_on generalizing trail result keys with
  | _ fuel deeper =>
    induction keys generalizing trail with
    | nil =>
      obtain rfl := Option.some.inj done
      exact .nil trail
    | cons key rest later =>
      rw [explore_cons, Option.bind_eq_some_iff] at done
      obtain ⟨middle, first, done⟩ := done
      by_cases known : next key = none ∨ key ∈ trail.seen
      · obtain rfl := visit_passed known first
        exact .pass known (later done)
      · obtain ⟨absent, fresh⟩ := not_or.mp known
        obtain ⟨successors, node⟩ := Option.ne_none_iff_exists'.mp absent
        obtain ⟨fuel', below, rfl, inside, rfl⟩ := visit_entered node fresh first
        exact .enter node fresh (deeper fuel' (Nat.lt_succ_self fuel') inside) (later done)

omit [DecidableEq Key] in
/-- The result of a search does not depend on its fuel. -/
theorem Explores.unique {trail first second : Trail Key} {keys : List Key}
    (search : Explores next trail keys first) (again : Explores next trail keys second) :
    first = second := by
  induction search generalizing second with
  | nil =>
    cases again
    rfl
  | pass known after ih =>
    cases again with
    | pass _ rest => exact ih rest
    | enter node fresh _ _ => exact absurd known (by simp [node, fresh])
  | enter node fresh inside after ihInside ihAfter =>
    cases again with
    | pass known _ => exact absurd known (by simp [node, fresh])
    | enter node' _ inside' after' =>
      obtain rfl := Option.some.inj (node.symm.trans node')
      obtain rfl := ihInside inside'
      exact ihAfter after'

omit [DecidableEq Key] in
theorem Explores.seen_subset {trail result : Trail Key} {keys : List Key}
    (search : Explores next trail keys result) : trail.seen ⊆ result.seen := by
  induction search with
  | nil => exact List.Subset.refl _
  | pass _ _ ih => exact ih
  | enter _ _ _ _ below later =>
    intro key member
    exact later (below (List.mem_append_left _ member))

omit [DecidableEq Key] in
/-- A search only appends to the finished keys. -/
theorem Explores.finished_append {trail result : Trail Key} {keys : List Key}
    (search : Explores next trail keys result) :
    ∃ more, result.finished = trail.finished ++ more := by
  induction search with
  | nil => exact ⟨[], (List.append_nil _).symm⟩
  | pass _ _ ih => exact ih
  | @enter trail _ _ root _ _ _ _ _ _ below later =>
    obtain ⟨inner, first⟩ := below
    obtain ⟨more, second⟩ := later
    refine ⟨inner ++ [root] ++ more, ?_⟩
    rw [second, Trail.finish, first, Trail.mark]
    simp only [List.append_assoc]

omit [DecidableEq Key] in
theorem Explores.listed {trail result : Trail Key} {keys : List Key}
    (search : Explores next trail keys result) {key : Key} (member : key ∈ keys)
    (node : (next key).isSome = true) : key ∈ result.seen := by
  induction search with
  | nil => cases member
  | pass known after ih =>
    rcases List.mem_cons.mp member with rfl | later
    · rcases known with missing | marked
      · simp [missing] at node
      · exact after.seen_subset marked
    · exact ih later
  | enter present fresh inside after _ ih =>
    rcases List.mem_cons.mp member with rfl | later
    · exact after.seen_subset (inside.seen_subset (List.mem_append_right _ (List.mem_singleton_self _)))
    · exact ih later

/-- What a search marks is closed under successors. -/
theorem Explores.closed {trail result : Trail Key} {keys : List Key}
    (search : Explores next trail keys result) {key child : Key} {successors : List Key}
    (marked : key ∈ result.seen) (fresh : key ∉ trail.seen) (node : next key = some successors)
    (member : child ∈ successors) (present : (next child).isSome = true) :
    child ∈ result.seen := by
  induction search with
  | nil => exact absurd marked fresh
  | pass _ _ ih => exact ih marked fresh
  | @enter trail below result root rest children rootNode rootFresh inside after ihInside ihAfter =>
    by_cases early : key ∈ below.seen
    · apply after.seen_subset
      by_cases same : key = root
      · subst same
        obtain rfl := Option.some.inj (node.symm.trans rootNode)
        exact inside.listed member present
      · refine ihInside early ?_
        intro again
        rcases List.mem_append.mp again with old | single
        · exact fresh old
        · exact same (List.mem_singleton.mp single)
    · exact ihAfter marked early

/-- Every key a search marks is finished. -/
theorem Explores.finishes {trail result : Trail Key} {keys : List Key}
    (search : Explores next trail keys result) {key : Key} (marked : key ∈ result.seen)
    (fresh : key ∉ trail.seen) : key ∈ result.finished := by
  induction search with
  | nil => exact absurd marked fresh
  | pass _ _ ih => exact ih marked fresh
  | @enter trail below result root rest children _ _ inside after ihInside ihAfter =>
    by_cases early : key ∈ below.seen
    · obtain ⟨more, appended⟩ := after.finished_append
      rw [appended, Trail.finish]
      apply List.mem_append_left
      by_cases same : key = root
      · exact List.mem_append_right _ (List.mem_singleton.mpr same)
      · apply List.mem_append_left
        refine ihInside early ?_
        intro again
        rcases List.mem_append.mp again with old | single
        · exact fresh old
        · exact same (List.mem_singleton.mp single)
    · exact ihAfter marked early

omit [DecidableEq Key] in
/-- Whatever holds of the roots and passes to successors holds of all newly marked keys. -/
theorem Explores.sound {motive : Key → Prop} {trail result : Trail Key} {keys : List Key}
    (search : Explores next trail keys result)
    (roots : ∀ key ∈ keys, (next key).isSome = true → motive key)
    (step : ∀ key successors, motive key → next key = some successors →
      ∀ child ∈ successors, (next child).isSome = true → motive child) :
    ∀ key ∈ result.seen, key ∈ trail.seen ∨ motive key := by
  induction search with
  | nil => exact fun key member => .inl member
  | pass _ _ ih => exact ih fun key member => roots key (List.mem_cons_of_mem _ member)
  | @enter trail below result root rest children node fresh inside after ihInside ihAfter =>
    have here : motive root := roots root List.mem_cons_self (by rw [node]; rfl)
    intro key member
    rcases ihAfter (fun key member => roots key (List.mem_cons_of_mem _ member)) key member with
      early | holds
    · rcases ihInside (fun child member => step root children here node child member) key early with
        old | holds
      · rcases List.mem_append.mp old with before | single
        · exact .inl before
        · exact .inr (List.mem_singleton.mp single ▸ here)
      · exact .inr holds
    · exact .inr holds

/-- One step of the searched graph. -/
def Edge (next : Key → Option (List Key)) (key child : Key) : Prop :=
  (∃ successors, next key = some successors ∧ child ∈ successors) ∧ (next child).isSome = true

/-- A search whose roots reach nothing marked marks exactly what they reach. -/
theorem Explores.mem_seen_iff_of_apart {trail result : Trail Key} {keys : List Key}
    (search : Explores next trail keys result)
    (apart : ∀ root ∈ keys, ∀ key ∈ trail.seen, ¬ Relation.ReflTransGen (Edge next) root key) {key : Key} :
    key ∈ result.seen ↔ key ∈ trail.seen ∨
      ∃ root ∈ keys, (next root).isSome = true ∧ Relation.ReflTransGen (Edge next) root key := by
  constructor
  · intro marked
    refine search.sound (motive := fun key => ∃ root ∈ keys, (next root).isSome = true ∧
      Relation.ReflTransGen (Edge next) root key) ?_ ?_ key marked
    · intro root member node
      exact ⟨root, member, node, .refl⟩
    · rintro parent successors ⟨root, member, node, path⟩ here child listed present
      exact ⟨root, member, node, path.tail ⟨⟨successors, here, listed⟩, present⟩⟩
  · rintro (old | ⟨root, member, node, path⟩)
    · exact search.seen_subset old
    · induction path with
      | refl => exact search.listed member node
      | tail before edge marked =>
        obtain ⟨⟨successors, here, listed⟩, present⟩ := edge
        exact search.closed marked (fun old => apart root member _ old before) here listed present

/-- A search from scratch marks exactly what its roots reach. -/
theorem Explores.mem_seen_iff {finished keys : List Key} {result : Trail Key}
    (search : Explores next ⟨[], finished⟩ keys result) {key : Key} :
    key ∈ result.seen ↔
      ∃ root ∈ keys, (next root).isSome = true ∧ Relation.ReflTransGen (Edge next) root key := by
  rw [search.mem_seen_iff_of_apart fun _ _ _ old => absurd old List.not_mem_nil]
  exact or_iff_right List.not_mem_nil

/-- The nodes a search has still to mark. -/
def unseen (nodes : Finset Key) (trail : Trail Key) : Finset Key :=
  nodes.filter fun key => key ∉ trail.seen

theorem unseen_mono {nodes : Finset Key} {trail result : Trail Key}
    (grows : trail.seen ⊆ result.seen) :
    (unseen nodes result).card ≤ (unseen nodes trail).card := by
  apply Finset.card_le_card
  intro key member
  obtain ⟨inside, fresh⟩ := Finset.mem_filter.mp member
  exact Finset.mem_filter.mpr ⟨inside, fun old => fresh (grows old)⟩

theorem unseen_mark {nodes : Finset Key} {trail : Trail Key} {key : Key}
    (inside : key ∈ nodes) (fresh : key ∉ trail.seen) :
    (unseen nodes (trail.mark key)).card < (unseen nodes trail).card := by
  apply Finset.card_lt_card
  refine Finset.ssubset_iff_of_subset ?_ |>.mpr ⟨key, Finset.mem_filter.mpr ⟨inside, fresh⟩, ?_⟩
  · intro other member
    obtain ⟨listed, unmarked⟩ := Finset.mem_filter.mp member
    exact Finset.mem_filter.mpr ⟨listed, fun old => unmarked (List.mem_append_left _ old)⟩
  · intro member
    exact (Finset.mem_filter.mp member).2 (List.mem_append_right _ (List.mem_singleton_self key))

/-- A search of a finite graph completes: its depth is bounded by the unmarked keys. -/
theorem explore_total {nodes : Finset Key}
    (closed : ∀ key successors, next key = some successors →
      ∀ child ∈ successors, (next child).isSome = true → child ∈ nodes)
    {fuel : Nat} {trail : Trail Key} {keys : List Key}
    (roots : ∀ key ∈ keys, (next key).isSome = true → key ∈ nodes)
    (enough : (unseen nodes trail).card < fuel) :
    ∃ result, explore next fuel trail keys = some result := by
  induction fuel generalizing trail keys with
  | zero => exact absurd enough (Nat.not_lt_zero _)
  | succ fuel deeper =>
    induction keys generalizing trail with
    | nil => exact ⟨trail, rfl⟩
    | cons key rest later =>
      have onward := fun other member => roots other (List.mem_cons_of_mem key member)
      rw [explore_cons, visit]
      cases node : next key with
      | none => exact later onward enough
      | some successors =>
        dsimp only
        by_cases marked : key ∈ trail.seen
        · rw [if_pos marked]
          exact later onward enough
        · have inside : key ∈ nodes := roots key List.mem_cons_self (by rw [node]; rfl)
          have smaller := unseen_mark inside marked
          obtain ⟨below, done⟩ : ∃ below, explore next fuel (trail.mark key) successors = some below :=
            deeper (closed key successors node) (by omega)
          have grows : trail.seen ⊆ (below.finish key).seen :=
            fun other member => (explores_of_explore done).seen_subset (List.mem_append_left _ member)
          have bound : (unseen nodes (below.finish key)).card ≤ (unseen nodes trail).card :=
            unseen_mono grows
          rw [explore] at done
          rw [if_neg marked, done]
          exact later onward (Nat.lt_of_le_of_lt bound enough)

/-- A fold that simulates another one item by item simulates it as a whole. -/
theorem foldlM_simulates {Small Large Item : Type u} {small : Small → Item → Option Small}
    {large : Large → Item → Option Large} {view : Small → Large}
    (step : ∀ state item, large (view state) item = (small state item).map view)
    (items : List Item) (state : Small) :
    items.foldlM large (view state) = (items.foldlM small state).map view := by
  induction items generalizing state with
  | nil => rfl
  | cons item rest ih =>
    rw [List.foldlM_cons, List.foldlM_cons, step]
    cases small state item with
    | none => rfl
    | some middle => exact ih middle

end DepthFirst
