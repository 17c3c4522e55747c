import SysDeck.Library.DependencyOrder
import SysDeck.Library.DepthFirst

/-! The order in which a depth-first search finishes its keys. Over a graph without cycles every key
is finished after its successors, and only once. -/

universe u

namespace DepthFirst

variable {Key : Type u} [DecidableEq Key] {next : Key → Option (List Key)}

/-- The successors of a key that the search can visit. -/
def children (next : Key → Option (List Key)) (key : Key) : List Key :=
  ((next key).getD []).filter fun child => (next child).isSome

omit [DecidableEq Key] in
theorem mem_children_iff {key child : Key} : child ∈ children next key ↔ Edge next key child := by
  rw [children, List.mem_filter, Edge]
  refine and_congr_left fun _ => ?_
  cases node : next key with
  | none => simp
  | some successors => simp

omit [DecidableEq Key] in
/-- What a search finishes was finished before it or not marked before it. -/
theorem Explores.finished_fresh {trail result : Trail Key} {keys : List Key}
    (search : Explores next trail keys result) {key : Key} (ended : key ∈ result.finished) :
    key ∈ trail.finished ∨ key ∉ trail.seen := by
  induction search with
  | nil => exact .inl ended
  | pass _ _ ih => exact ih ended
  | @enter trail below result root rest children _ fresh inside _ ihInside ihAfter =>
    rcases ihAfter ended with early | unmarked
    · rcases List.mem_append.mp early with before | single
      · rcases ihInside before with old | unmarked
        · exact .inl old
        · exact .inr fun old => unmarked (List.mem_append_left _ old)
      · exact .inr (List.mem_singleton.mp single ▸ fresh)
    · exact .inr fun old => unmarked (inside.seen_subset (List.mem_append_left _ old))

omit [DecidableEq Key] in
/-- A search finishes no key twice. -/
theorem Explores.finished_nodup {trail result : Trail Key} {keys : List Key}
    (search : Explores next trail keys result) (nodup : trail.finished.Nodup)
    (marked : trail.finished ⊆ trail.seen) :
    result.finished.Nodup ∧ result.finished ⊆ result.seen := by
  induction search with
  | nil => exact ⟨nodup, marked⟩
  | pass _ _ ih => exact ih nodup marked
  | @enter trail below result root rest children _ fresh inside _ ihInside ihAfter =>
    obtain ⟨once, seen⟩ := ihInside nodup fun key old => List.mem_append_left _ (marked old)
    have pending : root ∉ below.finished := by
      intro ended
      rcases inside.finished_fresh ended with old | unmarked
      · exact fresh (marked old)
      · exact unmarked (List.mem_append_right _ (List.mem_singleton_self _))
    refine ihAfter ?_ ?_
    · exact List.nodup_append.mpr ⟨once, List.nodup_singleton root, fun key ended other single same =>
        pending (List.mem_singleton.mp single ▸ same ▸ ended)⟩
    · intro key ended
      rcases List.mem_append.mp ended with before | single
      · exact seen before
      · rw [List.mem_singleton.mp single]
        exact inside.seen_subset (List.mem_append_right _ (List.mem_singleton_self _))

/-- Over a graph without cycles a key is finished after its successors. The keys in progress are those
on the way to the keys to visit. -/
theorem Explores.topological (acyclic : ∀ key, ¬ Relation.TransGen (Edge next) key key)
    {trail result : Trail Key} {keys : List Key} (search : Explores next trail keys result)
    (progress : ∀ key ∈ trail.seen, key ∈ trail.finished ∨
      ∀ root ∈ keys, (next root).isSome = true → Relation.TransGen (Edge next) key root)
    (order : DependencyOrder.Topological trail.finished (children next)) :
    DependencyOrder.Topological result.finished (children next) := by
  induction search with
  | nil => exact order
  | pass _ _ ih =>
    refine ih (fun key old => ?_) order
    exact (progress key old).imp_right fun reaches root member =>
      reaches root (List.mem_cons_of_mem _ member)
  | @enter trail below result root rest successors node fresh inside _ ihInside ihAfter =>
    have present : (next root).isSome = true := by rw [node]; rfl
    have edge : ∀ child ∈ successors, (next child).isSome = true → Edge next root child :=
      fun child member visited => ⟨⟨successors, node, member⟩, visited⟩
    obtain ⟨more, appended⟩ := inside.finished_append
    have kept : ∀ key ∈ trail.finished, key ∈ below.finished := fun key old => by
      rw [appended]
      exact List.mem_append_left _ old
    have below_order : DependencyOrder.Topological below.finished (children next) := by
      refine ihInside ?_ order
      intro key old
      rcases List.mem_append.mp old with old | single
      · exact (progress key old).imp_right fun reaches child member visited =>
          (reaches root List.mem_cons_self present).tail (edge child member visited)
      · rw [List.mem_singleton.mp single]
        exact .inr fun child member visited => .single (edge child member visited)
    refine ihAfter ?_ (below_order.concat ?_)
    · intro key old
      by_cases early : key ∈ (trail.mark root).seen
      · rcases List.mem_append.mp early with early | single
        · rcases progress key early with ended | reaches
          · exact .inl (List.mem_append_left _ (kept key ended))
          · exact .inr fun other member => reaches other (List.mem_cons_of_mem _ member)
        · exact .inl (List.mem_append_right _ single)
      · exact .inl (List.mem_append_left _ (inside.finishes old early))
    · intro child needed
      obtain ⟨⟨successors', here, member⟩, visited⟩ := mem_children_iff.mp needed
      obtain rfl := Option.some.inj (node.symm.trans here)
      by_cases early : child ∈ (trail.mark root).seen
      · rcases List.mem_append.mp early with early | single
        · rcases progress child early with ended | reaches
          · exact kept child ended
          · exact absurd ((reaches root List.mem_cons_self present).tail (edge child member visited))
              (acyclic child)
        · obtain rfl := List.mem_singleton.mp single
          exact absurd (.single (edge child member visited)) (acyclic child)
      · exact inside.finishes (inside.listed member visited) early

end DepthFirst
