import Mathlib.Algebra.BigOperators.Group.List.Basic
import Mathlib.Algebra.Order.Monoid.Defs
import Mathlib.Order.Bounds.Basic
import Mathlib.Data.Finset.Card
import Mathlib.Data.Finset.Dedup
import Mathlib.Data.List.Chain
import SysDeck.Library.DependencyOrder

/-! The heaviest dependency chains of weighted nodes. The greatest total from a node is its weight over
the greatest from its dependencies, and without cycles that recursion is no deeper than the nodes. -/

universe u v

namespace LongestChain

open DependencyOrder (Dependent)

variable {Key : Type u} {Weight : Type v} (deps : Key → List Key) (nodes : List Key)

/-- Nodes of which each waits for the next. -/
structure Chain (chain : List Key) : Prop where
  linked : chain.IsChain fun key dep => dep ∈ deps key
  listed : ∀ key ∈ chain, key ∈ nodes

section

variable [AddCommMonoid Weight] (weight : Key → Weight)

/-- The totals of the chains that are empty or begin with one of the keys. -/
def totals (heads : List Key) : Set Weight :=
  {sum | ∃ chain, Chain deps nodes chain ∧ (∀ key ∈ chain.head?, key ∈ heads) ∧
    (chain.map weight).sum = sum}

variable {deps nodes weight}

theorem Chain.nil : Chain deps nodes [] := ⟨.nil, by simp⟩

theorem zero_mem_totals (heads : List Key) : 0 ∈ totals deps nodes weight heads :=
  ⟨[], .nil, by simp, rfl⟩

theorem Chain.tail {key : Key} {chain : List Key} (whole : Chain deps nodes (key :: chain)) :
    Chain deps nodes chain ∧ ∀ dep ∈ chain.head?, dep ∈ deps key :=
  ⟨⟨whole.linked.tail, fun other member => whole.listed other (List.mem_cons_of_mem _ member)⟩,
    fun _ first => whole.linked.rel_head? first⟩

theorem Chain.cons {key : Key} {chain : List Key} (rest : Chain deps nodes chain) (node : key ∈ nodes)
    (first : ∀ dep ∈ chain.head?, dep ∈ deps key) : Chain deps nodes (key :: chain) where
  linked := List.isChain_cons.mpr ⟨first, rest.linked⟩
  listed := by
    intro other member
    rcases List.mem_cons.mp member with rfl | later
    · exact node
    · exact rest.listed other later

theorem totals_append (first second : List Key) :
    totals deps nodes weight (first ++ second) =
      totals deps nodes weight first ∪ totals deps nodes weight second := by
  ext sum
  constructor
  · rintro ⟨chain, whole, begins, rfl⟩
    cases chain with
    | nil => exact .inl (zero_mem_totals first)
    | cons key chain =>
      rcases List.mem_append.mp (begins key rfl) with before | behind
      · exact .inl ⟨key :: chain, whole, fun _ head => Option.some.inj head ▸ before, rfl⟩
      · exact .inr ⟨key :: chain, whole, fun _ head => Option.some.inj head ▸ behind, rfl⟩
  · rintro (⟨chain, whole, begins, rfl⟩ | ⟨chain, whole, begins, rfl⟩)
    · exact ⟨chain, whole, fun key head => List.mem_append_left _ (begins key head), rfl⟩
    · exact ⟨chain, whole, fun key head => List.mem_append_right _ (begins key head), rfl⟩

/-- Over all nodes the totals are those of all chains. -/
theorem mem_totals_nodes {sum : Weight} :
    sum ∈ totals deps nodes weight nodes ↔
      ∃ chain, Chain deps nodes chain ∧ (chain.map weight).sum = sum := by
  refine exists_congr fun chain => and_congr_right fun whole => ?_
  refine and_iff_right fun key head => whole.listed key ?_
  exact List.mem_of_mem_head? head

variable [LinearOrder Weight]

theorem isGreatest_nil : IsGreatest (totals deps nodes weight []) 0 := by
  refine ⟨zero_mem_totals [], ?_⟩
  rintro sum ⟨chain, whole, begins, rfl⟩
  cases chain with
  | nil => exact le_refl _
  | cons key chain => exact absurd (begins key rfl) List.not_mem_nil

/-- No chain begins with a key that is no node. -/
theorem isGreatest_absent {key : Key} (absent : key ∉ nodes) :
    IsGreatest (totals deps nodes weight [key]) 0 := by
  refine ⟨zero_mem_totals [key], ?_⟩
  rintro sum ⟨chain, whole, begins, rfl⟩
  cases chain with
  | nil => exact le_refl _
  | cons head chain =>
    obtain rfl := List.mem_singleton.mp (begins head rfl)
    exact absurd (whole.listed head List.mem_cons_self) absent

theorem isGreatest_concat {heads : List Key} {key : Key} {best value : Weight}
    (greatest : IsGreatest (totals deps nodes weight heads) best)
    (single : IsGreatest (totals deps nodes weight [key]) value) :
    IsGreatest (totals deps nodes weight (heads ++ [key])) (max best value) := by
  rw [totals_append]
  exact greatest.union single

/-- The greatest total from a node is its weight over the greatest from its dependencies. -/
theorem isGreatest_node [IsOrderedAddMonoid Weight] {key : Key} (node : key ∈ nodes)
    (positive : 0 ≤ weight key) {best : Weight}
    (greatest : IsGreatest (totals deps nodes weight (deps key)) best) :
    IsGreatest (totals deps nodes weight [key]) (best + weight key) := by
  constructor
  · obtain ⟨chain, rest, begins, rfl⟩ := greatest.1
    refine ⟨key :: chain, rest.cons node begins, fun _ head => ?_, ?_⟩
    · exact List.mem_singleton.mpr (Option.some.inj head).symm
    · rw [List.map_cons, List.sum_cons, add_comm]
  · rintro sum ⟨chain, whole, begins, rfl⟩
    cases chain with
    | nil => exact add_nonneg (greatest.2 (zero_mem_totals _)) positive
    | cons head chain =>
      obtain rfl := List.mem_singleton.mp (begins head rfl)
      obtain ⟨rest, first⟩ := whole.tail
      rw [List.map_cons, List.sum_cons, add_comm]
      exact add_le_add (greatest.2 ⟨chain, rest, first, rfl⟩) (le_refl _)

end

/-! ### How deep the dependencies go -/

section

open Classical in
/-- The nodes for which a key waits. -/
noncomputable def upstream (key : Key) : Finset Key :=
  nodes.toFinset.filter fun other => Dependent deps other key

variable {deps nodes}

theorem mem_upstream {key other : Key} :
    other ∈ upstream deps nodes key ↔ other ∈ nodes ∧ Dependent deps other key := by
  classical
  rw [upstream, Finset.mem_filter, List.mem_toFinset]

variable (acyclic : ∀ key, ¬ Dependent deps key key)
include acyclic

/-- A dependency waits for fewer nodes. -/
theorem upstream_lt {key dep : Key} (needed : dep ∈ deps key) (node : dep ∈ nodes) :
    (upstream deps nodes dep).card < (upstream deps nodes key).card := by
  apply Finset.card_lt_card
  rw [Finset.ssubset_iff_of_subset]
  · refine ⟨dep, mem_upstream.mpr ⟨node, .single needed⟩, fun inside => ?_⟩
    exact acyclic dep (mem_upstream.mp inside).2
  · intro other inside
    obtain ⟨listed, waits⟩ := mem_upstream.mp inside
    exact mem_upstream.mpr ⟨listed, waits.tail needed⟩

theorem upstream_lt_length {key : Key} (node : key ∈ nodes) :
    (upstream deps nodes key).card < nodes.length := by
  classical
  refine Nat.lt_of_lt_of_le (Finset.card_lt_card ?_) nodes.toFinset_card_le
  rw [Finset.ssubset_iff_of_subset]
  · exact ⟨key, List.mem_toFinset.mpr node, fun inside => acyclic key (mem_upstream.mp inside).2⟩
  · intro other inside
    exact List.mem_toFinset.mpr (mem_upstream.mp inside).1

end

end LongestChain
