import Mathlib.Data.List.Induction
import Mathlib.Logic.Relation

/-! Lists of keys in which every key comes after the keys it depends on. -/

universe u

namespace DependencyOrder

variable {Key : Type u}

/-- Every key of the list finds its dependencies strictly before it. -/
def Topological (keys : List Key) (deps : Key → List Key) : Prop :=
  ∀ visited key rest, keys = visited ++ key :: rest → ∀ dep ∈ deps key, dep ∈ visited

/-- `later` waits for `earlier`, directly or through other keys. -/
def Dependent (deps : Key → List Key) (earlier later : Key) : Prop :=
  Relation.TransGen (fun dep key => dep ∈ deps key) earlier later

theorem topological_nil (deps : Key → List Key) : Topological [] deps := by
  intro visited key rest split
  simp at split

/-- Append a key whose dependencies are already listed. -/
theorem Topological.concat {keys : List Key} {deps : Key → List Key} (order : Topological keys deps)
    {key : Key} (listed : ∀ dep ∈ deps key, dep ∈ keys) : Topological (keys ++ [key]) deps := by
  intro visited other rest split dep needed
  rcases List.append_eq_append_iff.mp split with ⟨gap, visitedEq, tail⟩ | ⟨gap, keysEq, tail⟩
  · cases gap with
    | nil =>
      simp only [List.nil_append, List.cons.injEq, List.append_nil] at tail visitedEq
      obtain ⟨rfl, _⟩ := tail
      rw [visitedEq]
      exact listed dep needed
    | cons head gap => simp at tail
  · cases gap with
    | nil =>
      simp only [List.nil_append, List.cons.injEq, List.append_nil] at tail keysEq
      obtain ⟨rfl, _⟩ := tail
      rw [← keysEq]
      exact listed dep needed
    | cons head gap =>
      simp only [List.cons_append, List.cons.injEq] at tail
      obtain ⟨rfl, _⟩ := tail
      exact order visited other gap keysEq dep needed

theorem Topological.congr {keys : List Key} {deps other : Key → List Key}
    (order : Topological keys deps) (same : ∀ key ∈ keys, other key = deps key) :
    Topological keys other := by
  intro visited key rest split dep needed
  have member : key ∈ keys := by simp [split]
  rw [same key member] at needed
  exact order visited key rest split dep needed

/-- The dependencies of a listed key are listed. -/
theorem Topological.closed {keys : List Key} {deps : Key → List Key} (order : Topological keys deps)
    {key dep : Key} (member : key ∈ keys) (needed : dep ∈ deps key) : dep ∈ keys := by
  obtain ⟨visited, rest, split⟩ := List.append_of_mem member
  rw [split]
  exact List.mem_append_left _ (order visited key rest split dep needed)

/-- A key never depends on itself. -/
theorem Topological.ne {keys : List Key} {deps : Key → List Key} (order : Topological keys deps)
    (nodup : keys.Nodup) {key dep : Key} (member : key ∈ keys) (needed : dep ∈ deps key) :
    dep ≠ key := by
  obtain ⟨visited, rest, split⟩ := List.append_of_mem member
  have earlier := order visited key rest split dep needed
  rw [split] at nodup
  exact (List.nodup_append.mp nodup).2.2 dep earlier key List.mem_cons_self

/-- Induction along the order: prove a key from its dependencies. -/
theorem Topological.induction {keys : List Key} {deps : Key → List Key}
    (order : Topological keys deps) {motive : Key → Prop}
    (step : ∀ key ∈ keys, (∀ dep ∈ deps key, motive dep) → motive key) :
    ∀ key ∈ keys, motive key := by
  have prefixes : ∀ (visited rest : List Key), keys = visited ++ rest → ∀ key ∈ visited, motive key := by
    intro visited
    induction visited using List.reverseRecOn with
    | nil => intro rest _ key member; simp at member
    | append_singleton visited last ih =>
      intro rest split key member
      have earlier := ih (last :: rest) (by simpa using split)
      rcases List.mem_append.mp member with before | final
      · exact earlier key before
      · obtain rfl := List.mem_singleton.mp final
        apply step key (by simp [split])
        intro dep needed
        exact earlier dep (order visited key rest (by simpa using split) dep needed)
  exact prefixes keys [] (by simp)

/-- No listed key waits for itself. -/
theorem Topological.acyclic {keys : List Key} {deps : Key → List Key} (order : Topological keys deps) :
    ∀ key ∈ keys, ¬ Dependent deps key key := by
  refine order.induction ?_
  intro key _ upstream waits
  obtain ⟨dep, path, needed⟩ := Relation.TransGen.tail'_iff.mp waits
  exact upstream dep needed (Relation.TransGen.head' needed path)

/-- Nothing waits for itself where every dependency is of a lower rank. -/
theorem acyclic_of_rank {deps : Key → List Key} (rank : Key → ℕ)
    (lower : ∀ key, ∀ dep ∈ deps key, rank dep < rank key) (key : Key) : ¬ Dependent deps key key := by
  have rises : ∀ later, Dependent deps key later → rank key < rank later := by
    intro later waits
    induction waits with
    | single needed => exact lower _ _ needed
    | tail _ needed ih => exact Nat.lt_trans ih (lower _ _ needed)
  exact fun cycle => Nat.lt_irrefl _ (rises key cycle)

end DependencyOrder
