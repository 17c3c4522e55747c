/-! Executions of a labelled machine whose step is a total function: a label
that is not enabled leaves the state as it is. -/

universe u v

namespace Execution

variable {State : Type u} {Label : Type v} {step : State → Label → State}

/-- The state after a list of labels, oldest first. -/
def run (step : State → Label → State) (start : State) (labels : List Label) : State :=
  labels.foldl step start

@[simp] theorem run_nil (start : State) : run step start [] = start := rfl

@[simp] theorem run_cons (start : State) (label : Label) (rest : List Label) :
    run step start (label :: rest) = run step (step start label) rest := rfl

theorem run_append (start : State) (first second : List Label) :
    run step start (first ++ second) = run step (run step start first) second :=
  List.foldl_append

/-- What holds at the start and is preserved by every step holds after every execution. -/
theorem invariant {motive : State → Prop} {start : State} (initial : motive start)
    (preserved : ∀ state label, motive state → motive (step state label)) (labels : List Label) :
    motive (run step start labels) := by
  induction labels generalizing start with
  | nil => exact initial
  | cons label rest ih => exact ih (preserved start label initial)

/-- Induction on the last label: a step may use that it starts in a reached state. -/
theorem reached {motive : List Label → State → Prop} {start : State} (initial : motive [] start)
    (preserved : ∀ before label, motive before (run step start before) →
      motive (before ++ [label]) (step (run step start before) label))
    (labels : List Label) : motive labels (run step start labels) := by
  have extend : ∀ rest before, motive before (run step start before) →
      motive (before ++ rest) (run step start (before ++ rest)) := by
    intro rest
    induction rest with
    | nil =>
      intro before holds
      simpa using holds
    | cons label rest ih =>
      intro before holds
      have next : motive (before ++ [label]) (run step start (before ++ [label])) := by
        rw [run_append]
        exact preserved before label holds
      simpa using ih (before ++ [label]) next
  simpa using extend labels [] initial

/-- The property holds of every state before a label of the execution, and the label. -/
def Along (step : State → Label → State) (Allowed : State → Label → Prop) :
    State → List Label → Prop
  | _, [] => True
  | state, label :: rest => Allowed state label ∧ Along step Allowed (step state label) rest

instance decidableAlong {Allowed : State → Label → Prop}
    [decidable : ∀ state label, Decidable (Allowed state label)] :
    ∀ state labels, Decidable (Along step Allowed state labels)
  | _, [] => .isTrue trivial
  | state, label :: rest =>
    @instDecidableAnd _ _ (decidable state label) (decidableAlong (step state label) rest)

theorem along_of_forall {Allowed : State → Label → Prop} (all : ∀ state label, Allowed state label)
    (start : State) (labels : List Label) : Along step Allowed start labels := by
  induction labels generalizing start with
  | nil => trivial
  | cons label rest ih => exact ⟨all start label, ih (step start label)⟩

theorem along_append {Allowed : State → Label → Prop} {start : State} {first second : List Label} :
    Along step Allowed start (first ++ second) ↔
      Along step Allowed start first ∧ Along step Allowed (run step start first) second := by
  induction first generalizing start with
  | nil => simp [Along]
  | cons label rest ih => simp [Along, ih, and_assoc]

/-- Every step is allowed when none that is not can be survived by a property of
every state on the way. -/
theorem along_of_reached {motive : State → Prop} {Allowed : State → Label → Prop} {start : State}
    {labels : List Label} (breaks : ∀ state label, ¬ Allowed state label → ¬ motive (step state label))
    (holds : ∀ before rest, labels = before ++ rest → motive (run step start before)) :
    Along step Allowed start labels := by
  induction labels generalizing start with
  | nil => trivial
  | cons label rest ih =>
    refine ⟨?_, ih ?_⟩
    · exact Classical.byContradiction fun refused =>
        breaks start label refused (holds [label] rest rfl)
    · intro before after split
      exact holds (label :: before) after (by rw [split]; rfl)

/-- An invariant that only the allowed steps preserve holds along an allowed execution. -/
theorem invariant_along {motive : State → Prop} {Allowed : State → Label → Prop}
    (preserved : ∀ state label, Allowed state label → motive state → motive (step state label))
    {start : State} (initial : motive start) {labels : List Label}
    (allowed : Along step Allowed start labels) : motive (run step start labels) := by
  induction labels generalizing start with
  | nil => exact initial
  | cons label rest ih => exact ih (preserved start label allowed.1 initial) allowed.2

/-- A property of states that each enabled step keeps exactly when it is allowed holds all the
way exactly when every step is allowed. -/
theorem always_iff_along {Inv Good : State → Prop} {Enabled Allowed : State → Label → Prop}
    (invariant : ∀ state label, Enabled state label → Inv state → Inv (step state label))
    (kept : ∀ state label, Enabled state label → Inv state → Good state →
      (Good (step state label) ↔ Allowed state label))
    {start : State} (initial : Inv start) (good : Good start) {labels : List Label}
    (enabled : Along step Enabled start labels) :
    (∀ before after, labels = before ++ after → Good (run step start before)) ↔
      Along step Allowed start labels := by
  induction labels generalizing start with
  | nil =>
    refine iff_of_true ?_ trivial
    intro before after split
    rw [List.nil_eq_append_iff.mp split |>.1]
    exact good
  | cons label rest ih =>
    have inv := invariant start label enabled.1 initial
    constructor
    · intro always
      have next : Good (step start label) := always [label] rest rfl
      refine ⟨(kept start label enabled.1 initial good).mp next, (ih inv next enabled.2).mp ?_⟩
      intro before after split
      exact always (label :: before) after (by rw [split]; rfl)
    · rintro ⟨allowed, later⟩
      have next := (kept start label enabled.1 initial good).mpr allowed
      intro before after split
      cases before with
      | nil => exact good
      | cons first before =>
        rw [List.cons_append, List.cons.injEq] at split
        rw [run_cons, ← split.1]
        exact (ih inv next enabled.2).mpr later before after split.2

/-- Where each step is exact just when it is allowed, all steps of an execution are exact just
when all are allowed; an exact step keeps what the next one starts from. -/
theorem each_iff_along {Inv : State → Prop} {Exact : State → Label → State → Prop}
    {Allowed : State → Label → Prop}
    (exact_iff : ∀ state label, Inv state → (Exact state label (step state label) ↔ Allowed state label))
    (kept : ∀ state label, Inv state → Exact state label (step state label) → Inv (step state label))
    {start : State} (initial : Inv start) {labels : List Label} :
    (∀ before label after, labels = before ++ label :: after →
      Exact (run step start before) label (run step start (before ++ [label]))) ↔
      Along step Allowed start labels := by
  induction labels generalizing start with
  | nil =>
    refine iff_of_true ?_ trivial
    intro before label after split
    cases before <;> cases split
  | cons label rest ih =>
    constructor
    · intro each
      have first : Exact start label (step start label) := each [] label rest rfl
      refine ⟨(exact_iff start label initial).mp first, (ih (kept start label initial first)).mp ?_⟩
      intro before next after split
      exact each (label :: before) next after (by rw [split]; rfl)
    · rintro ⟨allowed, later⟩
      have first := (exact_iff start label initial).mpr allowed
      intro before next after split
      cases before with
      | nil =>
        obtain ⟨rfl, rfl⟩ := List.cons.inj split
        exact first
      | cons head before =>
        rw [List.cons_append, List.cons.injEq] at split
        obtain ⟨rfl, split⟩ := split
        exact (ih (kept start label initial first)).mpr later before next after split

end Execution
