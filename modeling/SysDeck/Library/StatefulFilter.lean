import Mathlib.Data.Nat.Notation
import Mathlib.Logic.Function.Basic

/-! Rule lists of a packet filter that keep a state: rate limits, which a token bucket keeps, and
sets of sources with a timeout, to which a rule may add. -/

universe u v

namespace StatefulFilter

/-- `limit rate`: so many packets in a unit of time, given in nanoseconds, and a burst. -/
structure Limit where
  unit : ℕ
  rate : ℕ
  burst : ℕ
  deriving DecidableEq

structure Level where
  tokens : ℕ
  last : ℕ
  deriving DecidableEq

def Limit.cost (limit : Limit) : ℕ := limit.unit / limit.rate

def Limit.capacity (limit : Limit) : ℕ := limit.cost * limit.burst

/-- The tokens at a time: what has passed since the last packet is added. -/
def Limit.refilled (limit : Limit) (level : Level) (now : ℕ) : ℕ :=
  min limit.capacity (level.tokens + (now - level.last))

def Limit.hasToken (limit : Limit) (level : Level) (now : ℕ) : Bool :=
  limit.cost ≤ limit.refilled level now

def Limit.take (limit : Limit) (level : Level) (now : ℕ) : Level :=
  if limit.hasToken level now then ⟨limit.refilled level now - limit.cost, now⟩
  else ⟨limit.refilled level now, now⟩

/-- Packets at these times all find a token. -/
def Limit.keepsTo (limit : Limit) : Level → List ℕ → Bool
  | _, [] => true
  | level, now :: rest => limit.hasToken level now && limit.keepsTo (limit.take level now) rest

/-! ### What packets take from a limit -/

/-- The second level never has more than the first, from a time on. -/
def Limit.Covers (limit : Limit) (level other : Level) (clock : ℕ) : Prop :=
  other.last ≤ clock ∧ ∀ now, clock ≤ now → limit.refilled other now ≤ limit.refilled level now

section Covers

variable {limit : Limit} {level other : Level} {clock now : ℕ}

theorem Limit.covers_refl (start : level.last ≤ clock) : limit.Covers level level clock :=
  ⟨start, fun _ _ => Nat.le_refl _⟩

theorem Limit.Covers.later (covers : limit.Covers level other clock) (next : clock ≤ now) :
    limit.Covers level other now :=
  ⟨Nat.le_trans covers.1 next, fun later after => covers.2 later (Nat.le_trans next after)⟩

theorem Limit.Covers.hasToken (covers : limit.Covers level other clock) (next : clock ≤ now)
    (token : limit.hasToken other now) : limit.hasToken level now := by
  simp only [Limit.hasToken, decide_eq_true_eq] at token ⊢
  exact Nat.le_trans token (covers.2 now next)

theorem Limit.Covers.take_other (covers : limit.Covers level other clock) (next : clock ≤ now) :
    limit.Covers level (limit.take other now) now := by
  refine ⟨by unfold Limit.take; split <;> exact Nat.le_refl _, fun later after => ?_⟩
  have less : limit.refilled (limit.take other now) later ≤ limit.refilled other later := by
    have start := covers.1
    unfold Limit.take
    split
    · simp only [Limit.refilled]
      omega
    · simp only [Limit.refilled]
      omega
  exact Nat.le_trans less (covers.2 later (Nat.le_trans next after))

theorem Limit.Covers.take_both (covers : limit.Covers level other clock) (next : clock ≤ now)
    (token : limit.hasToken other now) :
    limit.Covers (limit.take level now) (limit.take other now) now := by
  have more := covers.2 now next
  rw [Limit.take, Limit.take, if_pos token, if_pos (covers.hasToken next token)]
  refine ⟨Nat.le_refl _, fun later after => ?_⟩
  generalize limit.refilled level now = richer at more ⊢
  generalize limit.refilled other now = poorer at more ⊢
  simp only [Limit.refilled]
  omega

end Covers

inductive Verdict where
  | accept
  | drop
  deriving DecidableEq

/-- The parts of a rule: they are read in turn until one does not hold. -/
inductive Clause (Packet : Type u) where
  | test (holds : Packet → Bool)
  | member (set : String)
  | limit (name : String) (bound : Limit)
  | add (set : Packet → String) (timeout : ℕ)

structure Rule (Packet : Type u) where
  clauses : List (Clause Packet)
  /-- A rule that only logs has none. -/
  verdict : Option Verdict

/-- The levels of the limits, and until when a source is in a set, where it was ever added. -/
structure State (Source : Type v) where
  levels : String → Level
  sets : String → Source → Option ℕ

section Reading

variable {Packet : Type u} {Source : Type v} [DecidableEq Source] (source : Packet → Source)
  (time : Packet → ℕ)

def State.member (state : State Source) (set : String) (element : Source) (now : ℕ) : Bool :=
  match state.sets set element with
  | some expiry => now < expiry
  | none => false

/-- `add @set`, which leaves an element that is in the set as it is. -/
def State.add (state : State Source) (set : String) (element : Source) (now timeout : ℕ) :
    State Source :=
  if state.member set element now then state
  else { state with
    sets := Function.update state.sets set
      (Function.update (state.sets set) element (some (now + timeout))) }

def Clause.read (state : State Source) (packet : Packet) : Clause Packet → State Source × Bool
  | .test holds => (state, holds packet)
  | .member set => (state, state.member set (source packet) (time packet))
  | .limit name bound =>
    ({ state with
        levels := Function.update state.levels name (bound.take (state.levels name) (time packet)) },
      bound.hasToken (state.levels name) (time packet))
  | .add set timeout => (state.add (set packet) (source packet) (time packet) timeout, true)

def readClauses (state : State Source) (packet : Packet) :
    List (Clause Packet) → State Source × Bool
  | [] => (state, true)
  | clause :: rest =>
    match clause.read source time state packet with
    | (after, true) => readClauses after packet rest
    | (after, false) => (after, false)

/-- The first rule that holds and has a verdict decides. -/
def readRules (state : State Source) (packet : Packet) :
    List (Rule Packet) → State Source × Option Verdict
  | [] => (state, none)
  | rule :: rest =>
    match readClauses source time state packet rule.clauses with
    | (after, true) =>
      match rule.verdict with
      | some verdict => (after, some verdict)
      | none => readRules after packet rest
    | (after, false) => readRules after packet rest

/-! ### What rules do to the sets -/

theorem readRules_append (state : State Source) (packet : Packet) (first second : List (Rule Packet)) :
    readRules source time state packet (first ++ second) =
      match readRules source time state packet first with
      | (after, none) => readRules source time after packet second
      | (after, some verdict) => (after, some verdict) := by
  induction first generalizing state with
  | nil => rfl
  | cons rule rest ih =>
    rw [List.cons_append, readRules, readRules]
    split
    · split
      · rfl
      · exact ih _
    · exact ih _

theorem add_other {state : State Source} {set : String} {element other : Source}
    (different : other ≠ element) (now timeout : ℕ) (name : String) :
    (state.add set element now timeout).sets name other = state.sets name other := by
  unfold State.add
  split
  · rfl
  · by_cases same : name = set
    · simp [same, different]
    · simp [same]

theorem readClause_other (state : State Source) {packet : Packet} {other : Source}
    (different : other ≠ source packet) (clause : Clause Packet) (name : String) :
    (clause.read source time state packet).1.sets name other = state.sets name other := by
  cases clause with
  | add set timeout => exact add_other different _ _ name
  | _ => rfl

theorem readClauses_other {packet : Packet} {other : Source} (different : other ≠ source packet)
    (clauses : List (Clause Packet)) (state : State Source) (name : String) :
    (readClauses source time state packet clauses).1.sets name other = state.sets name other := by
  induction clauses generalizing state with
  | nil => rfl
  | cons clause rest ih =>
    have first := readClause_other source time state different clause name
    rw [readClauses]
    split
    · next after read =>
      rw [read] at first
      exact (ih after).trans first
    · next after read =>
      rw [read] at first
      exact first

/-- A packet adds no source but its own to a set. -/
theorem readRules_other {packet : Packet} {other : Source} (different : other ≠ source packet)
    (rules : List (Rule Packet)) (state : State Source) (name : String) :
    (readRules source time state packet rules).1.sets name other = state.sets name other := by
  induction rules generalizing state with
  | nil => rfl
  | cons rule rest ih =>
    have first := readClauses_other source time different rule.clauses state name
    rw [readRules]
    split
    · next after read =>
      rw [read] at first
      split
      · exact first
      · exact (ih after).trans first
    · next after read =>
      rw [read] at first
      exact (ih after).trans first

/-- A clause that adds to no set. -/
def Clause.keeps : Clause Packet → Bool
  | .add _ _ => false
  | _ => true

theorem readClauses_keeps {packet : Packet} {clauses : List (Clause Packet)}
    (keeps : ∀ clause ∈ clauses, clause.keeps) (state : State Source) :
    (readClauses source time state packet clauses).1.sets = state.sets := by
  induction clauses generalizing state with
  | nil => rfl
  | cons clause rest ih =>
    have first : (clause.read source time state packet).1.sets = state.sets := by
      have kept := keeps clause List.mem_cons_self
      cases clause with
      | add set timeout => cases kept
      | _ => rfl
    have later := fun after => ih (fun other member => keeps other (List.mem_cons_of_mem _ member)) after
    rw [readClauses]
    split
    · next after read =>
      rw [read] at first
      exact (later after).trans first
    · next after read =>
      rw [read] at first
      exact first

/-- Rules that add to no set and accept nothing. -/
theorem readRules_refuses {packet : Packet} {rules : List (Rule Packet)}
    (keeps : ∀ rule ∈ rules, ∀ clause ∈ rule.clauses, clause.keeps)
    (refuses : ∀ rule ∈ rules, rule.verdict ≠ some .accept) (state : State Source) :
    (readRules source time state packet rules).1.sets = state.sets ∧
      (readRules source time state packet rules).2 ≠ some .accept := by
  induction rules generalizing state with
  | nil => exact ⟨rfl, by simp [readRules]⟩
  | cons rule rest ih =>
    have first := @readClauses_keeps _ _ _ source time packet _ (keeps rule List.mem_cons_self) state
    have later := fun after => ih (fun other member => keeps other (List.mem_cons_of_mem _ member))
      (fun other member => refuses other (List.mem_cons_of_mem _ member)) after
    rw [readRules]
    split
    · next after read =>
      rw [read] at first
      split
      · next verdict given => exact ⟨first, given ▸ refuses rule List.mem_cons_self⟩
      · exact ⟨(later after).1.trans first, (later after).2⟩
    · next after read =>
      rw [read] at first
      exact ⟨(later after).1.trans first, (later after).2⟩

/-- A clause that looks at the packet alone. -/
def Clause.isTest : Clause Packet → Bool
  | .test _ => true
  | _ => false

theorem readClauses_tests {packet : Packet} {clauses : List (Clause Packet)}
    (tests : ∀ clause ∈ clauses, clause.isTest) :
    ∃ holds, ∀ state, readClauses source time state packet clauses = (state, holds) := by
  induction clauses with
  | nil => exact ⟨true, fun _ => rfl⟩
  | cons clause rest ih =>
    obtain ⟨later, same⟩ := ih fun other member => tests other (List.mem_cons_of_mem _ member)
    cases clause with
    | test holds =>
      refine ⟨holds packet && later, fun state => ?_⟩
      cases passed : holds packet with
      | true => simp [readClauses, Clause.read, passed, same]
      | false => simp [readClauses, Clause.read, passed]
    | _ => exact absurd (tests _ List.mem_cons_self) (by simp [Clause.isTest])

/-- Rules that look at the packet alone leave the state, and say the same in every state. -/
theorem readRules_tests {packet : Packet} {rules : List (Rule Packet)}
    (tests : ∀ rule ∈ rules, ∀ clause ∈ rule.clauses, clause.isTest) :
    ∃ verdict, ∀ state, readRules source time state packet rules = (state, verdict) := by
  induction rules with
  | nil => exact ⟨none, fun _ => rfl⟩
  | cons rule rest ih =>
    obtain ⟨later, same⟩ := ih fun other member => tests other (List.mem_cons_of_mem _ member)
    obtain ⟨holds, read⟩ := @readClauses_tests _ _ _ source time packet _
      (tests rule List.mem_cons_self)
    refine ⟨if holds then rule.verdict.or later else later, fun state => ?_⟩
    rw [readRules, read]
    cases holds with
    | true => cases rule.verdict <;> simp [same]
    | false => simp [same]

/-! ### What rules say, and what they leave -/

/-- A verdict is that of a rule whose clauses held. -/
theorem readRules_eq_some {packet : Packet} {rules : List (Rule Packet)} {state : State Source}
    {verdict : Verdict} (decided : (readRules source time state packet rules).2 = some verdict) :
    ∃ rule ∈ rules, rule.verdict = some verdict ∧
      ∃ before, (readClauses source time before packet rule.clauses).2 = true := by
  induction rules generalizing state with
  | nil => cases decided
  | cons rule rest ih =>
    rw [readRules] at decided
    have later : ∀ after, (readRules source time after packet rest).2 = some verdict →
        ∃ found ∈ rule :: rest, found.verdict = some verdict ∧
          ∃ before, (readClauses source time before packet found.clauses).2 = true := by
      intro after decided
      obtain ⟨found, member, holds⟩ := ih decided
      exact ⟨found, List.mem_cons_of_mem _ member, holds⟩
    split at decided
    · next after read =>
      split at decided
      · next given shown =>
        exact ⟨rule, List.mem_cons_self, shown.trans decided, state, by rw [read]⟩
      · exact later after decided
    · next after read => exact later after decided

/-- The tests of clauses that held. -/
theorem test_of_readClauses {packet : Packet} {clauses : List (Clause Packet)} {state : State Source}
    (held : (readClauses source time state packet clauses).2 = true) {holds : Packet → Bool}
    (member : Clause.test holds ∈ clauses) : holds packet = true := by
  induction clauses generalizing state with
  | nil => cases member
  | cons clause rest ih =>
    rw [readClauses] at held
    split at held
    · next after read =>
      rcases List.mem_cons.mp member with rfl | later
      · exact (Prod.mk.inj read).2
      · exact ih held later
    · cases held

/-- A clause that leaves a limit alone. -/
def Clause.spares (name : String) : Clause Packet → Bool
  | .limit other _ => other ≠ name
  | _ => true

theorem add_levels (state : State Source) (set : String) (element : Source) (now timeout : ℕ) :
    (state.add set element now timeout).levels = state.levels := by
  unfold State.add
  split <;> rfl

theorem readClauses_spares {packet : Packet} {clauses : List (Clause Packet)} {name : String}
    (spares : ∀ clause ∈ clauses, clause.spares name) (state : State Source) :
    (readClauses source time state packet clauses).1.levels name = state.levels name := by
  induction clauses generalizing state with
  | nil => rfl
  | cons clause rest ih =>
    have first : (clause.read source time state packet).1.levels name = state.levels name := by
      have spared := spares clause List.mem_cons_self
      cases clause with
      | limit other bound =>
        have differ : name ≠ other := fun same => by simp [Clause.spares, same] at spared
        exact Function.update_of_ne differ _ _
      | add set timeout => exact congrFun (add_levels ..) name
      | _ => rfl
    have later := fun after => ih (fun other member => spares other (List.mem_cons_of_mem _ member)) after
    rw [readClauses]
    split
    · next after read =>
      rw [read] at first
      exact (later after).trans first
    · next after read =>
      rw [read] at first
      exact first

/-- Rules without a limit of the name leave its level. -/
theorem readRules_spares {packet : Packet} {rules : List (Rule Packet)} {name : String}
    (spares : ∀ rule ∈ rules, ∀ clause ∈ rule.clauses, clause.spares name) (state : State Source) :
    (readRules source time state packet rules).1.levels name = state.levels name := by
  induction rules generalizing state with
  | nil => rfl
  | cons rule rest ih =>
    have first := @readClauses_spares _ _ _ source time packet _ name (spares rule List.mem_cons_self) state
    have later := fun after => ih (fun other member => spares other (List.mem_cons_of_mem _ member)) after
    rw [readRules]
    split
    · next after read =>
      rw [read] at first
      split
      · exact first
      · exact (later after).trans first
    · next after read =>
      rw [read] at first
      exact (later after).trans first

/-- A clause that holds or not whatever the state is. -/
def Clause.plain : Clause Packet → Bool
  | .test _ => true
  | .add _ _ => true
  | _ => false

theorem readClauses_plain {packet : Packet} {clauses : List (Clause Packet)}
    (plain : ∀ clause ∈ clauses, clause.plain) (first second : State Source) :
    (readClauses source time first packet clauses).2 = (readClauses source time second packet clauses).2 := by
  induction clauses generalizing first second with
  | nil => rfl
  | cons clause rest ih =>
    have later := ih fun other member => plain other (List.mem_cons_of_mem _ member)
    cases clause with
    | test holds =>
      cases passed : holds packet with
      | true => simpa [readClauses, Clause.read, passed] using later first second
      | false => simp [readClauses, Clause.read, passed]
    | add set timeout => exact later _ _
    | _ => exact absurd (plain _ List.mem_cons_self) (by simp [Clause.plain])

/-- Rules of such clauses decide alike in every state. -/
theorem readRules_plain {packet : Packet} {rules : List (Rule Packet)}
    (plain : ∀ rule ∈ rules, ∀ clause ∈ rule.clauses, clause.plain) (first second : State Source) :
    (readRules source time first packet rules).2 = (readRules source time second packet rules).2 := by
  induction rules generalizing first second with
  | nil => rfl
  | cons rule rest ih =>
    have later := ih fun other member => plain other (List.mem_cons_of_mem _ member)
    have same := @readClauses_plain _ _ _ source time packet _ (plain rule List.mem_cons_self) first second
    rw [readRules, readRules]
    cases one : readClauses source time first packet rule.clauses with
    | mk after held =>
      cases other : readClauses source time second packet rule.clauses with
      | mk after' held' =>
        rw [one, other] at same
        obtain rfl : held = held' := same
        cases held with
        | true => cases rule.verdict <;> simp [later after after']
        | false => exact later after after'

end Reading

end StatefulFilter
