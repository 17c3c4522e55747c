/-! Rule lists that are read from the first to the last: the first rule with a verdict for a
packet decides, and the policy of the chain where there is none. -/

universe u v w

namespace PacketFilter

/-- What the connection tracker knows about a packet. -/
inductive CtState where
  | new
  | established
  | related
  | invalid
  | untracked
  deriving DecidableEq

variable {Packet : Type u} {Verdict : Type v}

/-- What a rule says about a packet; a rule that does not match, or only logs, says nothing. -/
abbrev Rule (Packet : Type u) (Verdict : Type v) := Packet → Option Verdict

/-- The verdict for the packets of a test. -/
def Rule.on (test : Packet → Bool) (verdict : Verdict) : Rule Packet Verdict :=
  fun packet => if test packet then some verdict else none

/-- A rule without a verdict. -/
def Rule.pass : Rule Packet Verdict := fun _ => none

/-- A chain says what its first rule with a verdict says. A jump to a chain is a rule. -/
def chain (rules : List (Rule Packet Verdict)) : Rule Packet Verdict :=
  fun packet => rules.findSome? fun rule => rule packet

/-- A chain at a hook, with its policy. -/
def hook (rules : List (Rule Packet Verdict)) (policy : Verdict) (packet : Packet) : Verdict :=
  (chain rules packet).getD policy

@[simp] theorem chain_nil (packet : Packet) : chain ([] : List (Rule Packet Verdict)) packet = none :=
  rfl

theorem chain_append (first second : List (Rule Packet Verdict)) (packet : Packet) :
    chain (first ++ second) packet = (chain first packet).or (chain second packet) := by
  unfold chain
  rw [List.findSome?_append]

/-- Rules of one verdict give it to the packets of their tests. -/
theorem chain_same (tests : List (Packet → Bool)) (verdict : Verdict) (packet : Packet) :
    chain (tests.map (Rule.on · verdict)) packet =
      if tests.any (fun test => test packet) then some verdict else none := by
  induction tests with
  | nil => rfl
  | cons test tests ih =>
    unfold chain at ih ⊢
    rw [List.map_cons, List.findSome?_cons, List.any_cons]
    cases holds : test packet with
    | true => simp [Rule.on, holds]
    | false => simpa [Rule.on, holds] using ih

end PacketFilter
