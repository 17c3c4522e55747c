import SysDeck.Library.Utf8

/-! Bytes decoded chunk by chunk. A boundary between chunks changes the text where it cuts a
sequence: the first chunk then ends in an error, and each byte of the sequence in the next is one. -/

namespace Utf8

/-- The characters that a byte ends and the sequence in progress after it. -/
def push : Option Partial → Byte → List (Option Char) × Option Partial
  | none, b =>
    match first b with
    | .inr c => ([some c], none)
    | .inl none => ([none], none)
    | .inl (some begun) => ([], some begun)
  | some begun, b =>
    if begun.lower ≤ b.val ∧ b.val ≤ begun.upper then
      let code := begun.code * 64 + (b.val - 0x80)
      if begun.missing ≤ 1 then ([some (Char.ofNat code)], none)
      else ([], some ⟨begun.missing - 1, code, 0x80, 0xBF⟩)
    else
      match first b with
      | .inr c => ([none, some c], none)
      | .inl none => ([none, none], none)
      | .inl (some again) => ([none], some again)

/-- The sequence in progress behind the bytes. -/
def after (state : Option Partial) (bytes : List Byte) : Option Partial :=
  bytes.foldl (fun state b => (push state b).2) state

/-- The byte continues the sequence in progress. -/
abbrev Continues (begun : Partial) (b : Byte) : Prop := begun.lower ≤ b.val ∧ b.val ≤ begun.upper

/-- The bytes of the sequence in progress, and those behind it. -/
def sequence : Partial → List Byte → List Byte × List Byte
  | _, [] => ([], [])
  | begun, b :: rest =>
    if begun.lower ≤ b.val ∧ b.val ≤ begun.upper then
      if begun.missing ≤ 1 then ([b], rest)
      else
        let (taken, rest) := sequence
          ⟨begun.missing - 1, begun.code * 64 + (b.val - 0x80), 0x80, 0xBF⟩ rest
        (b :: taken, rest)
    else ([], b :: rest)

/-- A boundary between the bytes cuts a sequence. -/
def Cut (front back : List Byte) : Prop :=
  ∃ begun b rest, after none front = some begun ∧ back = b :: rest ∧ Continues begun b

@[simp] theorem after_nil (state : Option Partial) : after state [] = state := rfl

@[simp] theorem after_cons (state : Option Partial) (b : Byte) (rest : List Byte) :
    after state (b :: rest) = after (push state b).2 rest := rfl

theorem after_append (state : Option Partial) (front back : List Byte) :
    after state (front ++ back) = after (after state front) back :=
  List.foldl_append

theorem scan_cons (state : Option Partial) (b : Byte) (rest : List Byte) :
    scan state (b :: rest) = (push state b).1 ++ scan (push state b).2 rest := by
  cases state with
  | none => rcases read : first b with (_ | begun) | c <;> simp [scan, push, read]
  | some begun =>
    rw [scan, push]
    split
    · dsimp only
      split <;> rfl
    · rcases first b with (_ | again) | c <;> rfl

/-- What is decoded before a boundary does not depend on what follows it. -/
theorem scan_append (state : Option Partial) (front : List Byte) :
    ∃ out, ∀ back, scan state (front ++ back) = out ++ scan (after state front) back := by
  induction front generalizing state with
  | nil => exact ⟨[], fun back => rfl⟩
  | cons b front ih =>
    obtain ⟨out, same⟩ := ih (push state b).2
    refine ⟨(push state b).1 ++ out, fun back => ?_⟩
    rw [List.cons_append, scan_cons, same, after_cons, List.append_assoc]

/-- A byte that does not continue the sequence ends it in an error and is read anew. -/
theorem push_of_not_continues {begun : Partial} {b : Byte} (stops : ¬ Continues begun b) :
    push (some begun) b = (none :: (push none b).1, (push none b).2) := by
  rcases read : first b with (_ | again) | c <;> simp [push, read, stops]

theorem scan_of_not_continues {begun : Partial} {b : Byte} (stops : ¬ Continues begun b)
    (rest : List Byte) : scan (some begun) (b :: rest) = none :: scan none (b :: rest) := by
  rw [scan_cons, push_of_not_continues stops, scan_cons none, List.cons_append]

/-- The bytes around a boundary that cuts no sequence are decoded on their own. -/
theorem scan_of_not_cut {front back : List Byte} (uncut : ¬ Cut front back) :
    scan none (front ++ back) = scan none front ++ scan none back := by
  obtain ⟨out, same⟩ := scan_append none front
  have whole := same []
  rw [List.append_nil] at whole
  rw [same, whole, List.append_assoc]
  congr 1
  cases state : after none front with
  | none => rfl
  | some begun =>
    cases back with
    | nil => rfl
    | cons b rest =>
      exact scan_of_not_continues (fun continues => uncut ⟨begun, b, rest, state, rfl, continues⟩) rest

/-! ### The bytes that continue a sequence -/

/-- Only a continuation byte can continue the sequence. -/
def Partial.Valid (begun : Partial) : Prop := 0x80 ≤ begun.lower ∧ begun.upper ≤ 0xBF

theorem first_valid {b : Byte} {begun : Partial} (same : first b = .inl (some begun)) : begun.Valid := by
  unfold first at same
  dsimp only at same
  split at same
  · cases same
  · split at same
    · cases same
      exact ⟨le_refl _, le_refl _⟩
    · split at same
      · cases same
        refine ⟨?_, ?_⟩
        · dsimp only
          split <;> omega
        · dsimp only
          split <;> omega
      · split at same
        · cases same
          refine ⟨?_, ?_⟩
          · dsimp only
            split <;> omega
          · dsimp only
            split <;> omega
        · cases same

theorem push_none_valid {b : Byte} {begun : Partial} (same : (push none b).2 = some begun) :
    begun.Valid := by
  rcases read : first b with (_ | started) | c
  · rw [push, read] at same
    cases same
  · rw [push, read] at same
    cases same
    exact first_valid read
  · rw [push, read] at same
    cases same

theorem push_valid {state : Option Partial} {b : Byte} {begun : Partial}
    (same : (push state b).2 = some begun) : begun.Valid := by
  cases state with
  | none => exact push_none_valid same
  | some before =>
    by_cases continues : Continues before b
    · rw [push, if_pos continues] at same
      dsimp only at same
      split at same
      · cases same
      · cases same
        exact ⟨le_refl _, le_refl _⟩
    · rw [push_of_not_continues continues] at same
      exact push_none_valid same

theorem after_valid {state : Option Partial} {bytes : List Byte} {begun : Partial}
    (valid : ∀ before, state = some before → before.Valid) (same : after state bytes = some begun) :
    begun.Valid := by
  induction bytes generalizing state with
  | nil => exact valid begun same
  | cons b rest ih => exact ih (fun before => push_valid) same

theorem after_none_valid {bytes : List Byte} {begun : Partial} (same : after none bytes = some begun) :
    begun.Valid := by
  refine after_valid ?_ same
  intro before impossible
  cases impossible

/-- A continuation byte on its own is an error. -/
theorem push_continuation {begun : Partial} (valid : begun.Valid) {b : Byte}
    (continues : Continues begun b) : push none b = ([none], none) := by
  have range : 0x80 ≤ b.val ∧ b.val ≤ 0xBF := ⟨valid.1.trans continues.1, continues.2.trans valid.2⟩
  have error : first b = .inl none := by
    unfold first
    dsimp only
    rw [if_neg (by omega), if_neg (by omega), if_neg (by omega), if_neg (by omega)]
  rw [push, error]

/-- A sequence in progress behind the bytes alone is in progress behind them after any sequence. -/
theorem after_of_after_none {state : Option Partial} {bytes : List Byte} {begun : Partial}
    (valid : ∀ before, state = some before → before.Valid) (same : after none bytes = some begun) :
    after state bytes = some begun := by
  induction bytes generalizing state with
  | nil => cases same
  | cons b rest ih =>
    cases state with
    | none => exact same
    | some before =>
      by_cases continues : Continues before b
      · rw [after_cons, push_continuation (valid before rfl) continues] at same
        exact ih (fun next => push_valid) same
      · rw [after_cons, push_of_not_continues continues]
        exact same

theorem Cut.append {inner back : List Byte} (cut : Cut inner back) (front : List Byte) :
    Cut (front ++ inner) back := by
  obtain ⟨begun, b, rest, state, rfl, continues⟩ := cut
  refine ⟨begun, b, rest, ?_, rfl, continues⟩
  rw [after_append]
  exact after_of_after_none (fun before => after_none_valid) state

theorem sequence_ne_nil {begun : Partial} {b : Byte} (continues : Continues begun b)
    (rest : List Byte) : (sequence begun (b :: rest)).1 ≠ [] := by
  rw [sequence, if_pos continues]
  split
  · exact List.cons_ne_nil _ _
  · exact List.cons_ne_nil _ _

/-- The sequence in progress is one character or one error, whatever follows its bytes. -/
theorem scan_sequence (begun : Partial) (bytes : List Byte) :
    ∃ c, scan (some begun) bytes = c :: scan none (sequence begun bytes).2 ∧
      scan (some begun) (sequence begun bytes).1 = [c] := by
  induction bytes generalizing begun with
  | nil => exact ⟨none, rfl, rfl⟩
  | cons b rest ih =>
    by_cases continues : begun.lower ≤ b.val ∧ b.val ≤ begun.upper
    · by_cases last : begun.missing ≤ 1
      · refine ⟨some (Char.ofNat (begun.code * 64 + (b.val - 0x80))), ?_, ?_⟩
        · rw [scan, if_pos continues, if_pos last, sequence, if_pos continues, if_pos last]
        · rw [sequence, if_pos continues, if_pos last, scan, if_pos continues, if_pos last, scan]
      · obtain ⟨c, whole, alone⟩ := ih
          ⟨begun.missing - 1, begun.code * 64 + (b.val - 0x80), 0x80, 0xBF⟩
        refine ⟨c, ?_, ?_⟩
        · rw [scan, if_pos continues, if_neg last, sequence, if_pos continues, if_neg last]
          exact whole
        · rw [sequence, if_pos continues, if_neg last]
          dsimp only
          rw [scan, if_pos continues, if_neg last]
          exact alone
    · refine ⟨none, ?_, ?_⟩
      · rw [scan_of_not_continues continues, sequence, if_neg continues]
      · rw [sequence, if_neg continues, scan]

/-- Without the bytes before them, those of the sequence are one error each. -/
theorem scan_none_sequence {begun : Partial} (valid : begun.Valid) (bytes : List Byte) :
    scan none bytes = List.replicate (sequence begun bytes).1.length none ++
      scan none (sequence begun bytes).2 := by
  induction bytes generalizing begun with
  | nil => rfl
  | cons b rest ih =>
    by_cases continues : begun.lower ≤ b.val ∧ b.val ≤ begun.upper
    · have error : scan none (b :: rest) = none :: scan none rest := by
        rw [scan_cons, push_continuation valid continues]
        rfl
      by_cases last : begun.missing ≤ 1
      · rw [error, sequence, if_pos continues, if_pos last]
        rfl
      · rw [error, sequence, if_pos continues, if_neg last]
        exact congrArg (none :: ·) (ih ⟨le_refl _, le_refl _⟩)
    · rw [sequence, if_neg continues]
      rfl

/-! ### Chunks -/

/-- The last boundary between the chunks that cuts a sequence, with the sequence. -/
structure LastCut (front back : List (List Byte)) (begun : Partial) : Prop where
  state : after none front.flatten = some begun
  continues : ∃ b rest, back.flatten = b :: rest ∧ Continues begun b
  last : ∀ inner later, back = inner ++ later → inner ≠ [] →
    ¬ Cut (front ++ inner).flatten later.flatten

theorem exists_lastCut (chunks before : List (List Byte)) :
    (∀ front back, chunks = front ++ back → ¬ Cut (before ++ front).flatten back.flatten) ∨
      ∃ front back begun, chunks = front ++ back ∧ LastCut (before ++ front) back begun := by
  induction chunks generalizing before with
  | nil =>
    left
    rintro front back split ⟨begun, b, rest, -, some, -⟩
    obtain ⟨rfl, rfl⟩ := List.append_eq_nil_iff.mp split.symm
    cases some
  | cons chunk chunks ih =>
    rcases ih (before ++ [chunk]) with none | ⟨front, back, begun, rfl, cut⟩
    · by_cases here : Cut before.flatten (chunk :: chunks).flatten
      · obtain ⟨begun, b, rest, state, some, continues⟩ := here
        refine .inr ⟨[], chunk :: chunks, begun, rfl, ?_, ⟨b, rest, some, continues⟩, ?_⟩
        · rw [List.append_nil]
          exact state
        · intro inner later split nonempty
          cases inner with
          | nil => exact absurd rfl nonempty
          | cons first inner =>
            obtain ⟨rfl, rfl⟩ := List.cons.inj split
            have uncut := none inner later rfl
            rw [List.append_assoc, List.singleton_append] at uncut
            rw [List.append_nil]
            exact uncut
      · left
        intro front back split
        cases front with
        | nil =>
          rw [List.nil_append] at split
          subst split
          rw [List.append_nil]
          exact here
        | cons first front =>
          obtain ⟨rfl, rfl⟩ := List.cons.inj split
          have uncut := none front back rfl
          rw [List.append_assoc, List.singleton_append] at uncut
          exact uncut
    · refine .inr ⟨chunk :: front, back, begun, rfl, ?_⟩
      rw [List.append_assoc, List.singleton_append] at cut
      exact cut

/-- Chunks none of whose boundaries cuts a sequence are decoded as the bytes are. -/
theorem flatMap_scan_of_uncut {chunks : List (List Byte)}
    (uncut : ∀ front back, chunks = front ++ back → ¬ Cut front.flatten back.flatten) :
    chunks.flatMap (scan none) = scan none chunks.flatten := by
  induction chunks with
  | nil => rfl
  | cons chunk chunks ih =>
    have rest : ∀ front back, chunks = front ++ back → ¬ Cut front.flatten back.flatten := by
      rintro front back rfl cut
      exact uncut (chunk :: front) back rfl (cut.append chunk)
    have here := uncut [chunk] chunks rfl
    rw [List.flatten_singleton] at here
    rw [List.flatMap_cons, ih rest, List.flatten_cons, scan_of_not_cut here]

/-- Around the last boundary that cuts a sequence: the chunks behind it give an error for each
of its bytes there, the whole bytes its character. -/
theorem LastCut.decoded {front back : List (List Byte)} {begun : Partial}
    (cut : LastCut front back begun) : ∃ before c,
      scan none front.flatten = before ++ [none] ∧
      scan none (front.flatten ++ (sequence begun back.flatten).1) = before ++ [c] ∧
      scan none (front ++ back).flatten =
        before ++ c :: scan none (sequence begun back.flatten).2 ∧
      back.flatMap (scan none) = List.replicate (sequence begun back.flatten).1.length none ++
        scan none (sequence begun back.flatten).2 := by
  obtain ⟨before, same⟩ := scan_append none front.flatten
  obtain ⟨c, whole, alone⟩ := scan_sequence begun back.flatten
  have valid := after_none_valid cut.state
  have uncut : ∀ inner later, back = inner ++ later → ¬ Cut inner.flatten later.flatten := by
    intro inner later split inside
    by_cases empty : inner = []
    · subst empty
      obtain ⟨_, _, _, state, -⟩ := inside
      cases state
    · apply cut.last inner later split empty
      rw [List.flatten_append]
      exact inside.append _
  refine ⟨before, c, ?_, ?_, ?_, ?_⟩
  · have ended := same []
    rw [List.append_nil, cut.state] at ended
    exact ended
  · rw [same, cut.state, alone]
  · rw [List.flatten_append, same, cut.state, whole]
  · rw [flatMap_scan_of_uncut uncut]
    exact scan_none_sequence valid back.flatten

end Utf8
