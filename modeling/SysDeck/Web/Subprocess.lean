import SysDeck.Library.Tail
import SysDeck.Library.Utf16
import SysDeck.Library.Utf8Chunks

/-! Subprocesses of the bridge: what `run` returns of a child's output, decoded chunk by chunk and
cut to its end. -/

namespace SysDeck.Web.Subprocess

open Utf8 (LastCut scan sequence)
open Tail (trail)

def MAX_OUTPUT : ℕ := 8 * 1024 * 1024

/-- What happens before a child is done, and how that comes about. -/
inductive Event where
  | stdout (d : List Byte)
  | stderr (d : List Byte)

inductive Ending where
  | error (err : List CodeUnit)
  | close (rc : Option ℤ)

inductive Spawn where
  | threw (err : List CodeUnit)
  | child (events : List Event) (ending : Ending)

structure Output where
  rc : ℤ
  stdout : List CodeUnit
  stderr : List CodeUnit

/-- `d.toString()` -/
def text (d : List Byte) : List CodeUnit := Utf16.encode (Utf8.decode d)

/-- `s.slice(-cap)`, which is the whole of `s` at zero. -/
def slice (s : List CodeUnit) (cap : ℕ) : List CodeUnit := if cap = 0 then s else s.rtake cap

def acc (cap : ℕ) (cur : List CodeUnit) (d : List Byte) : List CodeUnit :=
  let next := cur ++ text d
  if cap * 2 < next.length then slice next cap else next

def capTail (s : List CodeUnit) (cap : ℕ) : List CodeUnit := if cap < s.length then slice s cap else s

/-- The two streams so far. -/
structure Streams where
  stdout : List CodeUnit
  stderr : List CodeUnit

def onData (cap : ℕ) (streams : Streams) : Event → Streams
  | .stdout d => { streams with stdout := acc cap streams.stdout d }
  | .stderr d => { streams with stderr := acc cap streams.stderr d }

def run (maxOutput : Option ℕ) : Spawn → Output
  | .threw err => ⟨127, [], err⟩
  | .child events ending =>
    let cap := maxOutput.getD MAX_OUTPUT
    let streams := events.foldl (onData cap) ⟨[], []⟩
    match ending with
    | .error err => ⟨127, capTail streams.stdout cap, capTail err cap⟩
    | .close rc => ⟨rc.getD 1, capTail streams.stdout cap, capTail streams.stderr cap⟩

/-- The chunks in which the child's output arrives. -/
def stdoutChunks (events : List Event) : List (List Byte) :=
  events.filterMap fun event => match event with
    | .stdout d => some d
    | .stderr _ => none

def stderrChunks (events : List Event) : List (List Byte) :=
  events.filterMap fun event => match event with
    | .stdout _ => none
    | .stderr d => some d

/-- The replacement character. -/
def fill : CodeUnit := Utf16.unit 0xFFFD

/-- The last `cap` units do not show the last sequence that a boundary between chunks cuts, beyond the
replacement characters with which the text up to its end ends. -/
def Unseen (cap : ℕ) (chunks : List (List Byte)) : Prop :=
  ∀ front back begun, chunks = front ++ back → LastCut front back begun →
    cap ≤ (text (sequence begun back.flatten).2).length +
      trail fill (text (front.flatten ++ (sequence begun back.flatten).1))

/-! ### The cuts to the end -/

theorem slice_eq {cap : ℕ} (positive : 0 < cap) (s : List CodeUnit) : slice s cap = s.rtake cap :=
  if_neg (Nat.ne_of_gt positive)

theorem capTail_eq {cap : ℕ} (positive : 0 < cap) (s : List CodeUnit) : capTail s cap = s.rtake cap := by
  unfold capTail
  split
  · exact slice_eq positive s
  · rename_i short
    exact (Tail.rtake_of_length_le (Nat.le_of_not_lt short)).symm

theorem acc_rtake {cap : ℕ} (positive : 0 < cap) (cur : List CodeUnit) (d : List Byte)
    (back : List CodeUnit) :
    (acc cap cur d ++ back).rtake cap = (cur ++ text d ++ back).rtake cap := by
  unfold acc
  dsimp only
  split
  · rw [slice_eq positive, Tail.rtake_append]
  · rfl

/-- What is dropped on the way is never among the last `cap` units. -/
theorem foldl_acc_rtake {cap : ℕ} (positive : 0 < cap) (chunks : List (List Byte))
    (cur : List CodeUnit) :
    (chunks.foldl (acc cap) cur).rtake cap = (cur ++ chunks.flatMap text).rtake cap := by
  induction chunks generalizing cur with
  | nil => rw [List.foldl_nil, List.flatMap_nil, List.append_nil]
  | cons d chunks ih =>
    rw [List.foldl_cons, ih, acc_rtake positive, List.flatMap_cons, List.append_assoc]

theorem foldl_onData (cap : ℕ) (events : List Event) (streams : Streams) :
    events.foldl (onData cap) streams = ⟨(stdoutChunks events).foldl (acc cap) streams.stdout,
      (stderrChunks events).foldl (acc cap) streams.stderr⟩ := by
  induction events generalizing streams with
  | nil => rfl
  | cons event events ih =>
    rw [List.foldl_cons, ih]
    cases event <;> rfl

theorem capTail_foldl {cap : ℕ} (positive : 0 < cap) (chunks : List (List Byte)) :
    capTail (chunks.foldl (acc cap) []) cap = (chunks.flatMap text).rtake cap := by
  rw [capTail_eq positive, foldl_acc_rtake positive, List.nil_append]

/-! ### The text of a character -/

def units (c : Option Char) : List CodeUnit := Utf16.encodeChar (c.getD (Char.ofNat 0xFFFD))

theorem text_eq (d : List Byte) : text d = (scan none d).flatMap units := by
  rw [text, Utf16.encode, Utf8.decode, List.flatMap_map]
  rfl

theorem units_none : units none = [fill] := by decide

theorem flatMap_units_replicate (n : ℕ) :
    (List.replicate n none).flatMap units = List.replicate n fill := by
  induction n with
  | zero => rfl
  | succ n ih => rw [List.replicate_succ, List.flatMap_cons, ih, units_none, List.replicate_succ,
      List.singleton_append]

theorem encodeChar_cases (c : Char) : Utf16.encodeChar c = [fill] ∨
    ∃ before last, last ≠ fill ∧ Utf16.encodeChar c = before ++ [last] := by
  have valid : c.toNat < 0xD800 ∨ 0xDFFF < c.toNat ∧ c.toNat < 0x110000 := c.valid
  have value : fill.val = 0xFFFD := rfl
  unfold Utf16.encodeChar
  dsimp only
  split
  · by_cases replacement : c.toNat = 0xFFFD
    · left
      rw [replacement]
      rfl
    · refine .inr ⟨[], Utf16.unit c.toNat, ?_, rfl⟩
      rw [ne_eq, Fin.ext_iff, value, Utf16.unit_val]
      omega
  · refine .inr ⟨[_], _, ?_, rfl⟩
    rw [ne_eq, Fin.ext_iff, value, Utf16.unit_val]
    omega

theorem trail_units (before : List CodeUnit) (c : Option Char) :
    units c = [fill] ∨ trail fill (before ++ units c) = 0 := by
  rcases encodeChar_cases (c.getD (Char.ofNat 0xFFFD)) with same | ⟨units', last, other, same⟩
  · exact .inl same
  · right
    rw [units, same, ← List.append_assoc]
    exact Tail.trail_concat_of_ne other _

/-! ### The chunks and the whole -/

theorem flatMap_text (chunks : List (List Byte)) :
    chunks.flatMap text = (chunks.flatMap (scan none)).flatMap units := by
  rw [List.flatMap_assoc]
  exact List.flatMap_congr fun d _ => text_eq d

theorem text_of_uncut {chunks : List (List Byte)}
    (uncut : ∀ front back, chunks = front ++ back → ¬ Utf8.Cut front.flatten back.flatten) :
    chunks.flatMap text = text chunks.flatten := by
  rw [flatMap_text, Utf8.flatMap_scan_of_uncut uncut, text_eq]

section

variable {front back : List (List Byte)} {begun : Utf8.Partial} (cut : LastCut front back begun)
include cut

/-- Each byte of the sequence behind the boundary is a replacement character. -/
theorem chunks_text : (front ++ back).flatMap text =
    front.flatMap text ++ List.replicate (sequence begun back.flatten).1.length fill ++
      text (sequence begun back.flatten).2 := by
  obtain ⟨before, c, -, -, -, behind⟩ := cut.decoded
  rw [List.flatMap_append, flatMap_text back, behind, List.flatMap_append, flatMap_units_replicate,
    ← text_eq, List.append_assoc]

theorem whole_text : text (front ++ back).flatten =
    text (front.flatten ++ (sequence begun back.flatten).1) ++ text (sequence begun back.flatten).2 := by
  obtain ⟨before, c, -, alone, whole, -⟩ := cut.decoded
  rw [text_eq, whole, text_eq (front.flatten ++ _), alone, text_eq (sequence begun back.flatten).2]
  simp

/-- The sequence is the replacement character that ends the text before it, or ends the text in
another one. -/
theorem trail_taken :
    text (front.flatten ++ (sequence begun back.flatten).1) = text front.flatten ∨
      trail fill (text (front.flatten ++ (sequence begun back.flatten).1)) = 0 := by
  obtain ⟨before, c, ended, alone, -, -⟩ := cut.decoded
  rw [text_eq, alone, text_eq, ended, List.flatMap_append, List.flatMap_append, List.flatMap_singleton,
    List.flatMap_singleton, units_none]
  rcases trail_units (before.flatMap units) c with same | zero
  · rw [same]
    exact .inl rfl
  · exact .inr zero

theorem taken_pos : 0 < (sequence begun back.flatten).1.length := by
  obtain ⟨b, rest, same, continues⟩ := cut.continues
  rw [same]
  exact List.length_pos_iff.mpr (Utf8.sequence_ne_nil continues rest)

theorem back_pos : 0 < back.length := by
  obtain ⟨b, rest, same, -⟩ := cut.continues
  cases back with
  | nil => cases same
  | cons chunk back => exact Nat.succ_pos _

/-- The chunks end in more replacement characters at the end of the sequence. -/
theorem trail_lt (le : trail fill (text front.flatten) ≤ trail fill (front.flatMap text)) :
    trail fill (text (front.flatten ++ (sequence begun back.flatten).1)) <
      trail fill (front.flatMap text ++
        List.replicate (sequence begun back.flatten).1.length fill) := by
  have positive := taken_pos cut
  rw [Tail.trail_replicate]
  rcases trail_taken cut with same | zero
  · rw [same]
    omega
  · omega

end

/-- The chunks never end in fewer replacement characters than the whole. -/
theorem trail_text_le (chunks : List (List Byte)) :
    trail fill (text chunks.flatten) ≤ trail fill (chunks.flatMap text) := by
  induction size : chunks.length using Nat.strong_induction_on generalizing chunks with
  | _ n ih =>
    subst size
    rcases Utf8.exists_lastCut chunks [] with uncut | ⟨front, back, begun, rfl, cut⟩
    · rw [text_of_uncut uncut]
    · rw [List.nil_append] at cut
      have shorter : front.length < (front ++ back).length := by
        have positive := back_pos cut
        rw [List.length_append]
        omega
      rw [whole_text cut, chunks_text cut]
      exact Tail.trail_append_le (Nat.le_of_lt (trail_lt cut (ih _ shorter front rfl))) _

/-- The chunks and the whole end in the same units exactly where the end does not show a cut. -/
theorem rtake_flatMap_text_iff (cap : ℕ) (chunks : List (List Byte)) :
    (chunks.flatMap text).rtake cap = (text chunks.flatten).rtake cap ↔ Unseen cap chunks := by
  have at_cut : ∀ front back begun, LastCut front back begun →
      (((front ++ back).flatMap text).rtake cap = (text (front ++ back).flatten).rtake cap ↔
        cap ≤ (text (sequence begun back.flatten).2).length +
          trail fill (text (front.flatten ++ (sequence begun back.flatten).1))) := by
    intro front back begun cut
    rw [whole_text cut, chunks_text cut]
    exact Tail.rtake_append_eq_iff (trail_lt cut (trail_text_le front)) _ _
  constructor
  · rintro same front back begun rfl cut
    exact (at_cut front back begun cut).mp same
  · intro unseen
    rcases Utf8.exists_lastCut chunks [] with uncut | ⟨front, back, begun, rfl, cut⟩
    · rw [text_of_uncut uncut]
    · rw [List.nil_append] at cut
      exact (at_cut front back begun cut).mpr (unseen front back begun rfl cut)

/-- What a child wrote is returned from its end, whatever the chunks, exactly where no cut of a
character by a boundary between them is seen there. -/
theorem run_iff (maxOutput : Option ℕ) (events : List Event)
    (positive : 0 < maxOutput.getD MAX_OUTPUT) :
    (∀ ending, (run maxOutput (.child events ending)).stdout =
      (text (stdoutChunks events).flatten).rtake (maxOutput.getD MAX_OUTPUT) ↔
        Unseen (maxOutput.getD MAX_OUTPUT) (stdoutChunks events)) ∧
    ∀ rc, (run maxOutput (.child events (.close rc))).stderr =
      (text (stderrChunks events).flatten).rtake (maxOutput.getD MAX_OUTPUT) ↔
        Unseen (maxOutput.getD MAX_OUTPUT) (stderrChunks events) := by
  constructor
  · intro ending
    rw [← rtake_flatMap_text_iff, ← capTail_foldl positive]
    cases ending <;> rw [run, foldl_onData]
  · intro rc
    rw [← rtake_flatMap_text_iff, ← capTail_foldl positive, run, foldl_onData]

/-- The sign `€` in two chunks, and bytes behind it. -/
def euro (behind : List Byte) : List Event := [.stdout [0xE2], .stdout (0x82 :: 0xAC :: behind)]

/-- The sign is returned as three replacement characters. -/
theorem euro_is_split : (run none (.child (euro []) (.close (some 0)))).stdout = [fill, fill, fill] ∧
    (run none (.child (euro []) (.close (some 0)))).stdout ≠
      (text (stdoutChunks (euro [])).flatten).rtake MAX_OUTPUT := by
  decide

/-- The cut is not seen in the last two units. -/
theorem euro_is_unseen : Unseen 2 (stdoutChunks (euro [0x61, 0x62])) :=
  ((run_iff (some 2) (euro [0x61, 0x62]) (by decide)).1 (.close (some 0))).mp (by decide)

end SysDeck.Web.Subprocess
