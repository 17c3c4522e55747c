import Mathlib.Data.List.TakeWhile
import Mathlib.Data.List.Basic

/-! The pieces of a regular expression as a backtracking matcher tries them: all the ways in which a
piece matches the start of a text, in their order, beside the texts that it matches at all. -/

universe u v w

/-- The ways to match the start of a text, each what was matched and the rest. -/
structure Matcher (α : Type u) where
  run : List α → List (List α × List α)
  Lang : List α → Prop
  reads {text pre rest : List α} : (pre, rest) ∈ run text ↔ text = pre ++ rest ∧ Lang pre

namespace Matcher

variable {α : Type u} {p : α → Bool}

def put (front : List α) (match_ : List α × List α) : List α × List α := (front ++ match_.1, match_.2)

theorem mem_map_put {front pre rest : List α} {found : List (List α × List α)} :
    (pre, rest) ∈ found.map (put front) ↔ ∃ more, (more, rest) ∈ found ∧ pre = front ++ more := by
  rw [List.mem_map]
  constructor
  · rintro ⟨⟨more, after⟩, member, same⟩
    obtain ⟨rfl, rfl⟩ := Prod.mk.inj same
    exact ⟨more, member, rfl⟩
  · rintro ⟨more, member, rfl⟩
    exact ⟨(more, rest), member, rfl⟩

theorem map_put_append (front more : List α) (found : List (List α × List α)) :
    (found.map (put more)).map (put front) = found.map (put (front ++ more)) := by
  rw [List.map_map]
  refine List.map_congr_left fun match_ _ => ?_
  simp only [Function.comp_apply, put, List.append_assoc]

/-! ### The pieces -/

/-- Nothing, which matches everywhere. -/
def empty : Matcher α where
  run text := [([], text)]
  Lang pre := pre = []
  reads := by
    intro text pre rest
    rw [List.mem_singleton, Prod.mk.injEq]
    constructor
    · rintro ⟨rfl, rfl⟩
      exact ⟨rfl, rfl⟩
    · rintro ⟨rfl, rfl⟩
      exact ⟨rfl, rfl⟩

/-- `[p]` -/
def one (p : α → Bool) : Matcher α where
  run
    | [] => []
    | c :: rest => if p c then [([c], rest)] else []
  Lang pre := ∃ c, pre = [c] ∧ p c
  reads := by
    intro text pre rest
    cases text with
    | nil =>
      refine iff_of_false List.not_mem_nil ?_
      rintro ⟨split, c, rfl, -⟩
      cases split
    | cons d text =>
      by_cases holds : p d
      · simp only [if_pos holds, List.mem_singleton, Prod.mk.injEq]
        constructor
        · rintro ⟨rfl, rfl⟩
          exact ⟨rfl, d, rfl, holds⟩
        · rintro ⟨split, c, rfl, -⟩
          obtain ⟨rfl, rfl⟩ := List.cons.inj split
          exact ⟨rfl, rfl⟩
      · simp only [if_neg holds]
        refine iff_of_false List.not_mem_nil ?_
        rintro ⟨split, c, rfl, inside⟩
        obtain ⟨rfl, -⟩ := List.cons.inj split
        exact holds inside

/-- The word, where its letters are compared after `fold`. -/
def literal [DecidableEq α] (fold : α → α) (word : List α) : Matcher α where
  run text :=
    if (text.take word.length).map fold = word then [(text.take word.length, text.drop word.length)]
    else []
  Lang pre := pre.map fold = word
  reads := by
    intro text pre rest
    split
    · rename_i same
      rw [List.mem_singleton, Prod.mk.injEq]
      constructor
      · rintro ⟨rfl, rfl⟩
        exact ⟨(List.take_append_drop _ _).symm, same⟩
      · rintro ⟨rfl, matched⟩
        have size : pre.length = word.length := by rw [← matched, List.length_map]
        rw [← size]
        exact ⟨List.take_left.symm, List.drop_left.symm⟩
    · rename_i other
      refine iff_of_false List.not_mem_nil ?_
      rintro ⟨rfl, matched⟩
      have size : pre.length = word.length := by rw [← matched, List.length_map]
      rw [← size, List.take_left] at other
      exact other matched

/-- The runs at the start of a text, the longest one first. -/
def runs (p : α → Bool) : List α → List (List α × List α)
  | [] => [([], [])]
  | c :: rest => if p c then (runs p rest).map (put [c]) ++ [([], c :: rest)] else [([], c :: rest)]

theorem mem_runs {text pre rest : List α} :
    (pre, rest) ∈ runs p text ↔ text = pre ++ rest ∧ ∀ c ∈ pre, p c := by
  induction text generalizing pre with
  | nil =>
    simp only [runs, List.mem_singleton, Prod.mk.injEq]
    constructor
    · rintro ⟨rfl, rfl⟩
      exact ⟨rfl, fun c member => absurd member List.not_mem_nil⟩
    · rintro ⟨split, -⟩
      exact List.append_eq_nil_iff.mp split.symm
  | cons d text ih =>
    have nothing : (pre, rest) = ([], d :: text) → d :: text = pre ++ rest ∧ ∀ c ∈ pre, p c := by
      intro same
      obtain ⟨rfl, rfl⟩ := Prod.mk.inj same
      exact ⟨rfl, fun c member => absurd member List.not_mem_nil⟩
    by_cases holds : p d
    · simp only [runs, if_pos holds, List.mem_append, mem_map_put, List.mem_singleton]
      constructor
      · rintro (⟨more, member, rfl⟩ | same)
        · obtain ⟨rfl, all⟩ := ih.mp member
          exact ⟨rfl, List.forall_mem_cons.mpr ⟨holds, all⟩⟩
        · exact nothing same
      · rintro ⟨split, all⟩
        cases pre with
        | nil => exact .inr (by rw [split]; rfl)
        | cons c pre =>
          obtain ⟨rfl, rfl⟩ := List.cons.inj split
          exact .inl ⟨pre, ih.mpr ⟨rfl, (List.forall_mem_cons.mp all).2⟩, rfl⟩
    · simp only [runs, if_neg holds, List.mem_singleton]
      constructor
      · exact nothing
      · rintro ⟨split, all⟩
        cases pre with
        | nil => rw [split]; rfl
        | cons c pre =>
          obtain ⟨rfl, -⟩ := List.cons.inj split
          exact absurd (all d List.mem_cons_self) holds

/-- `[p]*` -/
def many (p : α → Bool) : Matcher α := ⟨runs p, fun pre => ∀ c ∈ pre, p c, mem_runs⟩

/-- One piece and the other after it. -/
def seq (first second : Matcher α) : Matcher α where
  run text := (first.run text).flatMap fun (pre, rest) => (second.run rest).map (put pre)
  Lang pre := ∃ front back, pre = front ++ back ∧ first.Lang front ∧ second.Lang back
  reads := by
    intro text pre rest
    rw [List.mem_flatMap]
    constructor
    · rintro ⟨⟨front, after⟩, member, later⟩
      obtain ⟨back, found, rfl⟩ := mem_map_put.mp later
      obtain ⟨rfl, begun⟩ := first.reads.mp member
      obtain ⟨rfl, ended⟩ := second.reads.mp found
      exact ⟨(List.append_assoc ..).symm, front, back, rfl, begun, ended⟩
    · rintro ⟨rfl, front, back, rfl, begun, ended⟩
      refine ⟨(front, back ++ rest), first.reads.mpr ⟨List.append_assoc .., begun⟩, ?_⟩
      exact mem_map_put.mpr ⟨back, second.reads.mpr ⟨rfl, ended⟩, rfl⟩

/-- `first|second` -/
def alt (first second : Matcher α) : Matcher α where
  run text := first.run text ++ second.run text
  Lang pre := first.Lang pre ∨ second.Lang pre
  reads := by
    intro text pre rest
    rw [List.mem_append, first.reads, second.reads, ← and_or_left]

/-- `[p]+` -/
def many1 (p : α → Bool) : Matcher α := seq (one p) (many p)

/-- `[p]?` -/
def maybe (p : α → Bool) : Matcher α := alt (one p) empty

/-- `[p]{0,most}` -/
def upTo (p : α → Bool) : ℕ → Matcher α
  | 0 => empty
  | most + 1 => alt (seq (one p) (upTo p most)) empty

theorem lang_upTo {most : ℕ} {pre : List α} :
    (upTo p most).Lang pre ↔ pre.length ≤ most ∧ ∀ c ∈ pre, p c := by
  induction most generalizing pre with
  | zero =>
    constructor
    · rintro rfl
      exact ⟨Nat.zero_le _, fun c member => absurd member List.not_mem_nil⟩
    · rintro ⟨size, -⟩
      exact List.length_eq_zero_iff.mp (Nat.le_zero.mp size)
  | succ most ih =>
    constructor
    · rintro (⟨_, back, rfl, ⟨c, rfl, holds⟩, more⟩ | rfl)
      · obtain ⟨size, all⟩ := ih.mp more
        exact ⟨Nat.succ_le_succ size, List.forall_mem_cons.mpr ⟨holds, all⟩⟩
      · exact ⟨Nat.zero_le _, fun c member => absurd member List.not_mem_nil⟩
    · rintro ⟨size, all⟩
      cases pre with
      | nil => exact .inr rfl
      | cons c pre =>
        obtain ⟨holds, rest⟩ := List.forall_mem_cons.mp all
        exact .inl ⟨[c], pre, rfl, ⟨c, rfl, holds⟩, ih.mpr ⟨Nat.le_of_succ_le_succ size, rest⟩⟩

/-! ### Whole texts -/

/-- Whether a text matches up to a `$`, which stands also before a newline at the end. -/
def matchesLine (pattern : Matcher Char) (text : List Char) : Bool :=
  (pattern.run text).any fun (_, rest) => rest = [] || rest = ['\n']

theorem matchesLine_iff {pattern : Matcher Char} {text : List Char} :
    pattern.matchesLine text ↔ pattern.Lang text ∨ ∃ body, text = body ++ ['\n'] ∧ pattern.Lang body := by
  rw [matchesLine, List.any_eq_true]
  constructor
  · rintro ⟨⟨body, rest⟩, found, ends⟩
    obtain ⟨rfl, lang⟩ := pattern.reads.mp found
    rw [Bool.or_eq_true, decide_eq_true_eq, decide_eq_true_eq] at ends
    rcases ends with rfl | rfl
    · left
      rw [List.append_nil]
      exact lang
    · exact .inr ⟨body, rfl, lang⟩
  · rintro (lang | ⟨body, rfl, lang⟩)
    · exact ⟨(text, []), pattern.reads.mpr ⟨(List.append_nil _).symm, lang⟩, rfl⟩
    · exact ⟨(body, ['\n']), pattern.reads.mpr ⟨rfl, lang⟩, rfl⟩

/-! ### What a piece leaves out -/

/-- No text of the piece has such a letter. -/
def Avoids (matcher : Matcher α) (bad : α → Prop) : Prop := ∀ pre, matcher.Lang pre → ∀ c ∈ pre, ¬bad c

variable {bad : α → Prop} {first second : Matcher α}

theorem avoids_empty : (empty : Matcher α).Avoids bad := by
  rintro _ rfl c member
  exact absurd member List.not_mem_nil

theorem avoids_one (outside : ∀ c, p c → ¬bad c) : (one p).Avoids bad := by
  rintro _ ⟨d, rfl, holds⟩ c member
  obtain rfl := List.mem_singleton.mp member
  exact outside c holds

theorem avoids_many (outside : ∀ c, p c → ¬bad c) : (many p).Avoids bad :=
  fun _ all c member => outside c (all c member)

theorem avoids_literal [DecidableEq α] {fold : α → α} {word : List α}
    (outside : ∀ c, fold c ∈ word → ¬bad c) : (literal fold word).Avoids bad := by
  rintro pre rfl c member
  exact outside c (List.mem_map_of_mem member)

theorem Avoids.seq (one : first.Avoids bad) (other : second.Avoids bad) : (seq first second).Avoids bad := by
  rintro _ ⟨front, back, rfl, begun, ended⟩ c member
  cases List.mem_append.mp member with
  | inl member => exact one front begun c member
  | inr member => exact other back ended c member

theorem Avoids.alt (one : first.Avoids bad) (other : second.Avoids bad) : (alt first second).Avoids bad := by
  rintro pre (begun | begun)
  · exact one pre begun
  · exact other pre begun

theorem avoids_many1 (outside : ∀ c, p c → ¬bad c) : (many1 p).Avoids bad :=
  (avoids_one outside).seq (avoids_many outside)

theorem avoids_upTo (outside : ∀ c, p c → ¬bad c) (most : ℕ) : (upTo p most).Avoids bad :=
  fun _ lang c member => outside c ((lang_upTo.mp lang).2 c member)

theorem avoids_maybe (outside : ∀ c, p c → ¬bad c) : (maybe p).Avoids bad :=
  (avoids_one outside).alt avoids_empty

/-- The texts of the piece end with the letter and have it nowhere else. -/
def Closes (matcher : Matcher α) (last : α) : Prop :=
  ∀ pre, matcher.Lang pre → ∃ body, pre = body ++ [last] ∧ last ∉ body

variable {last : α}

theorem closes_one (only : ∀ c, p c → c = last) : (one p).Closes last := by
  rintro _ ⟨c, rfl, holds⟩
  exact ⟨[], by rw [only c holds]; rfl, List.not_mem_nil⟩

theorem Avoids.seq_closes (avoids : first.Avoids (· = last)) (closes : second.Closes last) :
    (first.seq second).Closes last := by
  rintro _ ⟨front, back, rfl, begun, ended⟩
  obtain ⟨body, rfl, absent⟩ := closes back ended
  refine ⟨front ++ body, (List.append_assoc ..).symm, ?_⟩
  intro member
  cases List.mem_append.mp member with
  | inl member => exact avoids front begun last member rfl
  | inr member => exact absent member

/-! ### What is tried -/

/-- Where the next piece cannot begin inside a run, it is tried after the longest one only. -/
theorem run_many_of_stuck {next : Matcher α} (stuck : ∀ c rest, p c → next.run (c :: rest) = [])
    (text : List α) :
    (seq (many p) next).run text = (next.run (text.dropWhile p)).map (put (text.takeWhile p)) := by
  change (runs p text).flatMap _ = _
  induction text with
  | nil => simp only [runs, List.flatMap_cons, List.flatMap_nil, List.append_nil, List.dropWhile_nil,
      List.takeWhile_nil]
  | cons c text ih =>
    by_cases holds : p c
    · rw [List.dropWhile_cons_of_pos holds, List.takeWhile_cons_of_pos holds, runs, if_pos holds,
        List.flatMap_append, List.flatMap_map]
      have here : (next.run (c :: text)).map (put []) = [] := by rw [stuck c text holds, List.map_nil]
      have later : ∀ match_ : List α × List α, (next.run match_.2).map (put (put [c] match_).1) =
          ((next.run match_.2).map (put match_.1)).map (put [c]) := by
        intro match_
        rw [map_put_append]
        rfl
      have longer := congrArg (List.map (put [c])) ih
      rw [List.map_flatMap, map_put_append] at longer
      simp only [List.flatMap_cons, List.flatMap_nil, here, List.append_nil]
      refine Eq.trans ?_ longer
      exact List.flatMap_congr fun match_ _ => later match_
    · rw [List.dropWhile_cons_of_neg holds, List.takeWhile_cons_of_neg holds, runs, if_neg holds]
      simp only [List.flatMap_cons, List.flatMap_nil, List.append_nil]

theorem run_seq_of_run {next : Matcher α} {text pre rest : List α} (run : first.run text = [(pre, rest)]) :
    (first.seq next).run text = (next.run rest).map (put pre) := by
  change (first.run text).flatMap _ = _
  rw [run, List.flatMap_cons, List.flatMap_nil, List.append_nil]

/-- A piece that matches something and has no such letter does not match where one is first. -/
theorem run_of_avoids {matcher : Matcher α} (avoids : matcher.Avoids bad) (something : ¬matcher.Lang [])
    {c : α} (here : bad c) (rest : List α) : matcher.run (c :: rest) = [] := by
  rw [List.eq_nil_iff_forall_not_mem]
  rintro ⟨pre, after⟩ member
  obtain ⟨split, lang⟩ := matcher.reads.mp member
  cases pre with
  | nil => exact something lang
  | cons d pre =>
    obtain ⟨rfl, -⟩ := List.cons.inj split
    exact avoids _ lang c List.mem_cons_self here

/-- What is in front of the first place of a letter, and what is after it. -/
theorem append_cons_inj_of_absent {front front' rest rest' : List α} (absent : last ∉ front)
    (absent' : last ∉ front') (same : front ++ last :: rest = front' ++ last :: rest') :
    front = front' ∧ rest = rest' := by
  rcases List.append_eq_append_iff.mp same with ⟨more, whole, tail⟩ | ⟨more, whole, tail⟩
  · cases more with
    | nil => exact ⟨by rw [whole, List.append_nil], (List.cons.inj tail).2⟩
    | cons c more =>
      obtain ⟨rfl, -⟩ := List.cons.inj tail
      exact absurd (by rw [whole]; exact List.mem_append_right _ List.mem_cons_self) absent'
  · cases more with
    | nil => exact ⟨by rw [whole, List.append_nil], (List.cons.inj tail).2.symm⟩
    | cons c more =>
      obtain ⟨rfl, -⟩ := List.cons.inj tail
      exact absurd (by rw [whole]; exact List.mem_append_right _ List.mem_cons_self) absent

/-- A piece that ends where a letter first stands matches in one way. -/
theorem Closes.unique {matcher : Matcher α} (closes : matcher.Closes last) {text : List α}
    {match_ other : List α × List α} (found : match_ ∈ matcher.run text) (found' : other ∈ matcher.run text) :
    match_ = other := by
  obtain ⟨pre, rest⟩ := match_
  obtain ⟨pre', rest'⟩ := other
  obtain ⟨rfl, lang⟩ := matcher.reads.mp found
  obtain ⟨split, lang'⟩ := matcher.reads.mp found'
  obtain ⟨body, rfl, absent⟩ := closes pre lang
  obtain ⟨body', rfl, absent'⟩ := closes pre' lang'
  rw [List.append_assoc, List.append_assoc] at split
  obtain ⟨rfl, rfl⟩ := append_cons_inj_of_absent absent absent' split
  rfl

/-- The first match, where there is one way only. -/
theorem Closes.head?_run {matcher : Matcher α} (closes : matcher.Closes last) {text : List α}
    {match_ : List α × List α} (found : match_ ∈ matcher.run text) :
    (matcher.run text).head? = some match_ := by
  obtain ⟨first, later, whole⟩ := List.exists_cons_of_ne_nil (List.ne_nil_of_mem found)
  have here : first ∈ matcher.run text := by
    rw [whole]
    exact List.mem_cons_self
  rw [whole, List.head?_cons, closes.unique here found]

theorem Closes.not_lang_nil {matcher : Matcher α} (closes : matcher.Closes last) : ¬matcher.Lang [] := by
  intro lang
  obtain ⟨body, split, -⟩ := closes [] lang
  cases List.append_eq_nil_iff.mp split.symm |>.2

/-- A word matches itself. -/
theorem run_literal_append [DecidableEq α] (word rest : List α) :
    (literal id word).run (word ++ rest) = [(word, rest)] := by
  simp [literal]

/-- A match that is the only one is the first. -/
theorem findSome?_of_single {β : Type v} {γ : Type w} {f : β → Option γ} {found : List β} {here : β}
    {result : γ} (member : here ∈ found) (hit : f here = some result)
    (single : ∀ other ∈ found, f other ≠ none → other = here) : found.findSome? f = some result := by
  induction found with
  | nil => cases member
  | cons head tail ih =>
    rw [List.findSome?_cons]
    cases hits : f head with
    | some other =>
      have same := single head List.mem_cons_self (by rw [hits]; exact Option.some_ne_none _)
      subst same
      exact hits.symm.trans hit
    | none =>
      cases member with
      | head => rw [hit] at hits; cases hits
      | tail _ member => exact ih member fun other later => single other (List.mem_cons_of_mem _ later)

end Matcher
