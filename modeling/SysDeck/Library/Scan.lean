import SysDeck.Library.Text

/-! Scanners for regular expressions: a run of one kind of character, and a continuation that
matches the rest. The runs are tried in the order of a backtracking matcher. -/

universe u

namespace Scan

variable {α : Type u} {p : Char → Bool} {next : List Char → List Char → Option α}

/-- The longest run after which the rest matches; `run` is what was read of it. -/
def greedyFrom (p : Char → Bool) (next : List Char → List Char → Option α) :
    List Char → List Char → Option α
  | run, [] => next run []
  | run, c :: rest =>
    if p c then (greedyFrom p next (run ++ [c]) rest).or (next run (c :: rest))
    else next run (c :: rest)

/-- The shortest run after which the rest matches. -/
def lazyFrom (p : Char → Bool) (next : List Char → List Char → Option α) :
    List Char → List Char → Option α
  | run, [] => next run []
  | run, c :: rest =>
    if p c then (next run (c :: rest)).or (lazyFrom p next (run ++ [c]) rest)
    else next run (c :: rest)

/-- `[p]*` -/
def many (p : Char → Bool) (next : List Char → List Char → Option α) : List Char → Option α :=
  greedyFrom p next []

def nonempty (next : List Char → List Char → Option α) (run rest : List Char) : Option α :=
  if run = [] then none else next run rest

/-- `[p]+` -/
def many1 (p : Char → Bool) (next : List Char → List Char → Option α) : List Char → Option α :=
  many p (nonempty next)

/-- `[p]+?` -/
def lazyMany1 (p : Char → Bool) (next : List Char → List Char → Option α) : List Char → Option α :=
  lazyFrom p (nonempty next) []

def literal (word : List Char) (next : List Char → Option α) (text : List Char) : Option α :=
  if word <+: text then next (text.drop word.length) else none

/-- The first place from which the text matches. -/
def search (next : List Char → Option α) : List Char → Option α
  | [] => next []
  | c :: rest => (next (c :: rest)).or (search next rest)

/-- The first place at the start of a line from which the text matches, with what is before it; the
text itself may begin a line. -/
def searchLine (next : List Char → Option α) : Bool → List Char → Option (List Char × α)
  | starts, [] => if starts then (next []).map ([], ·) else none
  | starts, c :: rest =>
    match if starts then next (c :: rest) else none with
    | some found => some ([], found)
    | none => (searchLine next (c = '\n') rest).map fun (before, found) => (c :: before, found)

/-- Whether a line starts after a text. -/
def atLine : Bool → List Char → Bool
  | starts, [] => starts
  | _, c :: rest => atLine (c = '\n') rest

/-- The maximal runs between separators: `split()`, and `trim().split(/\s+/)` of a text that is
not blank. -/
def fields (blank : Char → Bool) (text : List Char) : List (List Char) :=
  (text.splitOnP blank).filter (· ≠ [])

/-- When nothing can follow inside a run, the run is the longest one. -/
theorem greedyFrom_of_stuck (stuck : ∀ run c rest, p c → next run (c :: rest) = none)
    (run text : List Char) :
    greedyFrom p next run text = next (run ++ text.takeWhile p) (text.dropWhile p) := by
  induction text generalizing run with
  | nil => simp [greedyFrom]
  | cons c rest ih =>
    by_cases inside : p c
    · simp [greedyFrom, inside, ih, stuck run c rest inside]
    · simp [greedyFrom, inside]

theorem many_of_stuck (stuck : ∀ run c rest, p c → next run (c :: rest) = none)
    (text : List Char) : many p next text = next (text.takeWhile p) (text.dropWhile p) :=
  greedyFrom_of_stuck stuck [] text

theorem many1_of_stuck (stuck : ∀ run c rest, p c → next run (c :: rest) = none)
    (text : List Char) :
    many1 p next text =
      if text.takeWhile p = [] then none else next (text.takeWhile p) (text.dropWhile p) := by
  refine many_of_stuck ?_ text
  intro run c rest inside
  simp [nonempty, stuck run c rest inside]

/-- A run that can only be followed where it ends, and is not. -/
theorem many1_stopped (stuck : ∀ run c rest, p c → next run (c :: rest) = none) {run rest : List Char}
    {c : Char} (all : ∀ d ∈ run, p d) (stop : p c = false) (failed : next run (c :: rest) = none) :
    many1 p next (run ++ c :: rest) = none := by
  rw [many1_of_stuck stuck, List.takeWhile_append_of_pos all, List.dropWhile_append_of_pos all,
    List.takeWhile_cons_of_neg (by simp [stop]), List.dropWhile_cons_of_neg (by simp [stop]), List.append_nil,
    failed, ite_self]

/-- Where no run is followed by a match, none of them is. -/
theorem greedyFrom_eq_none {run more rest : List Char}
    (failed : greedyFrom p next run (more ++ rest) = none) (all : ∀ c ∈ more, p c) :
    next (run ++ more) rest = none := by
  induction more generalizing run with
  | nil =>
    cases rest with
    | nil => simpa [greedyFrom] using failed
    | cons c rest =>
      by_cases inside : p c
      · simp only [List.nil_append, greedyFrom, inside, if_true, Option.or_eq_none_iff] at failed
        simpa using failed.2
      · simpa [greedyFrom, inside] using failed
  | cons c more ih =>
    have inside : p c := all c List.mem_cons_self
    simp only [List.cons_append, greedyFrom, inside, if_true, Option.or_eq_none_iff] at failed
    simpa using ih failed.1 fun d member => all d (List.mem_cons_of_mem _ member)

/-- What is found further on in a run is found first. -/
theorem greedyFrom_skip {found : α} {more rest : List Char} (all : ∀ c ∈ more, p c) {run : List Char}
    (matched : greedyFrom p next (run ++ more) rest = some found) :
    greedyFrom p next run (more ++ rest) = some found := by
  induction more generalizing run with
  | nil => simpa using matched
  | cons c more ih =>
    have inside : p c := all c List.mem_cons_self
    have later := @ih (fun d member => all d (List.mem_cons_of_mem _ member)) (run ++ [c])
      (by simpa using matched)
    simp [greedyFrom, inside, later]

/-- A match after the longest run is the match. -/
theorem greedyFrom_of_longest {found : α} {more rest : List Char} (all : ∀ c ∈ more, p c)
    (stop : ∀ c ∈ rest.head?, p c = false) {run : List Char}
    (matched : next (run ++ more) rest = some found) :
    greedyFrom p next run (more ++ rest) = some found := by
  refine greedyFrom_skip all ?_
  cases rest with
  | nil => exact matched
  | cons c rest => simpa [greedyFrom, stop c rfl] using matched

theorem many_of_longest {found : α} {run rest : List Char} (all : ∀ c ∈ run, p c)
    (stop : ∀ c ∈ rest.head?, p c = false) (matched : next run rest = some found) :
    many p next (run ++ rest) = some found :=
  @greedyFrom_of_longest _ _ _ _ _ _ all stop [] matched

theorem many1_of_longest {found : α} {run rest : List Char} (begun : run ≠ [])
    (all : ∀ c ∈ run, p c) (stop : ∀ c ∈ rest.head?, p c = false)
    (matched : next run rest = some found) : many1 p next (run ++ rest) = some found :=
  many_of_longest all stop (by simpa [nonempty, begun] using matched)

/-- A run that is followed by a match is not passed over. -/
theorem many1_ne_none {run rest : List Char} (begun : run ≠ []) (all : ∀ c ∈ run, p c)
    (matched : next run rest ≠ none) : many1 p next (run ++ rest) ≠ none := by
  intro failed
  have here := greedyFrom_eq_none failed all
  rw [List.nil_append, nonempty, if_neg begun] at here
  exact matched here

theorem lazyFrom_eq_none {run more rest : List Char}
    (failed : lazyFrom p next run (more ++ rest) = none) (all : ∀ c ∈ more, p c) :
    next (run ++ more) rest = none := by
  induction more generalizing run with
  | nil =>
    cases rest with
    | nil => simpa [lazyFrom] using failed
    | cons c rest =>
      by_cases inside : p c
      · simp only [List.nil_append, lazyFrom, inside, if_true, Option.or_eq_none_iff] at failed
        simpa using failed.1
      · simpa [lazyFrom, inside] using failed
  | cons c more ih =>
    have inside : p c := all c List.mem_cons_self
    simp only [List.cons_append, lazyFrom, inside, if_true, Option.or_eq_none_iff] at failed
    simpa using ih failed.2 fun d member => all d (List.mem_cons_of_mem _ member)

theorem lazyMany1_ne_none {run rest : List Char} (begun : run ≠ []) (all : ∀ c ∈ run, p c)
    (matched : next run rest ≠ none) : lazyMany1 p next (run ++ rest) ≠ none := by
  intro failed
  have here := lazyFrom_eq_none failed all
  rw [List.nil_append, nonempty, if_neg begun] at here
  exact matched here

/-- What a run and its continuation found: the text splits into the run and the rest, and no
longer run is followed by a match. -/
theorem greedyFrom_eq_some {run text : List Char} {found : α}
    (matched : greedyFrom p next run text = some found) :
    ∃ more rest, text = more ++ rest ∧ (∀ c ∈ more, p c) ∧ next (run ++ more) rest = some found ∧
      ∀ longer left, rest = longer ++ left → longer ≠ [] → (∀ c ∈ longer, p c) →
        next (run ++ more ++ longer) left = none := by
  induction text generalizing run with
  | nil =>
    refine ⟨[], [], rfl, by simp, by simpa [greedyFrom] using matched, ?_⟩
    intro longer left split nonempty
    exact absurd (List.append_eq_nil_iff.mp split.symm).1 nonempty
  | cons c rest ih =>
    by_cases inside : p c
    · simp only [greedyFrom, inside, if_true, Option.or_eq_some_iff] at matched
      rcases matched with longer | ⟨shorter, here⟩
      · obtain ⟨more, after, rfl, all, found, longest⟩ := ih longer
        refine ⟨c :: more, after, rfl, ?_, by simpa using found, ?_⟩
        · simpa [inside] using all
        · intro longer left split nonempty visible
          simpa using longest longer left split nonempty visible
      · refine ⟨[], c :: rest, rfl, by simp, by simpa using here, ?_⟩
        intro longer left split nonempty visible
        obtain ⟨d, longer, rfl⟩ := List.exists_cons_of_ne_nil nonempty
        obtain ⟨rfl, rfl⟩ := List.cons.inj split
        have tried := greedyFrom_eq_none shorter fun e member =>
          visible e (List.mem_cons_of_mem _ member)
        simpa using tried
    · simp only [greedyFrom, inside] at matched
      refine ⟨[], c :: rest, rfl, by simp, by simpa using matched, ?_⟩
      intro longer left split nonempty visible
      obtain ⟨d, longer, rfl⟩ := List.exists_cons_of_ne_nil nonempty
      obtain ⟨rfl, rfl⟩ := List.cons.inj split
      exact absurd (visible c List.mem_cons_self) inside

theorem many1_eq_some {text : List Char} {found : α} (matched : many1 p next text = some found) :
    ∃ run rest, text = run ++ rest ∧ run ≠ [] ∧ (∀ c ∈ run, p c) ∧ next run rest = some found ∧
      ∀ longer left, rest = longer ++ left → longer ≠ [] → (∀ c ∈ longer, p c) →
        next (run ++ longer) left = none := by
  obtain ⟨run, rest, split, all, found, longest⟩ := greedyFrom_eq_some matched
  simp only [List.nil_append] at found longest
  rw [nonempty] at found
  split at found
  · cases found
  · rename_i begun
    refine ⟨run, rest, split, begun, all, found, ?_⟩
    intro longer left split nonempty visible
    simpa [Scan.nonempty, begun] using longest longer left split nonempty visible

/-- What a shortest run found: no shorter run is followed by a match. -/
theorem lazyFrom_eq_some {run text : List Char} {found : α}
    (matched : lazyFrom p next run text = some found) :
    ∃ more rest, text = more ++ rest ∧ (∀ c ∈ more, p c) ∧ next (run ++ more) rest = some found ∧
      ∀ shorter left, more = shorter ++ left → left ≠ [] →
        next (run ++ shorter) (left ++ rest) = none := by
  induction text generalizing run with
  | nil => exact ⟨[], [], rfl, by simp, by simpa [lazyFrom] using matched, by simp_all⟩
  | cons c rest ih =>
    by_cases inside : p c
    · simp only [lazyFrom, inside, if_true, Option.or_eq_some_iff] at matched
      rcases matched with here | ⟨stop, later⟩
      · exact ⟨[], c :: rest, rfl, by simp, by simpa using here, by simp_all⟩
      · obtain ⟨more, after, rfl, all, found, shortest⟩ := ih later
        refine ⟨c :: more, after, rfl, ?_, by simpa using found, ?_⟩
        · simpa [inside] using all
        · intro shorter left split nonempty
          cases shorter with
          | nil =>
            obtain rfl : c :: more = left := split
            simpa using stop
          | cons d shorter =>
            obtain ⟨rfl, rfl⟩ := List.cons.inj split
            simpa using shortest shorter left rfl nonempty
    · simp only [lazyFrom, inside] at matched
      exact ⟨[], c :: rest, rfl, by simp, by simpa using matched, by simp_all⟩

theorem lazyMany1_eq_some {text : List Char} {found : α}
    (matched : lazyMany1 p next text = some found) :
    ∃ run rest, text = run ++ rest ∧ run ≠ [] ∧ (∀ c ∈ run, p c) ∧ next run rest = some found ∧
      ∀ shorter left, run = shorter ++ left → shorter ≠ [] → left ≠ [] →
        next shorter (left ++ rest) = none := by
  obtain ⟨run, rest, split, all, found, shortest⟩ := lazyFrom_eq_some matched
  simp only [List.nil_append] at found shortest
  rw [nonempty] at found
  split at found
  · cases found
  · rename_i begun
    refine ⟨run, rest, split, begun, all, found, ?_⟩
    intro shorter left split begun' nonempty
    simpa [Scan.nonempty, begun'] using shortest shorter left split nonempty

theorem literal_eq_some {word text : List Char} {after : List Char → Option α} {found : α}
    (matched : literal word after text = some found) :
    ∃ rest, text = word ++ rest ∧ after rest = some found := by
  unfold literal at matched
  split at matched
  · rename_i isPrefix
    obtain ⟨rest, rfl⟩ := isPrefix
    exact ⟨rest, rfl, by simpa using matched⟩
  · cases matched

theorem literal_append (word rest : List Char) (after : List Char → Option α) :
    literal word after (word ++ rest) = after rest := by
  simp [literal]

/-- What is made of a match plays no part in finding it. -/
theorem greedyFrom_map {β : Type u} (f : α → β) (run text : List Char) :
    greedyFrom p (fun run rest => (next run rest).map f) run text =
      (greedyFrom p next run text).map f := by
  induction text generalizing run with
  | nil => rfl
  | cons c rest ih =>
    by_cases inside : p c
    · simp [greedyFrom, inside, ih, Option.map_or]
    · simp [greedyFrom, inside]

theorem many1_map {β : Type u} (f : α → β) (text : List Char) :
    many1 p (fun run rest => (next run rest).map f) text = (many1 p next text).map f := by
  rw [many1, many1, many, many, ← greedyFrom_map]
  congr 1
  funext run rest
  by_cases begun : run = []
  · simp [nonempty, begun]
  · simp [nonempty, begun]

/-- A run that is followed by a run of the other characters is the longest one. -/
theorem takeWhile_of_split {text run rest : List Char} (split : text = run ++ rest)
    (all : ∀ c ∈ run, p c) (stop : ∀ c ∈ rest.head?, p c = false) :
    text.takeWhile p = run ∧ text.dropWhile p = rest := by
  subst split
  have nothing : rest.takeWhile p = [] ∧ rest.dropWhile p = rest := by
    cases rest with
    | nil => exact ⟨rfl, rfl⟩
    | cons c rest => simp [stop c rfl]
  constructor
  · rw [List.takeWhile_append_of_pos all, nothing.1, List.append_nil]
  · rw [List.dropWhile_append_of_pos all, nothing.2]

/-- A run that nothing of its own kind can follow. -/
theorem many1_of_ends {after : List Char → Option α}
    (ends : ∀ c rest, p c → after (c :: rest) = none) {run rest : List Char} (begun : run ≠ [])
    (all : ∀ c ∈ run, p c) (stop : ∀ c ∈ rest.head?, p c = false) :
    many1 p (fun _ rest => after rest) (run ++ rest) = after rest := by
  obtain ⟨taken, left⟩ := takeWhile_of_split (p := p) rfl all stop
  rw [many1_of_stuck fun _ => ends, taken, left, if_neg begun]

/-- The head of a text where a run begins. -/
theorem head_of_many1 {text : List Char} {found : α} (matched : many1 p next text = some found) :
    ∀ c ∈ text.head?, p c := by
  obtain ⟨run, rest, rfl, begun, all, _, _⟩ := many1_eq_some matched
  obtain ⟨d, run, rfl⟩ := List.exists_cons_of_ne_nil begun
  intro c head
  exact all c (by simpa using Or.inl (by simpa [eq_comm] using head))

/-! ### The starts of lines -/

theorem atLine_append (starts : Bool) (front back : List Char) :
    atLine starts (front ++ back) = atLine (atLine starts front) back := by
  induction front generalizing starts with
  | nil => rfl
  | cons c front ih => exact ih _

theorem atLine_singleton (starts : Bool) (c : Char) : atLine starts [c] = decide (c = '\n') := rfl

/-- After a text that is not empty a line starts where it ends with a newline. -/
theorem exists_of_atLine {starts : Bool} {text : List Char} (line : atLine starts text) (begun : text ≠ []) :
    ∃ body, text = body ++ ['\n'] := by
  obtain ⟨body, c, rfl⟩ := List.eq_nil_or_concat text |>.resolve_left begun
  rw [List.concat_eq_append] at line ⊢
  rw [atLine_append, atLine_singleton, decide_eq_true_eq] at line
  exact ⟨body, by rw [line]⟩

section

variable {next : List Char → Option α} {starts : Bool} {text before : List Char} {found : α}

theorem searchLine_eq_none_iff : searchLine next starts text = none ↔
    ∀ front back, text = front ++ back → atLine starts front → next back = none := by
  induction text generalizing starts with
  | nil =>
    constructor
    · intro failed front back split line
      obtain ⟨rfl, rfl⟩ := List.append_eq_nil_iff.mp split.symm
      have starts' : starts = true := line
      rw [searchLine, if_pos starts', Option.map_eq_none_iff] at failed
      exact failed
    · intro failed
      rw [searchLine]
      split
      · rw [failed [] [] rfl ‹_›]
        rfl
      · rfl
  | cons c text ih =>
    have here : (if starts then next (c :: text) else none) = none ↔
        (starts = true → next (c :: text) = none) := by
      cases starts <;> simp
    constructor
    · intro failed front back split line
      rw [searchLine] at failed
      split at failed
      · cases failed
      next nothing =>
      cases front with
      | nil =>
        obtain rfl : c :: text = back := split
        exact here.mp nothing line
      | cons d front =>
        obtain ⟨rfl, rfl⟩ := List.cons.inj split
        exact ih.mp (Option.map_eq_none_iff.mp failed) front back rfl line
    · intro failed
      rw [searchLine, here.mpr fun line => failed [] _ rfl line]
      apply Option.map_eq_none_iff.mpr
      apply ih.mpr
      intro front back split line
      exact failed (c :: front) back (by rw [split]; rfl) line

theorem searchLine_eq_some_iff : searchLine next starts text = some (before, found) ↔
    ∃ rest, text = before ++ rest ∧ atLine starts before ∧ next rest = some found ∧
      ∀ front more, before = front ++ more → more ≠ [] → atLine starts front → next (more ++ rest) = none := by
  induction text generalizing starts before with
  | nil =>
    constructor
    · intro matched
      rw [searchLine] at matched
      split at matched
      · obtain ⟨found', here, same⟩ := Option.map_eq_some_iff.mp matched
        obtain ⟨rfl, rfl⟩ := Prod.mk.inj same
        refine ⟨[], rfl, ‹_›, here, ?_⟩
        intro front more split begun
        exact absurd (List.append_eq_nil_iff.mp split.symm).2 begun
      · cases matched
    · rintro ⟨rest, split, line, here, -⟩
      obtain ⟨rfl, rfl⟩ := List.append_eq_nil_iff.mp split.symm
      have starts' : starts = true := line
      rw [searchLine, if_pos starts', here]
      rfl
  | cons c text ih =>
    constructor
    · intro matched
      rw [searchLine] at matched
      split at matched
      next found' here =>
        obtain ⟨rfl, rfl⟩ := Prod.mk.inj (Option.some.inj matched)
        split at here
        · refine ⟨_, rfl, ‹_›, here, ?_⟩
          intro front more split begun
          exact absurd (List.append_eq_nil_iff.mp split.symm).2 begun
        · cases here
      next nothing =>
        obtain ⟨⟨before', found'⟩, later, same⟩ := Option.map_eq_some_iff.mp matched
        obtain ⟨rfl, rfl⟩ := Prod.mk.inj same
        obtain ⟨rest, rfl, line, here, first⟩ := ih.mp later
        refine ⟨rest, rfl, line, here, ?_⟩
        intro front more split begun line'
        cases front with
        | nil =>
          obtain rfl : c :: before' = more := split
          have starts' : starts = true := line'
          rw [if_pos starts'] at nothing
          exact nothing
        | cons d front =>
          obtain ⟨rfl, rfl⟩ := List.cons.inj split
          exact first front more rfl begun line'
    · rintro ⟨rest, split, line, here, first⟩
      cases before with
      | nil =>
        obtain rfl : c :: text = rest := split
        have starts' : starts = true := line
        rw [searchLine, if_pos starts', here]
      | cons d before =>
        obtain ⟨rfl, rfl⟩ := List.cons.inj split
        have nothing : (if starts then next (c :: (before ++ rest)) else none) = none := by
          split
          · exact first [] (c :: before) rfl (List.cons_ne_nil _ _) ‹_›
          · rfl
        have later : searchLine next (c = '\n') (before ++ rest) = some (before, found) := by
          apply ih.mpr
          refine ⟨rest, rfl, line, here, ?_⟩
          intro front more split begun
          exact first (c :: front) more (by rw [split]; rfl) begun
        change searchLine next starts (c :: (before ++ rest)) = _
        rw [searchLine, nothing, later]
        rfl

end

end Scan
