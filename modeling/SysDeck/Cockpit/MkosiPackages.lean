import SysDeck.Library.Fields
import SysDeck.Cockpit.PackageText

/-! The `[Packages]` section of an mkosi configuration: what its writer leaves, and what its reader
takes of that. -/

namespace SysDeck.Cockpit.PackageFiles

open Scan
open Lines (OneLine)
open Packages (isSpace lineEnd splitlines strip split)

/-! ### Lines with their ends -/

def Ended (line : List Char) : Prop :=
  ∃ body e, line = body ++ [e] ∧ OneLine lineEnd body ∧ lineEnd e

/-- Lines with their ends, where the last one may have none. -/
def Segments : List (List Char) → Prop
  | [] => True
  | line :: rest => Ended line ∧ Segments rest ∨ line ≠ [] ∧ OneLine lineEnd line ∧ rest = []

theorem keepends_ended {body : List Char} (one : OneLine lineEnd body) {e : Char} (ends : lineEnd e)
    (rest : List Char) : keepends (body ++ e :: rest) = (body ++ [e]) :: keepends rest := by
  induction body with
  | nil => simp [keepends, ends]
  | cons c body ih =>
    have inside : lineEnd c = false := one c List.mem_cons_self
    have later := ih fun d member => one d (List.mem_cons_of_mem _ member)
    simp [keepends, inside, later]

theorem keepends_oneLine {line : List Char} (one : OneLine lineEnd line) (begun : line ≠ []) :
    keepends line = [line] := by
  induction line with
  | nil => exact absurd rfl begun
  | cons c line ih =>
    have inside : lineEnd c = false := one c List.mem_cons_self
    cases line with
    | nil => simp [keepends, inside]
    | cons d line =>
      have later := ih (fun e member => one e (List.mem_cons_of_mem _ member)) (by simp)
      rw [keepends, later]
      simp [inside]

theorem keepends_flatten {segments : List (List Char)} (cut : Segments segments) :
    keepends segments.flatten = segments := by
  induction segments with
  | nil => rfl
  | cons line rest ih =>
    rcases cut with ⟨⟨body, e, rfl, one, ends⟩, later⟩ | ⟨begun, one, rfl⟩
    · rw [List.flatten_cons, List.append_assoc, List.singleton_append, keepends_ended one ends, ih later]
    · simpa using keepends_oneLine one begun

/-- The first end of a line, where there is one. -/
theorem line_cases (text : List Char) :
    OneLine lineEnd text ∨ ∃ body e rest, text = body ++ e :: rest ∧ OneLine lineEnd body ∧ lineEnd e := by
  induction text with
  | nil => exact Or.inl (by simp [OneLine])
  | cons c text ih =>
    by_cases ends : lineEnd c
    · exact Or.inr ⟨[], c, text, rfl, by simp [OneLine], ends⟩
    · rcases ih with one | ⟨body, e, rest, rfl, one, ends'⟩
      · exact Or.inl (List.forall_mem_cons.mpr ⟨by simpa using ends, one⟩)
      · exact Or.inr ⟨c :: body, e, rest, rfl, List.forall_mem_cons.mpr ⟨by simpa using ends, one⟩, ends'⟩

theorem keepends_spec (text : List Char) : Segments (keepends text) ∧ (keepends text).flatten = text := by
  induction length : text.length using Nat.strong_induction_on generalizing text with
  | _ n ih =>
    rcases line_cases text with one | ⟨body, e, rest, rfl, one, ends⟩
    · by_cases begun : text = []
      · subst begun
        exact ⟨trivial, rfl⟩
      · rw [keepends_oneLine one begun]
        exact ⟨Or.inr ⟨begun, one, rfl⟩, by simp⟩
    · obtain ⟨cut, whole⟩ := ih rest.length (by simp at length; omega) rest rfl
      rw [keepends_ended one ends]
      exact ⟨Or.inl ⟨⟨body, e, rfl, one, ends⟩, cut⟩, by simp [whole]⟩

/-- A line without its end. -/
def chomp (line : List Char) : List Char := if line.getLast?.any lineEnd then line.dropLast else line

theorem chomp_ended {body : List Char} {e : Char} (ends : lineEnd e) : chomp (body ++ [e]) = body := by
  simp [chomp, ends]

theorem chomp_oneLine {line : List Char} (one : OneLine lineEnd line) : chomp line = line := by
  rw [chomp, if_neg]
  intro ends
  obtain ⟨c, last, ends⟩ := Option.any_eq_true _ _ |>.mp ends
  rw [one c (List.mem_of_mem_getLast? last)] at ends
  cases ends

theorem splitOnP_segments {segments : List (List Char)} (cut : Segments segments) :
    let parts := segments.flatten.splitOnP lineEnd
    (if parts.getLast? = some [] then parts.dropLast else parts) = segments.map chomp := by
  induction segments with
  | nil => rfl
  | cons line rest ih =>
    rcases cut with ⟨⟨body, e, rfl, one, ends⟩, later⟩ | ⟨begun, one, rfl⟩
    · have split : ((body ++ [e]) :: rest).flatten.splitOnP lineEnd =
          body :: rest.flatten.splitOnP lineEnd := by
        rw [List.flatten_cons, List.append_assoc, List.singleton_append,
          List.splitOnP_append_cons_of_forall_mem one e ends]
      obtain ⟨first, others, parts⟩ := List.exists_cons_of_ne_nil
        (List.splitOnP_ne_nil lineEnd rest.flatten)
      have tail := ih later
      rw [parts] at tail
      simp only [split, parts, List.map_cons, chomp_ended ends, ← tail, List.getLast?_cons_cons]
      split <;> rfl
    · have split : line.splitOnP lineEnd = [line] := List.splitOnP_eq_singleton one
      simp [split, begun, chomp_oneLine one]

theorem splitlines_eq {text : List Char} (none : '\r' ∉ text) :
    splitlines (String.ofList text) = (keepends text).map chomp := by
  obtain ⟨cut, whole⟩ := keepends_spec text
  rw [splitlines, String.toList_ofList, joinReturns_of_none none]
  conv_lhs => rw [← whole]
  exact splitOnP_segments cut

/-! ### Names on one line -/

/-- A name without a blank. -/
def Solid (name : Name) : Prop := name ≠ [] ∧ ∀ c ∈ name, isSpace c = false

theorem split_join {names : List Name} (solid : ∀ name ∈ names, Solid name) :
    split ([' '].intercalate names) = names := by
  induction names with
  | nil => rfl
  | cons name rest ih =>
    obtain ⟨begun, visible⟩ := solid name List.mem_cons_self
    have later := ih fun other member => solid other (List.mem_cons_of_mem _ member)
    cases rest with
    | nil =>
      have one := @fields_run isSpace _ [] begun visible (by simp)
      simpa [split, fields_nil] using one
    | cons next rest =>
      rw [split] at later ⊢
      rw [List.intercalate_cons_cons, List.append_assoc,
        fields_run_gap begun visible (by simp) (List.forall_mem_singleton.mpr (by decide)), later]

/-- The line of names ends visibly. -/
theorem last_join {names : List Name} (solid : ∀ name ∈ names, Solid name) :
    ∀ c ∈ ([' '].intercalate names).getLast?, isSpace c = false := by
  induction names with
  | nil => simp
  | cons name rest ih =>
    obtain ⟨begun, visible⟩ := solid name List.mem_cons_self
    have later := ih fun other member => solid other (List.mem_cons_of_mem _ member)
    cases rest with
    | nil => 
      intro c last
      exact visible c (List.mem_of_mem_getLast? (by simpa using last))
    | cons next rest =>
      rw [List.intercalate_cons_cons]
      have nonempty : [' '].intercalate (next :: rest) ≠ [] := by
        intro empty
        have fields := split_join fun other member => solid other (List.mem_cons_of_mem _ member)
        rw [empty] at fields
        cases fields
      rwa [List.getLast?_append_of_ne_nil _ nonempty]

theorem oneLine_join {names : List Name} (solid : ∀ name ∈ names, Solid name) :
    OneLine lineEnd ([' '].intercalate names) := by
  induction names with
  | nil => simp [OneLine]
  | cons name rest ih =>
    obtain ⟨-, visible⟩ := solid name List.mem_cons_self
    have first : OneLine lineEnd name := by
      intro c member
      refine Bool.eq_false_iff.mpr fun ends => ?_
      have space := space_of_lineEnd ends
      rw [visible c member] at space
      cases space
    cases rest with
    | nil => simpa using first
    | cons next rest =>
      rw [List.intercalate_cons_cons]
      refine (first.append ?_).append (ih fun other member => solid other (List.mem_cons_of_mem _ member))
      intro c member
      rw [List.mem_singleton.mp member]
      rfl

theorem key_chars : "Packages=".toList = ['P', 'a', 'c', 'k', 'a', 'g', 'e', 's', '='] := by
  rfl

/-- The line `Packages=` of a section. -/
def valueLine (names : List Name) : List Char := "Packages=".toList ++ [' '].intercalate names

theorem valueLine_eq (names : List Name) :
    valueLine names = ['P', 'a', 'c', 'k', 'a', 'g', 'e', 's'] ++ '=' :: [' '].intercalate names := by
  unfold valueLine
  rw [key_chars]
  rfl

theorem strip_valueLine {names : List Name} (solid : ∀ name ∈ names, Solid name) :
    strip (valueLine names) = valueLine names := by
  rw [valueLine_eq]
  refine Strip.stripBy_of_ends ?_ ?_
  · intro c head
    obtain rfl : 'P' = c := by simpa using head
    decide
  · intro c last
    rw [List.getLast?_append_of_ne_nil _ (by simp)] at last
    by_cases nonempty : [' '].intercalate names = []
    · rw [nonempty] at last
      obtain rfl : '=' = c := by simpa using last
      decide
    · refine last_join solid c ?_
      rwa [← List.singleton_append, List.getLast?_append_of_ne_nil _ nonempty] at last

theorem strip_join {names : List Name} (solid : ∀ name ∈ names, Solid name) :
    strip ([' '].intercalate names) = [' '].intercalate names := by
  refine Strip.stripBy_of_ends ?_ (last_join solid)
  cases names with
  | nil => simp
  | cons name rest =>
    obtain ⟨begun, visible⟩ := solid name List.mem_cons_self
    obtain ⟨d, name, rfl⟩ := List.exists_cons_of_ne_nil begun
    intro c head
    obtain rfl : d = c := by
      cases rest with
      | nil => simpa using head
      | cons next rest => simpa [List.intercalate_cons_cons] using head
    exact visible d List.mem_cons_self

theorem header_valueLine (names : List Name) : header (valueLine names) = false := by
  rw [valueLine_eq]
  rfl

/-- Below the heading of a section, its line is read as the names. -/
theorem read_valueLine {reader : Reader} (inside : reader.inPackages) {names : List Name}
    (solid : ∀ name ∈ names, Solid name) :
    reader.read (valueLine names) = { reader with inValue := true, found := names.foldl addName reader.found } := by
  have begins : "Packages=".toList <+: strip (valueLine names) := by
    rw [strip_valueLine solid]
    exact List.prefix_append _ _
  have value : ((valueLine names).dropWhile (· ≠ '=')).drop 1 = [' '].intercalate names := by
    rw [valueLine_eq]
    rfl
  rw [Reader.read, header_valueLine, if_neg Bool.false_ne_true, if_pos ⟨inside, begins⟩]
  simp only [value, strip_join solid, split_join solid]

/-! ### The lines that are left -/

def headLine : List Char := "[Packages]".toList ++ ['\n']

theorem section_eq (names : List Name) :
    mkosiSection names ++ ['\n'] = headLine ++ (valueLine names ++ ['\n']) := by
  have cut : "[Packages]\nPackages=".toList = "[Packages]".toList ++ ['\n'] ++ "Packages=".toList := rfl
  unfold mkosiSection headLine valueLine
  rw [cut]
  simp only [List.append_assoc]

/-- The rewriting, with the section as two lines. -/
def spread (value : List Char) : Bool → List (List Char) → List (List Char)
  | _, [] => []
  | inSection, line :: rest =>
    if keptHeader line then
      if strip line = "[Packages]".toList then headLine :: value :: spread value true rest
      else line :: spread value false rest
    else if inSection then spread value true rest
    else line :: spread value false rest

theorem flatten_rewrite (value : List Char) (inSection : Bool) (lines : List (List Char)) :
    (rewrite (headLine ++ value) inSection lines).flatten = (spread value inSection lines).flatten := by
  induction lines generalizing inSection with
  | nil => rfl
  | cons line rest ih =>
    rw [rewrite, spread]
    split
    · split
      · rw [List.flatten_cons, ih, List.flatten_cons, List.flatten_cons, List.append_assoc]
      · rw [List.flatten_cons, ih, List.flatten_cons]
    · split
      · exact ih true
      · rw [List.flatten_cons, ih, List.flatten_cons]

theorem keptHeader_cases {line : List Char} (kept : keptHeader line) :
    ∃ body, line = ('[' :: body) ++ [']', '\n'] := by
  have both : line.head? = some '[' ∧ [']', '\n'] <:+ line := by
    simpa [keptHeader, List.isSuffixOf_iff_suffix] using kept
  obtain ⟨head, body, rfl⟩ := both
  cases body with
  | nil => simp at head
  | cons c body =>
    obtain rfl : c = '[' := by simpa using head
    exact ⟨body, rfl⟩

/-- A header that is kept is a header for the reader, under the same name. -/
theorem header_of_kept {line : List Char} (kept : keptHeader line) :
    header (chomp line) ∧ strip line = chomp line := by
  obtain ⟨body, rfl⟩ := keptHeader_cases kept
  have cut : ('[' :: body) ++ [']', '\n'] = (('[' :: body) ++ [']']) ++ ['\n'] := by simp
  have chomped : chomp (('[' :: body) ++ [']', '\n']) = ('[' :: body) ++ [']'] := by
    rw [cut, chomp_ended rfl]
  have ends : (('[' :: body) ++ [']']).getLast? = some ']' := List.getLast?_concat
  refine ⟨by rw [chomped, header, ends]; rfl, ?_⟩
  rw [chomped, cut]
  refine @Strip.stripBy_of_blanks _ [] _ _ (by simp) (List.forall_mem_singleton.mpr (by decide)) ?_ ?_
    (by simp)
  · intro c head
    obtain rfl : '[' = c := by simpa using head
    decide
  · intro c last
    obtain rfl := Option.some.inj (ends.symm.trans last)
    decide

theorem ended_of_kept {line : List Char} (kept : keptHeader line) : '\n' ∈ line := by
  obtain ⟨body, rfl⟩ := keptHeader_cases kept
  simp

theorem keptHeader_of_header {line : List Char} (isHeader : header line) : keptHeader (line ++ ['\n']) := by
  have ends : line.head? = some '[' ∧ line.getLast? = some ']' := by simpa [header] using isHeader
  obtain ⟨front, rfl⟩ := List.getLast?_eq_some_iff.mp ends.2
  have head : ((front ++ [']']) ++ ['\n']).head? = some '[' := by
    rw [List.head?_append_of_ne_nil _ (by simp), ends.1]
  have back : [']', '\n'] <:+ (front ++ [']']) ++ ['\n'] := ⟨front, by simp⟩
  rw [keptHeader, head, Bool.and_eq_true, List.isSuffixOf_iff_suffix]
  exact ⟨rfl, back⟩

theorem ended_headLine : Ended headLine := ⟨_, '\n', rfl, forall_of_all (by decide), rfl⟩

theorem segments_spread {value : List Char} (ended : Ended value) {lines : List (List Char)}
    (cut : Segments lines) (inSection : Bool) : Segments (spread value inSection lines) := by
  induction lines generalizing inSection with
  | nil => trivial
  | cons line rest ih =>
    rw [spread]
    rcases cut with ⟨whole, later⟩ | ⟨begun, one, rfl⟩
    · split
      · split
        · exact Or.inl ⟨ended_headLine, Or.inl ⟨ended, ih later true⟩⟩
        · exact Or.inl ⟨whole, ih later false⟩
      · split
        · exact ih later true
        · exact Or.inl ⟨whole, ih later false⟩
    · have noHeader : keptHeader line = false := by
        refine Bool.eq_false_iff.mpr fun kept => ?_
        exact absurd (one _ (ended_of_kept kept)) (by decide)
      rw [noHeader, if_neg Bool.false_ne_true]
      split
      · trivial
      · exact Or.inr ⟨begun, one, rfl⟩

/-! ### What is read of them -/

def readAll (reader : Reader) (lines : List (List Char)) : Reader :=
  lines.foldl (fun reader line => reader.read (chomp line)) reader

def packagesHeader (line : List Char) : Bool := keptHeader line && strip line = "[Packages]".toList

theorem foldl_addName_of_mem {names found : List Name} (all : ∀ name ∈ names, name ∈ found) :
    names.foldl addName found = found := by
  induction names with
  | nil => rfl
  | cons name rest ih =>
    have first : addName found name = found := by
      rw [addName, addNew, if_pos (all name List.mem_cons_self), ite_self]
    rw [List.foldl_cons, first]
    exact ih fun other member => all other (List.mem_cons_of_mem _ member)

theorem mem_foldl_addName {names found : List Name} {name : Name}
    (member : name ∈ found ∨ name ∈ names ∧ name ≠ []) : name ∈ names.foldl addName found := by
  induction names generalizing found with
  | nil => simpa using member
  | cons first rest ih =>
    refine ih ?_
    rw [addName, addNew]
    rcases member with member | ⟨member, begun⟩
    · left
      split
      · exact member
      · split <;> simp [member]
    · rcases List.mem_cons.mp member with rfl | member
      · left
        rw [if_neg begun]
        split
        · assumption
        · simp
      · exact Or.inr ⟨member, begun⟩

theorem packagesHeader_iff {line : List Char} :
    packagesHeader line ↔ keptHeader line ∧ strip line = "[Packages]".toList := by
  unfold packagesHeader
  rw [Bool.and_eq_true, decide_eq_true_iff]

theorem read_header {reader : Reader} {line : List Char} (isHeader : header line) :
    reader.read line = ⟨line = "[Packages]".toList, false, reader.found⟩ := if_pos isHeader

theorem chomp_headLine : chomp headLine = "[Packages]".toList := chomp_ended rfl

theorem read_headLine (reader : Reader) :
    reader.read (chomp headLine) = ⟨true, false, reader.found⟩ := by
  rw [chomp_headLine, read_header (by decide), decide_eq_true rfl]

/-- A line outside of the sections that is no header changes nothing. -/
theorem read_outside {reader : Reader} {line : List Char} (notHeader : ¬ header line)
    (outside : reader.inPackages = false) : reader.read line = reader := by
  unfold Reader.read
  rw [if_neg notHeader, if_neg (by simp [outside]), if_neg (by simp [outside])]

theorem readAll_cons (reader : Reader) (line : List Char) (rest : List (List Char)) :
    readAll reader (line :: rest) = readAll (reader.read (chomp line)) rest := rfl

/-- Read back, the sections hold the names; outside of them nothing is read. -/
theorem found_spread {names : List Name} (solid : ∀ name ∈ names, Solid name) {lines : List (List Char)}
    (headers : ∀ line ∈ lines, header (chomp line) → keptHeader line) (inSection : Bool)
    (reader : Reader) (outside : inSection = false → reader.inPackages = false) :
    (readAll reader (spread (valueLine names ++ ['\n']) inSection lines)).found =
      if lines.any packagesHeader then names.foldl addName reader.found else reader.found := by
  induction lines generalizing inSection reader with
  | nil => rfl
  | cons line rest ih =>
    have later := ih fun other member => headers other (List.mem_cons_of_mem _ member)
    rw [spread, List.any_cons]
    by_cases kept : keptHeader line
    · obtain ⟨isHeader, same⟩ := header_of_kept kept
      rw [if_pos kept]
      by_cases packages : strip line = "[Packages]".toList
      · have filled : (Reader.mk true false reader.found).read (chomp (valueLine names ++ ['\n'])) =
            ⟨true, true, names.foldl addName reader.found⟩ := by
          rw [chomp_ended rfl, read_valueLine rfl solid]
        have known : ∀ name ∈ names, name ∈ names.foldl addName reader.found := fun name member =>
          mem_foldl_addName (Or.inr ⟨member, (solid name member).1⟩)
        rw [if_pos packages, packagesHeader_iff.mpr ⟨kept, packages⟩, Bool.true_or, if_pos rfl,
          readAll_cons, read_headLine, readAll_cons, filled, later true _ (by simp),
          foldl_addName_of_mem known, ite_self]
      · have notPackages : packagesHeader line = false :=
          Bool.eq_false_iff.mpr fun isPackages => packages (packagesHeader_iff.mp isPackages).2
        have other : decide (chomp line = "[Packages]".toList) = false := by
          rw [← same]
          exact decide_eq_false packages
        rw [if_neg packages, notPackages, Bool.false_or, readAll_cons, read_header isHeader, other]
        exact later false ⟨false, false, reader.found⟩ fun _ => rfl
    · have notPackages : packagesHeader line = false :=
        Bool.eq_false_iff.mpr fun isPackages => kept (packagesHeader_iff.mp isPackages).1
      rw [if_neg kept, notPackages, Bool.false_or]
      cases inSection with
      | true => exact later true reader outside
      | false =>
        have notHeader : ¬ header (chomp line) := fun isHeader =>
          kept (headers line List.mem_cons_self isHeader)
        rw [if_neg Bool.false_ne_true, readAll_cons, read_outside notHeader (outside rfl)]
        exact later false reader outside

/-! ### What a write leaves -/

theorem mem_spread {value line : List Char} {inSection : Bool} {lines : List (List Char)}
    (member : line ∈ spread value inSection lines) : line ∈ lines ∨ line = headLine ∨ line = value := by
  induction lines generalizing inSection with
  | nil => cases member
  | cons first rest ih =>
    rw [spread] at member
    split at member
    · split at member
      · rcases List.mem_cons.mp member with rfl | member
        · exact Or.inr (Or.inl rfl)
        rcases List.mem_cons.mp member with rfl | member
        · exact Or.inr (Or.inr rfl)
        · exact (ih member).imp_left (List.mem_cons_of_mem _)
      · rcases List.mem_cons.mp member with rfl | member
        · exact Or.inl List.mem_cons_self
        · exact (ih member).imp_left (List.mem_cons_of_mem _)
    · split at member
      · exact (ih member).imp_left (List.mem_cons_of_mem _)
      · rcases List.mem_cons.mp member with rfl | member
        · exact Or.inl List.mem_cons_self
        · exact (ih member).imp_left (List.mem_cons_of_mem _)

theorem headLine_mem_spread {value : List Char} {inSection : Bool} {lines : List (List Char)}
    (opened : lines.any packagesHeader) : headLine ∈ spread value inSection lines := by
  induction lines generalizing inSection with
  | nil => cases opened
  | cons line rest ih =>
    rw [List.any_cons, Bool.or_eq_true] at opened
    rw [spread]
    split
    · split
      · exact List.mem_cons_self
      next kept other =>
      refine List.mem_cons_of_mem _ (ih (opened.resolve_left fun isPackages => ?_))
      exact other (packagesHeader_iff.mp isPackages).2
    next notKept =>
    have later := opened.resolve_left fun isPackages => notKept (packagesHeader_iff.mp isPackages).1
    split
    · exact ih later
    · exact List.mem_cons_of_mem _ (ih later)

theorem keepends_append {lines : List (List Char)} (ended : ∀ line ∈ lines, Ended line)
    (text : List Char) : keepends (lines.flatten ++ text) = lines ++ keepends text := by
  induction lines with
  | nil => rfl
  | cons line rest ih =>
    obtain ⟨body, e, rfl, one, ends⟩ := ended line List.mem_cons_self
    have later := ih fun other member => ended other (List.mem_cons_of_mem _ member)
    rw [List.flatten_cons, List.append_assoc, List.append_assoc, List.singleton_append,
      keepends_ended one ends, later]
    rfl

/-- The lines of a text with one newline more: they end with it, or are lines of the text. -/
theorem mem_keepends_newline {text line : List Char} (member : line ∈ keepends (text ++ ['\n'])) :
    Ended line ∧ (line ∈ keepends text ∨ ∃ body, line = body ++ ['\n']) := by
  obtain ⟨cut, whole⟩ := keepends_spec text
  generalize keepends text = lines at cut whole ⊢
  subst whole
  induction lines with
  | nil =>
    obtain rfl : line = ['\n'] := by simpa [keepends, lineEnd] using member
    exact ⟨⟨[], '\n', rfl, by simp [OneLine], rfl⟩, Or.inr ⟨[], rfl⟩⟩
  | cons first rest ih =>
    rcases cut with ⟨⟨body, e, rfl, one, ends⟩, later⟩ | ⟨begun, one, rfl⟩
    · rw [List.flatten_cons, List.append_assoc, List.append_assoc, List.singleton_append,
        keepends_ended one ends] at member
      rcases List.mem_cons.mp member with rfl | member
      · exact ⟨⟨body, e, rfl, one, ends⟩, Or.inl List.mem_cons_self⟩
      · obtain ⟨ended, old⟩ := ih later member
        exact ⟨ended, old.imp_left (List.mem_cons_of_mem _)⟩
    · have single : keepends ([first].flatten ++ ['\n']) = [first ++ ['\n']] := by
        simpa [keepends] using keepends_ended one (e := '\n') rfl []
      rw [single] at member
      rw [List.mem_singleton.mp member]
      exact ⟨⟨first, '\n', rfl, one, rfl⟩, Or.inr ⟨first, rfl⟩⟩

/-- A configuration that its reader and its writer recognise alike: every header has its newline,
the section has a header where it is named, and no name has a blank. -/
structure MkosiForm (existing : List Char) : Prop where
  headers : ∀ line ∈ keepends existing, header (chomp line) → keptHeader line
  opened : "[Packages]".toList <:+: existing → (keepends existing).any packagesHeader
  solid : ∀ name ∈ mkosiPackages existing, Solid name

theorem mkosiPackages_eq {text : List Char} (none : '\r' ∉ text)
    (opened : "[Packages]".toList <:+: text) :
    mkosiPackages text = (readAll ⟨false, false, []⟩ (keepends text)).found := by
  unfold mkosiPackages
  rw [if_pos opened, splitlines_eq none, List.foldl_map]
  rfl

theorem kept_headLine : keptHeader headLine := by decide

theorem packagesHeader_headLine : packagesHeader headLine :=
  packagesHeader_iff.mpr ⟨kept_headLine, (header_of_kept kept_headLine).2.trans chomp_headLine⟩

theorem infix_flatten {lines : List (List Char)} {line : List Char} (member : line ∈ lines) :
    line <:+: lines.flatten := by
  obtain ⟨before, after, rfl⟩ := List.append_of_mem member
  exact ⟨before.flatten, after.flatten, by simp⟩

theorem infix_of_headLine {lines : List (List Char)} (member : headLine ∈ lines) :
    "[Packages]".toList <:+: lines.flatten :=
  (List.prefix_append _ ['\n']).isInfix.trans (infix_flatten member)

theorem ended_valueLine {names : List Name} (solid : ∀ name ∈ names, Solid name) :
    Ended (valueLine names ++ ['\n']) := by
  refine ⟨valueLine names, '\n', rfl, ?_, rfl⟩
  have key : OneLine lineEnd "Packages=".toList := by
    rw [key_chars]
    exact forall_of_all (by decide)
  exact key.append (oneLine_join solid)

theorem foldl_addName {names : List Name} (solid : ∀ name ∈ names, Solid name) (nodup : names.Nodup) :
    names.foldl addName [] = names := by
  have added (out : List Name) : names.foldl addName out = names.foldl addNew out := by
    induction names generalizing out with
    | nil => rfl
    | cons name rest ih =>
      rw [List.foldl_cons, addName, if_neg (solid name List.mem_cons_self).1, List.foldl_cons]
      exact ih (fun other member => solid other (List.mem_cons_of_mem _ member)) nodup.of_cons _
  rw [added, foldl_addNew (by simpa using nodup)]
  rfl

/-- What is left of a text that a section is written to. -/
structure MkosiWritten (text : List Char) (names : List Name) : Prop where
  noReturn : '\r' ∉ text
  form : MkosiForm text
  packages : mkosiPackages text = names

/-- Lines that hold a section with the names, whose headers are kept. -/
theorem mkosiWritten_of_lines {lines : List (List Char)} {names : List Name} (cut : Segments lines)
    (noReturn : ∀ line ∈ lines, '\r' ∉ line)
    (headers : ∀ line ∈ lines, header (chomp line) → keptHeader line) (opened : headLine ∈ lines)
    (solid : ∀ name ∈ names, Solid name)
    (found : (readAll ⟨false, false, []⟩ lines).found = names) : MkosiWritten lines.flatten names := by
  have none : '\r' ∉ lines.flatten := by
    intro member
    obtain ⟨line, inside, member⟩ := List.mem_flatten.mp member
    exact noReturn line inside member
  have packages : mkosiPackages lines.flatten = names := by
    rw [mkosiPackages_eq none (infix_of_headLine opened), keepends_flatten cut, found]
  refine ⟨none, ⟨?_, fun _ => ?_, ?_⟩, packages⟩
  · rwa [keepends_flatten cut]
  · rw [keepends_flatten cut, List.any_eq_true]
    exact ⟨headLine, opened, packagesHeader_headLine⟩
  · rwa [packages]

theorem return_not_mem_valueLine {names : List Name} (solid : ∀ name ∈ names, Solid name) :
    '\r' ∉ valueLine names ++ ['\n'] := by
  obtain ⟨body, e, whole, one, -⟩ := ended_valueLine solid
  obtain ⟨same, -⟩ := List.append_inj' whole rfl
  intro member
  rcases List.mem_append.mp member with member | member
  · exact return_not_mem_of_oneLine one (same ▸ member)
  · simp at member

theorem return_not_mem_headLine : '\r' ∉ headLine := by decide

theorem header_section {names : List Name} {line : List Char}
    (member : line = headLine ∨ line = valueLine names ++ ['\n']) (isHeader : header (chomp line)) :
    keptHeader line := by
  rcases member with rfl | rfl
  · exact kept_headLine
  · rw [chomp_ended rfl, header_valueLine] at isHeader
    cases isHeader

/-- A section that has a header is written in its place. -/
theorem mkosiWritten_rewrite {existing : List Char} (noReturn : '\r' ∉ existing)
    (form : MkosiForm existing) (inside : "[Packages]".toList <:+: existing) {names : List Name}
    (solid : ∀ name ∈ names, Solid name) (nodup : names.Nodup) :
    MkosiWritten (writeMkosi existing names) names := by
  have opened := form.opened inside
  obtain ⟨cut, whole⟩ := keepends_spec existing
  have written : writeMkosi existing names =
      (spread (valueLine names ++ ['\n']) false (keepends existing)).flatten := by
    unfold writeMkosi
    rw [if_pos inside, section_eq, flatten_rewrite]
  rw [written]
  refine mkosiWritten_of_lines (segments_spread (ended_valueLine solid) cut false) ?_ ?_
    (headLine_mem_spread opened) solid ?_
  · intro line member
    rcases mem_spread member with old | rfl | rfl
    · intro bad
      rw [← whole] at noReturn
      exact noReturn (List.mem_flatten.mpr ⟨line, old, bad⟩)
    · exact return_not_mem_headLine
    · exact return_not_mem_valueLine solid
  · intro line member
    rcases mem_spread member with old | new
    · exact form.headers line old
    · exact header_section new
  · rw [found_spread solid form.headers false _ fun _ => rfl, if_pos opened, foldl_addName solid nodup]

/-- Lines none of which is the header are passed over. -/
theorem readAll_outside {lines : List (List Char)} (none : ∀ line ∈ lines, chomp line ≠ "[Packages]".toList)
    {reader : Reader} (outside : reader.inPackages = false) :
    (readAll reader lines).inPackages = false ∧ (readAll reader lines).found = reader.found := by
  induction lines generalizing reader with
  | nil => exact ⟨outside, rfl⟩
  | cons line rest ih =>
    have later := fun other member => none other (List.mem_cons_of_mem _ member)
    rw [readAll_cons]
    by_cases isHeader : header (chomp line)
    · rw [read_header isHeader]
      exact ih later (decide_eq_false (none line List.mem_cons_self))
    · rw [read_outside isHeader outside]
      exact ih later outside

theorem segments_of_ended {lines : List (List Char)} (ended : ∀ line ∈ lines, Ended line) :
    Segments lines := by
  induction lines with
  | nil => trivial
  | cons line rest ih =>
    exact Or.inl ⟨ended line List.mem_cons_self, ih fun other member =>
      ended other (List.mem_cons_of_mem _ member)⟩

/-- A text has no newline at its end, or what is left without them is followed by one. -/
theorem trimmed_cases (existing : List Char) :
    existing.rdropWhile (· = '\n') = existing ∨
      ∃ more, existing = (existing.rdropWhile (· = '\n') ++ ['\n']) ++ more := by
  have whole := List.rdropWhile_append_rtakeWhile (p := fun c => decide (c = '\n')) (l := existing)
  cases newlines : existing.rtakeWhile (· = '\n') with
  | nil => exact Or.inl (by simpa [newlines] using whole)
  | cons c newlines' =>
    have first : c ∈ existing.rtakeWhile (· = '\n') := by
      rw [newlines]
      exact List.mem_cons_self
    obtain rfl : c = '\n' := by simpa using List.mem_rtakeWhile_imp first
    refine Or.inr ⟨newlines', ?_⟩
    rw [List.append_assoc, List.singleton_append, ← newlines, whole]

/-- The lines of a text up to its last newlines, and one newline: they are lines of the text, or
end with a newline. -/
theorem mem_keepends_trimmed {existing line : List Char}
    (member : line ∈ keepends (existing.rdropWhile (· = '\n') ++ ['\n'])) :
    line ∈ keepends existing ∨ ∃ body, line = body ++ ['\n'] := by
  rcases trimmed_cases existing with same | ⟨more, whole⟩
  · rw [same] at member
    exact (mem_keepends_newline member).2
  · left
    have ended := fun line member => (@mem_keepends_newline (existing.rdropWhile (· = '\n')) line member).1
    rw [whole, ← (keepends_spec (existing.rdropWhile (· = '\n') ++ ['\n'])).2, keepends_append ended]
    exact List.mem_append_left _ member

/-- Without a section, one is written at the end. -/
theorem mkosiWritten_append {existing : List Char} (noReturn : '\r' ∉ existing)
    (form : MkosiForm existing) (absent : ¬ "[Packages]".toList <:+: existing) {names : List Name}
    (solid : ∀ name ∈ names, Solid name) (nodup : names.Nodup) :
    MkosiWritten (writeMkosi existing names) names := by
  have front := List.rdropWhile_prefix (· = '\n') existing
  generalize kept : existing.rdropWhile (· = '\n') = trimmed at front
  have ended : ∀ line ∈ keepends (trimmed ++ ['\n']), Ended line := fun line member =>
    (mem_keepends_newline member).1
  have whole := (keepends_spec (trimmed ++ ['\n'])).2
  have written : writeMkosi existing names =
      (keepends (trimmed ++ ['\n']) ++ [['\n'], headLine, valueLine names ++ ['\n']]).flatten := by
    have two : "\n\n".toList = ['\n'] ++ ['\n'] := rfl
    unfold writeMkosi
    rw [if_neg absent, section_eq, kept, List.flatten_append, whole, two]
    simp only [List.flatten_cons, List.flatten_nil, List.append_assoc, List.append_nil]
  have notHeading : ∀ line ∈ keepends (trimmed ++ ['\n']), chomp line ≠ "[Packages]".toList := by
    intro line member heading
    have inside : "[Packages]".toList <:+: trimmed ++ ['\n'] := by
      rw [← heading, ← whole]
      refine List.IsInfix.trans ?_ (infix_flatten member)
      obtain ⟨body, e, rfl, -, ends⟩ := ended line member
      rw [chomp_ended ends]
      exact (List.prefix_append _ _).isInfix
    rcases List.infix_concat_iff.mp inside with ⟨before, atEnd⟩ | inside
    · have last := congrArg List.getLast? atEnd
      rw [List.getLast?_append_of_ne_nil _ (by decide), List.getLast?_concat] at last
      exact absurd last (by decide)
    · exact absent (inside.trans front.isInfix)
  have noReturn' : ∀ line ∈ keepends (trimmed ++ ['\n']), '\r' ∉ line := by
    intro line member bad
    have inside := (infix_flatten member).subset bad
    rw [whole] at inside
    rcases List.mem_append.mp inside with inside | inside
    · exact noReturn (front.subset inside)
    · simp at inside
  have added {line : List Char} (member : line ∈ [['\n'], headLine, valueLine names ++ ['\n']]) :
      line = ['\n'] ∨ line = headLine ∨ line = valueLine names ++ ['\n'] := by
    simpa using member
  rw [written]
  refine mkosiWritten_of_lines ?_ ?_ ?_ (by simp) solid ?_
  · refine segments_of_ended fun line member => ?_
    rcases List.mem_append.mp member with member | member
    · exact ended line member
    rcases added member with rfl | rfl | rfl
    · exact ⟨[], '\n', rfl, by simp [OneLine], rfl⟩
    · exact ended_headLine
    · exact ended_valueLine solid
  · intro line member
    rcases List.mem_append.mp member with member | member
    · exact noReturn' line member
    rcases added member with rfl | rfl | rfl
    · decide
    · exact return_not_mem_headLine
    · exact return_not_mem_valueLine solid
  · intro line member isHeader
    rcases List.mem_append.mp member with member | member
    · rw [← kept] at member
      rcases mem_keepends_trimmed member with old | ⟨body, rfl⟩
      · exact form.headers line old isHeader
      · rw [chomp_ended rfl] at isHeader
        exact keptHeader_of_header isHeader
    rcases added member with rfl | new
    · exact absurd isHeader (by decide)
    · exact header_section new isHeader
  · obtain ⟨outside, nothing⟩ := @readAll_outside _ notHeading ⟨false, false, []⟩ rfl
    have filled : (Reader.mk true false []).read (chomp (valueLine names ++ ['\n'])) =
        ⟨true, true, names⟩ := by
      rw [chomp_ended rfl, read_valueLine rfl solid, foldl_addName solid nodup]
    rw [readAll, List.foldl_append, ← readAll, ← readAll, readAll_cons,
      read_outside (by decide) outside, readAll_cons, read_headLine, nothing, readAll_cons, filled]
    rfl

/-- Where reader and writer recognise the section alike, what is written is read back. -/
theorem mkosiWritten_of_form {existing : List Char} (noReturn : '\r' ∉ existing)
    (form : MkosiForm existing) {names : List Name} (solid : ∀ name ∈ names, Solid name)
    (nodup : names.Nodup) : MkosiWritten (writeMkosi existing names) names := by
  by_cases inside : "[Packages]".toList <:+: existing
  · exact mkosiWritten_rewrite noReturn form inside solid nodup
  · exact mkosiWritten_append noReturn form inside solid nodup

end SysDeck.Cockpit.PackageFiles
