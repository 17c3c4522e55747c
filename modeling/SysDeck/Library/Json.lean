import SysDeck.Library.Numeral
import SysDeck.Library.Utf16

/-! JSON texts. The strings are code units, so that an escaped surrogate without its
partner has a value; an object keeps its fields in the order of the text, and the last
field of a name is its value. -/

inductive Json where
  | null
  | bool (value : Bool)
  | number (value : Number)
  | string (value : List CodeUnit)
  | array (items : List Json)
  | object (fields : List (List CodeUnit × Json))

namespace Json

/-- The field of an object. -/
def get? (name : List CodeUnit) : Json → Option Json
  | object fields => (fields.reverse.find? fun field => field.1 = name).map (·.2)
  | _ => none

/-- `!!value`, of a value or of what is undefined. -/
def truthy : Option Json → Bool
  | none | some null => false
  | some (bool value) => value
  | some (number .nan) => false
  | some (number (.infinity _)) => true
  | some (number (.finite value)) => value.value ≠ 0
  | some (string text) => text ≠ []
  | some (array _) | some (object _) => true

def isSpace (c : Char) : Bool := c = ' ' || c = '\t' || c = '\n' || c = '\r'

def skip (text : List Char) : List Char := text.dropWhile isSpace

def expect (c : Char) : List Char → Option (List Char)
  | [] => none
  | head :: rest => if head = c then some rest else none

def hexValue? (c : Char) : Option ℕ :=
  if c.isDigit then some (c.toNat - 48)
  else if 'a' ≤ c ∧ c ≤ 'f' then some (c.toNat - 87)
  else if 'A' ≤ c ∧ c ≤ 'F' then some (c.toNat - 55)
  else none

def hexUnit? (a b c d : Char) : Option CodeUnit := do
  let a ← hexValue? a
  let b ← hexValue? b
  let c ← hexValue? c
  let d ← hexValue? d
  some (Utf16.unit (((a * 16 + b) * 16 + c) * 16 + d))

def escape? : Char → Option CodeUnit
  | '"' => some 0x22
  | '\\' => some 0x5C
  | '/' => some 0x2F
  | 'b' => some 0x08
  | 'f' => some 0x0C
  | 'n' => some 0x0A
  | 'r' => some 0x0D
  | 't' => some 0x09
  | _ => none

/-- The units up to the closing quote, and the text after it. -/
def scanString : List Char → Option (List CodeUnit × List Char)
  | [] => none
  | '"' :: rest => some ([], rest)
  | '\\' :: 'u' :: a :: b :: c :: d :: rest => do
    let u ← hexUnit? a b c d
    let (units, rest) ← scanString rest
    some (u :: units, rest)
  | '\\' :: e :: rest => do
    let u ← escape? e
    let (units, rest) ← scanString rest
    some (u :: units, rest)
  | c :: rest =>
    if c = '\\' ∨ c.toNat < 0x20 then none
    else do
      let (units, rest) ← scanString rest
      some (Utf16.encodeChar c ++ units, rest)

def scanDigits (text : List Char) : Option (List Char × List Char) :=
  if text.takeWhile Char.isDigit = [] then none
  else some (text.takeWhile Char.isDigit, text.dropWhile Char.isDigit)

def scanWhole : List Char → Option (List Char × List Char)
  | '0' :: rest => some (['0'], rest)
  | text => scanDigits text

def scanFraction : List Char → Option (List Char × List Char)
  | '.' :: rest => (scanDigits rest).map (Prod.map ('.' :: ·) id)
  | text => some ([], text)

def scanSigned : List Char → Option (List Char × List Char)
  | '+' :: rest => (scanDigits rest).map (Prod.map ('+' :: ·) id)
  | '-' :: rest => (scanDigits rest).map (Prod.map ('-' :: ·) id)
  | text => scanDigits text

def scanExponent : List Char → Option (List Char × List Char)
  | 'e' :: rest => (scanSigned rest).map (Prod.map ('e' :: ·) id)
  | 'E' :: rest => (scanSigned rest).map (Prod.map ('e' :: ·) id)
  | text => some ([], text)

def scanMagnitude (text : List Char) : Option (List Char × List Char) := do
  let (whole, text) ← scanWhole text
  let (fraction, text) ← scanFraction text
  let (exponent, text) ← scanExponent text
  some (whole ++ fraction ++ exponent, text)

def scanNumber : List Char → Option (Number × List Char)
  | '-' :: rest => (scanMagnitude rest).map (Prod.map (fun word => Number.ofText ('-' :: word)) id)
  | text => (scanMagnitude text).map (Prod.map Number.ofText id)

/-- A value that holds no other. -/
def scanScalar : List Char → Option (Json × List Char)
  | '"' :: rest => (scanString rest).map (Prod.map string id)
  | 't' :: 'r' :: 'u' :: 'e' :: rest => some (bool true, rest)
  | 'f' :: 'a' :: 'l' :: 's' :: 'e' :: rest => some (bool false, rest)
  | 'n' :: 'u' :: 'l' :: 'l' :: rest => some (null, rest)
  | text => (scanNumber text).map (Prod.map number id)

mutual

/-- The first value of a text, and the text after it. -/
def scan : ℕ → List Char → Option (Json × List Char)
  | 0, _ => none
  | n + 1, text =>
    match skip text with
    | '{' :: rest =>
      match skip rest with
      | '}' :: rest => some (object [], rest)
      | _ => (scanFields n rest).map (Prod.map object id)
    | '[' :: rest =>
      match skip rest with
      | ']' :: rest => some (array [], rest)
      | _ => (scanItems n rest).map (Prod.map array id)
    | text => scanScalar text

def scanFields : ℕ → List Char → Option (List (List CodeUnit × Json) × List Char)
  | 0, _ => none
  | n + 1, text => do
    let text ← expect '"' (skip text)
    let (name, text) ← scanString text
    let text ← expect ':' (skip text)
    let (json, text) ← scan n text
    match skip text with
    | '}' :: rest => some ([(name, json)], rest)
    | ',' :: rest => (scanFields n rest).map (Prod.map ((name, json) :: ·) id)
    | _ => none

def scanItems : ℕ → List Char → Option (List Json × List Char)
  | 0, _ => none
  | n + 1, text => do
    let (json, text) ← scan n text
    match skip text with
    | ']' :: rest => some ([json], rest)
    | ',' :: rest => (scanItems n rest).map (Prod.map (json :: ·) id)
    | _ => none

end

attribute [local simp] scan scanFields scanItems scanString

/-- `JSON.parse`; none is a syntax error. -/
def parse (text : List Char) : Option Json := do
  let (json, rest) ← scan (2 * text.length + 1) text
  if skip rest = [] then some json else none

/-! What a scanner leaves is a proper suffix, so the fuel of a parse never runs out. -/

/-- The text after a nonempty part of another. -/
def After (rest text : List Char) : Prop := rest <:+ text ∧ rest.length < text.length

theorem After.step {rest text : List Char} (c : Char) (suffix : rest <:+ text) :
    After rest (c :: text) := by
  refine ⟨suffix.trans (List.suffix_cons c text), ?_⟩
  have shorter := suffix.length_le
  rw [List.length_cons]
  omega

theorem After.cons {rest text : List Char} (c : Char) (after : After rest text) :
    After rest (c :: text) := After.step c after.1

theorem After.trans {first second third : List Char} (before : After first second)
    (suffix : second <:+ third) : After first third :=
  ⟨before.1.trans suffix, Nat.lt_of_lt_of_le before.2 suffix.length_le⟩

theorem skip_suffix (text : List Char) : skip text <:+ text := List.dropWhile_suffix isSpace

theorem after_of_skip {c : Char} {rest text : List Char} (skipped : skip text = c :: rest) :
    After rest text := by
  have suffix := skip_suffix text
  rw [skipped] at suffix
  exact (After.step c (List.suffix_refl rest)).trans suffix

theorem expect_eq_some_iff {c : Char} {text rest : List Char} :
    expect c text = some rest ↔ text = c :: rest := by
  cases text with
  | nil => simp [expect]
  | cons head tail =>
    unfold expect
    split <;> simp_all

theorem scanString_after {text rest : List Char} {units : List CodeUnit}
    (scanned : scanString text = some (units, rest)) : After rest text := by
  induction text using scanString.induct generalizing units with
  | case1 => simp [scanString] at scanned
  | case2 tail =>
    rw [scanString] at scanned
    cases scanned
    exact After.step _ (List.suffix_refl _)
  | case3 a b c d tail ih =>
    simp only [scanString, Option.bind_eq_bind, Option.bind_eq_some_iff] at scanned
    obtain ⟨u, _, ⟨more, last⟩, inner, result⟩ := scanned
    cases result
    exact (((((ih inner).cons d).cons c).cons b).cons a).cons 'u' |>.cons _
  | case4 e tail other ih =>
    rw [scanString] at scanned
    · simp only [Option.bind_eq_bind, Option.bind_eq_some_iff] at scanned
      obtain ⟨u, _, ⟨more, last⟩, inner, result⟩ := scanned
      cases result
      exact ((ih inner).cons e).cons _
    · exact other
  | case5 c tail quote long short refused =>
    rw [scanString] at scanned
    · simp [refused] at scanned
    all_goals assumption
  | case6 c tail quote long short refused ih =>
    rw [scanString] at scanned
    · rw [if_neg refused] at scanned
      simp only [Option.bind_eq_bind, Option.bind_eq_some_iff] at scanned
      obtain ⟨⟨more, last⟩, inner, result⟩ := scanned
      cases result
      exact (ih inner).cons c
    all_goals assumption

theorem scanDigits_after {text word rest : List Char}
    (scanned : scanDigits text = some (word, rest)) : After rest text := by
  unfold scanDigits at scanned
  split at scanned
  · cases scanned
  · rename_i nonempty
    cases scanned
    refine ⟨List.dropWhile_suffix _, ?_⟩
    have whole := congrArg List.length (List.takeWhile_append_dropWhile (p := Char.isDigit) (l := text))
    have some := List.length_pos_iff.mpr nonempty
    rw [List.length_append] at whole
    omega

theorem scanWhole_after {text word rest : List Char}
    (scanned : scanWhole text = some (word, rest)) : After rest text := by
  unfold scanWhole at scanned
  split at scanned
  · cases scanned
    exact After.step _ (List.suffix_refl _)
  · exact scanDigits_after scanned

theorem scanFraction_suffix {text word rest : List Char}
    (scanned : scanFraction text = some (word, rest)) : rest <:+ text := by
  unfold scanFraction at scanned
  split at scanned
  · obtain ⟨⟨digits, last⟩, inner, result⟩ := Option.map_eq_some_iff.mp scanned
    cases result
    exact ((scanDigits_after inner).cons _).1
  · cases scanned
    exact List.suffix_refl _

theorem scanSigned_after {text word rest : List Char}
    (scanned : scanSigned text = some (word, rest)) : After rest text := by
  unfold scanSigned at scanned
  split at scanned
  · obtain ⟨⟨digits, last⟩, inner, result⟩ := Option.map_eq_some_iff.mp scanned
    cases result
    exact (scanDigits_after inner).cons _
  · obtain ⟨⟨digits, last⟩, inner, result⟩ := Option.map_eq_some_iff.mp scanned
    cases result
    exact (scanDigits_after inner).cons _
  · exact scanDigits_after scanned

theorem scanExponent_suffix {text word rest : List Char}
    (scanned : scanExponent text = some (word, rest)) : rest <:+ text := by
  unfold scanExponent at scanned
  split at scanned
  · obtain ⟨⟨digits, last⟩, inner, result⟩ := Option.map_eq_some_iff.mp scanned
    cases result
    exact ((scanSigned_after inner).cons _).1
  · obtain ⟨⟨digits, last⟩, inner, result⟩ := Option.map_eq_some_iff.mp scanned
    cases result
    exact ((scanSigned_after inner).cons _).1
  · cases scanned
    exact List.suffix_refl _

theorem scanMagnitude_after {text word rest : List Char}
    (scanned : scanMagnitude text = some (word, rest)) : After rest text := by
  simp only [scanMagnitude, Option.bind_eq_bind, Option.bind_eq_some_iff] at scanned
  obtain ⟨⟨whole, first⟩, scannedWhole, ⟨fraction, second⟩, scannedFraction, ⟨exponent, third⟩,
    scannedExponent, result⟩ := scanned
  cases result
  have inner := (scanExponent_suffix scannedExponent).trans (scanFraction_suffix scannedFraction)
  have outer := scanWhole_after scannedWhole
  exact ⟨inner.trans outer.1, Nat.lt_of_le_of_lt inner.length_le outer.2⟩

theorem scanNumber_after {text rest : List Char} {number : Number}
    (scanned : scanNumber text = some (number, rest)) : After rest text := by
  unfold scanNumber at scanned
  split at scanned
  · obtain ⟨⟨word, last⟩, inner, result⟩ := Option.map_eq_some_iff.mp scanned
    cases result
    exact (scanMagnitude_after inner).cons _
  · obtain ⟨⟨word, last⟩, inner, result⟩ := Option.map_eq_some_iff.mp scanned
    cases result
    exact scanMagnitude_after inner

theorem scanScalar_after {text rest : List Char} {json : Json}
    (scanned : scanScalar text = some (json, rest)) : After rest text := by
  unfold scanScalar at scanned
  split at scanned
  · obtain ⟨⟨units, last⟩, inner, result⟩ := Option.map_eq_some_iff.mp scanned
    cases result
    exact (scanString_after inner).cons _
  · cases scanned
    exact (((After.step _ (List.suffix_refl _)).cons _).cons _).cons _
  · cases scanned
    exact ((((After.step _ (List.suffix_refl _)).cons _).cons _).cons _).cons _
  · cases scanned
    exact (((After.step _ (List.suffix_refl _)).cons _).cons _).cons _
  · obtain ⟨⟨number, last⟩, inner, result⟩ := Option.map_eq_some_iff.mp scanned
    cases result
    exact scanNumber_after inner

/-- What the scanners at one depth leave. -/
structure Progress (n : ℕ) : Prop where
  value : ∀ {text rest json}, scan n text = some (json, rest) → After rest text
  fields : ∀ {text rest fields}, scanFields n text = some (fields, rest) → After rest text
  items : ∀ {text rest items}, scanItems n text = some (items, rest) → After rest text

theorem Progress.value_succ {n : ℕ} (inner : Progress n) {text rest : List Char} {json : Json}
    (scanned : scan (n + 1) text = some (json, rest)) : After rest text := by
  rw [scan] at scanned
  split at scanned
  · rename_i opened skipped
    split at scanned
    · rename_i closed
      cases scanned
      exact (after_of_skip closed).trans (after_of_skip skipped).1
    · obtain ⟨⟨fields, last⟩, scannedFields, result⟩ := Option.map_eq_some_iff.mp scanned
      cases result
      exact (inner.fields scannedFields).trans (after_of_skip skipped).1
  · rename_i opened skipped
    split at scanned
    · rename_i closed
      cases scanned
      exact (after_of_skip closed).trans (after_of_skip skipped).1
    · obtain ⟨⟨items, last⟩, scannedItems, result⟩ := Option.map_eq_some_iff.mp scanned
      cases result
      exact (inner.items scannedItems).trans (after_of_skip skipped).1
  · exact (scanScalar_after scanned).trans (skip_suffix text)

theorem Progress.fields_succ {n : ℕ} (inner : Progress n) {text rest : List Char}
    {fields : List (List CodeUnit × Json)}
    (scanned : scanFields (n + 1) text = some (fields, rest)) : After rest text := by
  simp only [scanFields, Option.bind_eq_bind, Option.bind_eq_some_iff, expect_eq_some_iff] at scanned
  obtain ⟨first, quote, ⟨name, second⟩, scannedName, third, colon, ⟨json, fourth⟩, scannedValue,
    result⟩ := scanned
  have valued : After fourth text := (inner.value scannedValue).trans
    ((after_of_skip colon).1.trans ((scanString_after scannedName).1.trans (after_of_skip quote).1))
  split at result
  · rename_i closed
    cases result
    exact (after_of_skip closed).trans valued.1
  · rename_i continued
    obtain ⟨⟨more, last⟩, scannedMore, same⟩ := Option.map_eq_some_iff.mp result
    cases same
    exact (inner.fields scannedMore).trans ((after_of_skip continued).1.trans valued.1)
  · cases result

theorem Progress.items_succ {n : ℕ} (inner : Progress n) {text rest : List Char}
    {items : List Json} (scanned : scanItems (n + 1) text = some (items, rest)) :
    After rest text := by
  simp only [scanItems, Option.bind_eq_bind, Option.bind_eq_some_iff] at scanned
  obtain ⟨⟨json, first⟩, scannedValue, result⟩ := scanned
  have valued := inner.value scannedValue
  split at result
  · rename_i closed
    cases result
    exact (after_of_skip closed).trans valued.1
  · rename_i continued
    obtain ⟨⟨more, last⟩, scannedMore, same⟩ := Option.map_eq_some_iff.mp result
    cases same
    exact (inner.items scannedMore).trans ((after_of_skip continued).1.trans valued.1)
  · cases result

theorem progress (n : ℕ) : Progress n := by
  induction n with
  | zero => exact ⟨nofun, nofun, nofun⟩
  | succ n ih => exact ⟨ih.value_succ, ih.fields_succ, ih.items_succ⟩

/-- The fuel of a scanner is enough when it is twice the text: more gives the same. -/
structure Enough (n : ℕ) : Prop where
  value : ∀ {m text}, 2 * text.length < n → 2 * text.length < m → scan n text = scan m text
  fields : ∀ {m text}, 2 * text.length < n → 2 * text.length < m →
    scanFields n text = scanFields m text
  items : ∀ {m text}, 2 * text.length + 1 < n → 2 * text.length + 1 < m →
    scanItems n text = scanItems m text

theorem Enough.value_succ {n m : ℕ} (inner : Enough n) {text : List Char}
    (first : 2 * text.length < n + 1) (second : 2 * text.length < m + 1) :
    scan (n + 1) text = scan (m + 1) text := by
  rw [scan, scan]
  cases skipped : skip text with
  | nil => rfl
  | cons c rest =>
    have shorter := (after_of_skip skipped).2
    have fields : scanFields n rest = scanFields m rest := inner.fields (by omega) (by omega)
    have items : scanItems n rest = scanItems m rest := inner.items (by omega) (by omega)
    split <;> simp_all

theorem Enough.fields_succ {n m : ℕ} (inner : Enough n) {text : List Char}
    (first : 2 * text.length < n + 1) (second : 2 * text.length < m + 1) :
    scanFields (n + 1) text = scanFields (m + 1) text := by
  simp only [scanFields, Option.bind_eq_bind]
  cases quote : expect '"' (skip text) with
  | none => rfl
  | some named =>
    have afterQuote := after_of_skip (expect_eq_some_iff.mp quote)
    simp only [Option.bind_some]
    cases scannedName : scanString named with
    | none => rfl
    | some pair =>
      obtain ⟨name, spaced⟩ := pair
      have afterName := (scanString_after scannedName).trans afterQuote.1
      simp only [Option.bind_some]
      cases colon : expect ':' (skip spaced) with
      | none => rfl
      | some valued =>
        have afterColon := (after_of_skip (expect_eq_some_iff.mp colon)).trans afterName.1
        have value : scan n valued = scan m valued := by
          have shorter := afterColon.2
          exact inner.value (by omega) (by omega)
        simp only [Option.bind_some, value]
        cases scannedValue : scan m valued with
        | none => rfl
        | some pair =>
          obtain ⟨json, left⟩ := pair
          have afterValue := ((progress m).value scannedValue).trans afterColon.1
          simp only [Option.bind_some]
          cases skipped : skip left with
          | nil => rfl
          | cons c rest =>
            have shorter := ((after_of_skip skipped).trans afterValue.1).2
            have more : scanFields n rest = scanFields m rest := inner.fields (by omega) (by omega)
            split <;> simp_all

theorem Enough.items_succ {n m : ℕ} (inner : Enough n) {text : List Char}
    (first : 2 * text.length + 1 < n + 1) (second : 2 * text.length + 1 < m + 1) :
    scanItems (n + 1) text = scanItems (m + 1) text := by
  have value : scan n text = scan m text := inner.value (by omega) (by omega)
  simp only [scanItems, Option.bind_eq_bind, value]
  cases scannedValue : scan m text with
  | none => rfl
  | some pair =>
    obtain ⟨json, left⟩ := pair
    have afterValue := (progress m).value scannedValue
    simp only [Option.bind_some]
    cases skipped : skip left with
    | nil => rfl
    | cons c rest =>
      have shorter := ((after_of_skip skipped).trans afterValue.1).2
      have more : scanItems n rest = scanItems m rest := inner.items (by omega) (by omega)
      split <;> simp_all

theorem enough (n : ℕ) : Enough n := by
  induction n with
  | zero =>
    exact ⟨fun first => absurd first (Nat.not_lt_zero _), fun first => absurd first (Nat.not_lt_zero _),
      fun first => absurd first (Nat.not_lt_zero _)⟩
  | succ n ih =>
    refine ⟨?_, ?_, ?_⟩
    · intro m text first second
      cases m with
      | zero => exact absurd second (Nat.not_lt_zero _)
      | succ m => exact ih.value_succ first second
    · intro m text first second
      cases m with
      | zero => exact absurd second (Nat.not_lt_zero _)
      | succ m => exact ih.fields_succ first second
    · intro m text first second
      cases m with
      | zero => exact absurd second (Nat.not_lt_zero _)
      | succ m => exact ih.items_succ first second

/-- A parse is the scan of the whole text, whatever the fuel beyond its own. -/
theorem parse_eq_some_iff {text : List Char} {json : Json} {n : ℕ} (fuel : 2 * text.length < n) :
    parse text = some json ↔ ∃ rest, scan n text = some (json, rest) ∧ skip rest = [] := by
  rw [parse, (enough (2 * text.length + 1)).value (Nat.lt_succ_self _) fuel]
  simp only [Option.bind_eq_bind, Option.bind_eq_some_iff, Prod.exists]
  constructor
  · rintro ⟨value, rest, scanned, ended⟩
    split at ended
    · rename_i blank
      cases ended
      exact ⟨rest, scanned, blank⟩
    · cases ended
  · rintro ⟨rest, scanned, blank⟩
    exact ⟨json, rest, scanned, if_pos blank⟩

/-- The text of an object ends it. -/
theorem brace_mem_of_scanFields {n : ℕ} {text rest : List Char}
    {fields : List (List CodeUnit × Json)}
    (scanned : scanFields n text = some (fields, rest)) : '}' ∈ text := by
  induction n generalizing text rest fields with
  | zero => cases scanned
  | succ n ih =>
    simp only [scanFields, Option.bind_eq_bind, Option.bind_eq_some_iff, expect_eq_some_iff] at scanned
    obtain ⟨first, quote, ⟨name, second⟩, scannedName, third, colon, ⟨json, fourth⟩, scannedValue,
      result⟩ := scanned
    have suffix : fourth <:+ text := ((progress n).value scannedValue).1.trans
      ((after_of_skip colon).1.trans ((scanString_after scannedName).1.trans (after_of_skip quote).1))
    have skipped : skip fourth <:+ text := (skip_suffix fourth).trans suffix
    split at result
    · rename_i closed
      rw [closed] at skipped
      exact skipped.subset (List.mem_cons_self ..)
    · rename_i continued
      obtain ⟨⟨more, last⟩, scannedMore, same⟩ := Option.map_eq_some_iff.mp result
      rw [continued] at skipped
      exact skipped.subset (List.mem_cons_of_mem _ (ih scannedMore))
    · cases result

theorem brace_mem_of_parse {rest : List Char} {json : Json}
    (parsed : parse ('{' :: rest) = some json) : '}' ∈ rest := by
  obtain ⟨left, scanned, -⟩ := (parse_eq_some_iff (Nat.lt_succ_self _)).mp parsed
  rw [scan, show skip ('{' :: rest) = '{' :: rest from rfl] at scanned
  split at scanned
  · rename_i opened
    cases opened
    split at scanned
    · rename_i closed
      have skipped := skip_suffix rest
      rw [closed] at skipped
      exact skipped.subset (List.mem_cons_self ..)
    · obtain ⟨⟨fields, last⟩, inner, -⟩ := Option.map_eq_some_iff.mp scanned
      exact brace_mem_of_scanFields inner
  · rename_i opened
    cases opened
  · rename_i object array
    exact absurd rfl (object rest)

/-! Written texts and their values. -/

def hexChar (n : ℕ) : Char := if n < 10 then Char.ofNat (48 + n) else Char.ofNat (87 + n)

def writeEscape (u : CodeUnit) : List Char :=
  ['\\', 'u', hexChar (u / 4096), hexChar (u / 256 % 16), hexChar (u / 16 % 16), hexChar (u % 16)]

def shortEscapes : List (CodeUnit × Char) :=
  [(0x22, '"'), (0x5C, '\\'), (0x08, 'b'), (0x0C, 'f'), (0x0A, 'n'), (0x0D, 'r'), (0x09, 't')]

/-- A unit, where those that the writer does not show as they are take a full escape. -/
def writeUnitBy (hides : CodeUnit → Bool) (u : CodeUnit) : List Char :=
  match shortEscapes.find? (·.1 = u) with
  | some escape => ['\\', escape.2]
  | none => if hides u then writeEscape u else [Char.ofNat u]

/-- One unit that is not half of a pair. -/
def writeUnit : CodeUnit → List Char :=
  writeUnitBy fun u => u.val < 0x20 || Utf16.isHigh u || Utf16.isLow u

/-- The units of a string as `json.dumps` writes it, in ASCII. -/
def dumpUnit : CodeUnit → List Char := writeUnitBy fun u => u.val < 0x20 || 0x7E < u.val

theorem hexChar_plain {n : ℕ} (digit : n < 16) :
    0x20 ≤ (hexChar n).toNat ∧ (hexChar n).toNat < 0x7D := by
  have all : ∀ n < 16, 0x20 ≤ (hexChar n).toNat ∧ (hexChar n).toNat < 0x7D := by decide
  exact all n digit

/-- A unit is dumped as itself or as characters that are no brace. -/
theorem mem_dumpUnit {u : CodeUnit} {c : Char} (member : c ∈ dumpUnit u) :
    c.toNat < 0x7D ∨ c.toNat = u.val ∧ u.val ≤ 0x7E := by
  have bound := u.isLt
  unfold dumpUnit writeUnitBy at member
  split at member
  · rename_i escape found
    have all : ∀ escape ∈ shortEscapes, escape.2.toNat < 0x7D := by decide
    have plain := all escape (List.mem_of_find?_eq_some found)
    rcases List.mem_pair.mp member with rfl | rfl
    · exact .inl (by decide)
    · exact .inl plain
  · split at member
    · simp only [writeEscape, List.mem_cons, List.not_mem_nil, or_false] at member
      rcases member with rfl | rfl | rfl | rfl | rfl | rfl
      · exact .inl (by decide)
      · exact .inl (by decide)
      all_goals exact .inl (hexChar_plain (by omega)).2
    · rename_i shown
      simp only [Bool.not_eq_true, Bool.or_eq_false_iff, decide_eq_false_iff_not] at shown
      rw [List.mem_singleton] at member
      rw [member, Utf16.toNat_ofNat (by unfold Nat.isValidChar; omega)]
      exact .inr ⟨rfl, by omega⟩

/-- The units between the quotes. -/
def writeUnits : List CodeUnit → List Char
  | [] => []
  | [u] => writeUnit u
  | u :: v :: rest =>
    if Utf16.isHigh u ∧ Utf16.isLow v then Utf16.pair u v :: writeUnits rest
    else writeUnit u ++ writeUnits (v :: rest)

def quote (units : List CodeUnit) : List Char := '"' :: (writeUnits units ++ ['"'])

def dumpQuote (units : List CodeUnit) : List Char := '"' :: (units.flatMap dumpUnit ++ ['"'])

theorem length_writeUnitBy_le (hides : CodeUnit → Bool) (u : CodeUnit) :
    (writeUnitBy hides u).length ≤ 6 := by
  unfold writeUnitBy
  split
  · exact Nat.le_of_ble_eq_true rfl
  · split
    · exact le_refl 6
    · exact Nat.le_of_ble_eq_true rfl

theorem length_quote_le (units : List CodeUnit) : (quote units).length ≤ 6 * units.length + 2 := by
  have inner : (writeUnits units).length ≤ 6 * units.length := by
    induction units using writeUnits.induct with
    | case1 => exact le_refl 0
    | case2 u =>
      have here : (writeUnit u).length ≤ 6 := length_writeUnitBy_le _ u
      rw [writeUnits]
      exact here
    | case3 u v rest surrogates ih =>
      rw [writeUnits, if_pos surrogates, List.length_cons, List.length_cons, List.length_cons]
      omega
    | case4 u v rest apart ih =>
      have here : (writeUnit u).length ≤ 6 := length_writeUnitBy_le _ u
      rw [writeUnits, if_neg apart, List.length_append, List.length_cons]
      omega
  rw [quote, List.length_cons, List.length_append, List.length_singleton]
  omega

theorem length_dumpUnits_le (units : List CodeUnit) :
    (units.flatMap dumpUnit).length ≤ 6 * units.length := by
  induction units with
  | nil => exact le_refl 0
  | cons u units ih =>
    have here : (dumpUnit u).length ≤ 6 := length_writeUnitBy_le _ u
    rw [List.flatMap_cons, List.length_append, List.length_cons]
    omega

theorem hexValue?_hexChar {n : ℕ} (digit : n < 16) : hexValue? (hexChar n) = some n := by
  have all : ∀ n < 16, hexValue? (hexChar n) = some n := by decide
  exact all n digit

theorem hexUnit?_written (u : CodeUnit) :
    hexUnit? (hexChar (u / 4096)) (hexChar (u / 256 % 16)) (hexChar (u / 16 % 16))
      (hexChar (u % 16)) = some u := by
  have bound := u.isLt
  have value : ((u.val / 4096 * 16 + u.val / 256 % 16) * 16 + u.val / 16 % 16) * 16 +
      u.val % 16 = u.val := by omega
  rw [hexUnit?, hexValue?_hexChar (by omega), hexValue?_hexChar (by omega),
    hexValue?_hexChar (by omega), hexValue?_hexChar (by omega)]
  simp only [Option.bind_eq_bind, Option.bind_some, value]
  rw [Utf16.unit_eq rfl]

theorem scanString_escape (u : CodeUnit) (rest : List Char) :
    scanString (writeEscape u ++ rest) = (scanString rest).map (Prod.map (u :: ·) id) := by
  simp only [writeEscape, List.cons_append, List.nil_append, scanString, hexUnit?_written,
    Option.bind_eq_bind, Option.bind_some]
  cases scanString rest <;> rfl

theorem scanString_plain {c : Char} (quote : c ≠ '"') (slash : c ≠ '\\') (visible : 0x20 ≤ c.toNat)
    (rest : List Char) :
    scanString (c :: rest) = (scanString rest).map (Prod.map (Utf16.encodeChar c ++ ·) id) := by
  rw [scanString]
  · rw [if_neg (by rw [not_or]; exact ⟨slash, by omega⟩)]
    cases scanString rest <;> rfl
  · exact quote
  · intro a b c d tail same
    exact absurd same slash
  · intro e tail same
    exact absurd same slash

theorem scanString_short {c : Char} {u : CodeUnit} (other : c ≠ 'u') (escaped : escape? c = some u)
    (rest : List Char) :
    scanString ('\\' :: c :: rest) = (scanString rest).map (Prod.map (u :: ·) id) := by
  rw [scanString]
  · rw [escaped]
    simp only [Option.bind_eq_bind, Option.bind_some]
    cases scanString rest <;> rfl
  · intro a b c d tail same
    exact absurd same other

theorem shortEscapes_read :
    ∀ escape ∈ shortEscapes, escape.2 ≠ 'u' ∧ escape? escape.2 = some escape.1 := by
  decide

theorem scanString_writeUnitBy {hides : CodeUnit → Bool} {u : CodeUnit}
    (shows : hides u = false → 0x20 ≤ u.val ∧ Utf16.isHigh u = false ∧ Utf16.isLow u = false)
    (rest : List Char) :
    scanString (writeUnitBy hides u ++ rest) = (scanString rest).map (Prod.map (u :: ·) id) := by
  unfold writeUnitBy
  split
  · rename_i escape found
    have same : escape.1 = u := by simpa using List.find?_some found
    obtain ⟨other, escaped⟩ := shortEscapes_read escape (List.mem_of_find?_eq_some found)
    rw [← same]
    exact scanString_short other escaped rest
  · rename_i missing
    have differ : ∀ escape ∈ shortEscapes, escape.1 ≠ u := by simpa using missing
    split
    · exact scanString_escape u rest
    · rename_i shown
      obtain ⟨visible, high, low⟩ := shows (Bool.not_eq_true _ ▸ shown)
      have value := Utf16.toNat_of_unit high low
      have notQuote : Char.ofNat u ≠ '"' := by
        intro same
        apply differ (0x22, '"') (by decide)
        apply Fin.ext
        rw [← value, same]
        rfl
      have notSlash : Char.ofNat u ≠ '\\' := by
        intro same
        apply differ (0x5C, '\\') (by decide)
        apply Fin.ext
        rw [← value, same]
        rfl
      rw [List.singleton_append, scanString_plain notQuote notSlash (by omega),
        Utf16.encodeChar_unit high low]
      rfl

theorem scanString_writeUnit (u : CodeUnit) (rest : List Char) :
    scanString (writeUnit u ++ rest) = (scanString rest).map (Prod.map (u :: ·) id) := by
  apply scanString_writeUnitBy
  intro shown
  rw [Bool.or_eq_false_iff, Bool.or_eq_false_iff, decide_eq_false_iff_not, Nat.not_lt] at shown
  exact ⟨shown.1.1, shown.1.2, shown.2⟩

theorem scanString_dumpUnit (u : CodeUnit) (rest : List Char) :
    scanString (dumpUnit u ++ rest) = (scanString rest).map (Prod.map (u :: ·) id) := by
  apply scanString_writeUnitBy
  intro shown
  simp only [Bool.or_eq_false_iff, decide_eq_false_iff_not] at shown
  refine ⟨by omega, ?_, ?_⟩
  · rw [Utf16.isHigh, Bool.and_eq_false_iff, decide_eq_false_iff_not, decide_eq_false_iff_not]
    omega
  · rw [Utf16.isLow, Bool.and_eq_false_iff, decide_eq_false_iff_not, decide_eq_false_iff_not]
    omega

theorem scanString_dump (units : List CodeUnit) (rest : List Char) :
    scanString (units.flatMap dumpUnit ++ '"' :: rest) = some (units, rest) := by
  induction units with
  | nil => rfl
  | cons u units ih =>
    rw [List.flatMap_cons, List.append_assoc, scanString_dumpUnit, ih]
    rfl

theorem scanString_pair {u v : CodeUnit} (high : Utf16.isHigh u) (low : Utf16.isLow v)
    (rest : List Char) :
    scanString (Utf16.pair u v :: rest) = (scanString rest).map (Prod.map ([u, v] ++ ·) id) := by
  have value := Utf16.toNat_pair high low
  have bounds := high
  simp only [Utf16.isHigh, Bool.and_eq_true, decide_eq_true_eq] at bounds
  have notQuote : Utf16.pair u v ≠ '"' := by
    intro same
    rw [same, show '"'.toNat = 34 from rfl] at value
    omega
  have notSlash : Utf16.pair u v ≠ '\\' := by
    intro same
    rw [same, show '\\'.toNat = 92 from rfl] at value
    omega
  rw [scanString_plain notQuote notSlash (by omega), Utf16.encodeChar_pair high low]

/-- A string reads back unit by unit. -/
theorem scanString_writeUnits (units : List CodeUnit) (rest : List Char) :
    scanString (writeUnits units ++ '"' :: rest) = some (units, rest) := by
  induction units using writeUnits.induct with
  | case1 => rfl
  | case2 u =>
    rw [writeUnits, scanString_writeUnit]
    rfl
  | case3 u v tail surrogates ih =>
    rw [writeUnits, if_pos surrogates, List.cons_append, scanString_pair surrogates.1 surrogates.2, ih]
    rfl
  | case4 u v tail apart ih =>
    rw [writeUnits, if_neg apart, List.append_assoc, scanString_writeUnit, ih]
    rfl

/-- A text that begins with a mark between fields, or the last one. -/
def Marked (rest : List Char) : Prop := ∃ tail, rest = ',' :: tail ∨ rest = '}' :: tail

/-- The text is read as the value wherever a mark of an object follows. -/
def Writes (text : List Char) (json : Json) : Prop :=
  ∀ n rest, Marked rest → scan (n + 1) (text ++ rest) = some (json, rest)

theorem writes_quote (units : List CodeUnit) : Writes (quote units) (string units) := by
  intro n rest _
  rw [quote, List.cons_append, List.append_assoc, List.singleton_append]
  change (scanString (writeUnits units ++ '"' :: rest)).map (Prod.map string id) = _
  rw [scanString_writeUnits]
  rfl

theorem writes_dumpQuote (units : List CodeUnit) : Writes (dumpQuote units) (string units) := by
  intro n rest _
  rw [dumpQuote, List.cons_append, List.append_assoc, List.singleton_append]
  change (scanString (units.flatMap dumpUnit ++ '"' :: rest)).map (Prod.map string id) = _
  rw [scanString_dump]
  rfl

theorem writes_true : Writes "true".toList (bool true) := fun _ _ _ => rfl

theorem writes_false : Writes "false".toList (bool false) := fun _ _ _ => rfl

/-- A whole number as its digits. -/
def writeInteger (z : ℤ) : List Char :=
  if z < 0 then '-' :: Nat.toDigits 10 z.natAbs else Nat.toDigits 10 z.natAbs

theorem mem_writeInteger {z : ℤ} {c : Char} (member : c ∈ writeInteger z) : c = '-' ∨ c.isDigit := by
  unfold writeInteger at member
  split at member
  · rcases List.mem_cons.mp member with rfl | digit
    · exact .inl rfl
    · exact .inr (Numeral.isDigit_of_mem_toDigits c digit)
  · exact .inr (Numeral.isDigit_of_mem_toDigits c member)

theorem length_writeInteger_le {z : ℤ} {k : ℕ} (positive : 0 < k) (bound : z.natAbs < 10 ^ k) :
    (writeInteger z).length ≤ k + 1 := by
  have digits : (Nat.toDigits 10 z.natAbs).length ≤ k :=
    (Nat.length_toDigits_le_iff (by decide) positive).mpr bound
  unfold writeInteger
  split
  · exact Nat.succ_le_succ digits
  · exact Nat.le_succ_of_le digits

theorem toDigits_head {m : ℕ} (positive : 0 < m) :
    ∃ c rest, Nat.toDigits 10 m = c :: rest ∧ c ≠ '0' := by
  induction m using Nat.strong_induction_on with
  | _ m ih =>
    by_cases short : m < 10
    · have all : ∀ n < 10, 0 < n → n.digitChar ≠ '0' := by decide
      exact ⟨_, [], Nat.toDigits_of_lt_base short, all m short positive⟩
    · obtain ⟨c, rest, digits, other⟩ := ih (m / 10) (by omega) (by omega)
      rw [Nat.toDigits_of_base_le (by decide) (by omega), digits]
      exact ⟨c, _, rfl, other⟩

theorem scanMagnitude_digits (m : ℕ) {rest : List Char} (marked : Marked rest) :
    scanMagnitude (Nat.toDigits 10 m ++ rest) = some (Nat.toDigits 10 m, rest) := by
  have stop : ∀ c ∈ rest.head?, c.isDigit = false := by
    obtain ⟨tail, rfl | rfl⟩ := marked
    · rintro _ ⟨⟩
      rfl
    · rintro _ ⟨⟩
      rfl
  have whole : scanWhole (Nat.toDigits 10 m ++ rest) = some (Nat.toDigits 10 m, rest) := by
    by_cases zero : m = 0
    · rw [zero, Nat.toDigits_zero]
      rfl
    · obtain ⟨c, tail, digits, other⟩ := toDigits_head (Nat.pos_of_ne_zero zero)
      have taken : (Nat.toDigits 10 m ++ rest).takeWhile Char.isDigit = Nat.toDigits 10 m :=
        Numeral.takeWhile_digits Numeral.isDigit_of_mem_toDigits stop
      have left : (Nat.toDigits 10 m ++ rest).dropWhile Char.isDigit = rest :=
        Numeral.dropWhile_digits Numeral.isDigit_of_mem_toDigits stop
      unfold scanWhole
      split
      · rename_i opened
        rw [digits] at opened
        cases opened
        exact absurd rfl other
      · rw [scanDigits, taken, left, if_neg Nat.toDigits_ne_nil]
  rw [scanMagnitude, whole]
  obtain ⟨tail, rfl | rfl⟩ := marked
  · simp [scanFraction, scanExponent]
  · simp [scanFraction, scanExponent]

theorem scan_number {c : Char} (opens : c = '-' ∨ c.isDigit) (n : ℕ) (text : List Char) :
    scan (n + 1) (c :: text) = (scanNumber (c :: text)).map (Prod.map number id) := by
  have visible : isSpace c = false := by
    rcases opens with rfl | digit
    · rfl
    · cases spaced : isSpace c with
      | false => rfl
      | true =>
        simp only [isSpace, Bool.or_eq_true, decide_eq_true_eq] at spaced
        rcases spaced with ((rfl | rfl) | rfl) | rfl <;> exact absurd digit (by decide)
  have skipped : skip (c :: text) = c :: text :=
    List.dropWhile_cons_of_neg (by rw [visible]; exact Bool.false_ne_true)
  have differ : ∀ mark ∈ ['{', '[', '"', 't', 'f', 'n'], c ≠ mark := by
    rintro mark member rfl
    rcases opens with rfl | digit
    · exact absurd member (by decide)
    · simp only [List.mem_cons, List.not_mem_nil, or_false] at member
      rcases member with rfl | rfl | rfl | rfl | rfl | rfl <;> exact absurd digit (by decide)
  simp only [List.mem_cons, List.not_mem_nil, or_false, forall_eq_or_imp, forall_eq] at differ
  obtain ⟨brace, bracket, quote, t, f, n⟩ := differ
  rw [scan, skipped]
  split
  · rename_i same
    exact absurd (List.cons.inj same).1 brace
  · rename_i same
    exact absurd (List.cons.inj same).1 bracket
  · rw [scanScalar.eq_def]
    split
    · rename_i same
      exact absurd (List.cons.inj same).1 quote
    · rename_i same
      exact absurd (List.cons.inj same).1 t
    · rename_i same
      exact absurd (List.cons.inj same).1 f
    · rename_i same
      exact absurd (List.cons.inj same).1 n
    · rfl

theorem writes_integer (z : ℤ) : Writes (writeInteger z) (number (Number.ofText (writeInteger z))) := by
  intro n rest marked
  have magnitude := scanMagnitude_digits z.natAbs marked
  unfold writeInteger
  split
  · rw [List.cons_append, scan_number (.inl rfl), scanNumber, magnitude]
    rfl
  · obtain ⟨c, digits, written⟩ := List.exists_cons_of_ne_nil (Nat.toDigits_ne_nil (n := z.natAbs) (b := 10))
    have digit : c.isDigit := Numeral.isDigit_of_mem_toDigits c (by rw [written]; exact List.mem_cons_self ..)
    rw [written] at magnitude ⊢
    rw [List.cons_append] at magnitude ⊢
    rw [scan_number (.inr digit), scanNumber.eq_def]
    split
    · rename_i minus
      rw [(List.cons.inj minus).1] at digit
      exact absurd digit (by decide)
    · rw [magnitude]
      rfl

section Written

variable {gap : List Char} (spaces : gap.all isSpace)

/-- The fields of an object after its brace, with a gap after each mark. -/
def writeFields (gap : List Char) : List (List CodeUnit × List Char) → List Char
  | [] => ['}']
  | [(name, text)] => quote name ++ ':' :: (gap ++ (text ++ ['}']))
  | (name, text) :: rest =>
    quote name ++ ':' :: (gap ++ (text ++ ',' :: (gap ++ writeFields gap rest)))

def writeObject (gap : List Char) (fields : List (List CodeUnit × List Char)) : List Char :=
  '{' :: writeFields gap fields

theorem length_writeFields_le {gap : List Char} {n : ℕ} {fields : List (List CodeUnit × List Char)}
    (short : ∀ field ∈ fields, (quote field.1).length + field.2.length ≤ n) :
    (writeFields gap fields).length ≤ fields.length * (n + 2 * gap.length + 2) + 1 := by
  induction fields using writeFields.induct with
  | case1 => simp [writeFields]
  | case2 name text =>
    have here := short _ (List.mem_singleton_self _)
    simp only [writeFields, List.length_append, List.length_cons, List.length_nil] at here ⊢
    omega
  | case3 name text rest other ih =>
    have here := short _ (List.mem_cons_self ..)
    have later := ih fun field member => short field (List.mem_cons_of_mem _ member)
    rw [List.length_cons, Nat.succ_mul, writeFields]
    · simp only [List.length_append, List.length_cons] at here ⊢
      omega
    · exact other

/-- The characters of the fields, before the brace that ends them. -/
theorem writeFields_eq_append (gap : List Char) (fields : List (List CodeUnit × List Char)) :
    ∃ inner, writeFields gap fields = inner ++ ['}'] ∧ ∀ c ∈ inner, c = ':' ∨ c = ',' ∨ c ∈ gap ∨
      ∃ field ∈ fields, c ∈ quote field.1 ∨ c ∈ field.2 := by
  induction fields using writeFields.induct with
  | case1 => exact ⟨[], rfl, fun c member => absurd member List.not_mem_nil⟩
  | case2 name text =>
    refine ⟨quote name ++ ':' :: (gap ++ text), ?_, ?_⟩
    · simp [writeFields]
    · intro c member
      simp only [List.mem_append, List.mem_cons] at member
      simp only [List.mem_singleton, exists_eq_left]
      tauto
  | case3 name text rest other ih =>
    obtain ⟨inner, same, chars⟩ := ih
    refine ⟨quote name ++ ':' :: (gap ++ (text ++ ',' :: (gap ++ inner))), ?_, ?_⟩
    · rw [writeFields, same]
      · simp
      · exact other
    · intro c member
      simp only [List.mem_append, List.mem_cons] at member
      simp only [List.mem_cons, exists_eq_or_imp]
      rcases member with named | rfl | spaced | valued | rfl | spaced | later
      · exact .inr (.inr (.inr (.inl (.inl named))))
      · exact .inl rfl
      · exact .inr (.inr (.inl spaced))
      · exact .inr (.inr (.inr (.inl (.inr valued))))
      · exact .inr (.inl rfl)
      · exact .inr (.inr (.inl spaced))
      · rcases chars c later with colon | comma | spaced | field
        · exact .inl colon
        · exact .inr (.inl comma)
        · exact .inr (.inr (.inl spaced))
        · exact .inr (.inr (.inr (.inr field)))

theorem writeFields_head (gap : List Char) (field : List CodeUnit × List Char)
    (rest : List (List CodeUnit × List Char)) :
    ∃ text, writeFields gap (field :: rest) = '"' :: text := by
  cases rest with
  | nil => exact ⟨_, rfl⟩
  | cons next rest => exact ⟨_, rfl⟩

include spaces

theorem skip_gap (text : List Char) : skip (gap ++ text) = skip text := by
  apply List.dropWhile_append_of_pos
  intro c member
  exact List.all_eq_true.mp spaces c member

theorem scan_gap (n : ℕ) (text : List Char) : scan n (gap ++ text) = scan n text := by
  cases n with
  | zero => rfl
  | succ n => rw [scan, scan, skip_gap spaces]

/-- A field is read with its value, up to the mark that follows it. -/
theorem scanFields_field {name : List CodeUnit} {text rest : List Char} {json : Json}
    (writes : Writes text json) (marked : Marked rest) (n : ℕ) :
    scanFields (n + 2) (gap ++ (quote name ++ ':' :: (gap ++ (text ++ rest)))) =
      match skip rest with
      | '}' :: rest => some ([(name, json)], rest)
      | ',' :: rest => (scanFields (n + 1) rest).map (Prod.map ((name, json) :: ·) id)
      | _ => none := by
  have opened : skip (gap ++ (quote name ++ ':' :: (gap ++ (text ++ rest)))) =
      '"' :: (writeUnits name ++ '"' :: ':' :: (gap ++ (text ++ rest))) := by
    rw [skip_gap spaces, quote, List.cons_append, List.append_assoc, List.singleton_append]
    rfl
  rw [scanFields, opened]
  simp only [expect, if_true, Option.bind_eq_bind, Option.bind_some, scanString_writeUnits,
    show skip (':' :: (gap ++ (text ++ rest))) = ':' :: (gap ++ (text ++ rest)) from rfl,
    scan_gap spaces, writes n rest marked]

theorem scanFields_written {fields : List (List CodeUnit × List Char × Json)}
    (nonempty : fields ≠ []) (writes : ∀ field ∈ fields, Writes field.2.1 field.2.2) {n : ℕ}
    (fuel : fields.length < n) :
    scanFields n (gap ++ writeFields gap (fields.map fun field => (field.1, field.2.1))) =
      some (fields.map fun field => (field.1, field.2.2), []) := by
  induction fields generalizing n with
  | nil => exact absurd rfl nonempty
  | cons field rest ih =>
    obtain ⟨name, text, json⟩ := field
    have here : Writes text json := writes _ (List.mem_cons_self ..)
    obtain ⟨n, rfl⟩ : ∃ k, n = k + 2 := ⟨n - 2, by rw [List.length_cons] at fuel; omega⟩
    cases rest with
    | nil =>
      rw [List.map_cons, List.map_nil, writeFields, scanFields_field spaces here ⟨[], .inr rfl⟩]
      rfl
    | cons next rest =>
      have there := ih (List.cons_ne_nil next rest)
        (fun field member => writes field (List.mem_cons_of_mem _ member))
        (n := n + 1) (by rw [List.length_cons] at fuel; omega)
      rw [List.map_cons] at there
      rw [List.map_cons, List.map_cons, writeFields, scanFields_field spaces here ⟨_, .inl rfl⟩]
      · simp only [show ∀ text, skip (',' :: text) = ',' :: text from fun _ => rfl, there,
          Option.map_some, Prod.map_apply, id_eq, List.map_cons]
      · exact List.cons_ne_nil _ _

theorem scanFields_gap (n : ℕ) (text : List Char) :
    scanFields n (gap ++ text) = scanFields n text := by
  cases n with
  | zero => rfl
  | succ n => rw [scanFields, scanFields, skip_gap spaces]

theorem parse_writeObject {fields : List (List CodeUnit × List Char × Json)} (nonempty : fields ≠ [])
    (writes : ∀ field ∈ fields, Writes field.2.1 field.2.2) :
    parse (writeObject gap (fields.map fun field => (field.1, field.2.1))) =
      some (object (fields.map fun field => (field.1, field.2.2))) := by
  have written := fun n => scanFields_written spaces nonempty writes (n := n)
  generalize text : fields.map (fun field => (field.1, field.2.1)) = named at written ⊢
  obtain ⟨head, opened⟩ : ∃ rest, writeFields gap named = '"' :: rest := by
    cases fields with
    | nil => exact absurd rfl nonempty
    | cons field rest =>
      subst text
      exact writeFields_head gap _ _
  rw [parse_eq_some_iff (n := 2 * (writeObject gap named).length + fields.length + 2) (by omega)]
  refine ⟨[], ?_, rfl⟩
  have inner := written (2 * (writeObject gap named).length + fields.length + 1) (by omega)
  rw [scanFields_gap spaces, opened] at inner
  rw [scan, writeObject, opened]
  change (scanFields _ ('"' :: head)).map (Prod.map object id) = _
  rw [writeObject, opened] at inner
  rw [inner]
  rfl

end Written

end Json
