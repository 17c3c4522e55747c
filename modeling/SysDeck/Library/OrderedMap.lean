import Mathlib.Data.List.Nodup

/-! Finite maps that iterate in insertion order: writing an existing key keeps
its place, writing a new key appends it, and keys never repeat. -/

universe u v w

/-- An association list with distinct keys, oldest key first. -/
structure OrderedMap (Key : Type u) (Value : Type v) where
  entries : List (Key × Value)
  nodup : (entries.map Prod.fst).Nodup

namespace OrderedMap

variable {Key : Type u} {Value : Type v} [DecidableEq Key]

def empty : OrderedMap Key Value := ⟨[], List.nodup_nil⟩

def keys (map : OrderedMap Key Value) : List Key := map.entries.map Prod.fst

def values (map : OrderedMap Key Value) : List Value := map.entries.map Prod.snd

def size (map : OrderedMap Key Value) : Nat := map.entries.length

def find? (map : OrderedMap Key Value) (key : Key) : Option Value :=
  map.entries.lookup key

def getD (map : OrderedMap Key Value) (key : Key) (fallback : Value) : Value :=
  (map.find? key).getD fallback

def contains (map : OrderedMap Key Value) (key : Key) : Bool := (map.find? key).isSome

private theorem map_modify_keys (entries : List (Key × Value)) (key : Key) (change : Value → Value) :
    (entries.map fun entry => if entry.1 = key then (entry.1, change entry.2) else entry).map Prod.fst =
      entries.map Prod.fst := by
  rw [List.map_map]
  apply List.map_congr_left
  intro entry _
  by_cases same : entry.1 = key <;> simp [same]

/-- Update the value at a key, leaving an absent key absent. -/
def modify (map : OrderedMap Key Value) (key : Key) (change : Value → Value) : OrderedMap Key Value where
  entries := map.entries.map fun entry => if entry.1 = key then (entry.1, change entry.2) else entry
  nodup := by rw [map_modify_keys]; exact map.nodup

private theorem lookup_head {entry : Key × Value} {key : Key} (same : key = entry.1)
    (rest : List (Key × Value)) : (entry :: rest).lookup key = some entry.2 := by
  obtain ⟨head, value⟩ := entry
  subst same
  exact List.lookup_cons_self

private theorem lookup_tail {entry : Key × Value} {key : Key} (differ : key ≠ entry.1)
    (rest : List (Key × Value)) : (entry :: rest).lookup key = rest.lookup key := by
  obtain ⟨head, value⟩ := entry
  rw [List.lookup_cons, beq_eq_false_iff_ne.mpr differ]

theorem lookup_eq_none_iff (entries : List (Key × Value)) (key : Key) :
    entries.lookup key = none ↔ key ∉ entries.map Prod.fst := by
  induction entries with
  | nil => simp
  | cons entry rest ih =>
    by_cases same : key = entry.1
    · simp [same]
    · rw [lookup_tail same, ih]
      simp [same]

theorem find?_eq_none_iff {map : OrderedMap Key Value} {key : Key} :
    map.find? key = none ↔ key ∉ map.keys :=
  lookup_eq_none_iff map.entries key

/-- Write a key: in place when it is present, at the end when it is new. -/
def set (map : OrderedMap Key Value) (key : Key) (value : Value) : OrderedMap Key Value :=
  if absent : map.find? key = none then
    { entries := map.entries ++ [(key, value)]
      nodup := by
        have fresh := find?_eq_none_iff.mp absent
        rw [List.map_append, List.map_singleton]
        exact List.nodup_append.mpr ⟨map.nodup, List.nodup_singleton _, by
          intro other member last found same
          have written : last = key := List.mem_singleton.mp found
          subst other last
          exact fresh member⟩ }
  else map.modify key fun _ => value

@[simp] theorem keys_modify (map : OrderedMap Key Value) (key : Key) (change : Value → Value) :
    (map.modify key change).keys = map.keys :=
  map_modify_keys map.entries key change

theorem find?_isSome_iff {map : OrderedMap Key Value} {key : Key} :
    (map.find? key).isSome ↔ key ∈ map.keys := by
  rw [Option.isSome_iff_ne_none, ne_eq, find?_eq_none_iff, not_not]

theorem mem_keys_iff {map : OrderedMap Key Value} {key : Key} :
    key ∈ map.keys ↔ ∃ value, map.find? key = some value := by
  rw [← find?_isSome_iff, Option.isSome_iff_exists]

private theorem lookup_eq_some_iff (entries : List (Key × Value))
    (nodup : (entries.map Prod.fst).Nodup) (key : Key) (value : Value) :
    entries.lookup key = some value ↔ (key, value) ∈ entries := by
  induction entries with
  | nil => simp
  | cons entry rest ih =>
    obtain ⟨head, stored⟩ := entry
    rw [List.map_cons, List.nodup_cons] at nodup
    by_cases same : key = head
    · subst same
      have missing : (key, value) ∉ rest := fun member =>
        nodup.1 (List.mem_map.mpr ⟨_, member, rfl⟩)
      rw [List.lookup_cons_self]
      simp [missing, eq_comm]
    · rw [lookup_tail same, ih nodup.2]
      simp [same]

theorem find?_eq_some_iff {map : OrderedMap Key Value} {key : Key} {value : Value} :
    map.find? key = some value ↔ (key, value) ∈ map.entries :=
  lookup_eq_some_iff map.entries map.nodup key value

theorem mem_values_iff {map : OrderedMap Key Value} {value : Value} :
    value ∈ map.values ↔ ∃ key, map.find? key = some value := by
  simp [values, find?_eq_some_iff]

theorem mem_values {map : OrderedMap Key Value} {key : Key} {value : Value}
    (found : map.find? key = some value) : value ∈ map.values :=
  mem_values_iff.mpr ⟨key, found⟩

@[simp] theorem find?_empty (key : Key) : (empty : OrderedMap Key Value).find? key = none := rfl

private theorem lookup_map_modify (entries : List (Key × Value)) (key : Key)
    (change : Value → Value) (other : Key) :
    (entries.map fun entry => if entry.1 = key then (entry.1, change entry.2) else entry).lookup other =
      if other = key then (entries.lookup other).map change else entries.lookup other := by
  induction entries with
  | nil => simp
  | cons entry rest ih =>
    have named : (if entry.1 = key then (entry.1, change entry.2) else entry).1 = entry.1 := by
      split <;> rfl
    rw [List.map_cons]
    by_cases head : other = entry.1
    · rw [lookup_head (head.trans named.symm), lookup_head head]
      by_cases same : entry.1 = key <;> simp [head, same]
    · rw [lookup_tail (fun same => head (same.trans named)), lookup_tail head, ih]

theorem find?_modify (map : OrderedMap Key Value) (key : Key) (change : Value → Value) (other : Key) :
    (map.modify key change).find? other =
      if other = key then (map.find? other).map change else map.find? other :=
  lookup_map_modify map.entries key change other

theorem find?_modify_self (map : OrderedMap Key Value) (key : Key) (change : Value → Value) :
    (map.modify key change).find? key = (map.find? key).map change := by
  simp [find?_modify]

theorem find?_modify_ne (map : OrderedMap Key Value) {key other : Key} (change : Value → Value)
    (differ : other ≠ key) : (map.modify key change).find? other = map.find? other := by
  simp [find?_modify, differ]

/-- An entry of a modified map is the changed entry or an untouched one. -/
theorem find?_modify_eq_some {map : OrderedMap Key Value} {key other : Key}
    {change : Value → Value} {value : Value}
    (found : (map.modify key change).find? other = some value) :
    (other = key ∧ ∃ old, map.find? key = some old ∧ value = change old) ∨
      (other ≠ key ∧ map.find? other = some value) := by
  by_cases same : other = key
  · subst same
    rw [find?_modify_self] at found
    obtain ⟨old, present, changed⟩ := Option.map_eq_some_iff.mp found
    exact .inl ⟨rfl, old, present, changed.symm⟩
  · rw [find?_modify_ne map change same] at found
    exact .inr ⟨same, found⟩

/-- A value of a modified map is the changed value or an old one. -/
theorem mem_values_modify {map : OrderedMap Key Value} {key : Key} {change : Value → Value}
    {value : Value} (member : value ∈ (map.modify key change).values) :
    (∃ old, map.find? key = some old ∧ value = change old) ∨ value ∈ map.values := by
  obtain ⟨other, found⟩ := mem_values_iff.mp member
  rcases find?_modify_eq_some found with ⟨_, old, present, rfl⟩ | ⟨_, old⟩
  · exact .inl ⟨old, present, rfl⟩
  · exact .inr (mem_values old)

theorem modify_modify (map : OrderedMap Key Value) (key : Key) (first second : Value → Value) :
    (map.modify key first).modify key second = map.modify key (second ∘ first) := by
  simp only [modify, List.map_map, mk.injEq]
  apply List.map_congr_left
  intro entry _
  by_cases same : entry.1 = key <;> simp [same]

/-- Changing a key's value depends on the change at that value only. -/
theorem modify_congr {map : OrderedMap Key Value} {key : Key} {value : Value}
    {first second : Value → Value} (found : map.find? key = some value)
    (agree : first value = second value) : map.modify key first = map.modify key second := by
  simp only [modify, mk.injEq]
  apply List.map_congr_left
  rintro ⟨entryKey, stored⟩ member
  by_cases same : entryKey = key
  · subst same
    have identical := find?_eq_some_iff.mpr member
    rw [found] at identical
    cases identical
    simp [agree]
  · simp [same]

theorem find?_set (map : OrderedMap Key Value) (key other : Key) (value : Value) :
    (map.set key value).find? other = if other = key then some value else map.find? other := by
  unfold set
  split
  · rename_i absent
    simp only [find?] at absent ⊢
    rw [List.lookup_append]
    by_cases same : other = key
    · subst same
      simp [absent]
    · rw [lookup_tail same, if_neg same]
      simp
  · rename_i present
    rw [find?_modify]
    by_cases same : other = key
    · subst same
      cases found : map.find? other with
      | none => exact absurd found present
      | some old => simp
    · simp [same]

@[simp] theorem find?_set_self (map : OrderedMap Key Value) (key : Key) (value : Value) :
    (map.set key value).find? key = some value := by
  simp [find?_set]

theorem find?_set_ne (map : OrderedMap Key Value) {key other : Key} (value : Value)
    (differ : other ≠ key) : (map.set key value).find? other = map.find? other := by
  simp [find?_set, differ]

theorem getD_set (map : OrderedMap Key Value) (key other : Key) (value fallback : Value) :
    (map.set key value).getD other fallback = if other = key then value else map.getD other fallback := by
  unfold getD
  rw [find?_set]
  split <;> rfl

/-- Writing a fresh key appends it. -/
theorem entries_set_of_absent {map : OrderedMap Key Value} {key : Key} (value : Value)
    (absent : map.find? key = none) :
    (map.set key value).entries = map.entries ++ [(key, value)] := by
  simp [set, absent]

theorem keys_set_of_absent {map : OrderedMap Key Value} {key : Key} (value : Value)
    (absent : map.find? key = none) : (map.set key value).keys = map.keys ++ [key] := by
  simp [keys, entries_set_of_absent value absent]

/-- Writing back the value a key already has changes nothing. -/
theorem set_eq_self {map : OrderedMap Key Value} {key : Key} {value : Value}
    (found : map.find? key = some value) : map.set key value = map := by
  have present : map.find? key ≠ none := by simp [found]
  simp only [set, present, ↓reduceDIte]
  have unchanged : (map.modify key fun _ => value) = map.modify key id := modify_congr found rfl
  rw [unchanged]
  cases map
  simp [modify]

/-- Change every value in place. -/
def mapValues {Result : Type w} (map : OrderedMap Key Value) (change : Value → Result) :
    OrderedMap Key Result where
  entries := map.entries.map fun entry => (entry.1, change entry.2)
  nodup := by simpa [List.map_map, Function.comp_def] using map.nodup

theorem find?_mapValues {Result : Type w} (map : OrderedMap Key Value) (change : Value → Result)
    (key : Key) : (map.mapValues change).find? key = (map.find? key).map change := by
  simp only [find?, mapValues]
  induction map.entries with
  | nil => rfl
  | cons entry rest ih =>
    rw [List.map_cons]
    by_cases same : key = entry.1
    · have changed : key = (entry.1, change entry.2).1 := same
      rw [lookup_head same, lookup_head changed]
      rfl
    · have changed : key ≠ (entry.1, change entry.2).1 := same
      rw [lookup_tail same, lookup_tail changed, ih]

/-- Keep the entries that pass a test, in their order. -/
def filter (map : OrderedMap Key Value) (keep : Key → Value → Bool) : OrderedMap Key Value where
  entries := map.entries.filter fun entry => keep entry.1 entry.2
  nodup := map.nodup.sublist (List.filter_sublist.map Prod.fst)

def erase (map : OrderedMap Key Value) (key : Key) : OrderedMap Key Value :=
  map.filter fun other _ => other ≠ key

theorem find?_filter (map : OrderedMap Key Value) (keep : Key → Value → Bool) (key : Key) :
    (map.filter keep).find? key = (map.find? key).filter (keep key) := by
  apply Option.ext
  intro value
  rw [find?_eq_some_iff, Option.filter_eq_some_iff, find?_eq_some_iff]
  exact List.mem_filter

theorem find?_erase (map : OrderedMap Key Value) (key other : Key) :
    (map.erase key).find? other = if other = key then none else map.find? other := by
  rw [erase, find?_filter]
  by_cases same : other = key
  · cases map.find? other <;> simp [same, Option.filter]
  · cases map.find? other <;> simp [same, Option.filter]

/-- What a filtered map still holds the map held. -/
theorem find?_of_filter {map : OrderedMap Key Value} {keep : Key → Value → Bool} {key : Key}
    {value : Value} (found : (map.filter keep).find? key = some value) :
    map.find? key = some value ∧ keep key value = true := by
  rw [find?_filter] at found
  exact Option.filter_eq_some_iff.mp found

/-- Write the entries of a list, oldest first. -/
def ofList (entries : List (Key × Value)) : OrderedMap Key Value :=
  entries.foldl (fun map entry => map.set entry.1 entry.2) empty

theorem entries_ofList {entries : List (Key × Value)} (nodup : (entries.map Prod.fst).Nodup) :
    (ofList entries).entries = entries := by
  have extend : ∀ (rest : List (Key × Value)) (map : OrderedMap Key Value),
      ((map.entries ++ rest).map Prod.fst).Nodup →
      (rest.foldl (fun map entry => map.set entry.1 entry.2) map).entries = map.entries ++ rest := by
    intro rest
    induction rest with
    | nil =>
      intro map _
      exact (List.append_nil _).symm
    | cons entry rest ih =>
      intro map distinct
      have absent : map.find? entry.1 = none := by
        rw [find?_eq_none_iff]
        intro listed
        rw [List.map_append, List.map_cons, List.nodup_append] at distinct
        exact distinct.2.2 entry.1 listed entry.1 List.mem_cons_self rfl
      have written := entries_set_of_absent entry.2 absent
      rw [List.foldl_cons, ih _ (by rw [written]; simpa using distinct), written, List.append_assoc]
      rfl
  exact extend entries empty nodup

theorem ofList_entries (map : OrderedMap Key Value) : ofList map.entries = map := by
  have same := entries_ofList map.nodup
  cases built : ofList map.entries
  cases map
  simp_all

/-- Counting the values is counting the keys that hold such a value. -/
theorem countP_values_eq (map : OrderedMap Key Value) (test : Value → Bool) :
    map.values.countP test = map.keys.countP fun key => (map.find? key).any test := by
  simp only [values, keys, List.countP_map]
  apply List.countP_congr
  intro entry member
  have found : map.find? entry.1 = some entry.2 := find?_eq_some_iff.mpr member
  simp [found]

/-- The count depends on what each key's value answers to the test. -/
theorem countP_values_congr {map other : OrderedMap Key Value} {test : Value → Bool}
    (keys : other.keys = map.keys)
    (agree : ∀ key value, map.find? key = some value →
      ∃ changed, other.find? key = some changed ∧ test changed = test value) :
    other.values.countP test = map.values.countP test := by
  rw [countP_values_eq, countP_values_eq, keys]
  apply List.countP_congr
  intro key member
  obtain ⟨value, found⟩ := mem_keys_iff.mp member
  obtain ⟨changed, present, same⟩ := agree key value found
  simp [found, present, same]

theorem any_values_congr {map other : OrderedMap Key Value} {test : Value → Bool}
    (keys : other.keys = map.keys)
    (agree : ∀ key value, map.find? key = some value →
      ∃ changed, other.find? key = some changed ∧ test changed = test value) :
    other.values.any test = map.values.any test := by
  rw [Bool.eq_iff_iff, List.any_eq_true, List.any_eq_true, ← List.countP_pos_iff,
    ← List.countP_pos_iff, countP_values_congr keys agree]

/-- Counting over the values after one of them changed. -/
theorem countP_values_modify {map : OrderedMap Key Value} {key : Key} {value : Value}
    (found : map.find? key = some value) (change : Value → Value) (test : Value → Bool) :
    (map.modify key change).values.countP test + (if test value then 1 else 0) =
      map.values.countP test + (if test (change value) then 1 else 0) := by
  have member := find?_eq_some_iff.mp found
  have nodup := map.nodup
  simp only [values, modify, List.map_map]
  generalize map.entries = entries at member nodup
  induction entries with
  | nil => simp at member
  | cons entry rest ih =>
    rw [List.map_cons, List.nodup_cons] at nodup
    rw [List.map_cons, List.map_cons, List.countP_cons, List.countP_cons]
    rcases List.mem_cons.mp member with same | later
    · subst same
      have untouched : rest.map (Prod.snd ∘ fun entry =>
          if entry.1 = key then (entry.1, change entry.2) else entry) = rest.map Prod.snd := by
        apply List.map_congr_left
        intro other present
        have differ : other.1 ≠ key := fun same =>
          nodup.1 (List.mem_map.mpr ⟨other, present, same⟩)
        simp [differ]
      rw [untouched]
      simp
      omega
    · have differ : entry.1 ≠ key := fun same =>
        nodup.1 (List.mem_map.mpr ⟨_, later, same.symm⟩)
      have rest := ih later nodup.2
      simp only [Function.comp, differ, ↓reduceIte] at rest ⊢
      omega

/-- Counting over the values after a key is written. -/
theorem countP_values_set (map : OrderedMap Key Value) (key : Key) (value : Value)
    (test : Value → Bool) :
    (map.set key value).values.countP test + ((map.find? key).map fun old =>
      if test old then 1 else 0).getD 0 = map.values.countP test + if test value then 1 else 0 := by
  cases found : map.find? key with
  | none =>
    rw [values, values, entries_set_of_absent value found, List.map_append, List.countP_append,
      List.map_singleton, List.countP_singleton]
    rfl
  | some old =>
    have written : map.set key value = map.modify key fun _ => value := by
      rw [set, dif_neg (by rw [found]; exact Option.some_ne_none old)]
    rw [written]
    exact countP_values_modify found (fun _ => value) test

/-- Counting over the values after a key is erased. -/
theorem countP_values_erase {map : OrderedMap Key Value} {key : Key} {value : Value}
    (found : map.find? key = some value) (test : Value → Bool) :
    (map.erase key).values.countP test + (if test value then 1 else 0) =
      map.values.countP test := by
  have member := find?_eq_some_iff.mp found
  have nodup := map.nodup
  simp only [values, erase, filter]
  generalize map.entries = entries at member nodup
  induction entries with
  | nil => simp at member
  | cons entry rest ih =>
    rw [List.map_cons, List.nodup_cons] at nodup
    rcases List.mem_cons.mp member with same | later
    · subst same
      have kept : rest.filter (fun other => decide (other.1 ≠ key)) = rest := by
        rw [List.filter_eq_self]
        intro other present
        have differ : other.1 ≠ key := fun same =>
          nodup.1 (List.mem_map.mpr ⟨other, present, same⟩)
        simp [differ]
      rw [List.filter_cons_of_neg (by simp), kept, List.map_cons, List.countP_cons]
    · have differ : entry.1 ≠ key := fun same =>
        nodup.1 (List.mem_map.mpr ⟨_, later, same.symm⟩)
      have rest := ih later nodup.2
      rw [List.filter_cons_of_pos (by simp [differ]), List.map_cons, List.map_cons,
        List.countP_cons, List.countP_cons]
      omega

/-- Reading all values after a key is written whose value now reads as it did with more after it. -/
theorem flatMap_values_set_perm {α : Type*} (map : OrderedMap Key Value) (key : Key) (value : Value)
    (read : Value → List α) (more : List α)
    (grows : read value = (map.find? key).elim [] read ++ more) :
    ((map.set key value).values.flatMap read).Perm (map.values.flatMap read ++ more) := by
  cases found : map.find? key with
  | none =>
    rw [found, Option.elim_none, List.nil_append] at grows
    rw [values, values, entries_set_of_absent value found, List.map_append, List.flatMap_append,
      List.map_singleton, List.flatMap_singleton, grows]
  | some old =>
    have written : map.set key value = map.modify key fun _ => value := by
      rw [set, dif_neg (by rw [found]; exact Option.some_ne_none old)]
    rw [found, Option.elim_some] at grows
    obtain ⟨before, after, split⟩ := List.append_of_mem (find?_eq_some_iff.mp found)
    have nodup := map.nodup
    rw [split, List.map_append, List.map_cons, List.nodup_middle, List.nodup_cons, List.mem_append,
      not_or] at nodup
    have untouched : ∀ {entries : List (Key × Value)}, key ∉ entries.map Prod.fst →
        (entries.map fun entry => if entry.1 = key then (entry.1, value) else entry) = entries := by
      intro entries absent
      refine (List.map_congr_left ?_).trans (List.map_id _)
      intro other present
      have differ : other.1 ≠ key := fun same => absent (List.mem_map.mpr ⟨other, present, same⟩)
      simp [differ]
    rw [written]
    simp only [values, modify]
    rw [split, List.map_append, List.map_cons, untouched nodup.1.1, untouched nodup.1.2]
    simp only [if_true, List.map_append, List.map_cons, List.flatMap_append, List.flatMap_cons, grows,
      List.append_assoc]
    exact (List.perm_append_comm.append_left _).append_left _

end OrderedMap
