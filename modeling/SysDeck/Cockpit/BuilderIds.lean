import Mathlib.Data.List.Forall2
import SysDeck.Cockpit.ProfileLifecycle

/-! The identifiers of the image builder: the ids that it gives to builds, and the names of profiles
under which artifacts are listed and cleared. -/

namespace SysDeck.Cockpit.Profiles

/-! ### Build ids -/

/-- What `datetime.now()` reads, to the second, the year in two halves. -/
structure Clock where
  century : Fin 100
  year : Fin 100
  month : Fin 100
  day : Fin 100
  hour : Fin 100
  minute : Fin 100
  second : Fin 100
  deriving DecidableEq

def Clock.fields (clock : Clock) : List (Fin 100) :=
  [clock.century, clock.year, clock.month, clock.day, clock.hour, clock.minute, clock.second]

/-- `%02d` -/
def two (n : Fin 100) : List Char := [Nat.digitChar (n.val / 10), Nat.digitChar (n.val % 10)]

/-- `strftime("%Y%m%d%H%M%S")` -/
def Clock.stamp (clock : Clock) : List Char := clock.fields.flatMap two

/-- `[A-Za-z0-9_-]` -/
def plainChar (c : Char) : Bool := c.isAlphanum || c = '_' || c = '-'

def plain (c : Char) : Char := if plainChar c then c else '_'

/-- `re.sub(r"[^A-Za-z0-9_-]", "_", profile)` -/
def safeProfile (profile : String) : List Char := profile.toList.map plain

/-- `_new_build_id` -/
def newBuildId (profile : String) (clock : Clock) : String :=
  String.ofList (safeProfile profile ++ '-' :: clock.stamp)

/-- A build of a profile, at what the clock read. -/
structure Build where
  profile : String
  clock : Clock

def Build.id (build : Build) : String := newBuildId build.profile build.clock

/-- A character that an id has as an underscore. -/
def underscored (c : Char) : Bool := c = '_' || !plainChar c

/-- Names that differ only in characters that ids have as underscores. -/
def Alike (first second : String) : Prop :=
  List.Forall₂ (fun c d => c = d ∨ underscored c ∧ underscored d) first.toList second.toList

theorem plain_eq_iff {c d : Char} : plain c = plain d ↔ c = d ∨ underscored c ∧ underscored d := by
  have whole (c : Char) : underscored c ↔ plain c = '_' := by
    unfold underscored plain
    by_cases kept : plainChar c
    · simp [kept]
    · simp [kept]
  have kept {c : Char} (other : ¬underscored c) : plain c = c := by
    unfold underscored at other
    unfold plain
    rw [if_pos]
    simp only [Bool.or_eq_true, Bool.not_eq_true', not_or, Bool.not_eq_false] at other
    exact other.2
  constructor
  · intro same
    by_cases first : underscored c
    · exact .inr ⟨first, (whole d).mpr (same ▸ (whole c).mp first)⟩
    · have second : ¬underscored d := fun held => first ((whole c).mpr (same.trans ((whole d).mp held)))
      rw [kept first, kept second] at same
      exact .inl same
  · rintro (rfl | ⟨first, second⟩)
    · rfl
    · exact ((whole c).mp first).trans ((whole d).mp second).symm

theorem safeProfile_eq_iff {first second : String} :
    safeProfile first = safeProfile second ↔ Alike first second := by
  unfold safeProfile Alike
  rw [← List.forall₂_eq_eq_eq, List.forall₂_map_left_iff, List.forall₂_map_right_iff]
  simp only [plain_eq_iff]

theorem two_inj {n m : Fin 100} (same : two n = two m) : n = m := by
  have digits : ∀ a b : Fin 10, Nat.digitChar a = Nat.digitChar b → a = b := by decide
  obtain ⟨tens, rest⟩ := List.cons.inj same
  have high := digits ⟨n / 10, by omega⟩ ⟨m / 10, by omega⟩ tens
  have low := digits ⟨n % 10, by omega⟩ ⟨m % 10, by omega⟩ (List.cons.inj rest).1
  simp only [Fin.mk.injEq] at high low
  omega

theorem stamp_inj {first second : Clock} (same : first.stamp = second.stamp) : first = second := by
  have fields {xs ys : List (Fin 100)} (sizes : xs.length = ys.length) (same : xs.flatMap two = ys.flatMap two) :
      xs = ys := by
    induction xs generalizing ys with
    | nil => exact (List.length_eq_zero_iff.mp sizes.symm).symm
    | cons x xs ih =>
      cases ys with
      | nil => cases sizes
      | cons y ys =>
        rw [List.flatMap_cons, List.flatMap_cons] at same
        obtain ⟨head, tail⟩ := List.append_inj same rfl
        rw [two_inj head, ih (Nat.succ.inj sizes) tail]
  have all : first.fields = second.fields := fields rfl same
  cases first
  cases second
  simpa only [Clock.fields, List.cons.injEq, and_true, Clock.mk.injEq] using all

theorem length_stamp (clock : Clock) : clock.stamp.length = 14 := rfl

/-- Two builds have one id where the clock read the same and the names are alike. -/
theorem id_eq_iff {first second : Build} :
    first.id = second.id ↔ first.clock = second.clock ∧ Alike first.profile second.profile := by
  unfold Build.id newBuildId
  rw [String.ofList_inj, ← safeProfile_eq_iff]
  constructor
  · intro same
    obtain ⟨names, tails⟩ := List.append_inj' same (by
      rw [List.length_cons, List.length_cons, length_stamp, length_stamp])
    exact ⟨stamp_inj (List.cons.inj tails).2, names⟩
  · rintro ⟨clocks, names⟩
    rw [names, clocks]

theorem nodup_ids_iff (builds : List Build) : (builds.map Build.id).Nodup ↔
    builds.Pairwise fun first second => first.clock = second.clock → ¬Alike first.profile second.profile := by
  unfold List.Nodup
  rw [List.pairwise_map]
  simp only [ne_eq, id_eq_iff, not_and]

/-! ### Safe ids -/

theorem plainChar_plain (c : Char) : plainChar (plain c) := by
  unfold plain
  split
  · assumption
  · rfl

theorem isAlphanum_plain (c : Char) : (plain c).isAlphanum = c.isAlphanum := by
  unfold plain
  split
  · rfl
  · next other =>
    have inside : c.isAlphanum = false := by
      apply Bool.eq_false_iff.mpr
      intro alnum
      exact other (by rw [plainChar, alnum]; rfl)
    rw [inside]
    rfl

theorem mem_stamp {clock : Clock} {c : Char} (member : c ∈ clock.stamp) : c.isDigit := by
  have digits : ∀ a : Fin 10, (Nat.digitChar a).isDigit := by decide
  obtain ⟨n, -, member⟩ := List.mem_flatMap.mp member
  rcases List.mem_pair.mp member with rfl | rfl
  · exact digits ⟨n / 10, by omega⟩
  · exact digits ⟨n % 10, by omega⟩

theorem idChar_of_plainChar {c : Char} (kept : plainChar c) : idChar c := by
  simp only [plainChar, Bool.or_eq_true, decide_eq_true_eq] at kept
  simp only [idChar, Bool.or_eq_true, decide_eq_true_eq]
  tauto

theorem plainChar_of_isDigit {c : Char} (digit : c.isDigit) : plainChar c := by
  simp [plainChar, Char.isAlphanum, digit]

theorem ne_dot_of_plainChar {c : Char} (kept : plainChar c) : c ≠ '.' := by
  rintro rfl
  exact absurd kept (by decide)

theorem hasDots_of_absent {token : List Char} (absent : '.' ∉ token) : hasDots token = false := by
  induction token with
  | nil => rfl
  | cons c rest ih =>
    have later := ih fun member => absent (List.mem_cons_of_mem _ member)
    rw [hasDots]
    · exact later
    · rintro others rfl -
      exact absent List.mem_cons_self

/-- Every character of an id is a letter, a digit, an underscore or a dash. -/
theorem plainChar_of_mem_id {profile : String} {clock : Clock} {c : Char}
    (member : c ∈ safeProfile profile ++ '-' :: clock.stamp) : plainChar c := by
  rcases List.mem_append.mp member with member | member
  · obtain ⟨d, -, rfl⟩ := List.mem_map.mp member
    exact plainChar_plain d
  · rcases List.mem_cons.mp member with rfl | member
    · rfl
    · exact plainChar_of_isDigit (mem_stamp member)

theorem safeId_of_plain {token : List Char} (kept : ∀ c ∈ token, plainChar c) :
    safeId token ↔ ∃ c rest, token = c :: rest ∧ c.isAlphanum ∧ rest.length ≤ 127 := by
  have last : token.getLast? ≠ some '\n' := by
    intro ends
    exact absurd (kept _ (List.mem_of_getLast? ends)) (by decide)
  unfold safeId
  simp only [if_neg last]
  cases token with
  | nil => simp
  | cons c rest =>
    have all : rest.all idChar := List.all_eq_true.mpr fun d member =>
      idChar_of_plainChar (kept d (List.mem_cons_of_mem _ member))
    simp [all]

/-- An id is safe where the name begins with a letter or a digit and leaves room for the stamp. -/
theorem validId_id_iff (build : Build) : validId build.id ↔
    (∃ c rest, build.profile.toList = c :: rest ∧ c.isAlphanum) ∧ build.profile.toList.length ≤ 113 := by
  unfold Build.id newBuildId validId
  rw [String.toList_ofList, Bool.and_eq_true, safeId_of_plain fun c => plainChar_of_mem_id,
    hasDots_of_absent fun member => ne_dot_of_plainChar (plainChar_of_mem_id member) rfl]
  have size := length_stamp build.clock
  constructor
  · rintro ⟨⟨c, rest, whole, alnum, short⟩, -⟩
    have lengths := congrArg List.length whole
    rw [List.length_append, List.length_cons, List.length_cons, size, safeProfile, List.length_map] at lengths
    refine ⟨?_, by omega⟩
    cases name : build.profile.toList with
    | nil =>
      rw [safeProfile, name] at whole
      obtain ⟨rfl, -⟩ := List.cons.inj whole
      exact absurd alnum (by decide)
    | cons d more =>
      rw [safeProfile, name] at whole
      obtain ⟨rfl, -⟩ := List.cons.inj whole
      rw [isAlphanum_plain] at alnum
      exact ⟨d, more, rfl, alnum⟩
  · rintro ⟨⟨c, rest, name, alnum⟩, short⟩
    refine ⟨⟨plain c, rest.map plain ++ '-' :: build.clock.stamp, ?_, ?_, ?_⟩, rfl⟩
    · rw [safeProfile, name]
      rfl
    · rw [isAlphanum_plain]
      exact alnum
    · rw [name, List.length_cons] at short
      rw [List.length_append, List.length_cons, List.length_map, size]
      omega

/-! ### The names of profiles -/

/-- What the host says of paths: what they resolve to, nothing where that raises, which of them are
directories, the entries of the artifacts that are, and whether a tree can be removed. -/
structure Host where
  resolve : Path → Option Path
  isDir : Path → Bool
  entries : List String
  removes : Path → Bool

def BUILDER_ARTIFACTS_DIR : Path := ["var", "lib", "sysdeck", "builder", "artifacts"]

/-- `_under_dir` -/
def Host.underDir (host : Host) (path root : Path) : Bool :=
  match host.resolve path, host.resolve root with
  | some path, some root => root.isPrefixOf path
  | _, _ => false

/-- The place of a profile's artifacts is below the directory of all artifacts. -/
def Host.inside (host : Host) (name : String) : Bool :=
  host.underDir (under BUILDER_ARTIFACTS_DIR name) BUILDER_ARTIFACTS_DIR

/-- `artifacts`: the profiles whose files are listed -/
def artifacts (host : Host) (filter : Option String) : Except String (List String) :=
  if !host.isDir BUILDER_ARTIFACTS_DIR then .ok []
  else
    match filter.filter (· ≠ "") with
    | none => .ok host.entries
    | some name =>
      if !validId name || !host.inside name then
        .error "invalid profile filter (must be a single path component)"
      else .ok ([name].filter fun name => host.isDir (under BUILDER_ARTIFACTS_DIR name))

inductive Cleared where
  | refused | missing | failed | cleared
  deriving DecidableEq

def artifactsClear (host : Host) (name : String) : Cleared :=
  if !validId name || !host.inside name then .refused
  else if !host.isDir (under BUILDER_ARTIFACTS_DIR name) then .missing
  else if host.removes (under BUILDER_ARTIFACTS_DIR name) then .cleared
  else .failed

/-- Neither command refuses the name. -/
def Accepts (host : Host) (name : String) : Prop :=
  (∃ listed, artifacts host (some name) = .ok listed) ∧ artifactsClear host name ≠ .refused

/-- A profile of the name is created or copied, on some disk. -/
def Makes (name : String) : Prop :=
  (∃ disk backendId rejected a backend, (profileCreate disk name backendId rejected a).2 = .created backend) ∨
    ∃ disk home srcName hint rejected a backend,
      (profileCopy disk home srcName name hint rejected a).2 = .copied backend

/-- A single path component. -/
def Component (name : String) : Prop := '/' ∉ name.toList ∧ name ≠ "." ∧ name ≠ ".."

theorem accepts_iff {host : Host} {name : String} : Accepts host name ↔ validId name ∧ host.inside name := by
  have refused : artifactsClear host name ≠ .refused ↔ validId name ∧ host.inside name := by
    unfold artifactsClear
    by_cases valid : validId name
    · by_cases inside : host.inside name
      · rw [if_neg (by simp [valid, inside])]
        refine iff_of_true ?_ ⟨valid, inside⟩
        split
        · exact Cleared.noConfusion
        · split
          · exact Cleared.noConfusion
          · exact Cleared.noConfusion
      · simp [valid, inside]
    · simp [valid]
  constructor
  · rintro ⟨-, clears⟩
    exact refused.mp clears
  · intro fits
    refine ⟨?_, refused.mpr fits⟩
    unfold artifacts
    split
    · exact ⟨[], rfl⟩
    · split
      · exact ⟨host.entries, rfl⟩
      · next given =>
        obtain ⟨same, -⟩ := Option.filter_eq_some_iff.mp given
        obtain rfl := Option.some.inj same
        rw [if_neg (by simp [fits])]
        exact ⟨_, rfl⟩

/-- What a safe id is, apart from a newline at its end. -/
theorem body_of_safeId {token : List Char} (safe : safeId token) :
    ∃ c rest, (token = c :: rest ∨ token = c :: rest ++ ['\n']) ∧ c.isAlphanum ∧ rest.all idChar := by
  unfold safeId at safe
  obtain ⟨body, same, whole⟩ : ∃ body,
      (if token.getLast? = some '\n' then token.dropLast else token) = body ∧
        (token = body ∨ token = body ++ ['\n']) := by
    by_cases ends : token.getLast? = some '\n'
    · obtain ⟨front, rfl⟩ := List.getLast?_eq_some_iff.mp ends
      exact ⟨front, by rw [if_pos ends, List.dropLast_concat], .inr rfl⟩
    · exact ⟨token, if_neg ends, .inl rfl⟩
  simp only [same] at safe
  cases body with
  | nil => cases safe
  | cons c rest =>
    simp only [Bool.and_eq_true] at safe
    exact ⟨c, rest, whole, safe.1.1, safe.1.2⟩

theorem mem_of_validId {name : String} (valid : validId name) {c : Char} (member : c ∈ name.toList) :
    idChar c ∨ c = '\n' := by
  obtain ⟨d, rest, whole, alnum, all⟩ := body_of_safeId (Bool.and_eq_true_iff.mp valid).1
  have inside (member : c ∈ d :: rest) : idChar c := by
    rcases List.mem_cons.mp member with rfl | member
    · exact idChar_of_plainChar (by rw [plainChar, alnum]; rfl)
    · exact List.all_eq_true.mp all c member
  rcases whole with whole | whole
  · exact .inl (inside (whole ▸ member))
  · rw [whole] at member
    rcases List.mem_append.mp member with member | member
    · exact .inl (inside member)
    · exact .inr (List.mem_singleton.mp member)

theorem component_of_validId {name : String} (valid : validId name) : Component name := by
  refine ⟨fun member => ?_, ?_, ?_⟩
  · rcases mem_of_validId valid member with kept | same
    · exact absurd kept (by decide)
    · cases same
  · rintro rfl
    exact absurd valid (by decide)
  · rintro rfl
    exact absurd valid (by decide)

/-- A disk with one shipped profile. -/
def shipped : Disk where
  files := [["usr", "share", "archiso", "configs", "baseline", "profiledef.sh"]]
  directories := [["usr", "share", "archiso", "configs"], ["usr", "share", "archiso", "configs", "baseline"]]

theorem shipped_listed : ⟨"baseline", ["usr", "share", "archiso", "configs", "baseline"], .archiso⟩ ∈
    profiles shipped [] :=
  mem_profiles.mpr (@Listed.archiso shipped [] ["usr", "share", "archiso", "configs"] "baseline" (by decide)
    (by decide) (by decide) (by decide))

/-- Every single component is a name that can be copied to. -/
theorem makes_of_component {name : String} (component : Component name) : Makes name := by
  obtain ⟨single, notHere, notUp⟩ := component
  right
  refine ⟨shipped, [], "baseline", some "archiso", false, ⟨true, fun _ => true⟩, .archiso, ?_⟩
  have clear : (name.toList.contains '/' || name = "." || name = "..") = false := by
    simp [single, notHere, notUp]
  have some_ : ((profiles shipped []).find? fun p =>
      p.name = "baseline" && (some "archiso").all fun id => id = "" || id = p.backend.id).isSome := by
    rw [List.find?_isSome]
    exact ⟨_, shipped_listed, by decide⟩
  obtain ⟨source, found⟩ := Option.isSome_iff_exists.mp some_
  have kind := List.find?_some found
  have listed := mem_profiles.mp (List.mem_of_find?_eq_some found)
  have backend : source.backend = .archiso := by
    cases same : source.backend <;> simp [same, Backend.id] at kind ⊢
  have there : shipped.isDir source.path := by
    cases listed with
    | archiso _ _ node _ => exact node
    | root | entry | spec | liveBuild => cases backend
  have free : shipped.exists (under ARCHISO_COPY_DEST name) = false := by
    unfold under
    split <;> simp [Disk.exists, Disk.isFile, Disk.isDir, shipped, ARCHISO_COPY_DEST]
  have above : (under ARCHISO_COPY_DEST name).dropLast.inits.any shipped.isFile = false := by
    unfold under
    split <;> simp [Disk.isFile, shipped, ARCHISO_COPY_DEST]
  unfold profileCopy
  rw [clear, found]
  simp only [backend, copyDest, there, free, above]
  rfl

theorem makes_iff {name : String} : Makes name ↔ Component name := by
  constructor
  · rintro (⟨disk, backendId, rejected, a, backend, made⟩ | ⟨disk, home, srcName, hint, rejected, a, backend, made⟩)
    · rcases profileCreate_cases disk name backendId rejected a with failed | ⟨valid, -⟩
      · rw [failed] at made
        cases made
      · exact component_of_validId valid
    · unfold profileCopy at made
      split at made
      · cases made
      next clear =>
      simp only [Bool.or_eq_true, List.contains_iff_mem, decide_eq_true_eq, not_or] at clear
      exact ⟨clear.1.1, clear.1.2, clear.2⟩
  · exact makes_of_component

/-! ### Closed identifiers -/

/-- The ids of builds are distinct and safe exactly where no two builds of names that are alike start at
one reading of the clock, and each name begins with a letter or a digit and leaves room for the stamp;
a name that can be given to a profile is one of artifacts exactly where it is a safe id whose place
stays below the directory of artifacts. -/
theorem identifiers_closed_iff (builds : List Build) (host : Host) (name : String) :
    (((builds.map Build.id).Nodup ∧ ∀ build ∈ builds, validId build.id) ↔
      (builds.Pairwise fun first second => first.clock = second.clock → ¬Alike first.profile second.profile) ∧
        ∀ build ∈ builds, (∃ c rest, build.profile.toList = c :: rest ∧ c.isAlphanum) ∧
          build.profile.toList.length ≤ 113) ∧
      ((Makes name → Accepts host name) ↔ (Component name → validId name ∧ host.inside name)) := by
  constructor
  · rw [nodup_ids_iff]
    refine and_congr_right fun _ => ?_
    exact forall₂_congr fun build _ => validId_id_iff build
  · rw [makes_iff, accepts_iff]

/-- A disk with one drop-in of mkosi. -/
def dropIn : Disk where
  files := [["etc", "mkosi", "mkosi.conf.d", "_x.conf"]]
  directories := [["etc", "mkosi"], ["etc", "mkosi", "mkosi.conf.d"]]

def newYear : Clock where
  century := ⟨20, by decide⟩
  year := ⟨26, by decide⟩
  month := ⟨1, by decide⟩
  day := ⟨1, by decide⟩
  hour := ⟨0, by decide⟩
  minute := ⟨0, by decide⟩
  second := ⟨0, by decide⟩

/-- A discovered name whose ids are refused, two builds of one id, and a copy whose artifacts cannot be
asked for. -/
theorem ids_are_not_closed :
    (⟨"_x", ["etc", "mkosi", "mkosi.conf.d", "_x.conf"], .mkosi⟩ ∈ profiles dropIn [] ∧
        newBuildId "_x" newYear = "_x-20260101000000" ∧ validId (newBuildId "_x" newYear) = false) ∧
      ([⟨"a.b", newYear⟩, ⟨"a_b", newYear⟩].map Build.id) = ["a_b-20260101000000", "a_b-20260101000000"] ∧
      (Makes "a b" ∧ ∀ host, ¬Accepts host "a b") := by
  refine ⟨⟨?_, by decide, by decide⟩, by decide, makes_of_component ⟨by decide, by decide, by decide⟩, ?_⟩
  · have listed := @Listed.entry dropIn [] ["etc", "mkosi"] "mkosi.conf.d" ".conf" "_x.conf" (by decide)
      (by decide) (by decide) (by decide) (by decide) (by decide)
    have named : stem "_x.conf" = "_x" := by decide
    rw [named] at listed
    exact mem_profiles.mpr listed
  · intro host accepts
    exact absurd (accepts_iff.mp accepts).1 (by decide)

end SysDeck.Cockpit.Profiles
