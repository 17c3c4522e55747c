import SysDeck.Fester.SessionGate

/-! When the console and the service accept the same Cookie headers. Both look at the
parts between semicolons: the console takes the first with the right name, and trims its
value; the service takes the first that is written exactly, and leaves its value. -/

namespace SysDeck.Fester

open SysDeck.Web (Hmac Live)

/-- The value of a part whose trimmed name is that of the cookie. -/
def namedCookie (part : List Char) : Option (List Char) :=
  match part.dropWhile (· ≠ '=') with
  | [] => none
  | _ :: value =>
    if Text.trim (part.takeWhile (· ≠ '=')) = Web.authCookie then some value else none

/-- The parts as the service reads them, without the blanks after a semicolon. -/
def cookieTexts (header : List Char) : List (List Char) :=
  match header.splitOn ';' with
  | [] => []
  | first :: rest => first :: rest.map Text.trimStart

/-! The console. -/

theorem findCookie_eq (parts : List (List Char)) :
    Web.findCookie parts = (parts.findSome? namedCookie).map Text.trim := by
  induction parts with
  | nil => rfl
  | cons part rest ih =>
    rw [Web.findCookie, List.findSome?_cons, namedCookie]
    cases part.dropWhile (· ≠ '=') with
    | nil => exact ih
    | cons mark value =>
      dsimp only
      split
      · rfl
      · exact ih

theorem trim_trimStart (text : List Char) : Text.trim (Text.trimStart text) = Text.trim text := by
  unfold Text.trim
  rw [Text.trimStart_of_head (Text.head?_trimStart text)]

/-- Blanks before a visible character are trimmed from what comes before it. -/
theorem trimStart_append_cons (text : List Char) {c : Char} (visible : Text.isBlank c = false)
    (rest : List Char) : Text.trimStart (text ++ c :: rest) = Text.trimStart text ++ c :: rest := by
  induction text with
  | nil => exact List.dropWhile_cons_of_neg (by simp [visible])
  | cons d text ih =>
    unfold Text.trimStart at ih ⊢
    rw [List.cons_append]
    by_cases blank : Text.isBlank d
    · rw [List.dropWhile_cons_of_pos blank, List.dropWhile_cons_of_pos blank, ih]
    · rw [List.dropWhile_cons_of_neg blank, List.dropWhile_cons_of_neg blank, List.cons_append]

theorem namedCookie_join {name : List Char} (free : '=' ∉ name) (value : List Char) :
    namedCookie (name ++ '=' :: value) =
      if Text.trim name = Web.authCookie then some value else none := by
  obtain ⟨before, after⟩ := Separator.takeWhile_join free value
  rw [namedCookie, before, after]

theorem namedCookie_free {part : List Char} (free : '=' ∉ part) : namedCookie part = none := by
  have all : part.dropWhile (· ≠ '=') = [] := by
    rw [List.dropWhile_eq_nil_iff]
    exact fun c member => decide_eq_true fun same => free (same ▸ member)
  rw [namedCookie, all]

/-- The console does not see the blanks before a part. -/
theorem namedCookie_trimStart (part : List Char) :
    namedCookie (Text.trimStart part) = namedCookie part := by
  cases cut : part.dropWhile (· ≠ '=') with
  | nil =>
    have free : '=' ∉ part := by
      intro member
      have apart := List.dropWhile_eq_nil_iff.mp cut '=' member
      exact absurd apart (by decide)
    have less : '=' ∉ Text.trimStart part :=
      fun member => free ((List.dropWhile_suffix _).subset member)
    rw [namedCookie_free free, namedCookie_free less]
  | cons mark value =>
    obtain ⟨same, free⟩ := Separator.split_first cut
    generalize part.takeWhile (· ≠ '=') = name at same free
    have less : '=' ∉ Text.trimStart name :=
      fun member => free ((List.dropWhile_suffix _).subset member)
    rw [same, trimStart_append_cons name (by decide), namedCookie_join free, namedCookie_join less,
      trim_trimStart]

theorem findSome?_trimStart (parts : List (List Char)) :
    (parts.map Text.trimStart).findSome? namedCookie = parts.findSome? namedCookie := by
  induction parts with
  | nil => rfl
  | cons part rest ih =>
    rw [List.map_cons, List.findSome?_cons, List.findSome?_cons, namedCookie_trimStart, ih]

theorem tokenFromCookieHeader_eq (header : List Char) :
    Web.tokenFromCookieHeader (some header) =
      ((cookieTexts header).findSome? namedCookie).map Text.trim := by
  have found : Web.tokenFromCookieHeader (some header) = Web.findCookie (header.splitOn ';') := by
    cases header <;> rfl
  rw [found, findCookie_eq, cookieTexts]
  cases header.splitOn ';' with
  | nil => rfl
  | cons first rest =>
    dsimp only
    rw [List.findSome?_cons, List.findSome?_cons, findSome?_trimStart]

/-! The service. -/

theorem laterCookie_append {part : List Char} (single : ';' ∉ part) (rest : List Char) :
    laterCookie (part ++ rest) = laterCookie rest := by
  induction part with
  | nil => rfl
  | cons c part ih =>
    rw [List.mem_cons, not_or] at single
    rw [List.cons_append, laterCookie, if_neg (Ne.symm single.1), ih single.2]

theorem cookieName_single : ';' ∉ cookieName := by decide

theorem takeWhile_single {text : List Char} (single : ';' ∉ text) :
    text.takeWhile (· ≠ ';') = text := by
  rw [List.takeWhile_eq_self_iff]
  exact fun c member => decide_eq_true fun same => single (same ▸ member)

theorem cookieValue_eq_some_iff {text value : List Char} (single : ';' ∉ text) :
    cookieValue text = some value ↔ text = cookieName ++ value ∧ value ≠ [] := by
  unfold cookieValue
  constructor
  · intro found
    split at found
    · rename_i named
      obtain ⟨rest, rfl⟩ := named
      rw [List.mem_append, not_or] at single
      rw [List.drop_left, takeWhile_single single.2] at found
      cases rest with
      | nil => cases found
      | cons c rest =>
        rw [← Option.some.inj found]
        exact ⟨rfl, List.cons_ne_nil _ _⟩
    · cases found
  · rintro ⟨rfl, nonempty⟩
    rw [List.mem_append, not_or] at single
    rw [if_pos (List.prefix_append _ _), List.drop_left, takeWhile_single single.2]
    cases value with
    | nil => exact absurd rfl nonempty
    | cons c value => rfl

/-- A value ends before the next semicolon. -/
theorem cookieValue_append {text : List Char} (single : ';' ∉ text) (rest : List Char) :
    cookieValue (text ++ ';' :: rest) = cookieValue text := by
  have cut {before : List Char} (free : ';' ∉ before) :
      (before ++ ';' :: rest).takeWhile (· ≠ ';') = before :=
    (Separator.takeWhile_join free rest).1
  by_cases named : cookieName <+: text
  · obtain ⟨value, rfl⟩ := named
    rw [List.mem_append, not_or] at single
    unfold cookieValue
    rw [List.append_assoc, if_pos (List.prefix_append _ _), if_pos (List.prefix_append _ _),
      List.drop_left, List.drop_left, cut single.2, takeWhile_single single.2]
  · have unnamed : ¬ cookieName <+: text ++ ';' :: rest := by
      intro longer
      rcases Nat.le_total cookieName.length text.length with shorter | longer'
      · exact named (List.prefix_of_prefix_length_le longer (List.prefix_append _ _) shorter)
      · -- the name would reach over the semicolon
        have inside := List.prefix_of_prefix_length_le (List.prefix_append text _) longer longer'
        obtain ⟨tail, same⟩ := inside
        cases tail with
        | nil => exact named (by rw [← same, List.append_nil])
        | cons c tail =>
          obtain ⟨more, whole⟩ := longer
          rw [← same, List.append_assoc, List.append_cancel_left_eq, List.cons_append] at whole
          have mark : c = ';' := (List.cons.inj whole).1
          exact cookieName_single (by rw [← same, mark]; simp)
    unfold cookieValue
    rw [if_neg named, if_neg unnamed]

theorem intercalate_cons (mark : Char) (first : List Char) (rest : List (List Char)) :
    [mark].intercalate (first :: rest) = first ++ (rest.map (mark :: ·)).flatten := by
  induction rest generalizing first with
  | nil => simp
  | cons second rest ih => simp [List.intercalate_cons_cons, ih]

/-- A part after a semicolon, and what follows it. -/
theorem laterCookie_cons {part : List Char} (single : ';' ∉ part) {rest : List Char}
    (next : rest = [] ∨ ∃ more, rest = ';' :: more) :
    laterCookie (';' :: (part ++ rest)) =
      (cookieValue (Text.trimStart part)).or (laterCookie rest) := by
  have less : ';' ∉ Text.trimStart part :=
    fun member => single ((List.dropWhile_suffix _).subset member)
  rw [laterCookie, if_pos rfl, laterCookie_append single]
  rcases next with rfl | ⟨more, rfl⟩
  · rw [List.append_nil]
  · rw [trimStart_append_cons part (by decide), cookieValue_append less]

theorem laterCookie_join {parts : List (List Char)} (single : ∀ part ∈ parts, ';' ∉ part) :
    laterCookie ((parts.map (';' :: ·)).flatten) =
      (parts.map Text.trimStart).findSome? cookieValue := by
  induction parts with
  | nil => rfl
  | cons part rest ih =>
    have next : (rest.map (';' :: ·)).flatten = [] ∨
        ∃ more, (rest.map (';' :: ·)).flatten = ';' :: more := by
      cases rest with
      | nil => exact .inl rfl
      | cons second rest => exact .inr ⟨_, rfl⟩
    have later := ih fun other member => single other (List.mem_cons_of_mem _ member)
    rw [List.map_cons, List.flatten_cons, List.cons_append,
      laterCookie_cons (single part List.mem_cons_self) next, later, List.map_cons,
      List.findSome?_cons]
    cases cookieValue (Text.trimStart part) <;> rfl

theorem sessionCookie_eq (header : List Char) :
    sessionCookie header = (cookieTexts header).findSome? cookieValue := by
  obtain ⟨first, rest, cut⟩ := List.exists_cons_of_ne_nil (List.splitOn_ne_nil ';' header)
  obtain ⟨joined, single⟩ := (Text.splitOn_eq_iff (List.cons_ne_nil first rest)).mp cut
  have lone : ';' ∉ first := single first List.mem_cons_self
  have later := laterCookie_join fun part member => single part (List.mem_cons_of_mem first member)
  have value : cookieValue header = cookieValue first := by
    rw [joined, intercalate_cons]
    cases rest with
    | nil => rw [List.map_nil, List.flatten_nil, List.append_nil]
    | cons second rest =>
      rw [List.map_cons, List.flatten_cons, List.cons_append, cookieValue_append lone]
  have tail : laterCookie header = (rest.map Text.trimStart).findSome? cookieValue := by
    rw [joined, intercalate_cons, laterCookie_append lone, later]
  rw [sessionCookie, value, tail, cookieTexts, cut, List.findSome?_cons]
  cases cookieValue first <;> rfl

theorem cookieTexts_single (header : List Char) : ∀ text ∈ cookieTexts header, ';' ∉ text := by
  intro text member
  unfold cookieTexts at member
  split at member
  · cases member
  · rename_i first rest cut
    rcases List.mem_cons.mp member with rfl | later
    · exact Text.not_mem_of_mem_splitOn (cut ▸ List.mem_cons_self)
    · obtain ⟨part, inside, rfl⟩ := List.mem_map.mp later
      have single : ';' ∉ part :=
        Text.not_mem_of_mem_splitOn (cut ▸ List.mem_cons_of_mem first inside)
      exact fun mark => single ((List.dropWhile_suffix _).subset mark)

/-! The two together. -/

/-- A cookie that is written exactly is named. -/
theorem namedCookie_of_cookieValue {text value : List Char} (single : ';' ∉ text)
    (found : cookieValue text = some value) : namedCookie text = some value := by
  obtain ⟨rfl, _⟩ := (cookieValue_eq_some_iff single).mp found
  have trimmed : Text.trim Web.authCookie = Web.authCookie := by decide
  have free : '=' ∉ Web.authCookie := by decide
  have joined : cookieName ++ value = Web.authCookie ++ '=' :: value := rfl
  rw [joined, namedCookie_join free, if_pos trimmed]

/-- The first cookie that the console names is written exactly and has no blanks at the
ends of its value, unless these are around a live token; or it is written otherwise, or
empty, and is live trimmed when the next one that is written exactly is. -/
def SameCookie (live : List Char → Prop) : List (List Char) → Prop
  | [] => True
  | text :: rest =>
    match namedCookie text with
    | none => SameCookie live rest
    | some value =>
      match cookieValue text with
      | some _ => live (Text.trim value) → Text.trim value = value
      | none =>
        live (Text.trim value) ↔ ∃ later, rest.findSome? cookieValue = some later ∧ live later

theorem sameCookie_iff {live : List Char → Prop} (tight : ∀ token, live token → Text.Tight token)
    {texts : List (List Char)} (single : ∀ text ∈ texts, ';' ∉ text) :
    ((∃ token, texts.findSome? cookieValue = some token ∧ live token) ↔
      ∃ token, (texts.findSome? namedCookie).map Text.trim = some token ∧ live token) ↔
    SameCookie live texts := by
  induction texts with
  | nil => simp [SameCookie]
  | cons text rest ih =>
    have lone : ';' ∉ text := single text List.mem_cons_self
    have rest' := ih fun other member => single other (List.mem_cons_of_mem text member)
    rw [SameCookie, List.findSome?_cons, List.findSome?_cons]
    cases named : namedCookie text with
    | none =>
      have unread : cookieValue text = none := by
        cases found : cookieValue text with
        | none => rfl
        | some value =>
          have both := namedCookie_of_cookieValue lone found
          rw [named] at both
          cases both
      rw [unread]
      exact rest'
    | some value =>
      cases found : cookieValue text with
      | none => simp [iff_comm]
      | some other =>
        have both := namedCookie_of_cookieValue lone found
        obtain rfl : value = other := Option.some.inj (named.symm.trans both)
        simp only [Option.some.injEq, exists_eq_left', Option.map_some]
        constructor
        · intro same trimmed
          exact Text.trim_of_tight (tight value (same.mpr trimmed))
        · intro trims
          constructor
          · intro alive
            rwa [Text.trim_of_tight (tight value alive)]
          · intro alive
            rwa [trims alive] at alive

/-- The service accepts a header when the console does, in exactly the headers whose
cookies are the same to both. -/
theorem session_agreement (hmac : Hmac) (secret : SharedSecret) (now : Int) (header : List Char) :
    sessionOk hmac (some secret) now (some header) =
        Web.isRequestAuthed hmac secret.val now (some header) ↔
      SameCookie (Live hmac secret.val now) (cookieTexts header) := by
  have console : Web.isRequestAuthed hmac secret.val now (some header) = true ↔
      ∃ token, ((cookieTexts header).findSome? namedCookie).map Text.trim = some token ∧
        Live hmac secret.val now token := by
    rw [Web.isRequestAuthed, tokenFromCookieHeader_eq]
    cases ((cookieTexts header).findSome? namedCookie).map Text.trim with
    | none => simp [Web.verifySessionToken]
    | some token => simp [Web.isSome_verifySessionToken_iff]
  rw [Bool.eq_iff_iff, console, sessionOk_iff, Option.getD_some, sessionCookie_eq]
  exact sameCookie_iff (fun token => Live.tight) (cookieTexts_single header)

/-- A blank before the equals sign: the console finds the session, the service does not. -/
theorem session_agreement_blank :
    let token := Web.sampleBody ++ '.' :: Web.sampleTag
    let header := "sd_session =".toList ++ token
    Web.isRequestAuthed Web.sampleHmac Web.sampleSecret 1700000000000 (some header) = true ∧
      sessionOk Web.sampleHmac (some ⟨Web.sampleSecret, by decide⟩) 1700000000000 (some header) =
        false := by
  intro token header
  have console : Web.tokenFromCookieHeader (some header) = some token := by
    subst header token
    unfold Web.sampleBody Web.sampleTag
    repeat rw [String.toList_ofList]
    rfl
  have service : sessionCookie header = none := by
    subst header token
    unfold Web.sampleBody Web.sampleTag
    repeat rw [String.toList_ofList]
    rfl
  constructor
  · rw [Web.isRequestAuthed, console, Web.verify_sampleToken]
    rfl
  · rw [sessionOk, Option.getD_some, service]

end SysDeck.Fester
