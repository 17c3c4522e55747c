import SysDeck.Library.Base64
import SysDeck.Library.Numeral
import SysDeck.Web.Users

/-! The session tokens of the web console. A token is a body with its tag; the body
writes the expiry and the user, and the tag is the HMAC of the body in hex. -/

namespace SysDeck.Web

def isHexDigit (c : Char) : Bool := ('0' ≤ c && c ≤ '9') || ('a' ≤ c && c ≤ 'f')

/-- HMAC-SHA256 with its tag written in hex. -/
structure Hmac where
  digest : (secret body : List Char) → List Char
  hex : ∀ secret body, (digest secret body).all isHexDigit
  nonempty : ∀ secret body, digest secret body ≠ []

def authCookie : List Char := "sd_session".toList

inductive SessionVersion where
  | v1
  | v2
  deriving DecidableEq

structure SessionInfo where
  expiresAt : Binary64
  /-- The bound account name; none on v1 tokens. -/
  user : Option (List Char)
  version : SessionVersion
  deriving DecidableEq

def b64u (input : List Char) : List Char := Base64.encode (Utf8.encode input)

def unb64u (input : List Char) : List Char := Utf8.decode (Base64.decode input)

def bodyV2 (expires user64 : List Char) : List Char :=
  "v2.".toList ++ (expires ++ '.' :: user64)

def bodyV1 (expires : List Char) : List Char := "v1.".toList ++ expires

structure MintedToken where
  token : List Char
  expiresAt : Number

def createSessionToken (hmac : Hmac) (secret : List Char) (now : Int) (username : List Char)
    (ttlMs : Number) : MintedToken :=
  let expiresAt := (Number.ofInt now).add ttlMs
  let body := bodyV2 expiresAt.toText (b64u username)
  { token := body ++ '.' :: hmac.digest secret body, expiresAt }

def sameHex (a b : List Char) : Bool :=
  if Text.utf16Length a ≠ Text.utf16Length b ∨ !(a ≠ [] ∧ a.all isHexDigit) then false
  else a = b

/-- An expiry that is written as the number it is, and not in the past. -/
def readExpiry (expires : List Char) (now : Int) : Option Binary64 :=
  match (Number.ofText expires).finite? with
  | none => none
  | some expiresAt =>
    if (Number.finite expiresAt).toText ≠ expires then none
    else if expiresAt.value < now then none
    else some expiresAt

def verifyParts (hmac : Hmac) (secret : List Char) (now : Int) :
    List (List Char) → Option SessionInfo
  | [version, expires, user64, tag] =>
    if version = "v2".toList then do
      let expiresAt ← readExpiry expires now
      let user := unb64u user64
      if Text.utf16Length user = 0 ∨ 64 < Text.utf16Length user then none
      else if sameHex tag (hmac.digest secret (bodyV2 expires user64)) then
        some { expiresAt, user, version := .v2 }
      else none
    else none
  | [version, expires, tag] =>
    if version = "v1".toList then do
      let expiresAt ← readExpiry expires now
      if sameHex tag (hmac.digest secret (bodyV1 expires)) then
        some { expiresAt, user := none, version := .v1 }
      else none
    else none
  | _ => none

def verifySessionToken (hmac : Hmac) (secret : List Char) (now : Int) :
    Option (List Char) → Option SessionInfo
  | none | some [] => none
  | some token => verifyParts hmac secret now (token.splitOn '.')

def findCookie : List (List Char) → Option (List Char)
  | [] => none
  | part :: rest =>
    match part.dropWhile (· ≠ '=') with
    | [] => findCookie rest
    | _ :: value =>
      if Text.trim (part.takeWhile (· ≠ '=')) = authCookie then some (Text.trim value)
      else findCookie rest

def tokenFromCookieHeader : Option (List Char) → Option (List Char)
  | none | some [] => none
  | some header => findCookie (header.splitOn ';')

def isRequestAuthed (hmac : Hmac) (secret : List Char) (now : Int) (cookie : Option (List Char)) :
    Bool :=
  (verifySessionToken hmac secret now (tokenFromCookieHeader cookie)).isSome

/-! What the verifier accepts. -/

/-- What a body reads as at a time before its expiry. -/
inductive Reads (now : Int) : (body : List Char) → SessionInfo → Prop where
  | v2 {expires user64 : List Char} {expiresAt : Binary64} (plain : '.' ∉ expires)
      (single : '.' ∉ user64) (alive : readExpiry expires now = some expiresAt)
      (named : Text.utf16Length (unb64u user64) ≠ 0)
      (short : Text.utf16Length (unb64u user64) ≤ 64) :
      Reads now (bodyV2 expires user64) { expiresAt, user := unb64u user64, version := .v2 }
  | v1 {expires : List Char} {expiresAt : Binary64} (plain : '.' ∉ expires)
      (alive : readExpiry expires now = some expiresAt) :
      Reads now (bodyV1 expires) { expiresAt, user := none, version := .v1 }

theorem sameHex_digest {tag : List Char} {hmac : Hmac} {secret body : List Char} :
    sameHex tag (hmac.digest secret body) = true ↔ tag = hmac.digest secret body := by
  have hex := hmac.hex secret body
  have nonempty := hmac.nonempty secret body
  unfold sameHex
  constructor
  · intro same
    split at same
    · cases same
    · exact of_decide_eq_true same
  · rintro rfl
    simp [hex, nonempty]

theorem dot_free_digest (hmac : Hmac) (secret body : List Char) :
    '.' ∉ hmac.digest secret body := by
  intro member
  have hex := List.all_eq_true.mp (hmac.hex secret body) '.' member
  exact absurd hex (by decide)

theorem verifySessionToken_eq (hmac : Hmac) (secret : List Char) (now : Int) (token : List Char) :
    verifySessionToken hmac secret now (some token) =
      verifyParts hmac secret now (token.splitOn '.') := by
  cases token <;> rfl

/-- A token verifies as what its body reads as, under the tag of the body. -/
theorem verifySessionToken_eq_some_iff {hmac : Hmac} {secret : List Char} {now : Int}
    {token : List Char} {info : SessionInfo} :
    verifySessionToken hmac secret now (some token) = some info ↔
      ∃ body, Reads now body info ∧ token = body ++ '.' :: hmac.digest secret body := by
  rw [verifySessionToken_eq]
  constructor
  · intro verified
    generalize split : token.splitOn '.' = parts at verified
    have nonempty : parts ≠ [] := split ▸ List.splitOn_ne_nil _ _
    obtain ⟨joined, free⟩ := (Text.splitOn_eq_iff nonempty).mp split
    unfold verifyParts at verified
    split at verified
    · rename_i version expires user64 tag
      split at verified
      · rename_i same
        obtain ⟨expiresAt, alive, rest⟩ := Option.bind_eq_some_iff.mp verified
        dsimp only at rest
        split at rest
        · cases rest
        · rename_i length
          rw [not_or, not_lt] at length
          split at rest
          · rename_i signed
            obtain rfl := Option.some.inj rest
            refine ⟨_, .v2 (free expires (by simp)) (free user64 (by simp)) alive length.1 length.2, ?_⟩
            rw [joined, ← sameHex_digest.mp signed, same]
            simp [bodyV2, List.intercalate]
          · cases rest
      · cases verified
    · rename_i version expires tag
      split at verified
      · rename_i same
        obtain ⟨expiresAt, alive, rest⟩ := Option.bind_eq_some_iff.mp verified
        split at rest
        · rename_i signed
          obtain rfl := Option.some.inj rest
          refine ⟨_, .v1 (free expires (by simp)) alive, ?_⟩
          rw [joined, ← sameHex_digest.mp signed, same]
          simp [bodyV1, List.intercalate]
        · cases rest
      · cases verified
    · cases verified
  · rintro ⟨body, reads, rfl⟩
    cases reads with
    | @v2 expires user64 expiresAt plain single alive named short =>
      have split : (bodyV2 expires user64 ++ '.' :: hmac.digest secret (bodyV2 expires user64)).splitOn '.' =
          ["v2".toList, expires, user64, hmac.digest secret (bodyV2 expires user64)] := by
        refine (Text.splitOn_eq_iff (List.cons_ne_nil _ _)).mpr ⟨by simp [bodyV2, List.intercalate], ?_⟩
        simp only [List.mem_cons, List.not_mem_nil, or_false]
        rintro part (rfl | rfl | rfl | rfl)
        · decide
        · exact plain
        · exact single
        · exact dot_free_digest _ _ _
      rw [split, verifyParts, if_pos rfl, alive, Option.bind_eq_bind, Option.bind_some]
      dsimp only
      rw [if_neg (by omega), if_pos (sameHex_digest.mpr rfl)]
    | @v1 expires expiresAt plain alive =>
      have split : (bodyV1 expires ++ '.' :: hmac.digest secret (bodyV1 expires)).splitOn '.' =
          ["v1".toList, expires, hmac.digest secret (bodyV1 expires)] := by
        refine (Text.splitOn_eq_iff (List.cons_ne_nil _ _)).mpr ⟨by simp [bodyV1, List.intercalate], ?_⟩
        simp only [List.mem_cons, List.not_mem_nil, or_false]
        rintro part (rfl | rfl | rfl)
        · decide
        · exact plain
        · exact dot_free_digest _ _ _
      rw [split, verifyParts, if_pos rfl, alive, Option.bind_eq_bind, Option.bind_some,
        if_pos (sameHex_digest.mpr rfl)]

/-- A body that reads, under its tag. -/
def Live (hmac : Hmac) (secret : List Char) (now : Int) (token : List Char) : Prop :=
  ∃ body info, Reads now body info ∧ token = body ++ '.' :: hmac.digest secret body

theorem isSome_verifySessionToken_iff {hmac : Hmac} {secret : List Char} {now : Int}
    {token : List Char} :
    (verifySessionToken hmac secret now (some token)).isSome ↔ Live hmac secret now token := by
  rw [Option.isSome_iff_exists]
  constructor
  · rintro ⟨info, verified⟩
    obtain ⟨body, reads, same⟩ := verifySessionToken_eq_some_iff.mp verified
    exact ⟨body, info, reads, same⟩
  · rintro ⟨body, info, reads, same⟩
    exact ⟨info, verifySessionToken_eq_some_iff.mpr ⟨body, reads, same⟩⟩

theorem isBlank_of_isHexDigit {c : Char} (hex : isHexDigit c) : Text.isBlank c = false := by
  have range : 0x30 ≤ c.toNat ∧ c.toNat ≤ 0x66 := by
    unfold isHexDigit at hex
    simp only [Bool.or_eq_true, Bool.and_eq_true, decide_eq_true_eq] at hex
    rcases hex with ⟨low, high⟩ | ⟨low, high⟩
    · exact ⟨low, Nat.le_trans high (by decide)⟩
    · exact ⟨Nat.le_trans (by decide) low, high⟩
  unfold Text.isBlank
  dsimp only
  simp only [Bool.or_eq_false_iff, Bool.and_eq_false_iff, decide_eq_false_iff_not]
  omega

theorem Reads.head {now : Int} {body : List Char} {info : SessionInfo}
    (reads : Reads now body info) : ∃ rest, body = 'v' :: rest := by
  cases reads <;> exact ⟨_, rfl⟩

/-- A live token begins with its version and ends with a hex digit. -/
theorem Live.tight {hmac : Hmac} {secret : List Char} {now : Int} {token : List Char}
    (live : Live hmac secret now token) : Text.Tight token := by
  obtain ⟨body, info, reads, rfl⟩ := live
  obtain ⟨rest, rfl⟩ := reads.head
  constructor
  · rintro c ⟨⟩
    decide
  · intro c last
    rw [List.getLast?_append_cons] at last
    obtain ⟨front, digit, tag⟩ := List.eq_nil_or_concat _ |>.resolve_left
      (hmac.nonempty secret ('v' :: rest))
    have hex := List.all_eq_true.mp (hmac.hex secret ('v' :: rest)) digit (by simp [tag])
    rw [tag, List.concat_eq_append, ← List.cons_append, List.getLast?_concat] at last
    rw [← Option.some.inj last]
    exact isBlank_of_isHexDigit hex

end SysDeck.Web
