import SysDeck.Library.Separator
import SysDeck.Web.Session

/-! What a minted token verifies as, and that no other token does. -/

namespace SysDeck.Web

theorem dot_free_b64u (input : List Char) : '.' ∉ b64u input := by
  intro member
  exact absurd (Base64.sextet?_of_mem_encode member) (by decide)

@[simp] theorem unb64u_b64u (input : List Char) : unb64u (b64u input) = input := by
  simp [unb64u, b64u]

theorem readExpiry_toText (expiresAt : Binary64) (now : Int) :
    readExpiry (Number.finite expiresAt).toText now =
      if expiresAt.value < now then none else some expiresAt := by
  unfold readExpiry
  rw [Number.ofText_toText]
  exact if_neg fun differ => differ rfl

/-- An expiry that reads is written as its number. -/
theorem readExpiry_written {expires : List Char} {now : Int} {expiresAt : Binary64}
    (alive : readExpiry expires now = some expiresAt) :
    expires = (Number.finite expiresAt).toText := by
  unfold readExpiry at alive
  split at alive
  · cases alive
  · split at alive
    · cases alive
    · rename_i written
      split at alive
      · cases alive
      · rw [← Option.some.inj alive]
        exact (not_not.mp written).symm

theorem bodyV2_inj {expires expires' user user' : List Char} (single : '.' ∉ user)
    (single' : '.' ∉ user') (same : bodyV2 expires user = bodyV2 expires' user') :
    expires = expires' ∧ user = user' :=
  Separator.last_inj single single' (List.append_cancel_left same)

theorem bodyV2_ne_bodyV1 (expires user64 expires' : List Char) :
    bodyV2 expires user64 ≠ bodyV1 expires' := by
  intro same
  exact absurd (congrArg (fun body => body[1]?) same) (by simp [bodyV2, bodyV1])

theorem token_inj {hmac : Hmac} {secret body body' : List Char}
    (same : body ++ '.' :: hmac.digest secret body = body' ++ '.' :: hmac.digest secret body') :
    body = body' :=
  (Separator.last_inj (dot_free_digest _ _ _) (dot_free_digest _ _ _) same).1

/-- A body of the second format reads as its own user and expiry. -/
theorem Reads.of_v2 {now : Int} {expires user64 : List Char} {info : SessionInfo}
    (single : '.' ∉ user64) (reads : Reads now (bodyV2 expires user64) info) :
    readExpiry expires now = some info.expiresAt ∧ info.user = some (unb64u user64) ∧
      info.version = .v2 := by
  generalize same : bodyV2 expires user64 = body at reads
  cases reads with
  | v2 plain single' alive named short =>
    obtain ⟨rfl, rfl⟩ := bodyV2_inj single single' same
    exact ⟨alive, rfl, rfl⟩
  | v1 plain alive => exact absurd same (bodyV2_ne_bodyV1 _ _ _)

/-- A minted token verifies as its user until its expiry, and never after it. -/
theorem verify_minted (hmac : Hmac) (secret : List Char) (user : Username) {ttlMs : Number}
    {now : Int} {expiresAt : Binary64} (expiry : (Number.ofInt now).add ttlMs = .finite expiresAt)
    (plain : '.' ∉ (Number.finite expiresAt).toText) (later : Int) :
    verifySessionToken hmac secret later
        (some (createSessionToken hmac secret now user.name ttlMs).token) =
      if expiresAt.value < later then none
      else some { expiresAt, user := some user.name, version := .v2 } := by
  have written := readExpiry_toText expiresAt later
  unfold createSessionToken
  dsimp only
  rw [expiry]
  split
  · rename_i expired
    rw [Option.eq_none_iff_forall_ne_some]
    intro info verified
    obtain ⟨body, reads, same⟩ := verifySessionToken_eq_some_iff.mp verified
    rw [← token_inj same] at reads
    obtain ⟨alive, _⟩ := reads.of_v2 (dot_free_b64u _)
    rw [written, if_pos expired] at alive
    cases alive
  · rename_i before
    refine verifySessionToken_eq_some_iff.mpr ⟨_, ?_, rfl⟩
    rw [if_neg before] at written
    have basic : Text.utf16Length user.name ≠ 0 := by
      have valid := user.valid
      simp only [validUsername, Bool.and_eq_true, decide_eq_true_eq] at valid
      omega
    have reads := Reads.v2 plain (dot_free_b64u user.name) written
      (by rwa [unb64u_b64u]) (by rw [unb64u_b64u]; exact user.length_le)
    rwa [unb64u_b64u] at reads

/-- A call of createSessionToken. -/
structure Mint where
  user : Username
  ttlMs : Number
  now : Int

def Mint.minted (hmac : Hmac) (secret : List Char) (mint : Mint) : MintedToken :=
  createSessionToken hmac secret mint.now mint.user.name mint.ttlMs

/-- The body that a call signs. -/
def Mint.body (mint : Mint) : List Char :=
  bodyV2 ((Number.ofInt mint.now).add mint.ttlMs).toText (b64u mint.user.name)

/-- Whatever tags the token is cut into, one that fits its body was issued for a minted body. -/
def Issued (hmac : Hmac) (secret : List Char) (mints : List Mint) (token : List Char) : Prop :=
  ∀ body, token = body ++ '.' :: hmac.digest secret body →
    ∃ mint ∈ mints, hmac.digest secret body = hmac.digest secret mint.body

/-- Where only minted bodies were signed, a token that verifies is a minted one. -/
theorem verify_sound {hmac : Hmac} {secret : List Char}
    (distinct : Function.Injective (hmac.digest secret)) {mints : List Mint} {token : List Char}
    (issued : Issued hmac secret mints token) {now : Int} {info : SessionInfo}
    (verified : verifySessionToken hmac secret now (some token) = some info) :
    ∃ mint ∈ mints, token = (mint.minted hmac secret).token ∧
      (mint.minted hmac secret).expiresAt = .finite info.expiresAt ∧
      info.user = some mint.user.name ∧ info.version = .v2 := by
  obtain ⟨body, reads, same⟩ := verifySessionToken_eq_some_iff.mp verified
  obtain ⟨mint, member, tag⟩ := issued body same
  obtain rfl := distinct tag
  refine ⟨mint, member, same, ?_⟩
  obtain ⟨alive, named, version⟩ := reads.of_v2 (dot_free_b64u _)
  rw [unb64u_b64u] at named
  refine ⟨?_, named, version⟩
  have written := congrArg Number.ofText (readExpiry_written alive)
  rw [Number.ofText_toText, Number.ofText_toText] at written
  exact written

/-! A key, a body and its tag. -/

def sampleSecret : List Char :=
  "0123456789abcdef0123456789abcdef0123456789abcdef0123456789abcdef".toList

def sampleBody : List Char := "v2.1700043200000.YWRtaW4".toList

def sampleTag : List Char :=
  "545ff36bdbc4ab9185f571655100b8e40887365ea77edbea92d0950170300fc5".toList

/-- A different hex text for every other body. -/
def spell (body : List Char) : List Char :=
  body.flatMap fun c => List.replicate c.toNat 'a' ++ ['b']

theorem replicate_inj {m n : ℕ} {rest rest' : List Char}
    (same : List.replicate m 'a' ++ 'b' :: rest = List.replicate n 'a' ++ 'b' :: rest') :
    m = n ∧ rest = rest' := by
  have free (k : ℕ) : 'b' ∉ List.replicate k 'a' := by
    intro member
    exact absurd (List.eq_of_mem_replicate member) (by decide)
  obtain ⟨lengths, rests⟩ := Separator.first_inj (free m) (free n) same
  exact ⟨by simpa using congrArg List.length lengths, rests⟩

theorem spell_injective : Function.Injective spell := by
  intro first second same
  induction first generalizing second with
  | nil =>
    cases second with
    | nil => rfl
    | cons d second => simp [spell] at same
  | cons c first ih =>
    cases second with
    | nil => simp [spell] at same
    | cons d second =>
      simp only [spell, List.flatMap_cons, List.append_assoc, List.singleton_append] at same
      obtain ⟨codes, rests⟩ := replicate_inj same
      rw [Char.toNat_inj.mp codes, ih rests]

theorem spell_hex (body : List Char) : (spell body).all isHexDigit := by
  rw [List.all_eq_true]
  intro c member
  obtain ⟨d, _, inside⟩ := List.mem_flatMap.mp member
  rcases List.mem_append.mp inside with letter | last
  · rw [List.eq_of_mem_replicate letter]
    decide
  · rw [List.mem_singleton.mp last]
    decide

def sampleHmac : Hmac where
  digest secret body :=
    if secret = sampleSecret ∧ body = sampleBody then sampleTag else 'b' :: spell body
  hex secret body := by
    split
    · decide
    · rw [List.all_cons, spell_hex]
      decide
  nonempty secret body := by
    split
    · decide
    · exact List.cons_ne_nil _ _

theorem sampleHmac_injective : Function.Injective (sampleHmac.digest sampleSecret) := by
  have apart (body : List Char) : sampleTag ≠ 'b' :: spell body := by
    intro same
    have head : sampleTag.head? = some '5' := by decide
    rw [same] at head
    exact absurd (Option.some.inj head) (by decide)
  intro first second same
  unfold sampleHmac at same
  dsimp only at same
  split at same <;> rename_i one <;> split at same <;> rename_i other
  · rw [one.2, other.2]
  · exact absurd same (apart second)
  · exact absurd same.symm (apart first)
  · exact spell_injective (List.cons_injective same)

def sampleMint : Mint where
  user := ⟨"admin".toList, by decide⟩
  ttlMs := .ofInt 43200000
  now := 1700000000000

def sampleExpiry : Binary64 := ⟨(1700043200000 : ℤ), Binary64.round?_intCast (by norm_num)⟩

theorem sampleMint_expiresAt :
    (sampleMint.minted sampleHmac sampleSecret).expiresAt = .finite sampleExpiry := by
  unfold Mint.minted createSessionToken sampleMint sampleExpiry
  dsimp only
  rw [Number.add_ofInt (by norm_num) (by norm_num), Number.ofInt_eq (by norm_num)]
  rfl

/-- The token of the body, before its expiry. -/
theorem verify_sampleToken :
    verifySessionToken sampleHmac sampleSecret 1700000000000 (some (sampleBody ++ '.' :: sampleTag)) =
      some { expiresAt := sampleExpiry, user := some "admin".toList, version := .v2 } := by
  have expires : (Number.finite sampleExpiry).toText = "1700043200000".toList := by
    rw [String.toList_ofList]
    decide +kernel
  have name : b64u "admin".toList = "YWRtaW4".toList := by
    repeat rw [String.toList_ofList]
    decide +kernel
  have body : bodyV2 (Number.finite sampleExpiry).toText (b64u "admin".toList) = sampleBody := by
    rw [expires, name]
    unfold bodyV2 sampleBody
    repeat rw [String.toList_ofList]
    rfl
  have plain : '.' ∉ (Number.finite sampleExpiry).toText := by
    rw [expires, String.toList_ofList]
    decide
  have length : Text.utf16Length (unb64u (b64u "admin".toList)) = 5 := by
    rw [unb64u_b64u, String.toList_ofList]
    rfl
  have alive := readExpiry_toText sampleExpiry 1700000000000
  rw [if_neg (by norm_num [sampleExpiry])] at alive
  have reads := Reads.v2 plain (dot_free_b64u _) alive (by rw [length]; decide) (by rw [length]; decide)
  rw [unb64u_b64u] at reads
  have signed : sampleHmac.digest sampleSecret sampleBody = sampleTag := by
    unfold sampleHmac
    dsimp only
    rw [if_pos ⟨rfl, rfl⟩]
  refine verifySessionToken_eq_some_iff.mpr ⟨_, reads, ?_⟩
  rw [body, signed]

/-- Minted tokens round trip until their expiry, wherever it is a finite number that is
written without a point, as whole numbers below 10 ^ 21 are; and they are the only
tokens that verify. -/
theorem session_tokens (hmac : Hmac) (secret : List Char) :
    (∀ (user : Username) (ttlMs : Number) (now : Int) (expiresAt : Binary64),
      (createSessionToken hmac secret now user.name ttlMs).expiresAt = .finite expiresAt →
      '.' ∉ (Number.finite expiresAt).toText →
      ∀ later : Int, verifySessionToken hmac secret later
          (some (createSessionToken hmac secret now user.name ttlMs).token) =
        if expiresAt.value < later then none
        else some { expiresAt, user := some user.name, version := .v2 }) ∧
    (∀ (expiresAt : Binary64) (milliseconds : ℤ), expiresAt.value = milliseconds →
      |milliseconds| < 10 ^ 21 → '.' ∉ (Number.finite expiresAt).toText) ∧
    (Function.Injective (hmac.digest secret) → ∀ (mints : List Mint) (token : List Char),
      Issued hmac secret mints token → ∀ (now : Int) (info : SessionInfo),
      verifySessionToken hmac secret now (some token) = some info →
      ∃ mint ∈ mints, token = (mint.minted hmac secret).token ∧
        (mint.minted hmac secret).expiresAt = .finite info.expiresAt ∧
        info.user = some mint.user.name ∧ info.version = .v2) := by
  refine ⟨fun user ttlMs now expiresAt expiry plain later => ?_, fun expiresAt ms whole small => ?_,
    fun distinct mints token issued now info verified => ?_⟩
  · exact verify_minted hmac secret user expiry plain later
  · exact Number.toText_whole whole small
  · exact verify_sound distinct issued verified

theorem session_tokens_admin :
    verifySessionToken sampleHmac sampleSecret 1700043200000
        (some (sampleMint.minted sampleHmac sampleSecret).token) =
      some { expiresAt := sampleExpiry, user := some "admin".toList, version := .v2 } ∧
    verifySessionToken sampleHmac sampleSecret 1700043200001
        (some (sampleMint.minted sampleHmac sampleSecret).token) = none ∧
    ∀ (token : List Char) (now : Int) (info : SessionInfo),
      Issued sampleHmac sampleSecret [sampleMint] token →
      verifySessionToken sampleHmac sampleSecret now (some token) = some info →
      token = (sampleMint.minted sampleHmac sampleSecret).token := by
  obtain ⟨roundTrip, whole, sound⟩ := session_tokens sampleHmac sampleSecret
  have plain := whole sampleExpiry 1700043200000 rfl (by norm_num)
  have verifies := roundTrip sampleMint.user sampleMint.ttlMs sampleMint.now sampleExpiry
    sampleMint_expiresAt plain
  refine ⟨?_, ?_, fun token now info issued verified => ?_⟩
  · exact (verifies 1700043200000).trans (if_neg (by norm_num [sampleExpiry]))
  · exact (verifies 1700043200001).trans (if_pos (by norm_num [sampleExpiry]))
  · obtain ⟨mint, member, same, _⟩ :=
      sound sampleHmac_injective [sampleMint] token issued now info verified
    rwa [List.mem_singleton.mp member] at same

def sampleHalf : Binary64 := ⟨1 / 2, by decide +kernel⟩

/-- Half a millisecond to live: the point in the expiry makes a fifth part. -/
theorem session_tokens_fractional :
    (createSessionToken sampleHmac sampleSecret 0 "admin".toList (.finite sampleHalf)).expiresAt =
        .finite sampleHalf ∧
      ¬ sampleHalf.value < (0 : Int) ∧
      verifySessionToken sampleHmac sampleSecret 0
        (some (createSessionToken sampleHmac sampleSecret 0 "admin".toList
          (.finite sampleHalf)).token) = none := by
  have expiry : (Number.ofInt 0).add (.finite sampleHalf) = .finite sampleHalf := by
    rw [Number.ofInt_eq (by norm_num), Number.add, ← Number.ofRat_value sampleHalf]
    norm_num
  have text : (Number.finite sampleHalf).toText = "0.5".toList := by decide +kernel
  refine ⟨expiry, by norm_num [sampleHalf], ?_⟩
  unfold createSessionToken
  dsimp only
  rw [expiry, text, verifySessionToken_eq]
  have split : ∀ tag : List Char, '.' ∉ tag →
      (bodyV2 "0.5".toList (b64u "admin".toList) ++ '.' :: tag).splitOn '.' =
        ["v2".toList, ['0'], ['5'], b64u "admin".toList, tag] := by
    intro tag single
    refine (Text.splitOn_eq_iff (List.cons_ne_nil _ _)).mpr
      ⟨by simp [bodyV2, List.intercalate], ?_⟩
    simp only [List.mem_cons, List.not_mem_nil, or_false]
    rintro part (rfl | rfl | rfl | rfl | rfl)
    · decide
    · decide
    · decide
    · exact dot_free_b64u _
    · exact single
  rw [split _ (dot_free_digest _ _ _)]
  rfl

end SysDeck.Web
