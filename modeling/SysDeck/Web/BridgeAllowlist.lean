import SysDeck.Web.BridgeRoute
import SysDeck.Web.SessionTokens

/-! Every pair of names that a body can send, and what the dispatcher does with it. -/

namespace SysDeck.Web

section Sent

variable {config : BridgeConfig} {run : Callee → Json → Returned} {isAdmin : Bool}
  {buckets : RateBuckets} {request : BridgeRequest} {verifiedAt limitedAt : ℤ}

/-- The request passes the guards. -/
def Admitted (config : BridgeConfig) (buckets : RateBuckets) (request : BridgeRequest)
    (verifiedAt limitedAt : ℤ) : Prop :=
  guards config request verifiedAt
    (rateLimited buckets (clientIp config.trustProxy request.forwardedFor) limitedAt).1 = none

theorem post_admitted (admitted : Admitted config buckets request verifiedAt limitedAt) :
    (post config run isAdmin buckets request verifiedAt limitedAt).1 =
      servePlan config run isAdmin (planRequest request.raw) := by
  unfold Admitted at admitted
  simp only [post, admitted]

theorem post_refused {reply : HttpReply}
    (refused : guards config request verifiedAt
      (rateLimited buckets (clientIp config.trustProxy request.forwardedFor) limitedAt).1 =
        some reply) :
    (post config run isAdmin buckets request verifiedAt limitedAt).1 = { calls := [], reply } := by
  simp only [post, refused]

/-- A function that a request calls was planned by its body. -/
theorem post_calls {callee : Callee} {args : Json}
    (called : (callee, args) ∈
      (post config run isAdmin buckets request verifiedAt limitedAt).1.calls) :
    ∃ call mutation, planRequest request.raw = .run call mutation ∧ call.callee = some callee ∧
      call.args = args := by
  cases guarded : guards config request verifiedAt
      (rateLimited buckets (clientIp config.trustProxy request.forwardedFor) limitedAt).1 with
  | none =>
    rw [post_admitted guarded] at called
    exact calls_servePlan called
  | some reply =>
    rw [post_refused guarded] at called
    cases called

variable {raw : List Char} {body : Json}

theorem planRequest_parsed (sent : request.raw = some raw) (parsed : Json.parse raw = some body) :
    planRequest request.raw =
      match planBody body with
      | .ok plan => plan
      | .error _ => .reply .crashed := by
  have read : readBody request.raw = some body := by
    rw [sent]
    cases raw with
    | nil => exact absurd parsed nofun
    | cons head tail => exact parsed
  cases planned : planBody body with
  | ok plan => simp only [planRequest, read, planned]
  | error thrown => simp only [planRequest, read, planned]

end Sent

/-- Of the names that no object inherits, the trimmed pair decides: only its declared
handler is called, a blank name is a bad request, and any other pair is not found. -/
theorem bridge_allowlist (config : BridgeConfig) (run : Callee → Json → Returned) (isAdmin : Bool)
    (buckets : RateBuckets) (request : BridgeRequest) (verifiedAt limitedAt : ℤ)
    {raw : List Char} {body : Json} {m c : JsString} (sent : request.raw = some raw)
    (parsed : Json.parse raw = some body)
    (moduleNamed : body.get? (js "module") = some (.string m))
    (commandNamed : body.get? (js "command") = some (.string c))
    (moduleOrdinary : Utf16.trim m ∉ objectPrototype)
    (commandOrdinary : Utf16.trim c ∉ objectPrototype) :
    (∀ call ∈ (post config run isAdmin buckets request verifiedAt limitedAt).1.calls,
      call.1 = .handler (Utf16.trim m) (Utf16.trim c) ∧
        Declared (Utf16.trim m) (Utf16.trim c)) ∧
    (Admitted config buckets request verifiedAt limitedAt →
      Utf16.trim m = [] ∨ Utf16.trim c = [] →
      (post config run isAdmin buckets request verifiedAt limitedAt).1 =
        { calls := [], reply := denied 400 (js "module and command are required") }) ∧
    (Admitted config buckets request verifiedAt limitedAt →
      ¬ (Utf16.trim m = [] ∨ Utf16.trim c = []) →
      ¬ Declared (Utf16.trim m) (Utf16.trim c) →
      (post config run isAdmin buckets request verifiedAt limitedAt).1.calls = [] ∧
      (post config run isAdmin buckets request verifiedAt limitedAt).1.reply.status = 404) := by
  have plan := planRequest_parsed sent parsed
  rw [planBody_named moduleNamed commandNamed] at plan
  refine ⟨?_, ?_, ?_⟩
  · rintro ⟨callee, args⟩ called
    obtain ⟨call, mutation, planned, known, -⟩ := post_calls called
    rw [plan] at planned
    split at planned
    · rename_i decided found
      subst planned
      split at found
      · cases found
      · obtain ⟨-, -, -, -, ⟨handled, declared⟩ | ⟨inherited, -⟩⟩ := dispatch_run found
        · rw [known] at handled
          exact ⟨Option.some.inj handled, declared⟩
        · exact absurd inherited commandOrdinary
    · cases planned
  · intro admitted blank
    rw [post_admitted admitted, plan, if_pos blank]
    rfl
  · intro admitted visible undeclared
    have refused : ∃ error, dispatch _ _ (given (body.get? (js "args"))) = .ok (.reply (denied 404 error)) :=
      dispatch_undeclared moduleOrdinary commandOrdinary undeclared
    obtain ⟨error, missed⟩ := refused
    rw [post_admitted admitted, plan, if_neg visible, missed]
    exact ⟨rfl, rfl⟩

def sampleConfig : BridgeConfig where
  hmac := sampleHmac
  secret := sampleSecret
  trustProxy := false
  mutationsRequireAdmin := true

/-- The fields of a body that names a module and a command. -/
def sampleFields (module command : String) : List (JsString × List Char × Json) :=
  [(js "module", Json.quote (js module), .string (js module)),
    (js "command", Json.quote (js command), .string (js command))]

/-- A request of a signed-in session. -/
def sampleRequest (module command : String) : BridgeRequest where
  cookie := some ("sd_session=".toList ++ sampleBody ++ '.' :: sampleTag)
  forwardedFor := none
  contentLength := none
  raw := some (Json.writeObject []
    ((sampleFields module command).map fun field => (field.1, field.2.1)))

def sampleServed (module command : String) : Served :=
  (post sampleConfig (fun _ _ => .value none) false .empty (sampleRequest module command)
    1700000000000 1700000000000).1

theorem sample_authed : isRequestAuthed sampleHmac sampleSecret 1700000000000
    (some ("sd_session=".toList ++ sampleBody ++ '.' :: sampleTag)) = true := by
  have named : tokenFromCookieHeader (some ("sd_session=".toList ++ sampleBody ++ '.' :: sampleTag)) =
      some (sampleBody ++ '.' :: sampleTag) := by
    unfold sampleBody sampleTag
    repeat rw [String.toList_ofList]
    rfl
  rw [isRequestAuthed, named, verify_sampleToken]
  rfl

theorem ofText_zero (small : |(0 : ℤ)| ≤ 2 ^ 53) :
    Number.ofText ['0'] = .finite ⟨(0 : ℤ), Binary64.round?_intCast small⟩ := by
  have zero := Number.ofText_toText (.finite ⟨(0 : ℤ), Binary64.round?_intCast small⟩)
  unfold Number.toText Numeral.rationalText at zero
  dsimp only at zero
  rwa [if_pos Int.cast_zero] at zero

theorem sample_admitted {module command : String}
    (short : Text.utf16Length ((sampleRequest module command).raw.getD []) ≤ maxBodyBytes) :
    Admitted sampleConfig .empty (sampleRequest module command) 1700000000000 1700000000000 := by
  have limited : (rateLimited .empty (clientIp false none) 1700000000000).1 = false := rfl
  have size : exceeds (Number.ofText ['0']) maxBodyBytes = false := by
    rw [ofText_zero (by norm_num)]
    have low : ((0 : ℤ) : ℚ) ≤ maxBodyBytes := by
      rw [Int.cast_zero]
      exact Nat.cast_nonneg maxBodyBytes
    exact decide_eq_false (not_lt.mpr low)
  change guards sampleConfig (sampleRequest module command) 1700000000000
    (rateLimited .empty (clientIp false none) 1700000000000).1 = none
  rw [limited, guards]
  change (if !isRequestAuthed sampleHmac sampleSecret 1700000000000
      (some ("sd_session=".toList ++ sampleBody ++ '.' :: sampleTag)) then _ else _) = none
  rw [sample_authed, show (sampleRequest module command).contentLength.getD ['0'] = ['0'] from rfl,
    size, if_neg (Nat.not_lt.mpr short)]
  rfl

/-- A signed-in request for a command that nobody declares. -/
theorem bridge_allowlist_undeclared :
    (sampleServed "fleet" "nope").calls = [] ∧ (sampleServed "fleet" "nope").reply.status = 404 := by
  have apart : js "command" ≠ js "module" := by decide
  have ordinary : Utf16.trim (js "fleet") ∉ objectPrototype ∧
      Utf16.trim (js "nope") ∉ objectPrototype := by decide +kernel
  have visible : ¬ (Utf16.trim (js "fleet") = [] ∨ Utf16.trim (js "nope") = []) := by decide +kernel
  have undeclared : ¬ Declared (Utf16.trim (js "fleet")) (Utf16.trim (js "nope")) := by
    decide +kernel
  have written : ∀ field ∈ sampleFields "fleet" "nope", Json.Writes field.2.1 field.2.2 := by
    intro field member
    simp only [sampleFields, List.mem_cons, List.not_mem_nil, or_false] at member
    rcases member with rfl | rfl
    · exact Json.writes_quote (js "fleet")
    · exact Json.writes_quote (js "nope")
  have empty : [].all Json.isSpace := rfl
  have parsed := Json.parse_writeObject empty (List.cons_ne_nil _ _) written
  have moduleNamed : (Json.object ((sampleFields "fleet" "nope").map fun field => (field.1, field.2.2))).get?
      (js "module") = some (.string (js "fleet")) := by
    simp [Json.get?, sampleFields, apart]
  have commandNamed : (Json.object ((sampleFields "fleet" "nope").map fun field => (field.1, field.2.2))).get?
      (js "command") = some (.string (js "nope")) := by
    simp [Json.get?, sampleFields]
  have admitted : Admitted sampleConfig .empty (sampleRequest "fleet" "nope") 1700000000000 1700000000000 :=
    sample_admitted (by decide +kernel)
  have served := (bridge_allowlist sampleConfig (fun _ _ => .value none) false .empty
    (sampleRequest "fleet" "nope") 1700000000000 1700000000000 rfl parsed moduleNamed commandNamed ordinary.1
    ordinary.2).2.2 admitted visible undeclared
  constructor
  · rw [sampleServed]
    exact served.1
  · rw [sampleServed]
    exact served.2

/-- The names are trimmed, a blank one is a bad request, and a method that every object
inherits is called. -/
theorem bridge_allowlist_escaped :
    ((sampleServed " overview" "ticker").calls.map Prod.fst =
        [.handler (js "overview") (js "ticker")] ∧
      BRIDGE_MODULES.lookup (js " overview") = none) ∧
    (sampleServed "" "ticker").reply.status = 400 ∧
    ((sampleServed "overview" "constructor").calls.map Prod.fst =
        [.objectMethod (js "constructor")] ∧
      ¬ Declared (js "overview") (js "constructor")) := by
  refine ⟨⟨?_, ?_⟩, ?_, ?_, ?_⟩
  · rw [sampleServed, post_admitted (sample_admitted (by decide +kernel))]
    decide +kernel
  · decide +kernel
  · rw [sampleServed, post_admitted (sample_admitted (by decide +kernel))]
    decide +kernel
  · rw [sampleServed, post_admitted (sample_admitted (by decide +kernel))]
    decide +kernel
  · decide +kernel

end SysDeck.Web
