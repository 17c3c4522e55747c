import SysDeck.Cockpit.Validators

/-! The guard of the Prometheus and Grafana bridges, that requests stay on this host, against the host that
a URL names. -/

namespace SysDeck.Cockpit.LoopbackUrl

open Validators (validateFilename)

/-! ### The bridges -/

/-- The hosts that the guard has before their colon. -/
def hosts : List (List Char) := ["localhost".toList, "127.0.0.1".toList, "[::1]".toList]

def http : List Char := "http://".toList

/-- `_is_localhost_url`, of both bridges. -/
def isLocalhostUrl (url : List Char) : Bool := hosts.any fun host => (http ++ (host ++ [':'])).isPrefixOf url

/-- `base.rstrip('/')` -/
def rstrip (base : List Char) : List Char := base.rdropWhile (· = '/')

/-- A request that is handed to the opener. -/
structure Sent where
  url : List Char
  credentials : Option (List Char × List Char)
  deriving DecidableEq

/-- What the bridges ask for. -/
inductive Request where
  | promApiGet (path : List Char)
  | pushgatewayPost (job : List Char)
  | grafanaApiGet (path user password : List Char)

/-- What comes after the base. -/
def Request.tail : Request → List Char
  | promApiGet path => "/api/v1".toList ++ path
  | pushgatewayPost job => "/metrics/job/".toList ++ job
  | grafanaApiGet path _ _ => "/api".toList ++ path

def Request.credentials : Request → Option (List Char × List Char)
  | promApiGet _ | pushgatewayPost _ => none
  | grafanaApiGet _ user password => some (user, password)

def Request.allowed : Request → Bool
  | promApiGet _ | grafanaApiGet _ _ _ => true
  | pushgatewayPost job => validateFilename job

/-- `_prom_api_get`, `_pushgateway_post` and `_grafana_api_get` up to the opener. -/
def Request.send (request : Request) (base : List Char) : Option Sent :=
  let url := rstrip base ++ request.tail
  if request.allowed && isLocalhostUrl url then some ⟨url, request.credentials⟩ else none

/-! ### The grammar of URLs -/

def endsAuthority (c : Char) : Bool := c = '/' || c = '?' || c = '#'

/-- The authority of a URL with the scheme of the guard. -/
def authority (url : List Char) : Option (List Char) :=
  if http.isPrefixOf url then some ((url.drop http.length).takeWhile fun c => !endsAuthority c) else none

/-- The host of an authority: behind its user information, before its port. -/
def hostOf (authority : List Char) : List Char :=
  let hostport := authority.rtakeWhile (· ≠ '@')
  match hostport with
  | '[' :: _ => hostport.takeWhile (· ≠ ']') ++ [']']
  | _ => hostport.takeWhile (· ≠ ':')

/-- The URL names this host. -/
def Loopback (url : List Char) : Prop := ∃ text, authority url = some text ∧ hostOf text ∈ hosts

/-- The base has no user information, or a host of the guard behind it. -/
def Plain (base : List Char) : Prop :=
  ∀ text, authority (rstrip base) = some text → '@' ∈ text → hostOf text ∈ hosts

/-! ### When they agree -/

theorem http_eq : http = ['h', 't', 't', 'p', ':', '/', '/'] := String.toList_ofList

theorem hosts_eq : hosts = [['l', 'o', 'c', 'a', 'l', 'h', 'o', 's', 't'],
    ['1', '2', '7', '.', '0', '.', '0', '.', '1'], ['[', ':', ':', '1', ']']] := by
  unfold hosts
  repeat rw [String.toList_ofList]

theorem last_rstrip (base : List Char) : (rstrip base).getLast? ≠ some '/' := by
  intro last
  have stop := List.rdropWhile_last_not (fun c : Char => decide (c = '/')) base
    (List.getLast?_isSome.mp (by rw [show base.rdropWhile _ = rstrip base from rfl, last]; rfl))
  rw [List.getLast?_eq_some_getLast (List.getLast?_isSome.mp (by rw [last]; rfl))] at last
  exact stop (decide_eq_true (Option.some.inj last))

theorem Request.tail_eq (request : Request) : ∃ c rest, request.tail = '/' :: c :: rest ∧ c ≠ '/' := by
  have api : "/api/v1".toList = ['/', 'a', 'p', 'i', '/', 'v', '1'] := String.toList_ofList
  have job : "/metrics/job/".toList = ['/', 'm', 'e', 't', 'r', 'i', 'c', 's', '/', 'j', 'o', 'b', '/'] :=
    String.toList_ofList
  have short : "/api".toList = ['/', 'a', 'p', 'i'] := String.toList_ofList
  cases request with
  | promApiGet path => exact ⟨'a', _, congrArg (· ++ path) api, by decide⟩
  | pushgatewayPost name => exact ⟨'m', _, congrArg (· ++ name) job, by decide⟩
  | grafanaApiGet path => exact ⟨'a', _, congrArg (· ++ path) short, by decide⟩

theorem slash_not_mem_host {host : List Char} (known : host ∈ hosts) : '/' ∉ host ∧ '@' ∉ host := by
  rw [hosts_eq] at known
  simp only [List.mem_cons, List.not_mem_nil, or_false] at known
  rcases known with rfl | rfl | rfl <;> decide

/-- What the guard finds at the start of a URL is in its base: what is joined to the base starts with one
slash, and the base ends with none. -/
theorem base_of_guard {base tail host : List Char} {c : Char} {rest : List Char} (joined : tail = '/' :: c :: rest)
    (single : c ≠ '/') (known : host ∈ hosts) (starts : http ++ (host ++ [':']) <+: rstrip base ++ tail) :
    ∃ more, rstrip base = http ++ (host ++ ':' :: more) := by
  rcases List.prefix_or_prefix_of_prefix starts (List.prefix_append (rstrip base) tail) with inside | beyond
  · obtain ⟨more, same⟩ := inside
    exact ⟨more, by rw [← same]; simp⟩
  · obtain ⟨left, same⟩ := beyond
    cases left with
    | nil => exact ⟨[], by rw [List.append_nil] at same; rw [same]⟩
    | cons d left =>
      exfalso
      rw [← same, List.prefix_append_right_inj, joined, List.cons_prefix_cons] at starts
      obtain ⟨rfl, starts⟩ := starts
      have free : '/' ∉ host ++ [':'] := by simp [(slash_not_mem_host known).1]
      have last := last_rstrip base
      have scheme : '/' ∉ ['h', 't', 't', 'p', ':'] := by decide
      rw [http_eq, show ['h', 't', 't', 'p', ':', '/', '/'] = ['h', 't', 't', 'p', ':'] ++ ['/', '/'] from rfl,
        List.append_assoc, List.append_eq_append_iff] at same
      -- the slash that the tail brings would be one of the two after the scheme
      rcases same with ⟨a, front, after⟩ | ⟨a, front, after⟩
      · cases a with
        | nil =>
          obtain rfl : left = '/' :: (host ++ [':']) := (List.cons.inj after).2
          exact single (List.cons_prefix_cons.mp starts).1.symm
        | cons e a =>
          obtain rfl : '/' = e := (List.cons.inj after).1
          exact scheme (by rw [front]; simp)
      · rcases a with _ | ⟨e, _ | ⟨f, a⟩⟩
        · obtain rfl : '/' :: (host ++ [':']) = left := (List.cons.inj after).2
          exact single (List.cons_prefix_cons.mp starts).1.symm
        · obtain rfl : '/' = e := (List.cons.inj after).1
          exact last (by rw [front]; simp)
        · have inside : host ++ [':'] = a ++ '/' :: left := (List.cons.inj (List.cons.inj after).2).2
          exact free (by rw [inside]; simp)

theorem authority_http (text : List Char) :
    authority (http ++ text) = some (text.takeWhile fun c => !endsAuthority c) := by
  rw [authority, if_pos (List.isPrefixOf_iff_prefix.mpr (List.prefix_append _ _)), List.drop_left]

/-- The authority is that of the base, and starts with a host of the guard and a colon. -/
theorem authority_of_guard {base tail host more : List Char} {c : Char} {rest : List Char}
    (joined : tail = '/' :: c :: rest) (same : rstrip base = http ++ (host ++ ':' :: more)) :
    authority (rstrip base ++ tail) = authority (rstrip base) := by
  rw [same, List.append_assoc, authority_http, authority_http, joined]
  have stop (text after : List Char) : (text ++ '/' :: after).takeWhile (fun c => !endsAuthority c) =
      text.takeWhile fun c => !endsAuthority c := by
    induction text with
    | nil => rfl
    | cons d text ih =>
      rw [List.cons_append, List.takeWhile_cons, List.takeWhile_cons, ih]
  rw [stop]

theorem authority_starts {host more : List Char} (known : host ∈ hosts) :
    ∃ port, authority (http ++ (host ++ ':' :: more)) = some (host ++ ':' :: port) := by
  refine ⟨more.takeWhile fun c => !endsAuthority c, ?_⟩
  rw [authority_http]
  rw [hosts_eq] at known
  simp only [List.mem_cons, List.not_mem_nil, or_false] at known
  rcases known with rfl | rfl | rfl <;> rfl

/-- Without user information the host is what stands before the colon. -/
theorem hostOf_starts {host port : List Char} (known : host ∈ hosts) (bare : '@' ∉ host ++ ':' :: port) :
    hostOf (host ++ ':' :: port) = host := by
  have whole : (host ++ ':' :: port).rtakeWhile (· ≠ '@') = host ++ ':' :: port := by
    apply List.rtakeWhile_eq_self_iff.mpr
    intro c member
    exact decide_eq_true fun at_ => bare (at_ ▸ member)
  unfold hostOf
  rw [whole]
  rw [hosts_eq] at known
  simp only [List.mem_cons, List.not_mem_nil, or_false] at known
  rcases known with rfl | rfl | rfl <;> rfl

/-- A request that is sent stays on this host just where its base has no user information or one of the
three hosts behind it. -/
theorem sent_loopback_iff {request : Request} {base : List Char} {sent : Sent}
    (opened : request.send base = some sent) : Loopback sent.url ↔ Plain base := by
  unfold Request.send at opened
  dsimp only at opened
  split at opened
  · next passed =>
    obtain rfl := Option.some.inj opened
    obtain ⟨host, known, starts⟩ := List.any_eq_true.mp (Bool.and_eq_true_iff.mp passed).2
    obtain ⟨c, rest, joined, single⟩ := request.tail_eq
    obtain ⟨more, same⟩ := base_of_guard joined single known (List.isPrefixOf_iff_prefix.mp starts)
    obtain ⟨port, found⟩ := @authority_starts host more known
    rw [← same] at found
    unfold Loopback Plain
    rw [authority_of_guard joined same, found]
    constructor
    · rintro ⟨text, one, inside⟩ other two -
      rwa [← Option.some.inj two, Option.some.inj one]
    · intro plain
      refine ⟨_, rfl, ?_⟩
      by_cases info : '@' ∈ host ++ ':' :: port
      · exact plain _ rfl info
      · rwa [hostOf_starts known info]
  · cases opened

/-- A base on this host, and one that has another host behind what the guard reads. -/
def here : List Char := http ++ (['l', 'o', 'c', 'a', 'l', 'h', 'o', 's', 't'] ++ ':' :: ['9', '0', '9', '5'])

def elsewhere : List Char := here ++ ['@', 'a', '.', 'n', 'e', 't']

theorem guard_of_starts {url : List Char} (starts : here <+: url) : isLocalhostUrl url := by
  obtain ⟨rest, rfl⟩ := starts
  apply List.any_eq_true.mpr
  refine ⟨['l', 'o', 'c', 'a', 'l', 'h', 'o', 's', 't'], by rw [hosts_eq]; exact List.mem_cons_self, ?_⟩
  apply List.isPrefixOf_iff_prefix.mpr
  exact ⟨['9', '0', '9', '5'] ++ rest, by simp [here]⟩

theorem send_of_starts {base : List Char} (starts : here <+: rstrip base) (request : Request)
    (allowed : request.allowed) : request.send base = some ⟨rstrip base ++ request.tail, request.credentials⟩ := by
  have passed := guard_of_starts (starts.trans (List.prefix_append (rstrip base) request.tail))
  rw [Request.send, allowed, Bool.true_and, if_pos passed]

def health : Request := .grafanaApiGet ['/', 'h', 'e', 'a', 'l', 't', 'h'] ['a'] ['b']

theorem sent_loopback_here : ∃ sent, health.send here = some sent ∧ Loopback sent.url := by
  have kept : rstrip here = here := by
    unfold rstrip here
    rewrite [http_eq]
    rfl
  have opened := @send_of_starts here (⟨[], by rw [kept, List.append_nil]⟩) health rfl
  refine ⟨_, opened, (sent_loopback_iff opened).mpr ?_⟩
  intro text found info
  rw [kept, here, authority_http] at found
  obtain rfl := Option.some.inj found
  exact absurd info (by decide)

/-- The text before the at sign is user information, and the request with the credentials is for the host
behind it. -/
theorem sent_elsewhere : ¬ ∀ (request : Request) (base : List Char) (sent : Sent),
    request.send base = some sent → Loopback sent.url := by
  intro all
  have kept : rstrip elsewhere = elsewhere := by
    unfold rstrip elsewhere here
    rewrite [http_eq]
    rfl
  have opened := @send_of_starts elsewhere (by rewrite [kept]; exact List.prefix_append _ _) health rfl
  have plain := (sent_loopback_iff opened).mp (all _ _ _ opened)
  have found : authority (rstrip elsewhere) = some (['l', 'o', 'c', 'a', 'l', 'h', 'o', 's', 't'] ++ ':' ::
      ['9', '0', '9', '5', '@', 'a', '.', 'n', 'e', 't']) := by
    rw [kept, elsewhere, here, List.append_assoc, authority_http]
    rfl
  have inside := plain _ found (by decide)
  rw [hosts_eq] at inside
  exact absurd inside (by decide)

end SysDeck.Cockpit.LoopbackUrl
