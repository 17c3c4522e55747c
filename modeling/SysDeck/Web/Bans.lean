import Mathlib.Data.List.Perm.Basic
import SysDeck.Library.Execution
import SysDeck.Web.FirewallCommands

/-! The ban registry of the netsec bridge, and the entries of the kernel that enforce it. -/

namespace SysDeck.Web.Netsec

open Firewall (trim digits)

/-- The firewall of a host: the nft set, or the rules of INPUT. -/
inductive Backend where
  | nft
  | iptables
  deriving DecidableEq

structure BanRow where
  id : ℕ
  ip : String
  service : String
  reason : String
  strikes : Int
  jail : String
  deriving DecidableEq

/-- `entries` are the elements of the set, or the addresses of the rules, newest first. -/
structure Host (Address : Type) where
  backend : Backend
  registry : List BanRow
  nextId : ℕ
  entries : List Address

/-- `^(\d{1,3}\.){3}\d{1,3}$` or `^[0-9a-fA-F:]+$` -/
def validIp (ip : String) : Bool :=
  ((ip.toList.splitOn '.').length = 4 && (ip.toList.splitOn '.').all (digits 3)) ||
    (!ip.toList.isEmpty && ip.toList.all fun c =>
      c.isDigit || ('a' ≤ c && c ≤ 'f') || ('A' ≤ c && c ≤ 'F') || c = ':')

structure BanArgs where
  ip : Option String
  service : Option String
  reason : Option String
  /-- `Number(args.strikes)`, where it is a whole number. -/
  strikes : Option Int

def BanArgs.row (args : BanArgs) (id : ℕ) : BanRow :=
  let service := trim (args.service.getD "sshd")
  let strikes := args.strikes.getD 0
  { id, ip := trim (args.ip.getD "")
    service := if service = "" then "sshd" else service
    reason := trim (args.reason.getD "manual ban via web UI")
    strikes := max 1 (min 100000 (if strikes = 0 then 1 else strikes))
    jail := "sysdeck" }

/-- What `commands.unban` is asked to lift. -/
inductive BanId where
  | missing
  /-- `fail2ban:jail:ip`: a ban of fail2ban, in its own sets. -/
  | fail2ban (jail ip : String)
  | row (id : ℕ)

variable {Address : Type} [DecidableEq Address]

/-- `nftBan` adds to a set, `iptablesBan` inserts a rule. Both fail on what is no address of
the family. -/
def Host.enforce (host : Host Address) : Option Address → Option (List Address)
  | none => none
  | some address =>
    match host.backend with
    | .nft => some (if address ∈ host.entries then host.entries else host.entries ++ [address])
    | .iptables => some (address :: host.entries)

/-- `firewallUnban`: the element, or the first rule of the address. It fails when there is none. -/
def Host.lift (host : Host Address) : Option Address → Option (List Address)
  | none => none
  | some address =>
    if address ∈ host.entries then some (host.entries.erase address) else none

/-- `commands.ban`, where `reads` is the reading of an address by the firewall's program. -/
def ban (reads : String → Option Address) (host : Host Address) (args : BanArgs) : Host Address :=
  let row := args.row host.nextId
  if validIp row.ip then
    { host with
      registry := host.registry ++ [row]
      nextId := host.nextId + 1
      entries := (host.enforce (reads row.ip)).getD host.entries }
  else host

/-- `commands.unban` -/
def unban (reads : String → Option Address) (host : Host Address) : BanId → Host Address
  | .missing => host
  | .fail2ban _ _ => host
  | .row id =>
    match host.registry.find? (·.id = id) with
    | none => host
    | some row =>
      { host with
        registry := host.registry.filter (·.id ≠ id)
        entries := (host.lift (reads row.ip)).getD host.entries }

/-- A call of the console, or the end of an element's timeout of thirty days. -/
inductive Call (Address : Type) where
  | ban (args : BanArgs)
  | unban (id : BanId)
  | expire (address : Address)

def step (reads : String → Option Address) (host : Host Address) : Call Address → Host Address
  | .ban args => ban reads host args
  | .unban id => unban reads host id
  | .expire address => { host with entries := host.entries.erase address }

/-- Every firewall command of the call succeeds. Only the elements of the set have a timeout. -/
def Succeeds (reads : String → Option Address) (host : Host Address) : Call Address → Prop
  | .ban args =>
    let row := args.row host.nextId
    validIp row.ip → (host.enforce (reads row.ip)).isSome
  | .unban (.row id) => ∀ row ∈ host.registry.find? (·.id = id), (host.lift (reads row.ip)).isSome
  | .unban _ => True
  | .expire _ => host.backend = .nft

instance (reads : String → Option Address) (host : Host Address) :
    ∀ call, Decidable (Succeeds reads host call)
  | .ban args => inferInstanceAs (Decidable (validIp (args.row host.nextId).ip →
      (host.enforce (reads (args.row host.nextId).ip)).isSome))
  | .unban (.row id) => inferInstanceAs
      (Decidable (∀ row ∈ host.registry.find? (·.id = id), (host.lift (reads row.ip)).isSome))
  | .unban .missing | .unban (.fail2ban _ _) => .isTrue trivial
  | .expire _ => inferInstanceAs (Decidable (host.backend = .nft))

/-- An address is blocked exactly when a row of the registry is for it. -/
def Matches (reads : String → Option Address) (host : Host Address) : Prop :=
  ∀ address, address ∈ host.entries ↔ ∃ row ∈ host.registry, reads row.ip = some address

/-- On nft, a row that is removed is the last one of its address, and no element's timeout
ends while a row is for it. -/
def Unshared (reads : String → Option Address) (host : Host Address) : Call Address → Prop
  | .ban _ => True
  | .unban (.row id) =>
    host.backend = .nft → ∀ row ∈ host.registry.find? (·.id = id),
      ∀ other ∈ host.registry, reads other.ip = reads row.ip → other.id = id
  | .unban _ => True
  | .expire address => ∀ row ∈ host.registry, reads row.ip ≠ some address

/-- What calls that succeed keep. -/
structure Sound (reads : String → Option Address) (host : Host Address) : Prop where
  ids : (host.registry.map BanRow.id).Nodup
  fresh : ∀ row ∈ host.registry, row.id < host.nextId
  set : host.backend = .nft → host.entries.Nodup
  rules : host.backend = .iptables →
    host.entries.Perm (host.registry.filterMap fun row => reads row.ip)

variable {reads : String → Option Address} {host : Host Address}

omit [DecidableEq Address] in
theorem Sound.matches_iptables (sound : Sound reads host) (iptables : host.backend = .iptables) :
    Matches reads host := by
  intro address
  rw [(sound.rules iptables).mem_iff, List.mem_filterMap]

theorem filter_ids {rows : List BanRow} (unique : (rows.map BanRow.id).Nodup) {row : BanRow}
    (member : row ∈ rows) : rows.Perm (row :: rows.filter (·.id ≠ row.id)) := by
  induction rows with
  | nil => cases member
  | cons first rows ih =>
    rw [List.map_cons, List.nodup_cons] at unique
    rcases List.mem_cons.mp member with rfl | later
    · have others : rows.filter (·.id ≠ row.id) = rows := by
        refine List.filter_eq_self.mpr fun other inside => decide_eq_true ?_
        exact fun same => unique.1 (same ▸ List.mem_map_of_mem inside)
      rw [List.filter_cons_of_neg (by simp), others]
    · have apart : first.id ≠ row.id := fun same => unique.1 (same ▸ List.mem_map_of_mem later)
      rw [List.filter_cons_of_pos (by simpa using apart)]
      exact ((ih unique.2 later).cons first).trans (.swap row first _)

theorem find_row {rows : List BanRow} {id : ℕ} {row : BanRow}
    (found : rows.find? (·.id = id) = some row) : row ∈ rows ∧ row.id = id :=
  ⟨List.mem_of_find?_eq_some found, by simpa using List.find?_some found⟩

/-- What a ban whose command succeeds does. -/
theorem ban_cases {args : BanArgs} (succeeds : Succeeds reads host (.ban args)) :
    ban reads host args = host ∨ ∃ address, reads (args.row host.nextId).ip = some address ∧
      ban reads host args =
        { host with
          registry := host.registry ++ [args.row host.nextId]
          nextId := host.nextId + 1
          entries := match host.backend with
            | .nft => if address ∈ host.entries then host.entries else host.entries ++ [address]
            | .iptables => address :: host.entries } := by
  by_cases valid : validIp (args.row host.nextId).ip = true
  · have enforced := succeeds valid
    cases read : reads (args.row host.nextId).ip with
    | none =>
      rw [read] at enforced
      cases enforced
    | some address =>
      refine .inr ⟨address, rfl, ?_⟩
      simp only [ban, if_pos valid, read, Host.enforce]
      cases host.backend with
      | nft => rfl
      | iptables => rfl
  · left
    simp only [ban, if_neg valid]

/-- What an unban whose command succeeds does. -/
theorem unban_cases {id : ℕ} (succeeds : Succeeds reads host (.unban (.row id))) :
    (host.registry.find? (·.id = id) = none ∧ unban reads host (.row id) = host) ∨
    ∃ row address, host.registry.find? (·.id = id) = some row ∧ reads row.ip = some address ∧
      address ∈ host.entries ∧
      unban reads host (.row id) =
        { host with
          registry := host.registry.filter (·.id ≠ id)
          entries := host.entries.erase address } := by
  unfold Succeeds at succeeds
  cases found : host.registry.find? (·.id = id) with
  | none =>
    left
    simp only [unban, found, and_self]
  | some row =>
    have lifted := succeeds row found
    cases read : reads row.ip with
    | none =>
      rw [read] at lifted
      cases lifted
    | some address =>
      rw [read, Host.lift] at lifted
      by_cases member : address ∈ host.entries
      · refine .inr ⟨row, address, rfl, read, member, ?_⟩
        simp only [unban, found, read, Host.lift, if_pos member, Option.getD_some]
      · rw [if_neg member] at lifted
        cases lifted

theorem Sound.ban (sound : Sound reads host) {args : BanArgs}
    (succeeds : Succeeds reads host (.ban args)) : Sound reads (ban reads host args) := by
  obtain same | ⟨address, read, same⟩ := ban_cases succeeds
  · rw [same]
    exact sound
  · have unused : host.nextId ∉ host.registry.map BanRow.id := by
      intro member
      obtain ⟨row, inside, id⟩ := List.mem_map.mp member
      exact absurd (sound.fresh row inside) (id ▸ Nat.lt_irrefl _)
    rw [same]
    constructor
    · rw [List.map_append, List.nodup_append]
      refine ⟨sound.ids, by simp, fun first member second only equal => unused ?_⟩
      have numbered : first = host.nextId := equal.trans (List.mem_singleton.mp only)
      exact numbered ▸ member
    · intro row member
      rcases List.mem_append.mp member with old | new
      · exact Nat.lt_succ_of_lt (sound.fresh row old)
      · rw [List.mem_singleton.mp new]
        exact Nat.lt_succ_self _
    · intro (nft : host.backend = .nft)
      rw [nft]
      dsimp only
      split
      · exact sound.set nft
      · rename_i absent
        rw [List.nodup_append]
        refine ⟨sound.set nft, by simp, fun first member second only equal => absent ?_⟩
        have here : first = address := equal.trans (List.mem_singleton.mp only)
        exact here ▸ member
    · intro (iptables : host.backend = .iptables)
      rw [iptables]
      dsimp only
      have added : [args.row host.nextId].filterMap (fun row => reads row.ip) = [address] := by
        simp [read]
      rw [List.filterMap_append, added]
      exact ((sound.rules iptables).cons address).trans (List.perm_append_singleton address _).symm

theorem Sound.unban (sound : Sound reads host) {id : BanId}
    (succeeds : Succeeds reads host (.unban id)) : Sound reads (unban reads host id) := by
  cases id with
  | missing => exact sound
  | fail2ban jail ip => exact sound
  | row id =>
    obtain ⟨-, same⟩ | ⟨row, address, found, read, member, same⟩ := unban_cases succeeds
    · rw [same]
      exact sound
    · obtain ⟨inside, numbered⟩ := find_row found
      rw [same]
      constructor
      · exact sound.ids.sublist (List.filter_sublist.map _)
      · exact fun other kept => sound.fresh other (List.mem_of_mem_filter kept)
      · exact fun nft => (sound.set nft).erase address
      · intro iptables
        have split := (filter_ids sound.ids inside).filterMap fun row => reads row.ip
        rw [List.filterMap_cons, read, numbered] at split
        have erased := ((sound.rules iptables).trans split).erase address
        rw [List.erase_cons_head] at erased
        exact erased

theorem Sound.step (sound : Sound reads host) {call : Call Address}
    (succeeds : Succeeds reads host call) : Sound reads (step reads host call) := by
  cases call with
  | ban args =>
    rw [Netsec.step]
    exact sound.ban succeeds
  | unban id =>
    rw [Netsec.step]
    exact sound.unban succeeds
  | expire address =>
    refine ⟨sound.ids, sound.fresh, fun nft => (sound.set nft).erase address, ?_⟩
    intro iptables
    have nft : host.backend = .nft := succeeds
    have differ : Backend.nft = .iptables := nft.symm.trans iptables
    cases differ

/-- A ban keeps the registry and the kernel together. -/
theorem Sound.matches_ban (sound : Sound reads host) (matched : Matches reads host) {args : BanArgs}
    (succeeds : Succeeds reads host (.ban args)) : Matches reads (Netsec.ban reads host args) := by
  have after := sound.ban succeeds
  obtain same | ⟨address, read, same⟩ := ban_cases succeeds
  · rw [same]
    exact matched
  · cases backend : host.backend with
    | iptables => exact after.matches_iptables (by rw [same]; exact backend)
    | nft =>
      rw [same, backend]
      intro other
      have entries : (other ∈ if address ∈ host.entries then host.entries
          else host.entries ++ [address]) ↔ other ∈ host.entries ∨ other = address := by
        split
        · rename_i member
          exact ⟨.inl, fun either => either.elim id fun here => here ▸ member⟩
        · rw [List.mem_append, List.mem_singleton]
      dsimp only
      rw [entries, matched other]
      constructor
      · rintro (⟨row, inside, read'⟩ | rfl)
        · exact ⟨row, List.mem_append_left _ inside, read'⟩
        · exact ⟨_, List.mem_append_right _ List.mem_cons_self, read⟩
      · rintro ⟨row, inside, read'⟩
        rcases List.mem_append.mp inside with old | new
        · exact .inl ⟨row, old, read'⟩
        · rw [List.mem_singleton.mp new, read] at read'
          exact .inr (Option.some.inj read').symm

/-- An unban takes the address of its row out of the set, and so must be of its last row. -/
theorem Sound.matches_unban_iff (sound : Sound reads host) (matched : Matches reads host) {id : BanId}
    (succeeds : Succeeds reads host (.unban id)) :
    Matches reads (Netsec.unban reads host id) ↔ Unshared reads host (.unban id) := by
  have after := sound.unban succeeds
  cases id with
  | missing => exact iff_of_true matched trivial
  | fail2ban jail ip => exact iff_of_true matched trivial
  | row id =>
    unfold Unshared
    dsimp only
    obtain ⟨absent, same⟩ | ⟨row, address, found, read, member, same⟩ := unban_cases succeeds
    · rw [same, absent]
      exact iff_of_true matched fun _ _ given => by cases given
    · cases backend : host.backend with
      | iptables =>
        refine iff_of_true (after.matches_iptables (by rw [same]; exact backend)) ?_
        exact fun nft => by cases nft
      | nft =>
        have gone (other : Address) : other ∈ host.entries.erase address ↔
            other ≠ address ∧ other ∈ host.entries := (sound.set backend).mem_erase_iff
        rw [same, found]
        constructor
        · intro matched' _ row' given other inside read'
          cases given
          refine Classical.byContradiction fun kept => ?_
          rw [read] at read'
          have still := (matched' address).mpr
            ⟨other, List.mem_filter.mpr ⟨inside, decide_eq_true kept⟩, read'⟩
          exact ((gone address).mp still).1 rfl
        · intro unshared other
          rw [gone, matched other]
          constructor
          · rintro ⟨apart, row', inside, read'⟩
            refine ⟨row', List.mem_filter.mpr ⟨inside, decide_eq_true fun numbered => ?_⟩, read'⟩
            have same' := Firewall.find?_of_nodup sound.ids inside
            rw [numbered, found] at same'
            rw [← Option.some.inj same', read] at read'
            exact apart (Option.some.inj read').symm
          · rintro ⟨row', inside, read'⟩
            obtain ⟨listed, kept⟩ := List.mem_filter.mp inside
            refine ⟨?_, row', listed, read'⟩
            rintro rfl
            exact of_decide_eq_true kept (unshared rfl row rfl row' listed (read'.trans read.symm))

theorem Sound.matches_step_iff (sound : Sound reads host) (matched : Matches reads host)
    {call : Call Address} (succeeds : Succeeds reads host call) :
    Matches reads (Netsec.step reads host call) ↔ Unshared reads host call := by
  cases call with
  | ban args =>
    rw [Netsec.step]
    exact iff_of_true (sound.matches_ban matched succeeds) trivial
  | unban id =>
    rw [Netsec.step]
    exact sound.matches_unban_iff matched succeeds
  | expire address =>
    have gone (other : Address) : other ∈ host.entries.erase address ↔
        other ≠ address ∧ other ∈ host.entries := (sound.set succeeds).mem_erase_iff
    constructor
    · intro matched' row inside read
      exact ((gone address).mp ((matched' address).mpr ⟨row, inside, read⟩)).1 rfl
    · intro unlisted other
      change other ∈ host.entries.erase address ↔ _
      rw [gone, matched other]
      refine ⟨And.right, ?_⟩
      rintro ⟨row, inside, read⟩
      refine ⟨?_, row, inside, read⟩
      rintro rfl
      exact unlisted row inside read

def emptyHost (Address : Type) (backend : Backend) : Host Address :=
  { backend, registry := [], nextId := 0, entries := [] }

/-- In a run whose firewall commands succeed, an address is blocked exactly while a row is for
it, if and only if no row is removed on nft that shares its address with another, and no
timeout of the set ends before its row is removed. -/
theorem blocked_iff_listed (reads : String → Option Address) (backend : Backend)
    (calls : List (Call Address))
    (succeed : Execution.Along (step reads) (Succeeds reads) (emptyHost Address backend) calls) :
    (∀ before after, calls = before ++ after →
      Matches reads (Execution.run (step reads) (emptyHost Address backend) before)) ↔
      Execution.Along (step reads) (Unshared reads) (emptyHost Address backend) calls := by
  have sound : Sound reads (emptyHost Address backend) := by
    constructor
    · exact List.nodup_nil
    · exact fun _ member => by cases member
    · exact fun _ => List.nodup_nil
    · exact fun _ => List.Perm.refl []
  have matched : Matches reads (emptyHost Address backend) := by
    intro address
    refine iff_of_false List.not_mem_nil ?_
    rintro ⟨row, member, -⟩
    cases member
  exact Execution.always_iff_along (fun _ _ succeeds sound => sound.step succeeds)
    (fun _ _ succeeds sound matched => sound.matches_step_iff matched succeeds) sound matched succeed

def octet (text : List Char) : Option ℕ :=
  let value := text.foldl (fun value c => 10 * value + (c.toNat - 48)) 0
  if digits 3 text ∧ value < 256 then some value else none

/-- An IPv4 address in four decimal parts. -/
def dottedQuad (text : String) : Option (BitVec 32) :=
  match (text.toList.splitOn '.').mapM octet with
  | some [a, b, c, d] => some (BitVec.ofNat 32 (((a * 256 + b) * 256 + c) * 256 + d))
  | _ => none

def banOf (ip : String) : Call (BitVec 32) := .ban ⟨some ip, none, none, none⟩

theorem blocked_iff_listed_once :
    (∀ before after, [banOf "203.0.113.7", .unban (.row 0)] = before ++ after →
      Matches dottedQuad
        (Execution.run (step dottedQuad) (emptyHost (BitVec 32) .nft) before)) ↔
      Execution.Along (step dottedQuad) (Unshared dottedQuad) (emptyHost (BitVec 32) .nft)
        [banOf "203.0.113.7", .unban (.row 0)] :=
  blocked_iff_listed dottedQuad .nft [banOf "203.0.113.7", .unban (.row 0)] (by exact of_decide_eq_true rfl)

/-- An address that is banned twice and unbanned once is still listed, and no longer blocked. -/
theorem banned_twice_unblocked :
    Execution.Along (step dottedQuad) (Succeeds dottedQuad) (emptyHost (BitVec 32) .nft)
      [banOf "203.0.113.7", banOf "203.0.113.7", .unban (.row 0)] ∧
    ¬ Matches dottedQuad (Execution.run (step dottedQuad) (emptyHost (BitVec 32) .nft)
      [banOf "203.0.113.7", banOf "203.0.113.7", .unban (.row 0)]) := by
  refine ⟨by exact of_decide_eq_true rfl, fun matched => ?_⟩
  have entries : (Execution.run (step dottedQuad) (emptyHost (BitVec 32) .nft)
      [banOf "203.0.113.7", banOf "203.0.113.7", .unban (.row 0)]).entries = [] := by rfl
  have registry : (Execution.run (step dottedQuad) (emptyHost (BitVec 32) .nft)
      [banOf "203.0.113.7", banOf "203.0.113.7", .unban (.row 0)]).registry =
      [⟨1, "203.0.113.7", "sshd", "manual ban via web UI", 1, "sysdeck"⟩] := by rfl
  have blocked := (matched (BitVec.ofNat 32 0xCB007107)).mpr
    ⟨_, registry ▸ List.mem_cons_self, by rfl⟩
  rw [entries] at blocked
  cases blocked

end SysDeck.Web.Netsec
