import SysDeck.Library.Fields
import SysDeck.Library.Scan
import SysDeck.Library.Text

/-! The bans of fail2ban, as the netsec bridge lists them and lifts them. -/

namespace SysDeck.Web.FailBans

open Scan (fields literal many many1 search)
open Text (isBlank trim)

/-- What a run of a program returns. -/
structure Output where
  rc : ℤ
  stdout : List Char

/-- The host: whether `fail2ban-client` is found, what systemctl says of the service, and what the client
answers to `status` and to `status` of a jail. -/
structure Host where
  found : Bool
  active : Output
  status : Output
  statusOf : List Char → Output

structure Row where
  id : List Char
  ip : List Char
  jail : List Char
  service : List Char
  deriving DecidableEq

/-- The characters that `.` does not match. -/
def endsLine (c : Char) : Bool := c = '\n' || c = '\r' || c.toNat = 0x2028 || c.toNat = 0x2029

/-- `/Jail list:\s*(.+)/` -/
def matchJails (text : List Char) : Option (List Char) :=
  search (literal "Jail list:".toList (many isBlank fun _ rest =>
    many1 (fun c => !endsLine c) (fun list _ => some list) rest)) text

/-- `/Banned IP list:\s*(.*)/` -/
def matchBanned (text : List Char) : Option (List Char) :=
  search (literal "Banned IP list:".toList (many isBlank fun _ rest =>
    many (fun c => !endsLine c) (fun list _ => some list) rest)) text

def jailsOf (stdout : List Char) : List (List Char) :=
  (((matchJails stdout).map fun list => (list.splitOn ',').map trim).getD []).filter (· ≠ [])

def rowId (jail ip : List Char) : List Char := "fail2ban:".toList ++ (jail ++ ':' :: ip)

def rowsOf (jail : List Char) (output : Output) : List Row :=
  if output.rc ≠ 0 then []
  else (fields isBlank ((matchBanned output.stdout).getD [])).map fun ip => ⟨rowId jail ip, ip, jail, jail⟩

/-- The rows of `fail2banBans`. -/
def fail2banBans (host : Host) : List Row :=
  if !host.found then []
  else if host.active.rc ≠ 0 ∨ trim host.active.stdout ≠ "active".toList then []
  else if host.status.rc ≠ 0 then []
  else (jailsOf host.status.stdout).flatMap fun jail => rowsOf jail (host.statusOf jail)

/-- What `unban` runs for the id of a ban of fail2ban: the program and its arguments. -/
def unban (root : Bool) (id : List Char) : Option (List (List Char)) :=
  if "fail2ban:".toList <+: id then
    match id.splitOn ':' with
    | _ :: jail :: ip :: _ =>
      let command := ["fail2ban-client".toList, "set".toList, jail, "unbanip".toList, ip]
      some (if root then command else "sudo".toList :: "-n".toList :: command)
    | _ => none
  else none

/-- The run that lifts the ban of the row. -/
def lifts (root : Bool) (row : Row) : List (List Char) :=
  let command := ["fail2ban-client".toList, "set".toList, row.jail, "unbanip".toList, row.ip]
  if root then command else "sudo".toList :: "-n".toList :: command

/-! ### Reading an id -/

theorem splitOn_append_cons (first second : List Char) :
    (first ++ ':' :: second).splitOn ':' = first.splitOn ':' ++ second.splitOn ':' :=
  List.splitOnP_append_cons first second (beq_self_eq_true ':')

theorem splitOn_rowId (jail ip : List Char) :
    (rowId jail ip).splitOn ':' = "fail2ban".toList :: (jail.splitOn ':' ++ ip.splitOn ':') := by
  have marked : rowId jail ip = "fail2ban".toList ++ ':' :: (jail ++ ':' :: ip) := rfl
  have first : "fail2ban".toList.splitOn ':' = ["fail2ban".toList] := by decide
  rw [marked, splitOn_append_cons, splitOn_append_cons, first, List.singleton_append]

/-- The first part of a text is the whole exactly where there is no colon. -/
theorem first_part_iff {text first : List Char} {others : List (List Char)}
    (split : text.splitOn ':' = first :: others) : first = text ↔ ':' ∉ text := by
  constructor
  · rintro rfl
    exact Text.not_mem_of_mem_splitOn (split ▸ List.mem_cons_self)
  · intro free
    have whole : text.splitOn ':' = [text] :=
      (Text.splitOn_eq_iff (List.cons_ne_nil _ _)).mpr ⟨by simp, by simpa using free⟩
    rw [whole] at split
    exact (List.cons.inj split).1.symm

theorem unban_rowId_iff (root : Bool) (row : Row) :
    unban root (rowId row.jail row.ip) = some (lifts root row) ↔ ':' ∉ row.jail ∧ ':' ∉ row.ip := by
  obtain ⟨jail, more, jailSplit⟩ := List.exists_cons_of_ne_nil (List.splitOn_ne_nil ':' row.jail)
  obtain ⟨ip, others, ipSplit⟩ := List.exists_cons_of_ne_nil (List.splitOn_ne_nil ':' row.ip)
  have begun : "fail2ban:".toList <+: rowId row.jail row.ip := List.prefix_append _ _
  rw [unban, if_pos begun, splitOn_rowId, jailSplit, ipSplit, ← first_part_iff jailSplit,
    ← first_part_iff ipSplit]
  cases more with
  | nil =>
    cases root <;> simp [lifts]
  | cons part more =>
    have colon : jail ≠ row.jail := by
      intro same
      have whole : row.jail.splitOn ':' = [row.jail] := (Text.splitOn_eq_iff (List.cons_ne_nil _ _)).mpr
        ⟨by simp, by simpa using (first_part_iff jailSplit).mp same⟩
      rw [whole] at jailSplit
      cases jailSplit
    refine iff_of_false ?_ fun both => colon both.1
    cases root <;> simp [lifts, colon]

theorem id_of_mem {host : Host} {row : Row} (member : row ∈ fail2banBans host) :
    row.id = rowId row.jail row.ip := by
  unfold fail2banBans at member
  split at member
  · cases member
  · split at member
    · cases member
    · split at member
      · cases member
      · obtain ⟨jail, -, inside⟩ := List.mem_flatMap.mp member
        unfold rowsOf at inside
        split at inside
        · cases inside
        · obtain ⟨ip, -, rfl⟩ := List.mem_map.mp inside
          rfl

/-- The ban of a row is lifted by its id exactly where neither the jail's name nor the address has a colon. -/
theorem unban_iff (host : Host) (root : Bool) : ∀ row ∈ fail2banBans host,
    (unban root row.id = some (lifts root row) ↔ ':' ∉ row.jail ∧ ':' ∉ row.ip) := by
  intro row member
  rw [id_of_mem member]
  exact unban_rowId_iff root row

/-- One jail with one address. -/
def oneBan (ip : String) : Host where
  found := true
  active := ⟨0, "active\n".toList⟩
  status := ⟨0, "Status\n|- Number of jail:\t1\n`- Jail list:\tsshd\n".toList⟩
  statusOf := fun _ => ⟨0, "   `- Banned IP list:\t".toList ++ ip.toList⟩

def row (ip : String) : Row := ⟨rowId "sshd".toList ip.toList, ip.toList, "sshd".toList, "sshd".toList⟩

theorem v4_is_lifted : row "192.0.2.7" ∈ fail2banBans (oneBan "192.0.2.7") ∧
    unban true (row "192.0.2.7").id = some (lifts true (row "192.0.2.7")) := by
  have member : row "192.0.2.7" ∈ fail2banBans (oneBan "192.0.2.7") := by decide +kernel
  exact ⟨member, (unban_iff (oneBan "192.0.2.7") true (row "192.0.2.7") member).mpr (by decide)⟩

/-- An IPv6 address is cut at its first colon. -/
theorem v6_is_cut : row "2001:db8::7" ∈ fail2banBans (oneBan "2001:db8::7") ∧
    unban true (row "2001:db8::7").id = some ["fail2ban-client".toList, "set".toList, "sshd".toList,
      "unbanip".toList, "2001".toList] ∧
    unban true (row "2001:db8::7").id ≠ some (lifts true (row "2001:db8::7")) := by
  decide +kernel

end SysDeck.Web.FailBans
