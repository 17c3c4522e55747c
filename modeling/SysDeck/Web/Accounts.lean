import SysDeck.Library.Numeral
import SysDeck.Library.OrderedMap
import SysDeck.Web.Users

/-! The accounts behind a session: the host's passwd and group files, and the local
accounts of the console. -/

namespace SysDeck.Web

structure UnixAccount where
  uid : Binary64
  gid : Number
  gecos : List Char
  home : List Char
  shell : List Char
  deriving DecidableEq

abbrev PasswdRows := OrderedMap (List Char) UnixAccount

/-- A line of the passwd file with a name and a numeric user id. -/
def passwdEntry (line : List Char) : Option (List Char × UnixAccount) :=
  match line.splitOn ':' with
  | name :: _ :: uid :: rest =>
    if name = [] then none
    else (Number.ofText uid).finite?.map fun uid =>
      (name, { uid
               gid := (rest[0]?.map Number.ofText).getD .nan
               gecos := rest[1]?.getD []
               home := rest[2]?.getD []
               shell := rest[3]?.getD [] })
  | _ => none

/-- The rows of the passwd file; no file has no rows. -/
def passwdRows : Option (List Char) → PasswdRows
  | none => .empty
  | some text => .ofList ((text.splitOn '\n').filterMap passwdEntry)

def adminGroups : List (List Char) :=
  ["wheel", "sudo", "adm", "administrator", "root"].map String.toList

def groupAdmins (line : List Char) : List (List Char) :=
  match line.splitOn ':' with
  | [] => []
  | name :: rest =>
    if adminGroups.contains name then
      (((rest[2]?.getD []).splitOn ',').map Text.trim).filter (· ≠ [])
    else []

/-- The members of the admin groups. -/
def adminUsernames : Option (List Char) → List (List Char)
  | none => []
  | some text => (text.splitOn '\n').flatMap groupAdmins

/-- A row of the SdUser table. -/
structure LocalAccount where
  realname : Option (List Char)
  disabled : Bool
  deriving DecidableEq

abbrev LocalAccounts := OrderedMap (List Char) LocalAccount

inductive AccountSource where
  | unix
  | localStore
  deriving DecidableEq

structure ConsoleUser where
  username : List Char
  realname : Option (List Char)
  uid : Option Binary64
  gid : Option Number
  home : Option (List Char)
  shell : Option (List Char)
  isAdmin : Bool
  source : AccountSource
  deriving DecidableEq

def orNull (text : List Char) : Option (List Char) := if text = [] then none else some text

def UnixAccount.isAdmin (account : UnixAccount) (username : List Char)
    (admins : List (List Char)) : Bool :=
  admins.contains username || account.uid.value = 0

def UnixAccount.profile (account : UnixAccount) (username : List Char)
    (admins : List (List Char)) : ConsoleUser where
  username
  realname := orNull (Text.trim (account.gecos.takeWhile (· ≠ ',')))
  uid := some account.uid
  gid := some account.gid
  home := orNull account.home
  shell := orNull account.shell
  isAdmin := account.isAdmin username admins
  source := .unix

def LocalAccount.isAdmin (username : List Char) (admins : List (List Char)) : Bool :=
  username = "root".toList || admins.contains username

def LocalAccount.profile (account : LocalAccount) (username : List Char)
    (admins : List (List Char)) : ConsoleUser where
  username
  realname := account.realname
  uid := none
  gid := none
  home := none
  shell := none
  isAdmin := LocalAccount.isAdmin username admins
  source := .localStore

/-- The identity of a name: its unix row first, and else its local one. -/
def consoleUser (username : List Char) (admins : List (List Char)) (rows : PasswdRows)
    (account : Option LocalAccount) : Option ConsoleUser :=
  match rows.find? username with
  | some unix => some (unix.profile username admins)
  | none => account.map fun account => account.profile username admins

theorem consoleUser_isAdmin {username : List Char} {admins : List (List Char)} {rows : PasswdRows}
    {account : Option LocalAccount} {profile : ConsoleUser}
    (known : consoleUser username admins rows account = some profile) (admin : profile.isAdmin) :
    (∃ unix, rows.find? username = some unix ∧ unix.isAdmin username admins) ∨
      rows.find? username = none ∧ (∃ row, account = some row) ∧
        LocalAccount.isAdmin username admins := by
  unfold consoleUser at known
  split at known
  · rename_i unix row
    cases known
    exact .inl ⟨unix, row, admin⟩
  · rename_i absent
    obtain ⟨row, found, rfl⟩ := Option.map_eq_some_iff.mp known
    exact .inr ⟨absent, ⟨row, found⟩, admin⟩

/-! The operations of the account manager. -/

inductive ManageCommand where
  | add (username : List Char) (realname : Option (List Char)) (password : List Char)
  | passwd (username : List Char) (password : List Char)
  | disable (username : List Char)
  | enable (username : List Char)
  | remove (username : List Char)

def manage (accounts : LocalAccounts) : ManageCommand → LocalAccounts
  | .add username realname password =>
    if validUsername username && !accounts.contains username && 4 ≤ Text.utf16Length password then
      accounts.set username { realname, disabled := false }
    else accounts
  -- the hash of the row is not part of the model
  | .passwd _ _ => accounts
  | .disable username => accounts.modify username fun account => { account with disabled := true }
  | .enable username => accounts.modify username fun account => { account with disabled := false }
  | .remove username => accounts.erase username

/-- The first account of an empty table. -/
def seedDefaultLocalAccount (accounts : LocalAccounts) (name : List Char) : LocalAccounts :=
  if accounts.size = 0 then
    accounts.set (if name = [] then "sysdeck".toList else name)
      { realname := some "Console operator (seeded default)".toList, disabled := false }
  else accounts

end SysDeck.Web
