import SysDeck.Library.NumberArithmetic

/-! The vault bridge: the LUKS volumes of an lsblk inventory, their sizes in KiB and the summary. -/

namespace SysDeck.Web.Vault

/-! ### The inventory -/

structure BlockDevice where
  name : String
  size : String
  fstype : Option String
  mountpoint : Option String
  type : String
  children : List BlockDevice

mutual

def walk : BlockDevice → List BlockDevice
  | ⟨name, size, fstype, mountpoint, type, children⟩ =>
    ⟨name, size, fstype, mountpoint, type, children⟩ :: flatten children

def flatten : List BlockDevice → List BlockDevice
  | [] => []
  | device :: rest => walk device ++ flatten rest

end

/-! ### Sizes -/

/-- The group `([KMGT]i?B)?` of the size, letters in either case. -/
def unitGroup : List Char → Option (List Char)
  | scale :: i :: b :: _ =>
    if scale.toUpper ∈ ['K', 'M', 'G', 'T'] then
      if i.toUpper = 'I' ∧ b.toUpper = 'B' then some [scale, i, b]
      else if i.toUpper = 'B' then some [scale, i]
      else none
    else none
  | [scale, b] => if scale.toUpper ∈ ['K', 'M', 'G', 'T'] ∧ b.toUpper = 'B' then some [scale, b] else none
  | _ => none

/-- The table of the units, with its default. -/
def mult (unit : String) : ℚ :=
  if unit = "B" then 1 / 1024
  else if unit = "KB" ∨ unit = "K" then 1
  else if unit = "MB" ∨ unit = "M" then 1024
  else if unit = "GB" ∨ unit = "G" then 1024 ^ 2
  else if unit = "TB" ∨ unit = "T" then 1024 ^ 3
  else 1

def isNumberPart (c : Char) : Bool := c.isDigit || c = '.'

def parseSizeToKiB (size : String) : Option Number :=
  let number := size.toList.takeWhile isNumberPart
  if number = [] then none
  else
    let n := Number.ofText number
    let group := unitGroup ((size.toList.dropWhile isNumberPart).dropWhile Text.isBlank)
    let unit := ((group.getD []).map Char.toUpper).erase 'I'
    some (n.mul (.ofRat (mult (String.ofList unit)))).round

/-! ### Volumes and the summary -/

inductive Status where
  | unlocked
  | locked
  deriving DecidableEq

structure VaultEntryRow where
  id : String
  label : String
  device : String
  cipher : String
  sizeBytes : Option Number
  status : Status
  note : String

/-- The open mapper of a volume. -/
def mapper (device : BlockDevice) : Option BlockDevice := device.children.find? (·.type = "crypt")

/-- A mountpoint that JavaScript takes for true. -/
def mounted (device : BlockDevice) : Option String :=
  device.children.head?.bind fun child => child.mountpoint.filter (· ≠ "")

def volumeRow (luksCipher : String → Option String) (device : BlockDevice) : VaultEntryRow where
  id := "live:" ++ device.name
  label := match mapper device with
    | some child => child.name
    | none => device.name
  device := "/dev/" ++ device.name
  cipher := (luksCipher device.name).getD "crypto_LUKS"
  sizeBytes := parseSizeToKiB device.size
  status := if (mapper device).isSome then .unlocked else .locked
  note := match mapper device with
    | some child => "open as /dev/mapper/" ++ child.name ++
      match mounted child with
        | some mountpoint => " → " ++ mountpoint
        | none => ""
    | none => "no open mapper — locked"

def luksEntries (luksCipher : String → Option String) (devices : List BlockDevice) : List VaultEntryRow :=
  ((flatten devices).filter (·.fstype = some "crypto_LUKS")).map (volumeRow luksCipher)

structure Summary where
  entries : ℕ
  luksVolumes : ℕ
  unlocked : ℕ
  locked : ℕ
  keyfiles : ℕ
  tpmSealed : ℕ
  encryptedKiB : Number
  encryptedGb : Number

def encryptedKiB (luksRows : List VaultEntryRow) : Number :=
  luksRows.foldl (fun n e => n.add (e.sizeBytes.getD (.ofInt 0))) (.ofInt 0)

/-- The summary of the volumes and a number of keyfiles. -/
def summary (luksRows : List VaultEntryRow) (keyRows : ℕ) : Summary where
  entries := luksRows.length + keyRows
  luksVolumes := luksRows.length
  unlocked := luksRows.countP (·.status = .unlocked)
  locked := luksRows.countP (·.status = .locked)
  keyfiles := keyRows
  tpmSealed := 0
  encryptedKiB := encryptedKiB luksRows
  encryptedGb := ((((encryptedKiB luksRows).div (.ofInt (1024 ^ 2))).mul (.ofInt 10)).round).div (.ofInt 10)

/-! ### What lsblk prints -/

inductive Scale where
  | kilo
  | mega
  | giga
  | tera
  | peta

def Scale.letter : Scale → Char
  | .kilo => 'K'
  | .mega => 'M'
  | .giga => 'G'
  | .tera => 'T'
  | .peta => 'P'

/-- The power of 1024 beyond the KiB. -/
def Scale.power : Scale → ℕ
  | .kilo => 0
  | .mega => 1
  | .giga => 2
  | .tera => 3
  | .peta => 4

inductive Suffix where
  | nothing
  | bytes
  | short (scale : Scale)
  | binary (scale : Scale)

def Suffix.text : Suffix → List Char
  | .nothing => []
  | .bytes => ['B']
  | .short scale => [scale.letter]
  | .binary scale => [scale.letter, 'i', 'B']

/-- The unit in KiB; a number without one is of bytes. -/
def Suffix.unit : Suffix → ℚ
  | .nothing | .bytes => 1 / 1024
  | .short scale | .binary scale => 1024 ^ scale.power

/-- A size that lsblk prints: a decimal number, with digits after a point or without, and a suffix. -/
structure Size where
  whole : List Char
  fraction : Option (List Char)
  suffix : Suffix
  written : whole ≠ []
  digits : ∀ c ∈ whole ++ fraction.getD [], c.isDigit

namespace Size

def numeral (size : Size) : List Char :=
  match size.fraction with
  | some fraction => size.whole ++ '.' :: fraction
  | none => size.whole

def text (size : Size) : String := String.ofList (size.numeral ++ size.suffix.text)

/-- The number that the digits write. -/
def number (size : Size) : ℚ :=
  Nat.ofDigitChars 10 (size.whole ++ size.fraction.getD []) 0 / 10 ^ (size.fraction.getD []).length

/-- The number times the unit. -/
def amount (size : Size) : ℚ := size.number * size.suffix.unit

/-- The number times the unit in KiB, rounded. -/
def kib (size : Size) : ℤ := ⌊size.amount + 1 / 2⌋

end Size

/-- The sizes of the LUKS volumes of a forest, each at its node. -/
inductive Volumes : List BlockDevice → List Size → Prop where
  | nil : Volumes [] []
  | volume {device : BlockDevice} {rest : List BlockDevice} {size : Size} {inside after : List Size} :
    device.fstype = some "crypto_LUKS" → device.size = size.text → Volumes device.children inside →
      Volumes rest after → Volumes (device :: rest) (size :: inside ++ after)
  | other {device : BlockDevice} {rest : List BlockDevice} {inside after : List Size} :
    device.fstype ≠ some "crypto_LUKS" → Volumes device.children inside → Volumes rest after →
      Volumes (device :: rest) (inside ++ after)

/-- Each volume has the KiB of its size, and the summary their sum. -/
structure Right (luksCipher : String → Option String) (devices : List BlockDevice) (keyRows : ℕ)
    (sizes : List Size) : Prop where
  values : (luksEntries luksCipher devices).map (fun row => row.sizeBytes.bind Number.value?) =
    sizes.map fun size => some (size.kib : ℚ)
  total : (summary (luksEntries luksCipher devices) keyRows).encryptedKiB.value? =
    some (((sizes.map Size.kib).sum : ℤ) : ℚ)

/-! ### When it is right -/

/-- The unit is in the table, or its KiB are the default. -/
def Suffix.known : Suffix → Bool
  | .short .kilo | .binary .kilo | .binary .mega | .binary .giga | .binary .tera => true
  | _ => false

/-- The double nearest to the number is there. Where the unit is known, its product with the unit is finite and
on the same side of every half as the amount; elsewhere number and amount are less than half. -/
def Size.Fits (size : Size) : Prop :=
  ∃ n : Binary64, Binary64.ofRat? size.number = some n ∧
    if size.suffix.known then
      n.value * size.suffix.unit < 2 ^ 1024 ∧
        ∀ m : ℤ, m + 1 / 2 ≤ size.amount ↔ m + 1 / 2 ≤ n.value * size.suffix.unit
    else n.value < 1 / 2 ∧ size.amount < 1 / 2

/-- Added as doubles, one after the other, the numbers come to their sum. -/
def AddsUp (values : List ℤ) : Prop :=
  ((values.map Number.ofInt).foldl Number.add (.ofInt 0)).value? = some ((values.sum : ℤ) : ℚ)

end SysDeck.Web.Vault
