import FontCatalog.Bytes
import FontCatalog.Sfnt.Tag

/-!
# Fonts and the files that hold them

A font is a directory of tables: a version, and a record per table with
its tag, a checksum, and where in the file its bytes lie. A file holds one
font, whose directory is at the start, or is a *collection*: a header with
the places of several directories. Positions of tables always count from
the start of the file, so members of a collection may share them.

Everything that is read *from* a font – names, metrics, outlines,
variations – is read through `Font.tables`, the function from a tag to the
bytes of that table. Two fonts with the same tables are therefore the same
font to every reader, wherever their bytes lie.

`Font.faces` reads every font of a file and `Font.face` reads the one with
a given index. Both read the file anew.
-/

namespace FontCatalog

/-- **Why font data cannot be read.** -/
inductive ReadError where
  /-- Something needed lies beyond the end of the data. -/
  | outOfBounds
  /-- The directory starts with a version that no font has. -/
  | invalidVersion (version : UInt32)
  /-- The file has no font with this index. -/
  | invalidIndex (index : Nat)
deriving DecidableEq

namespace ReadError

/-- A number in eight upper-case hexadecimal digits. -/
def hex8 (n : Nat) : String :=
  let digits := (Nat.toDigits 16 n).map Char.toUpper
  String.ofList (List.replicate (8 - digits.length) '0' ++ digits)

/-- What is said of the error. -/
def message : ReadError → String
  | outOfBounds => "An offset was out of bounds"
  | invalidVersion version => "Invalid sfnt version 0x" ++ hex8 version.toNat
  | invalidIndex index => "Invalid index " ++ toString index ++ " for font collection"

end ReadError

/-- **What a directory says of one table.** -/
structure TableRecord where
  /-- The name of the table. -/
  tag : Tag
  /-- The checksum noted for the table; readers do not test it. -/
  checksum : UInt32
  /-- Where the table starts in the file. -/
  offset : Nat
  /-- How many bytes it has. -/
  length : Nat
deriving DecidableEq, Inhabited

/-- The tables of a font, by tag; a font need not have every table. -/
abbrev Tables := Tag → Option Bytes

/-- **A font**: its directory, and the file that the directory refers to. -/
structure Font where
  /-- The version the directory starts with. -/
  version : UInt32
  /-- The records of the directory, in their order there. -/
  records : List TableRecord
  /-- The whole file. -/
  data : Bytes
deriving DecidableEq

namespace TableRecord

/-- The record in sixteen bytes. -/
def read? (b : Bytes) : Option TableRecord := do
  let tag ← b.u32? 0
  let checksum ← b.u32? 4
  let offset ← b.u32? 8
  let length ← b.u32? 12
  return ⟨Tag.ofNat tag, UInt32.ofNat checksum, offset, length⟩

/-- The bytes a record refers to. A record that points at the very start
of the file refers to nothing. -/
def slice? (r : TableRecord) (data : Bytes) : Option Bytes :=
  if r.offset = 0 then none else data.slice? r.offset r.length

end TableRecord

namespace Font

/-- The versions a font may have: outlines of either kind. -/
def versions : List UInt32 := [0x00010000, (Tag.named "OTTO").code, (Tag.named "true").code]

/-- **The tables of a font.** Of several records with one tag the first
counts. -/
def tables (f : Font) : Tables := fun tag =>
  (f.records.find? (·.tag == tag)).bind (·.slice? f.data)

/-- The font whose directory starts at `offset`. The whole directory has
to be there before its version is looked at. -/
def readAt (data : Bytes) (offset : Nat) : Except ReadError Font :=
  let directory? : Option (Nat × List TableRecord) := do
    let b ← data.from? offset
    let count ← b.u16? 4
    let records ← b.records? 12 16 count
    return (← b.u32? 0, ← records.mapM TableRecord.read?)
  match directory? with
  | none => .error .outOfBounds
  | some (version, records) =>
    if UInt32.ofNat version ∈ versions then .ok ⟨UInt32.ofNat version, records, data⟩
    else .error (.invalidVersion (UInt32.ofNat version))

/-- **The header of a collection**: where the directories of its members
start. Data without a complete header is not a collection. -/
def collectionOffsets? (data : Bytes) : Option (List Nat) := do
  let tag ← data.u32? 0
  let major ← data.u16? 4
  let count ← data.u32? 8
  let offsets ← data.records? 12 4 count
  -- The second version of the header has three more numbers at its end.
  let _ ← data.slice? (12 + 4 * count) (if major = 2 then 12 else 0)
  if Tag.ofNat tag = Tag.named "ttcf" then offsets.mapM (·.u32? 0) else none

/-- **Every font of a file**, in order; one that cannot be read fails the
whole file. -/
def faces (data : Bytes) : Except ReadError (List Font) :=
  match collectionOffsets? data with
  | some offsets => offsets.mapM (readAt data)
  | none => (readAt data 0).map ([·])

/-- **The font of a file with a given index.** -/
def face (data : Bytes) (index : Nat) : Except ReadError Font :=
  match collectionOffsets? data with
  | some offsets =>
    match offsets[index]? with
    | some offset => readAt data offset
    | none => .error (.invalidIndex index)
  | none => (readAt data 0).bind fun font =>
    if index = 0 then .ok font else .error (.invalidIndex index)

end Font

end FontCatalog
