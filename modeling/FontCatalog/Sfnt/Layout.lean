import FontCatalog.Sfnt.Font

/-!
# Laying out tables

Written font data is directories followed by a body. The body is the
tables one after the other, each padded to a multiple of four bytes; where
each one starts follows from the lengths of those before it, so the
records of a directory can be written before the tables they point at.
`Layout.place` computes the records from where the body starts, and
`Layout.body` is the body.

A directory also carries three numbers for a binary search over its
records. They are reckoned in sixteen bits, as wide as they are written,
and reckoning stops where sixteen bits are too few
(`Layout.searchFields?`).
-/

namespace FontCatalog

/-- **A table to be written**: its name, the checksum to note for it, and
its bytes. -/
structure TableData where
  /-- The name of the table. -/
  tag : Tag
  /-- The checksum to note. -/
  checksum : UInt32
  /-- The bytes. -/
  bytes : Bytes
deriving DecidableEq

namespace Layout

/-- **The records of a list of tables** whose body starts at `start`. -/
def place (start : Nat) : List TableData → List TableRecord
  | [] => []
  | t :: ts =>
    ⟨t.tag, t.checksum, start, t.bytes.length⟩ :: place (start + t.bytes.padded.length) ts

/-- **The body**: every table, padded. -/
def body (ts : List TableData) : Bytes := ts.flatMap (·.bytes.padded)

/-- The sixteen bytes of a record. -/
def record (r : TableRecord) : Bytes :=
  Bytes.be32 r.tag.code.toNat ++ Bytes.be32 r.checksum.toNat ++ Bytes.be32 r.offset
    ++ Bytes.be32 r.length

/-- A product in sixteen bits, if it has a place there. -/
def product? (a b : UInt16) : Option UInt16 :=
  if a.toNat * b.toNat < 0x10000 then some (a * b) else none

/-- **The numbers that help a binary search** over `n` records of sixteen
bytes: the largest power of two of records that fits, in bytes; the
exponent of that power; and the bytes that are left over. There are none
where one of the products does not have a place in sixteen bits. -/
def searchFields? (n : UInt16) : Option (UInt16 × UInt16 × UInt16) :=
  if n = 0 then some (0, 0, 0)
  else do
    let exponent := UInt16.ofNat n.toNat.log2
    let range ← product? (1 <<< exponent) 16
    let bytes ← product? n 16
    return (range, exponent, bytes - range)

/-- The bytes of a directory: the version, the number of records, the
three search numbers and the records. For so many records that there are
no search numbers it has zeros in their place; packing does not write such
a directory. -/
def directory (version : UInt32) (records : List TableRecord) : Bytes :=
  let count := UInt16.ofNat records.length
  let (range, exponent, shift) := (searchFields? count).getD (0, 0, 0)
  Bytes.be32 version.toNat ++ Bytes.be16 count.toNat ++ Bytes.be16 range.toNat
    ++ Bytes.be16 exponent.toNat ++ Bytes.be16 shift.toNat ++ records.flatMap record

/-- The length of a directory of `n` records. -/
def directoryLength (n : Nat) : Nat := 12 + 16 * n

/-! ## Lengths and places -/

@[simp] theorem length_record (r : TableRecord) : (record r).length = 16 := rfl

@[simp] theorem length_place (start : Nat) (ts : List TableData) :
    (place start ts).length = ts.length := by
  induction ts generalizing start with
  | nil => rfl
  | cons t ts ih => simp [place, ih]

/-- A directory is as long as is reckoned with. -/
@[simp] theorem length_directory (version : UInt32) (records : List TableRecord) :
    (directory version records).length = directoryLength records.length := by
  have hrecords : (records.flatMap record).length = 16 * records.length := by
    induction records with
    | nil => rfl
    | cons r rs ih =>
      rw [List.flatMap_cons, List.length_append, ih, length_record, List.length_cons]
      omega
  simp only [directory, directoryLength, List.length_append, Bytes.length_be32, Bytes.length_be16,
    hrecords]

end Layout

end FontCatalog
