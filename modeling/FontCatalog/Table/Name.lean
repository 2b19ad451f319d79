import FontCatalog.LocalizedName
import FontCatalog.Sfnt.Font
import FontCatalog.Text.MacRoman
import FontCatalog.Text.Utf16

/-!
# The `name` table

Every text a font says of itself is a record of the `name` table: what it
names (a *name id*), how it is encoded and in which language (a platform,
an encoding and a language number), and which piece of the table's string
storage holds it. `NameTable.strings` reads all texts with one name id, in
the order of the records.

A record never fails on its own. A piece outside the storage and an
encoding that is not known read as the empty text, and a language that
cannot be made out is no language; a table that is not completely there is
no table.
-/

namespace FontCatalog

/-! ## Name ids -/

namespace NameId

/-- The family, in the older division into families of four styles. -/
def family : Nat := 1

/-- The style within the family. -/
def subfamily : Nat := 2

/-- Family and style together, as shown to users. -/
def full : Nat := 4

/-- The name a page description refers to a font by. -/
def postscript : Nat := 6

/-- The family, without the division into fours. -/
def typographicFamily : Nat := 16

end NameId

/-- **One record of the `name` table.** -/
structure NameRecord where
  /-- The numbering that encoding and language belong to. -/
  platform : Nat
  /-- The encoding of the text. -/
  encoding : Nat
  /-- The number of the language. -/
  language : Nat
  /-- What the text names. -/
  nameId : Nat
  /-- The length of the text in the storage, in bytes. -/
  length : Nat
  /-- Where the text starts in the storage. -/
  offset : Nat
deriving DecidableEq

/-- **A `name` table.** -/
structure NameTable where
  /-- The version of the table's format. -/
  version : Nat
  /-- The records, in their order. -/
  records : List NameRecord
  /-- Where in the storage the table's own language tags lie: length and
  start of each. -/
  languageTags : List (Nat × Nat)
  /-- The texts of all records. -/
  storage : Bytes

namespace NameRecord

/-- The record in twelve bytes. -/
def read? (b : Bytes) : Option NameRecord := do
  return ⟨← b.u16? 0, ← b.u16? 2, ← b.u16? 4, ← b.u16? 6, ← b.u16? 8, ← b.u16? 10⟩

/-- The text that bytes stand for in the encoding of the record: 16-bit
units, Mac Roman, or nothing that is known. -/
def decode (r : NameRecord) (b : Bytes) : String :=
  match r.platform, r.encoding with
  | 0, _ | 3, 0 | 3, 1 | 3, 10 => Text.Utf16.decode b
  | 1, 0 => Text.MacRoman.decode b
  | _, _ => ""

end NameRecord

namespace NameTable

/-- The longest language tag that is taken from a font, in characters. -/
def longestTag : Nat := 30

/-- The table, if all of its records are there. The newer versions of the
format have language tags behind the records. -/
def read? (b : Bytes) : Option NameTable := do
  let version ← b.u16? 0
  let count ← b.u16? 2
  let storageStart ← b.u16? 4
  let records ← (← b.records? 6 12 count).mapM NameRecord.read?
  let tags ← if version = 0 then pure [] else do
    let tagCount ← b.u16? (6 + 12 * count)
    (← b.records? (8 + 12 * count) 4 tagCount).mapM fun r => do
      return (← r.u16? 0, ← r.u16? 2)
  return ⟨version, records, tags, b.drop storageStart⟩

/-- The text of a record; one that is not in the storage is empty. -/
def string (t : NameTable) (r : NameRecord) : String :=
  ((t.storage.slice? r.offset r.length).map r.decode).getD ""

/-- A language tag of the table's own, if it is there and is a short text
in ASCII. -/
def languageTag? (t : NameTable) (index : Nat) : Option String := do
  let (length, start) ← t.languageTags[index]?
  let text := Text.Utf16.decode (← t.storage.slice? start length)
  if text.length ≤ longestTag && text.toList.all (·.toNat < 128) then some text else none

/-- **The language of a record.** In version 1 the numbers from `8000` on
stand for the table's own tags; all others are numbered languages, on the
two platforms that number them. -/
def language? (t : NameTable) (r : NameRecord) : Option String :=
  if t.version = 1 ∧ 0x8000 ≤ r.language then t.languageTag? (r.language - 0x8000)
  else if r.platform = 1 ∨ r.platform = 3 then Language.tag? r.language
  else none

/-- **The texts with one name id**, in the order of the records. -/
def strings (t : NameTable) (nameId : Nat) : List LocalizedName :=
  (t.records.filter (·.nameId == nameId)).map fun r => ⟨t.language? r, t.string r⟩

end NameTable

/-- The texts of a font with one name id; a font without a `name` table
has none. -/
def Tables.strings (tables : Tables) (nameId : Nat) : List LocalizedName :=
  match (tables (Tag.named "name")).bind NameTable.read? with
  | some t => t.strings nameId
  | none => []

end FontCatalog
