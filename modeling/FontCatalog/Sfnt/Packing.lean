import FontCatalog.Sfnt.Layout

/-!
# Packing fonts into a collection

`Font.pack` writes one file that holds several single fonts: a header with
the place of each member's directory, the directories, and then the tables
of all members. Nothing is shared; each member has its own copy of every
table, aligned to four bytes.

A member keeps the records of its font in their order, each with the
checksum it had, but for those whose bytes cannot be found: they are left
out. A tag that occurs twice is looked up twice, and a look-up finds the
first, so both records of the member carry the bytes of the first.

Not every collection can be written. Places and lengths have 32 bits, and
what does not fit is an error. The search numbers of a directory have
sixteen, and for those no error was thought of: reckoning them overflows,
and packing breaks off. `Font.failure?` is the first of these mishaps, in
the order in which a collection is written.
-/

namespace FontCatalog

/-- **Why fonts cannot be packed.** -/
inductive PackError where
  /-- A collection has at least one member. -/
  | noFonts
  /-- A member is not a single font. -/
  | unreadable (error : ReadError)
  /-- A position or a length does not fit in 32 bits. -/
  | tooLarge
  /-- Reckoning in sixteen bits overflows. This is not an error that is
  returned: packing breaks off. -/
  | overflow
deriving DecidableEq

namespace PackError

/-- What is said of the error. -/
def message : PackError → String
  | noFonts => "no fonts provided for collection"
  | unreadable error => "failed to parse font: " ++ error.message
  | tooLarge => "collection would exceed 4 GiB"
  | overflow => "attempt to multiply with overflow"

end PackError

namespace Font

/-- **A font to be packed**: its version and those of its tables that can
be found. -/
structure Member where
  /-- The version of the directory. -/
  version : UInt32
  /-- The tables, in the order of the directory. -/
  tables : List TableData
deriving DecidableEq

/-- What a font brings into a collection. -/
def member (f : Font) : Member where
  version := f.version
  tables := f.records.filterMap fun r =>
    (f.tables r.tag).map fun bytes => ⟨r.tag, r.checksum, bytes⟩

/-- Where the directories of the members start, the first one at `start`. -/
def directoryOffsets (start : Nat) : List Member → List Nat
  | [] => []
  | m :: ms => start :: directoryOffsets (start + Layout.directoryLength m.tables.length) ms

/-- The records of every member, the tables of the first one lying at
`start` and those of each further one behind the tables before them. -/
def placeMembers (start : Nat) : List Member → List (List TableRecord)
  | [] => []
  | m :: ms =>
    Layout.place start m.tables :: placeMembers (start + (Layout.body m.tables).length) ms

/-- The header of a collection whose directories start at `offsets`. -/
def collectionHeader (offsets : List Nat) : Bytes :=
  Bytes.be32 (Tag.named "ttcf").code.toNat ++ Bytes.be16 1 ++ Bytes.be16 0
    ++ Bytes.be32 offsets.length ++ offsets.flatMap Bytes.be32

/-- The length of the header of a collection of `n` members. -/
def headerLength (n : Nat) : Nat := 12 + 4 * n

/-- Where the tables of a collection start: behind the header and all
directories. -/
def bodyStart (members : List Member) : Nat :=
  members.foldl (fun start m => start + Layout.directoryLength m.tables.length)
    (headerLength members.length)

/-- Whether the numbers of the header can be written in 32 bits. -/
def headerFits (members : List Member) : Bool :=
  decide (members.length < 0x100000000)
    && (directoryOffsets (headerLength members.length) members).all (· < 0x100000000)

/-- **What keeps a member with these records from being written**, if
anything: its search numbers are reckoned first. -/
def memberFailure? (m : Member) (records : List TableRecord) : Option PackError :=
  match Layout.searchFields? (UInt16.ofNat m.tables.length) with
  | none => some .overflow
  | some _ =>
    if records.all fun r => r.offset < 0x100000000 && r.length < 0x100000000 then none
    else some .tooLarge

/-- **What keeps a collection from being written**, if anything: the header
is written before the members, and these in their order. -/
def failure? (members : List Member) : Option PackError :=
  if headerFits members then
    (members.zip (placeMembers (bodyStart members) members)).findSome? fun (m, records) =>
      memberFailure? m records
  else some .tooLarge

/-- **The file of a collection.** -/
def packMembers (members : List Member) : Bytes :=
  collectionHeader (directoryOffsets (headerLength members.length) members)
    ++ ((members.zip (placeMembers (bodyStart members) members)).flatMap fun (m, records) =>
          Layout.directory m.version records)
    ++ members.flatMap fun m => Layout.body m.tables

/-- **One file with all the given fonts.** Each of them has to be a single
font; the first that is not is the error. Then the collection is written,
up to the first number that cannot be. -/
def pack (fonts : List Bytes) : Except PackError Bytes := do
  if fonts.isEmpty then throw .noFonts
  let members ← fonts.mapM fun data =>
    ((readAt data 0).map member).mapError PackError.unreadable
  match failure? members with
  | some error => throw error
  | none => return packMembers members

end Font

end FontCatalog
