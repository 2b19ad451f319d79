import FontCatalog.Sfnt.Layout

/-!
# Checksums, and the file of a single font

The checksum of a sequence of bytes is the sum modulo `2^32` of its 32-bit
words, the last one filled up with zeros. A font file notes one per table
in its directory, and one number in its `head` table that makes the
checksum of the whole file the constant `0xB1B0AFBA`.

`Font.assemble` writes such a file from its tables. The tables lie in the
order in which they are given; the directory names them in the order of
their tags, as readers that search it expect.
-/

namespace FontCatalog

/-- **The sum of the 32-bit words** of a sequence of bytes. -/
def Bytes.checksum : Bytes → UInt32
  | x :: y :: z :: w :: rest => word x y z w + checksum rest
  | [x, y, z] => word x y z 0
  | [x, y] => word x y 0 0
  | [x] => word x 0 0 0
  | [] => 0
where
  /-- The number that four bytes form. -/
  word (x y z w : UInt8) : UInt32 :=
    ((x.toUInt32 * 256 + y.toUInt32) * 256 + z.toUInt32) * 256 + w.toUInt32

namespace Font

/-- The checksum of every complete font file. -/
def fileChecksum : UInt32 := 0xB1B0AFBA

/-- A `head` table with its adjustment, the four bytes from position 8 on,
set to `n`. -/
def withAdjustment (head : Bytes) (n : UInt32) : Bytes :=
  head.take 8 ++ Bytes.be32 n.toNat ++ head.drop 12

/-- The table with the checksum that belongs to its bytes. -/
def checked (tag : Tag) (bytes : Bytes) : TableData := ⟨tag, bytes.checksum, bytes⟩

/-- **The file of a single font**, from its tables in the order in which
they are to lie there. The `head` table is given with an adjustment of
zero; that is what its own checksum is taken over. -/
def assemble (version : UInt32) (tables : List (Tag × Bytes)) : Bytes :=
  let ts := tables.map fun (tag, bytes) => checked tag bytes
  let records := Layout.place (Layout.directoryLength ts.length) ts
  let directory := Layout.directory version (records.mergeSort fun r s => r.tag.le s.tag)
  let sum := ts.foldl (fun sum t => sum + t.checksum) directory.checksum
  let adjusted := ts.map fun t =>
    if t.tag = Tag.named "head" then
      { t with bytes := withAdjustment t.bytes (fileChecksum - sum) }
    else t
  directory ++ Layout.body adjusted

end Font

end FontCatalog
