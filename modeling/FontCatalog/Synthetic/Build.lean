import FontCatalog.Sfnt.Checksum
import FontCatalog.Synthetic.NameTable

/-!
# Building a synthetic font

The file of a synthetic font has ten tables. Names and metrics come from
the order; everything else is the same for all synthetic fonts: two glyphs
of one width, of which the second is a box for the letter x, standing on
the baseline between 50 and 450.

Each table is written field by field, in the order of its format.
-/

namespace FontCatalog

namespace SyntheticFont

open Bytes

/-- The width of both glyphs. -/
def advance : Nat := 500

/-- Where the box starts. -/
def boxLeft : Nat := 50

/-- Where the box ends. -/
def boxRight : Nat := 450

/-- The only character of a synthetic font. -/
def character : Nat := 'x'.toNat

/-! ## The outline -/

/-- How one step of a coordinate is written: nothing for no step, one byte
for a short one and two for a long one. The flags, for the given bits, say
which it is, and of a short step whether it is upwards. -/
def step (short same : Nat) (d : Int) : Nat × Bytes :=
  if d = 0 then (same, [])
  else if d.natAbs ≤ 255 then
    (if 0 < d then short + same else short, [UInt8.ofNat d.natAbs])
  else (0, beSigned16 d)

/-- The corners of the box, each as its step from the one before. -/
def corners (top : Int) : List (Int × Int) :=
  [(boxLeft, 0), (0, top), (boxRight - boxLeft, 0), (0, -top)]

/-- **The outline of the box** up to `top`, which may lie below the
baseline: its bounding box, its one contour, no instructions, and the
flags and steps of its corners. -/
def box (top : Int) : Bytes :=
  let xs := (corners top).map fun (x, _) => step 0x02 0x10 x
  let ys := (corners top).map fun (_, y) => step 0x04 0x20 y
  be16 1 ++ be16 boxLeft ++ beSigned16 (min 0 top) ++ be16 boxRight ++ beSigned16 (max 0 top)
    ++ be16 3 ++ be16 0
    ++ (xs.zip ys).map (fun (x, y) => UInt8.ofNat (0x01 + x.1 + y.1))
    ++ xs.flatMap (·.2) ++ ys.flatMap (·.2)

/-- The `glyf` table: the first glyph is empty, and the second is the box,
brought to an even length. -/
def glyfTable (top : Int) : Bytes :=
  let outline := box top
  outline ++ zeros (outline.length % 2)

/-- The `loca` table: both glyphs start at the beginning. Places are
halved. -/
def locaTable (top : Int) : Bytes :=
  be16 0 ++ be16 0 ++ be16 ((glyfTable top).length / 2)

/-! ## The other tables -/

/-- The `head` table, with an adjustment of zero. -/
def headTable (f : SyntheticFont) : Bytes :=
  be16 1 ++ be16 0               -- version
    ++ be32 0x00010000           -- revision
    ++ be32 0                    -- checksum adjustment
    ++ be32 0x5F0F3CF5           -- magic number
    ++ be16 0                    -- flags
    ++ be16 f.unitsPerEm.toNat
    ++ zeros 16                  -- dates of creation and change
    ++ be16 boxLeft ++ be16 0 ++ be16 boxRight ++ beSigned16 f.boxHeight.toInt
    ++ be16 0                    -- style flags
    ++ be16 8                    -- smallest readable size
    ++ be16 2                    -- direction
    ++ be16 0 ++ be16 0          -- formats of `loca` and of `glyf`

/-- The `hhea` table. -/
def hheaTable (f : SyntheticFont) : Bytes :=
  be16 1 ++ be16 0               -- version
    ++ beSigned16 f.ascender.toInt ++ beSigned16 f.descender.toInt
    ++ be16 0                    -- line gap
    ++ be16 advance
    ++ be16 0 ++ be16 0          -- side bearings
    ++ be16 boxRight             -- greatest extent
    ++ be16 1 ++ be16 0 ++ be16 0   -- an upright caret
    ++ zeros 8 ++ be16 0         -- reserved, and the format of `hmtx`
    ++ be16 2                    -- widths in `hmtx`

/-- The `maxp` table. -/
def maxpTable : Bytes :=
  be32 0x00010000 ++ be16 2      -- version, glyphs
    ++ be16 4 ++ be16 1          -- points and contours
    ++ be16 0 ++ be16 0          -- of composite glyphs
    ++ be16 1                    -- zones
    ++ zeros 16                  -- nothing for instructions and components

/-- The `OS/2` table. The version with heights is written only if the
order states a height of lower-case letters. -/
def os2Table (f : SyntheticFont) : Bytes :=
  be16 (if f.xHeight.isSome then 4 else 1)
    ++ be16 advance ++ be16 400 ++ be16 5 ++ be16 0
    ++ be16 650 ++ be16 600 ++ be16 0 ++ be16 75     -- subscripts
    ++ be16 650 ++ be16 600 ++ be16 0 ++ be16 350    -- superscripts
    ++ be16 50 ++ be16 300 ++ be16 0                 -- strike-out, class
    ++ zeros 10                                      -- classification
    ++ be32 1 ++ be32 0 ++ be32 0 ++ be32 0          -- Unicode ranges
    ++ be32 (Tag.named "NONE").code.toNat            -- vendor
    ++ be16 0x40                                     -- a regular style
    ++ be16 character ++ be16 character              -- first and last
    ++ beSigned16 f.ascender.toInt ++ beSigned16 f.descender.toInt ++ be16 0
    ++ be16 f.ascender.toInt.natAbs ++ be16 f.descender.toInt.natAbs
    ++ be32 1 ++ be32 0                              -- code pages
    ++ match f.xHeight with
      | some h =>
        beSigned16 h.toInt ++ beSigned16 f.capHeight.toInt
          ++ be16 0 ++ be16 0x20 ++ be16 0           -- characters, context
      | none => []

/-- The `hmtx` table: width and left side bearing of each glyph. -/
def hmtxTable : Bytes := be16 advance ++ be16 0 ++ be16 advance ++ be16 boxLeft

/-- The `cmap` table: one map of two segments, for two platforms. The first
segment has the one character; the second one closes the map. -/
def cmapTable : Bytes :=
  be16 0 ++ be16 2
    ++ be16 0 ++ be16 3 ++ be32 20
    ++ be16 3 ++ be16 1 ++ be32 20
    ++ be16 4 ++ be16 32 ++ be16 0                   -- format, length, language
    ++ be16 4 ++ be16 4 ++ be16 1 ++ be16 0          -- segments, search numbers
    ++ be16 character ++ be16 0xFFFF                 -- ends
    ++ be16 0
    ++ be16 character ++ be16 0xFFFF                 -- starts
    ++ beSigned16 (1 - character) ++ be16 1          -- deltas
    ++ be16 0 ++ be16 0                              -- distances

/-- The `post` table, of the version without glyph names. -/
def postTable : Bytes :=
  be32 0x00030000 ++ be32 0 ++ beSigned16 (-100) ++ be16 50 ++ zeros 20

/-! ## The file -/

/-- **The file of a synthetic font**, if its names can be written. -/
def build (f : SyntheticFont) : Except BuildError Bytes := do
  let names ← f.nameTable
  let top := f.boxHeight.toInt
  return Font.assemble 0x00010000
    [(Tag.named "head", f.headTable), (Tag.named "hhea", f.hheaTable),
     (Tag.named "maxp", maxpTable), (Tag.named "OS/2", f.os2Table),
     (Tag.named "hmtx", hmtxTable), (Tag.named "cmap", cmapTable),
     (Tag.named "loca", locaTable top), (Tag.named "glyf", glyfTable top),
     (Tag.named "name", names), (Tag.named "post", postTable)]

end SyntheticFont

end FontCatalog
