import FontCatalog.Metric
import FontCatalog.Sfnt.Font

/-!
# Vertical metrics

Three tables give vertical metrics: `head` the units per em, `hhea` an
ascender and a descender, and `OS/2` two more pairs of them and, in its
later versions, the heights of lower-case and capital letters. Which pair
counts is a matter of precedence (`Tables.lineExtent`): the typographic
pair if the font asks for it, else the pair of `hhea`, and only where that
is twice zero the pairs of `OS/2`, the typographic one before the one for
clipping.
-/

namespace FontCatalog

/-- **What is used of an `OS/2` table.** -/
structure Os2 where
  /-- Style flags. -/
  selection : Nat
  /-- The typographic ascender. -/
  typoAscender : Int
  /-- The typographic descender, negative below the baseline. -/
  typoDescender : Int
  /-- The clipping height above the baseline. -/
  winAscent : Nat
  /-- The clipping height below the baseline, as a positive amount. -/
  winDescent : Nat
  /-- The height of lower-case letters, if the version has one. -/
  xHeight : Option Int
  /-- The height of capital letters, if the version has one. -/
  capHeight : Option Int
deriving DecidableEq

namespace Os2

/-- How long a table of a given version is at least. -/
def minLength (version : Nat) : Nat :=
  if version = 0 then 78 else if version = 1 then 86 else if version < 5 then 96 else 100

/-- The table, if it is as long as its version demands. -/
def read? (b : Bytes) : Option Os2 := do
  let version ← b.u16? 0
  if b.length < minLength version then none
  let heights := decide (2 ≤ version)
  return {
    selection := ← b.u16? 62
    typoAscender := ← b.i16? 68
    typoDescender := ← b.i16? 70
    winAscent := ← b.u16? 74
    winDescent := ← b.u16? 76
    xHeight := if heights then b.i16? 86 else none
    capHeight := if heights then b.i16? 88 else none }

/-- Whether the font asks for its typographic metrics. -/
def usesTypographic (t : Os2) : Bool := t.selection.testBit 7

end Os2

namespace Tables

/-- The `OS/2` table of a font. -/
def os2? (tables : Tables) : Option Os2 := (tables (Tag.named "OS/2")).bind Os2.read?

/-- The `head` table of a font, if it is complete. -/
def head? (tables : Tables) : Option Bytes :=
  (tables (Tag.named "head")).filter (54 ≤ ·.length)

/-- **The units per em**; zero for a font without a `head` table. -/
def unitsPerEm (tables : Tables) : Nat := (tables.head?.bind (·.u16? 18)).getD 0

/-- Ascender and descender of the `hhea` table; zero without it. -/
def hheaExtent (tables : Tables) : Int × Int :=
  let hhea? := (tables (Tag.named "hhea")).filter (36 ≤ ·.length)
  ((hhea?.bind (·.i16? 4)).getD 0, (hhea?.bind (·.i16? 6)).getD 0)

/-- **How far lines reach above and below the baseline.** -/
def lineExtent (tables : Tables) : Metric × Metric :=
  let (ascender, descender) := tables.hheaExtent
  let hhea := (Metric.whole ascender, Metric.whole descender)
  match tables.os2? with
  | none => hhea
  | some os2 =>
    let typographic := (Metric.whole os2.typoAscender, Metric.whole os2.typoDescender)
    if os2.usesTypographic then typographic
    else if ascender ≠ 0 ∨ descender ≠ 0 then hhea
    else if os2.typoAscender ≠ 0 ∨ os2.typoDescender ≠ 0 then typographic
    else (Metric.whole os2.winAscent, Metric.below os2.winDescent)

end Tables

end FontCatalog
