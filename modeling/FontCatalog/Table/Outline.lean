import FontCatalog.Table.VerticalMetrics

/-!
# The top of a glyph

Outlines lie one behind the other in the `glyf` table, and the `loca`
table says where each starts; the next entry is where it ends. An outline
of no bytes is an empty glyph, whose box is zero. Any other starts with
the number of its contours and its bounding box, and counts only if it is
complete: with contours of its own, up to the end of its instructions.
-/

namespace FontCatalog.Tables

/-- Where the outline of a glyph starts in the `glyf` table. The `head`
table says whether places are written in four bytes, or halved in two. -/
def outlineStart? (tables : Tables) (glyph : Nat) : Option Nat := do
  let wide := (← (← tables.head?).i16? 50) == 1
  let loca ← tables (Tag.named "loca")
  if wide then
    if loca.length % 4 = 0 then loca.u32? (4 * glyph) else none
  else if loca.length % 2 = 0 then (loca.u16? (2 * glyph)).map (2 * ·)
  else none

/-- **The top of a glyph's bounding box**; none for a glyph whose outline
cannot be found or is not complete. -/
def glyphTop? (tables : Tables) (glyph : Nat) : Option Int := do
  let start ← tables.outlineStart? glyph
  let stop ← tables.outlineStart? (glyph + 1)
  let glyf ← tables (Tag.named "glyf")
  if start = stop then return 0
  if stop < start then none
  let outline ← glyf.slice? start (stop - start)
  let contours ← outline.i16? 0
  let top ← outline.i16? 8
  -- Fewer than zero contours: the glyph is put together from others.
  if contours < 0 then return top
  let ends := 10 + 2 * contours.toNat
  let instructions ← outline.u16? ends
  let _ ← outline.slice? (ends + 2) instructions
  return top

end FontCatalog.Tables
