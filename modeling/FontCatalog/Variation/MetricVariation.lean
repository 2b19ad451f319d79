import FontCatalog.Search
import FontCatalog.Sfnt.Font
import FontCatalog.Variation.Fixed

/-!
# Variation of metrics

A variable font may say how its metrics change over its axes. The `MVAR`
table names, for each metric, a row of deltas in a store. A column of the
store belongs to a *region* of the space of axes: a box with a peak, on
which the column counts fully at the peak and less and less towards the
sides. The change of a metric at a location is the sum of its deltas, each
scaled by how much its region counts there.

Whatever is missing – the table, the metric, the row, a region – leaves
the metric as it is, and so does a row that cannot be read.
-/

namespace FontCatalog

/-- **One side of a region**: where on an axis it starts, peaks and ends,
in fixed point. -/
structure RegionAxis where
  /-- Where the region starts to count. -/
  start : Int
  /-- Where it counts fully. -/
  peak : Int
  /-- Where it stops counting. -/
  stop : Int
deriving DecidableEq

namespace RegionAxis

/-- The side in six bytes. -/
def read? (b : Bytes) : Option RegionAxis := do
  return ⟨(← b.i16? 0) * 4, (← b.i16? 2) * 4, (← b.i16? 4) * 4⟩

/-- Whether the side limits the region. One that peaks in the middle does
not, and one that is out of order or spans the middle is passed over. -/
def limits (r : RegionAxis) : Bool :=
  r.peak ≠ 0 && !(r.peak < r.start || r.stop < r.peak || (r.start < 0 && 0 < r.stop))

end RegionAxis

/-- **How much a region counts at a location**, in fixed point. Axes that
the location does not have are at the default. -/
def regionScalar (region : List RegionAxis) (location : List Int) : Int :=
  region.zipIdx.foldl (fun scalar (side, i) =>
    let c := location.getD i 0
    if !side.limits || c = side.peak then scalar
    else if c < side.start || side.stop < c then 0
    else if c < side.peak then Fixed.mulDiv scalar (c - side.start) (side.peak - side.start)
    else Fixed.mulDiv scalar (side.stop - c) (side.stop - side.peak)) Fixed.one

namespace DeltaStore

/-- The regions of a store: all of them have to be there. -/
def regions? (store : Bytes) : Option (List (List RegionAxis)) := do
  let start ← store.u32? 2
  if start = 0 then none
  let b ← store.from? start
  let axisCount ← b.u16? 0
  let regions ← b.records? 4 (6 * axisCount) (← b.u16? 2)
  regions.mapM fun region => (Bytes.chunks 6 axisCount region).mapM RegionAxis.read?

/-- The deltas of row `inner` of a block of rows. The first columns are
stored in words and the others in half as many bytes; a flag makes both
twice as wide. -/
def row? (block : Bytes) (inner : Nat) : Option (List Int) := do
  let itemCount ← block.u16? 0
  let flags ← block.u16? 2
  let columns ← block.u16? 4
  let words := flags % 0x8000
  let small := if 0x8000 ≤ flags then 2 else 1
  let rowLength := small * (2 * words + (columns - words))
  let rows ← block.slice? (6 + 2 * columns) (rowLength * itemCount)
  if itemCount ≤ inner then return []
  let row : Bytes := rows.drop (rowLength * inner)
  (List.range columns).mapM fun i =>
    let start := small * (i + min i words)
    match decide (i < words), small with
    | true, 1 => row.i16? start
    | true, _ => row.i32? start
    | false, 1 => row.i8? start
    | false, _ => row.i16? start

/-- **The change that a row stands for at a location.** Each column
belongs to a region; the sum is rounded to a whole number, halves up. -/
def delta? (store : Bytes) (outer inner : Nat) (location : List Int) : Option Int := do
  if outer = 0xFFFF ∧ inner = 0xFFFF then return 0
  let places ← store.records? 8 4 (← store.u16? 6)
  let start ← (← places[outer]?).u32? 0
  if start = 0 then none
  let block ← store.from? start
  let columns ← (← block.records? 6 2 (← block.u16? 4)).mapM (·.u16? 0)
  let deltas ← row? block inner
  let regions ← regions? store
  let scaled ← (deltas.zip columns).mapM fun (delta, column) => do
    return delta * regionScalar (← regions[column]?) location
  return scaled.foldl (· + ·) 0x8000 / 0x10000

end DeltaStore

/-- The change of the metric `tag` that an `MVAR` table gives for a
location. Changes are kept in 16 bits before the point. -/
def metricDelta? (mvar : Bytes) (tag : Tag) (location : List Int) : Option Int := do
  let records ← mvar.records? 12 8 (← mvar.u16? 8)
  let tagAt (i : Nat) : Option UInt32 := do
    return UInt32.ofNat (← (← records[i]?).u32? 0)
  let i ← bisect (fun i => do return compare tag.code (← tagAt i)) 0 records.length
  let record ← records[i]?
  let start ← mvar.u16? 10
  if start = 0 then none
  let store ← mvar.from? start
  let delta ← DeltaStore.delta? store (← record.u16? 4) (← record.u16? 6) location
  return Fixed.wrap16 delta

/-- The `MVAR` table of a font, if all of its records are there. -/
def Tables.mvar? (tables : Tables) : Option Bytes :=
  (tables (Tag.named "MVAR")).filter fun mvar =>
    ((mvar.u16? 8).bind (mvar.records? 12 8)).isSome

/-- **The change of a metric at a location**; zero where the font gives
none. -/
def Tables.metricDelta (tables : Tables) (tag : Tag) (location : List Int) : Int :=
  (tables.mvar?.bind fun mvar => metricDelta? mvar tag location).getD 0

end FontCatalog
