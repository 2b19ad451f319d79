import FontCatalog.Sfnt.Font
import FontCatalog.Variation.Fixed

/-!
# Segment maps

A font may bend its axes: the `avar` table gives, per axis, pairs of a
place and the place it is moved to. Between two pairs the map is straight,
and beyond the outermost ones it goes on with slope one.

The pairs come from untrusted data and may be few, repeated or out of
order. `SegmentMap.apply` is defined on all lists of pairs. A pair that
states an end twice is dropped first; of several pairs for one place the
one closer to the middle decides, and of exactly three the middle one.
-/

namespace FontCatalog

/-- **The pairs of one axis**: a place, and the place it is moved to. -/
abbrev SegmentMap := List (Int × Int)

namespace SegmentMap

/-- Element `i` of a map. -/
def pair (m : SegmentMap) (i : Nat) : Int × Int := m.getD i (0, 0)

/-- The indices of the pairs that count: without the first if the second
states the lower end again, and without the last if the one before it
states the upper end already. -/
def kept (m : SegmentMap) : Nat × Nat :=
  let n := m.length
  let lo := if m.pair 0 = (-Fixed.one, -Fixed.one) ∧ (m.pair 1).1 = -Fixed.one then 1 else 0
  let hi :=
    if m.pair (n - 1) = (Fixed.one, Fixed.one) ∧ (m.pair (n - 2)).1 = Fixed.one then n - 1 else n
  (lo, hi)

/-- The places that the pairs of one place are moved to, resolved to one:
`targets` are those of the first run of pairs for `v`. -/
def resolve (v : Int) (targets : List Int) : Option Int :=
  match targets with
  | [] => none
  | [t] => some t
  | [_, t, _] => some t
  | first :: rest =>
    let last := rest.getLastD first
    some <|
      if v < 0 then last
      else if 0 < v then first
      else if last.natAbs < first.natAbs then last
      else first

/-- The place between or beyond the pairs, for a `v` that no pair has. -/
def interpolate (m : SegmentMap) (lo hi : Nat) (v : Int) : Int :=
  let k := ((List.range' lo (hi - lo)).find? fun i => v < (m.pair i).1).getD hi
  if k = 0 then v - (m.pair 0).1 + (m.pair 0).2
  else if k = hi then v - (m.pair (hi - 1)).1 + (m.pair (hi - 1)).2
  else
    let (fromLow, toLow) := m.pair (k - 1)
    let (fromHigh, toHigh) := m.pair k
    toLow + Fixed.mulDiv (toHigh - toLow) (v - fromLow) (fromHigh - fromLow)

/-- **Where a place is moved to.** -/
def apply (m : SegmentMap) (v : Int) : Int :=
  match m with
  | [] => v
  | [(source, target)] => v - source + target
  | _ =>
    let (lo, hi) := m.kept
    let counted := (m.take hi).drop lo
    let run := (counted.dropWhile (·.1 ≠ v)).takeWhile (·.1 = v)
    (resolve v (run.map (·.2))).getD (m.interpolate lo hi v)

/-- The maps of `count` axes that `b` starts with. -/
def readMany? : (count : Nat) → Bytes → Option (List SegmentMap)
  | 0, _ => some []
  | count + 1, b => do
    let n ← b.u16? 0
    let pairs ← (← b.records? 2 4 n).mapM fun r => do
      -- Places are stored in 14 binary digits behind the point.
      return ((← r.i16? 0) * 4, (← r.i16? 2) * 4)
    return pairs :: (← readMany? count (b.drop (2 + 4 * n)))

/-- The maps of an `avar` table, one per axis, if they are all there. -/
def readTable? (b : Bytes) : Option (List SegmentMap) := do
  let major ← b.u16? 0
  let axisCount ← b.u16? 6
  if major = 1 then readMany? axisCount (b.drop 8) else none

end SegmentMap

/-- **The segment maps of a font**; none for a font without them. -/
def Tables.segmentMaps (tables : Tables) : List SegmentMap :=
  ((tables (Tag.named "avar")).bind SegmentMap.readTable?).getD []

end FontCatalog
