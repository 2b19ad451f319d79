import FontCatalog.Sfnt.Font
import FontCatalog.Variation.Fixed

/-!
# Axes and named instances

A variable font has axes, each with a least, a default and a greatest
value, and named instances, each a name and one value per axis: that is
the `fvar` table. `Axis.normalize` turns a value on an axis into a number
from -1 to 1, with the default at 0.

Instances are records of one width, which the table states. An instance
has to have room for its values before the block of instances ends; one
that has not is left out. Since records further back have less room, the
instances that are left out are the last ones.
-/

namespace FontCatalog

/-- **An axis of variation**, its values in fixed point. -/
structure Axis where
  /-- The name of the axis. -/
  tag : Tag
  /-- The least value. -/
  least : Int
  /-- The value of the font as it is without variation. -/
  default : Int
  /-- The greatest value. -/
  greatest : Int
deriving DecidableEq

/-- **A named instance**: a point in the space of all axes, and its names. -/
structure NamedInstance where
  /-- The name id of its style. -/
  subfamilyId : Nat
  /-- The name id of its name in page descriptions, if it has one. -/
  postscriptId : Option Nat
  /-- One value per axis. -/
  coordinates : List Int
deriving DecidableEq

/-- **The axes and instances of a font.** -/
structure AxisTable where
  /-- The axes, in their order. -/
  axes : List Axis
  /-- The instances that can be read, in their order. -/
  instances : List NamedInstance
deriving DecidableEq

namespace Axis

/-- The axis in twenty bytes. -/
def read? (b : Bytes) : Option Axis := do
  return ⟨Tag.ofNat (← b.u32? 0), ← b.i32? 4, ← b.i32? 8, ← b.i32? 12⟩

/-- **The place of a value on the axis**, from -1 at the least value over 0
at the default to 1 at the greatest. Values beyond an end count as the
end. -/
def normalize (a : Axis) (value : Int) : Int :=
  let greatest := max a.greatest a.least
  let v := Fixed.clamp a.least greatest value
  let place :=
    if v < a.default then
      -Fixed.div (Fixed.subSaturating a.default v) (Fixed.subSaturating a.default a.least)
    else if a.default < v then
      Fixed.div (Fixed.subSaturating v a.default) (Fixed.subSaturating greatest a.default)
    else 0
  Fixed.clamp (-Fixed.one) Fixed.one place

end Axis

namespace NamedInstance

/-- The instance at the start of `b`, for a font with `axisCount` axes and
records of `width` bytes. Records with two bytes to spare end in a name
id, and `FFFF` stands for none. -/
def read? (axisCount width : Nat) (b : Bytes) : Option NamedInstance := do
  let coordinates ← (← b.records? 4 4 axisCount).mapM (·.i32? 0)
  let stop := 4 + 4 * axisCount
  let postscriptId ←
    if stop + 2 ≤ width then (b.u16? stop).map fun id => if id = 0xFFFF then none else some id
    else pure none
  return ⟨← b.u16? 0, postscriptId, coordinates⟩

end NamedInstance

namespace AxisTable

/-- A table without axes and instances. -/
def empty : AxisTable := ⟨[], []⟩

/-- The table, if the arrays of axes and of instances are all there. -/
def read? (b : Bytes) : Option AxisTable := do
  if b.length < 16 then none
  let start ← b.u16? 4
  if start = 0 then none
  let axisCount ← b.u16? 8
  let instanceCount ← b.u16? 12
  let width ← b.u16? 14
  let axes ← (← b.records? start 20 axisCount).mapM Axis.read?
  let block ← b.slice? (start + 20 * axisCount) (width * instanceCount)
  return ⟨axes, (List.range instanceCount).filterMap fun i =>
    NamedInstance.read? axisCount width (block.drop (i * width))⟩

end AxisTable

/-- **The axes and instances of a font**; none for a font without a
complete `fvar` table. -/
def Tables.variation (tables : Tables) : AxisTable :=
  ((tables (Tag.named "fvar")).bind AxisTable.read?).getD AxisTable.empty

end FontCatalog
