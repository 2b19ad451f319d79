import FontCatalog.Table.Charmap
import FontCatalog.Table.Name
import FontCatalog.Table.Outline
import FontCatalog.Text.Blank
import FontCatalog.Variation.Axis
import FontCatalog.Variation.MetricVariation
import FontCatalog.Variation.SegmentMap

/-!
# Faces

What a catalogue says of a font comes in two parts. The *properties* are
lists of names and are read once, when a set of fonts is built; the *face*
is read when it is asked for, and has one name and the vertical metrics.

A named instance of a variable font has no full name of its own in the
font. Its full names are composed: for each name of its style, the family
in that language and the style (`instanceFullNames`). Everything here is
read through the tables of the font alone.
-/

namespace FontCatalog

/-- **The properties kept of a font.** -/
structure FontProperties where
  /-- Family and style together. -/
  fullName : List LocalizedName
  /-- The family. -/
  familyName : List LocalizedName
  /-- The name in page descriptions. -/
  postscriptName : List LocalizedName
deriving DecidableEq, Inhabited

/-- **The properties by name**, as a query asks for them. -/
inductive FontProperty where
  /-- Family and style together. -/
  | fullName
  /-- The family. -/
  | familyName
  /-- The name in page descriptions. -/
  | postscriptName
deriving DecidableEq

namespace FontProperties

/-- The properties of a font of which nothing is known. -/
def unknown : FontProperties := ⟨[], [], []⟩

/-- The names of one property. -/
def get (p : FontProperties) : FontProperty → List LocalizedName
  | .fullName => p.fullName
  | .familyName => p.familyName
  | .postscriptName => p.postscriptName

end FontProperties

/-- **The vertical metrics of a face**, in font units. -/
structure FaceMetrics where
  /-- How many units the em has. -/
  unitsPerEm : Nat
  /-- How far lines reach above the baseline. -/
  ascent : Metric
  /-- How far lines reach below it, negative downwards. -/
  descent : Metric
  /-- The height of capital letters, if the font says. -/
  capHeight : Option Metric
  /-- The height of lower-case letters; zero if it cannot be made out. -/
  xHeight : Metric
deriving DecidableEq

/-- **A face that has been read.** -/
structure FontFace where
  /-- Its name, if it has one. -/
  fullName : Option String
  /-- Its vertical metrics. -/
  metrics : FaceMetrics
deriving DecidableEq

namespace Tables

/-! ## Properties -/

/-- The typographic family names, or the older ones where there are none. -/
def familyNames (tables : Tables) : List LocalizedName :=
  match tables.strings NameId.typographicFamily with
  | [] => tables.strings NameId.family
  | names => names

/-- The properties of a font that has no named instances. -/
def faceProperties (tables : Tables) : FontProperties where
  fullName := tables.strings NameId.full
  familyName := tables.familyNames
  postscriptName := tables.strings NameId.postscript

/-- **The full name of an instance in the language of a style name**: the
family that suits that language best, and the style, without white space
around them. A style without a language counts as being in the fallback
language. -/
def instanceFullName (families : List LocalizedName) (style : LocalizedName) : LocalizedName :=
  let locale := style.language.getD Language.fallback
  let family := (LocalizedName.select? families locale).getD ""
  ⟨style.language, Text.trim (family ++ " " ++ style.value)⟩

/-- The properties of a named instance. -/
def instanceProperties (tables : Tables) (i : NamedInstance) : FontProperties where
  fullName := (tables.strings i.subfamilyId).map (instanceFullName tables.familyNames)
  familyName := tables.familyNames
  postscriptName := (i.postscriptId.map tables.strings).getD []

/-! ## Metrics -/

/-- **Where a named instance lies**, one number from -1 to 1 per axis, in
fixed point with 14 binary digits. Each axis takes the value the instance
gives last for an axis of that name; the value is normalized and then bent
by the font's segment map. -/
def location (tables : Tables) (i : NamedInstance) : List Int :=
  let axes := tables.variation.axes
  let maps := tables.segmentMaps
  let given := (axes.map (·.tag)).zip (i.coordinates.map Fixed.singlePrecision)
  axes.zipIdx.map fun (axis, k) =>
    match given.reverse.lookup axis.tag with
    | none => 0
    | some value =>
      let place := axis.normalize value
      let bent := match maps[k]? with
        | some m => m.apply place
        | none => place
      Fixed.wrap16 ((bent + 2) / 4) * 4

/-- **The vertical metrics at a location.** At the default location the
stored values count; elsewhere the changes of a variable font are added. A
font that does not state the height of its lower-case letters is measured:
it is the top of its letter x. -/
def metricsAt (tables : Tables) (location : List Int) : FaceMetrics :=
  let os2 := tables.os2?
  let varied := location.any (· ≠ 0) && tables.mvar?.isSome
  let vary (name : String) (m : Metric) : Metric :=
    if varied then m.move (tables.metricDelta (Tag.named name) location) else m
  let (ascent, descent) := tables.lineExtent
  let stated := (os2.bind (·.xHeight)).map fun h => vary "xhgt" (.whole h)
  let measured := ((tables.glyph? 'x').bind tables.glyphTop?).map Metric.whole
  { unitsPerEm := tables.unitsPerEm
    ascent := vary "hasc" ascent
    descent := vary "hdsc" descent
    capHeight := (os2.bind (·.capHeight)).map fun h => vary "cpht" (.whole h)
    xHeight := (stated.or measured).getD (.whole 0) }

/-- The metrics of the instance with a given index, or of the font itself
where there is no such instance. -/
def metricsOf (tables : Tables) (index : Option Nat) : FaceMetrics :=
  tables.metricsAt <|
    match index.bind (tables.variation.instances[·]?) with
    | some i => tables.location i
    | none => []

/-- The full name that a font itself states. -/
def statedFullName (tables : Tables) : Option String :=
  (LocalizedName.english? (tables.strings NameId.full)).map LocalizedName.value

end Tables

end FontCatalog
