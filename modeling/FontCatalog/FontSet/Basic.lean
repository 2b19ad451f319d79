import FontCatalog.Face
import FontCatalog.Loader.World

/-!
# Sets of fonts

A set of fonts is a list of entries, fixed once it is built. An entry is
one font: the only font of a file, one member of a collection, or one
named instance of a variable font. It knows its file and which font of the
file it is, and it keeps the properties that were read when the set was
built; the data itself stays with the loader.

`FontSet.propertyValues` lists the values of a property over all entries,
each once, in the order in which they first come up.
-/

namespace FontCatalog

/-- **One font of a set.** -/
structure FontEntry where
  /-- The file that holds the font. -/
  file : FontFile
  /-- Which font of the file it is; zero but in collections. -/
  faceIndex : Nat
  /-- Which named instance it is, in a variable font. -/
  instanceIndex : Option Nat
  /-- The properties read when the set was built. -/
  properties : FontProperties
deriving DecidableEq

/-- **A set of fonts.** -/
structure FontSet where
  /-- The fonts, in order. -/
  entries : List FontEntry
deriving DecidableEq

namespace FontEntry

/-- An entry for a file of which nothing is known yet. -/
def anonymous (file : FontFile) : FontEntry := ⟨file, 0, none, .unknown⟩

end FontEntry

namespace FontSet

/-- How many fonts there are. -/
def length (s : FontSet) : Nat := s.entries.length

/-- The value of a property that suits `locale` best, per entry that has
one. -/
def bestValues (s : FontSet) (property : FontProperty) (locale : String) : List String :=
  s.entries.filterMap fun entry =>
    LocalizedName.select? (entry.properties.get property) locale

/-- **The values of a property**, each once, in the order in which they
first come up. -/
def propertyValues (s : FontSet) (property : FontProperty) (locale : String) : List String :=
  (s.bestValues property locale).eraseDups

end FontSet

namespace LoaderWorld

variable {σ : Type}

/-- **Whether some entry's data is not there.** The entries are asked in
order, up to the first whose data is not there. -/
def anyRemote (w : LoaderWorld σ) : List FontEntry → σ → Bool × σ
  | [], s => (false, s)
  | entry :: entries, s =>
    match w.locality entry.file.loader entry.file.key s with
    | (.present, s) => w.anyRemote entries s
    | (_, s) => (true, s)

/-- The localities of all entries, asked in order. -/
def localities (w : LoaderWorld σ) : List FontEntry → σ → List Locality × σ
  | [], s => ([], s)
  | entry :: entries, s =>
    let (locality, s) := w.locality entry.file.loader entry.file.key s
    let (rest, s) := w.localities entries s
    (locality :: rest, s)

end LoaderWorld

end FontCatalog
