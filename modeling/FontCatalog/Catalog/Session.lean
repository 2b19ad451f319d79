import FontCatalog.Catalog.Report

/-!
# Working with a catalogue

A session is a catalogue and the world it works in, with the time. What a
caller can ask of a catalogue is a `CatalogRequest`, and every request has a
`CatalogReply`; `Session.perform` is the one function that answers, so
what holds of every request holds of whatever a caller does with a catalogue
over its whole life.
-/

namespace FontCatalog

/-- **A catalogue at work.** -/
structure Session (σ : Type) where
  /-- The catalogue. -/
  catalog : Catalog
  /-- The world, and the time. -/
  timed : Timed σ

/-- **What can be asked of a catalogue.** -/
inductive CatalogRequest where
  /-- To register a loader. -/
  | register (id : LoaderId)
  /-- To build the set from font data in memory. -/
  | buildFromMemory (sources : List FontSource)
  /-- To build the set from files. -/
  | buildFromFiles (files : List FontFile)
  /-- Whether some font's data has to be fetched. -/
  | hasRemoteFonts
  /-- The localities of all fonts. -/
  | localities
  /-- To fetch the data of the font with an index. -/
  | fetch (index : Nat)
  /-- To read the face of the font with an index. -/
  | face (index : Nat)
  /-- The details of all fonts. -/
  | details (timeout : Duration)
  /-- The report on the details. -/
  | detailsReport (timeout : Duration)
  /-- The report on the details for an interactive user. -/
  | interactiveDetailsReport (timeout : Duration)

/-- **What a catalogue answers.** -/
inductive CatalogReply where
  /-- It is done. -/
  | done
  /-- It failed. -/
  | failed (error : FontError)
  /-- A set of so many fonts was built. -/
  | built (count : Nat)
  /-- Yes or no. -/
  | flag (value : Bool)
  /-- The localities of the fonts. -/
  | localities (values : List Locality)
  /-- A face. -/
  | face (value : FontFace)
  /-- Lines of text. -/
  | lines (values : List String)
  /-- A text. -/
  | text (value : String)
  /-- There is no set, or no font with that index in it. -/
  | nothing
deriving DecidableEq

namespace Session

variable {σ : Type}

/-- The session with the catalogue and the state of the world changed. -/
def moved (c : Session σ) (catalog : Catalog) (world : σ) : Session σ :=
  ⟨catalog, { c.timed with world := world }⟩

/-- The reply to a build. -/
def replyToBuild : Except FontError FontSet → CatalogReply
  | .ok set => .built set.length
  | .error error => .failed error

/-- The entry with an index, if the set is built and has one. -/
def entry? (c : Session σ) (index : Nat) : Option FontEntry := c.catalog.entries[index]?

/-- **Answers a request.** `signal` is the caller's signal to stop, and
`patience` bounds a wait that has no deadline. -/
def perform (w : LoaderWorld σ) (signal : StopSignal σ) (patience : Nat) (c : Session σ) :
    CatalogRequest → CatalogReply × Session σ
  | .register id =>
    let (result, catalog) := c.catalog.register id
    (match result with
      | .ok () => .done
      | .error error => .failed error, { c with catalog := catalog })
  | .buildFromMemory sources =>
    let (result, catalog, world) := c.catalog.buildFromMemory w sources c.timed.world
    (replyToBuild result, c.moved catalog world)
  | .buildFromFiles files =>
    let (result, catalog, world) := c.catalog.buildFromFiles w files c.timed.world
    (replyToBuild result, c.moved catalog world)
  | .hasRemoteFonts =>
    let (remote, world) := c.catalog.hasRemoteFonts w c.timed.world
    (.flag remote, c.moved c.catalog world)
  | .localities =>
    if c.catalog.isBuilt then
      let (values, world) :=
        (c.catalog.inWorld w).localities c.catalog.entries c.timed.world
      (.localities values, c.moved c.catalog world)
    else (.nothing, c)
  | .fetch index =>
    match c.entry? index with
    | none => (.nothing, c)
    | some entry =>
      let (result, world) :=
        (c.catalog.inWorld w).request entry.file.loader entry.file.key c.timed.world
      (match result with
        | .ok () => .done
        | .error error => .failed error, c.moved c.catalog world)
  | .face index =>
    match c.entry? index with
    | none => (.nothing, c)
    | some entry =>
      let (result, world) := (c.catalog.inWorld w).readFace entry c.timed.world
      (match result with
        | .ok face => .face face
        | .error error => .failed error, c.moved c.catalog world)
  | .details timeout =>
    let (lines, timed) := c.catalog.details w signal timeout patience c.timed
    (.lines lines, { c with timed := timed })
  | .detailsReport timeout =>
    let (text, timed) := c.catalog.detailsReport w signal timeout patience c.timed
    (.text text, { c with timed := timed })
  | .interactiveDetailsReport timeout =>
    let (text, timed) := c.catalog.interactiveDetailsReport w timeout patience c.timed
    (.text text, { c with timed := timed })

end Session

end FontCatalog
