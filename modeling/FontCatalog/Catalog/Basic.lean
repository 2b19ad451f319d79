import FontCatalog.FontSet.Build
import FontCatalog.Catalog.Registry

/-!
# Catalogues

A catalogue builds one set of fonts and answers questions about it. It has a
registry of loaders, and remembers which of them it registered itself, so
that it can take those back in the end (`Catalog.release`). For fonts in
memory it has a loader of its own, which it makes and registers when such
fonts come for the first time.

The set is built once: from memory (`Catalog.buildFromMemory`) or from
files (`Catalog.buildFromFiles`). A build that fails leaves no set and no
sources behind – the memory loader is cut back to what it held before –
so the next build starts as if the failed one had not been tried.
-/

namespace FontCatalog

/-- **A catalogue of one set of fonts.** -/
structure Catalog where
  /-- The registered loaders. -/
  registry : Registry
  /-- The language that names are wanted in. -/
  locale : String
  /-- The loader for fonts in memory, once it is made. -/
  memory : Option MemoryLoader
  /-- The loaders that the catalogue registered, in order. -/
  registered : List LoaderId
  /-- The set, once it is built. -/
  fontSet : Option FontSet
deriving DecidableEq

namespace Catalog

variable {σ : Type}

/-- A catalogue without a set, wanting names in the fallback language. -/
def new (registry : Registry) : Catalog := ⟨registry, Language.fallback, none, [], none⟩

/-- The catalogue wanting names in another language. -/
def withLocale (c : Catalog) (locale : String) : Catalog := { c with locale := locale }

/-- Whether the set is built. -/
def isBuilt (c : Catalog) : Bool := c.fontSet.isSome

/-- The entries of the set; none before it is built. -/
def entries (c : Catalog) : List FontEntry := (c.fontSet.map FontSet.entries).getD []

/-- **How many fonts the set has**; zero before it is built. -/
def fontCount (c : Catalog) : Nat := c.entries.length

/-- The full names over the whole set that suit `locale` best, each once. -/
def fullNamesFor (c : Catalog) (locale : String) : List String :=
  (c.fontSet.map fun set => set.propertyValues .fullName locale).getD []

/-- **The full names over the whole set**, in the catalogue's language. -/
def fullNames (c : Catalog) : List String := c.fullNamesFor c.locale

/-- The sources that the catalogue's own loader keeps. -/
def memoryLoader (c : Catalog) : MemoryLoader := c.memory.getD MemoryLoader.empty

/-- The world with the catalogue's own loader in it. -/
def inWorld (c : Catalog) (w : LoaderWorld σ) : LoaderWorld σ := w.withMemory c.memoryLoader

/-! ## Registering loaders -/

/-- **Registers a loader** that the catalogue then answers for. -/
def register (c : Catalog) (id : LoaderId) : Except FontError Unit × Catalog :=
  match c.registry.register id with
  | (.ok (), registry) =>
    (.ok (), { c with registry := registry, registered := c.registered ++ [id] })
  | (.error error, registry) => (.error error, { c with registry := registry })

/-- The catalogue with its own loader made and registered, if that was not
done before. -/
def ensureMemory (c : Catalog) : Except FontError Unit × Catalog :=
  match c.memory with
  | some _ => (.ok (), c)
  | none =>
    match c.register .memory with
    | (.ok (), c) => (.ok (), { c with memory := some MemoryLoader.empty })
    | (.error error, c) => (.error error, c)

/-- **The end of a catalogue**: every loader it registered is taken back, in
order. What is left is the registry. -/
def release (c : Catalog) : Registry := c.registered.foldl Registry.unregister c.registry

/-! ## Building the set -/

/-- **Builds the set from files** of registered loaders. -/
def buildFromFiles (w : LoaderWorld σ) (files : List FontFile) (c : Catalog) (s : σ) :
    Except FontError FontSet × Catalog × σ :=
  if c.isBuilt then (.error .alreadyBuilt, c, s)
  else
    match (c.inWorld w).buildSet c.registry.loaders files s with
    | (.ok set, s) => (.ok set, { c with fontSet := some set }, s)
    | (.error error, s) => (.error error, c, s)

/-- **Builds the set from font data in memory**, in the order of the
sources. When that fails, the catalogue's own loader lets go of the sources
again. -/
def buildFromMemory (w : LoaderWorld σ) (sources : List FontSource) (c : Catalog) (s : σ) :
    Except FontError FontSet × Catalog × σ :=
  if c.isBuilt then (.error .alreadyBuilt, c, s)
  else if !c.registry.loadsMemory then (.error .unsupported, c, s)
  else
    match c.ensureMemory with
    | (.error error, c) => (.error error, c, s)
    | (.ok (), c) =>
      let before := c.memoryLoader.length
      let (files, memory) := c.memoryLoader.createAll .memory sources
      match buildFromFiles w files { c with memory := some memory } s with
      | (.ok set, c, s) => (.ok set, c, s)
      | (.error error, c, s) =>
        (.error error, { c with memory := some (c.memoryLoader.truncate before) }, s)

/-- **Whether some font's data still has to be fetched**; not before the
set is built. -/
def hasRemoteFonts (w : LoaderWorld σ) (c : Catalog) (s : σ) : Bool × σ :=
  (c.inWorld w).anyRemote c.entries s

/-- A catalogue in one line. -/
def describe (c : Catalog) : String :=
  "FontSetManager \x7b backend: " ++ c.registry.describe ++ ", locale: "
    ++ Text.quoted c.locale ++ ", registered: " ++ toString c.registered.length
    ++ ", font_count: " ++ toString c.fontCount ++ " \x7d"

end Catalog

end FontCatalog
