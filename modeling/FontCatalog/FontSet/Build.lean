import FontCatalog.FontSet.Basic

/-!
# Building sets of fonts, and reading their faces

A set is built from files, in their order. The loader of every file has to
be registered. A file whose data is not there yet gives one entry without
properties; any other gives its fonts, one after the other, and a font
with named instances gives those in its place. The first file that cannot
be used fails the whole.

A face is read from the data of its entry anew, so it can fail even though
the set was built: the data may have gone, or may be different data by
now.
-/

namespace FontCatalog

namespace FontEntry

/-- **The entries of one font of a file**: one, or one per named
instance. -/
def ofFont (file : FontFile) (index : Nat) (font : Font) : List FontEntry :=
  match font.tables.variation.instances with
  | [] => [⟨file, index, none, font.tables.faceProperties⟩]
  | instances => instances.zipIdx.map fun (i, k) =>
    ⟨file, index, some k, font.tables.instanceProperties i⟩

/-- **The entries of all fonts of a file.** -/
def ofFonts (file : FontFile) (fonts : List Font) : List FontEntry :=
  fonts.zipIdx.flatMap fun (font, index) => ofFont file index font

/-- **What one file brings into a set**, from the data its loader has. -/
def ofFile (file : FontFile) : Option FontSource → Except FontError (List FontEntry)
  | none => .ok [anonymous file]
  | some source =>
    match Font.faces source.data with
    | .ok fonts => .ok (ofFonts file fonts)
    | .error error => .error (.unreadable file.name error)

/-- **The face of an entry**, from the data its loader has. An instance is
called by the full name composed for it, any other font by the one that it
states. -/
def face (entry : FontEntry) : Option FontSource → Except FontError FontFace
  | none => .error (.notLocal entry.file.name)
  | some source =>
    match Font.face source.data entry.faceIndex with
    | .error error => .error (.unreadable entry.file.name error)
    | .ok font => .ok {
        fullName := match entry.instanceIndex with
          | some _ => LocalizedName.select? entry.properties.fullName Language.fallback
          | none => font.tables.statedFullName
        metrics := font.tables.metricsOf entry.instanceIndex }

end FontEntry

namespace LoaderWorld

variable {σ : Type}

/-- **The entries of files**, in order, up to the first that cannot be
used. -/
def entries (w : LoaderWorld σ) (registered : List LoaderId) :
    List FontFile → σ → Except FontError (List FontEntry) × σ
  | [], s => (.ok [], s)
  | file :: files, s =>
    if file.loader ∉ registered then (.error (.notRegistered file.name), s)
    else
      let (source, s) := w.data file.loader file.key s
      match FontEntry.ofFile file source with
      | .error error => (.error error, s)
      | .ok first =>
        match w.entries registered files s with
        | (.ok rest, s) => (.ok (first ++ rest), s)
        | (.error error, s) => (.error error, s)

/-- **The set of the fonts of some files.** -/
def buildSet (w : LoaderWorld σ) (registered : List LoaderId) (files : List FontFile) (s : σ) :
    Except FontError FontSet × σ :=
  let (entries, s) := w.entries registered files s
  (entries.map FontSet.mk, s)

/-- **The face of an entry**, with the data asked of its loader. -/
def readFace (w : LoaderWorld σ) (entry : FontEntry) (s : σ) : Except FontError FontFace × σ :=
  let (source, s) := w.data entry.file.loader entry.file.key s
  (entry.face source, s)

end LoaderWorld

end FontCatalog
