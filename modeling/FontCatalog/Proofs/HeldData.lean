import FontCatalog.FontSet.Build
import FontCatalog.Proofs.RelatedLists

/-!
# Fonts of files whose data is there

Loaders may answer as they like, and differently every time. Most of what
is said of fonts is said of data that is simply there: `LoaderWorld.Holds`
says that a file holds some bytes, that is, that its loader answers with a
source of these bytes and that asking changes nothing.

For such a file, building a set and reading a face are functions of the
bytes (`LoaderWorld.buildSet_of_holds`, `LoaderWorld.readFace_of_holds`),
and of the bytes only the tables of their fonts count:
`FontEntry.ofTables` and `FontEntry.faceOf` are what an entry and a face
are made from. A file that was put into a memory loader holds its data
(`LoaderWorld.holds_whole`).

A set is built from all fonts of a file and a face is read from one of
them, and each reads the file anew. They read the same fonts
(`Font.face_eq_of_faces`).
-/

namespace FontCatalog

/-- **What `faces` accepts, `face` finds again**, index by index. -/
theorem Font.face_eq_of_faces {data : Bytes} {fonts : List Font} (h : faces data = .ok fonts)
    {i : Nat} {font : Font} (hi : fonts[i]? = some font) : face data i = .ok font := by
  unfold faces at h
  unfold face
  split at h
  · obtain ⟨offset, hoffset, (hread : readAt data offset = .ok font)⟩ :=
      exists_getElem?_of_forall₂ (mapM_eq_ok_iff_forall₂.mp h).flip hi
    rw [hoffset]
    exact hread
  · cases hread : readAt data 0 with
    | error e => rw [hread] at h; cases h
    | ok font₀ =>
      rw [hread] at h
      cases h
      cases i with
      | zero =>
        obtain rfl : font₀ = font := by simpa using hi
        rfl
      | succ i => simp at hi

/-! ## Entries and faces from tables -/

namespace FontEntry

/-- The entries of a font with given tables: one, or one per named
instance. -/
def ofTables (file : FontFile) (index : Nat) (tables : Tables) : List FontEntry :=
  match tables.variation.instances with
  | [] => [⟨file, index, none, tables.faceProperties⟩]
  | instances => instances.zipIdx.map fun (i, k) =>
    ⟨file, index, some k, tables.instanceProperties i⟩

/-- The face of an entry whose font has given tables. -/
def faceOf (entry : FontEntry) (tables : Tables) : FontFace where
  fullName := match entry.instanceIndex with
    | some _ => LocalizedName.select? entry.properties.fullName Language.fallback
    | none => tables.statedFullName
  metrics := tables.metricsOf entry.instanceIndex

/-- Of a font only its tables count. -/
theorem ofFont_eq_ofTables (file : FontFile) (index : Nat) (font : Font) :
    ofFont file index font = ofTables file index font.tables := rfl

/-- A face that can be read is the face from the tables of its font. -/
theorem face_eq_faceOf {entry : FontEntry} {source : FontSource} {font : Font}
    (h : Font.face source.data entry.faceIndex = .ok font) :
    entry.face (some source) = .ok (entry.faceOf font.tables) := by
  rw [face, h]
  rfl

/-- **An entry of another file, or of another font of a file**, with the
properties and the instance of this one. -/
def moved (entry : FontEntry) (file : FontFile) (index : Nat) : FontEntry :=
  { entry with file := file, faceIndex := index }

/-- Entries made for another place are the entries, moved there. -/
theorem ofTables_eq_map_moved (file other : FontFile) (index place : Nat) (tables : Tables) :
    ofTables other place tables = (ofTables file index tables).map (·.moved other place) := by
  unfold ofTables
  split
  · rfl
  · rw [List.map_map]
    rfl

/-- The entries of a font are all of its file and its place there. -/
theorem file_faceIndex_of_mem_ofTables {file : FontFile} {index : Nat} {tables : Tables}
    {entry : FontEntry} (h : entry ∈ ofTables file index tables) :
    entry.file = file ∧ entry.faceIndex = index := by
  unfold ofTables at h
  split at h
  · rw [List.mem_singleton] at h
    subst h
    exact ⟨rfl, rfl⟩
  · obtain ⟨_, _, rfl⟩ := List.mem_map.mp h
    exact ⟨rfl, rfl⟩

/-- What an entry without an instance keeps is what the font itself
states. -/
theorem properties_of_mem_ofTables {file : FontFile} {index : Nat} {tables : Tables}
    {entry : FontEntry} (h : entry ∈ ofTables file index tables)
    (hnone : entry.instanceIndex = none) : entry.properties = tables.faceProperties := by
  unfold ofTables at h
  split at h
  · rw [List.mem_singleton.mp h]
  · obtain ⟨_, _, rfl⟩ := List.mem_map.mp h
    cases hnone

variable {file : FontFile} {entry : FontEntry} {part : List FontEntry}

/-- An entry of the fonts of a file is of the font with its number. -/
theorem exists_font_of_mem_ofFonts {fonts : List Font} (h : entry ∈ ofFonts file fonts) :
    ∃ font, fonts[entry.faceIndex]? = some font ∧
      entry ∈ ofTables file entry.faceIndex font.tables := by
  obtain ⟨⟨font, index⟩, hfont, hentry⟩ := List.mem_flatMap.mp h
  obtain rfl := (file_faceIndex_of_mem_ofTables hentry).2
  exact ⟨font, List.mem_zipIdx_iff_getElem?.mp hfont, hentry⟩

/-- What a file brings is of that file. -/
theorem file_of_mem_ofFile {answer : Option FontSource} (h : ofFile file answer = .ok part)
    (hentry : entry ∈ part) : entry.file = file := by
  cases answer with
  | none =>
    obtain rfl := Except.ok.inj h
    rw [List.mem_singleton.mp hentry]
    rfl
  | some source =>
    rw [ofFile] at h
    split at h
    · obtain rfl := Except.ok.inj h
      obtain ⟨font, -, hmem⟩ := exists_font_of_mem_ofFonts hentry
      exact (file_faceIndex_of_mem_ofTables hmem).1
    · cases h

/-- **The font of an entry is found again by its number**, in data that the
entry was made from. -/
theorem exists_font_of_mem_ofFile {source : FontSource} (h : ofFile file (some source) = .ok part)
    (hentry : entry ∈ part) :
    ∃ font, Font.face source.data entry.faceIndex = .ok font ∧
      entry ∈ ofTables file entry.faceIndex font.tables := by
  rw [ofFile] at h
  split at h
  · next fonts hfonts =>
    obtain rfl := Except.ok.inj h
    obtain ⟨font, hfont, hmem⟩ := exists_font_of_mem_ofFonts hentry
    exact ⟨font, Font.face_eq_of_faces hfonts hfont, hmem⟩
  · cases h

end FontEntry

/-! ## Files that hold data -/

namespace LoaderWorld

variable {σ : Type} {w : LoaderWorld σ} {s : σ} {file : FontFile} {data : Bytes}

/-- **A file holds data**: its loader answers with a source of these bytes,
and the world stays as it is. -/
def Holds (w : LoaderWorld σ) (s : σ) (file : FontFile) (data : Bytes) : Prop :=
  ∃ source, w.data file.loader file.key s = (some source, s) ∧ source.data = data

/-- A file of a catalogue's own loader holds the bytes that were kept
whole. -/
theorem holds_whole {memory : MemoryLoader} {key : FileKey} {name : String} {owner : Bytes}
    (h : memory.data? key = some (.whole name owner)) :
    (w.withMemory memory).Holds s ⟨.memory, key, name⟩ owner :=
  ⟨.whole name owner, by rw [data_withMemory, h], FontSource.data_whole name owner⟩

/-- **The set of one file that holds fonts** has the entries of the
fonts. -/
theorem buildSet_of_holds (hfile : w.Holds s file data) {registered : List LoaderId}
    (hregistered : file.loader ∈ registered) {fonts : List Font}
    (hfonts : Font.faces data = .ok fonts) :
    w.buildSet registered [file] s = (.ok ⟨FontEntry.ofFonts file fonts⟩, s) := by
  obtain ⟨source, hdata, rfl⟩ := hfile
  have hentries : w.entries registered [file] s = (.ok (FontEntry.ofFonts file fonts), s) := by
    simp only [entries, hregistered, not_true, if_false, hdata, FontEntry.ofFile, hfonts,
      List.append_nil]
  rw [buildSet, hentries]
  rfl

/-- **The face of an entry whose file holds its font** is the face from the
tables of that font. -/
theorem readFace_of_holds {entry : FontEntry} (hfile : w.Holds s entry.file data) {font : Font}
    (hfont : Font.face data entry.faceIndex = .ok font) :
    w.readFace entry s = (.ok (entry.faceOf font.tables), s) := by
  obtain ⟨source, hdata, rfl⟩ := hfile
  rw [readFace, hdata]
  exact congrArg (·, s) (FontEntry.face_eq_faceOf hfont)

end LoaderWorld

end FontCatalog
