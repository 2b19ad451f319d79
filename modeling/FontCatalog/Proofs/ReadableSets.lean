import FontCatalog.Proofs.MemoryBuilds
import FontCatalog.Proofs.SetOrder
import FontCatalog.Proofs.SingleBuild

/-!
# Sets from memory can be read

Font data is read twice, and not in the same way. When a set is built, all
fonts of a file are read; when a face or a line of details is asked for, the
file is read again for the one font with a given index. Either reading can
fail, on data that may be damaged in any place. If they did not agree, a set
could be built of which a face cannot be read, and since details are all or
nothing, one such face would cost the lines of all fonts.

For data in memory they agree, and the data stays: every entry of a set that
was built from memory is an entry that the own loader *gives*
(`MemoryLoader.Gives`), now and later. What it gives of a font is fixed by
the tables of the font (`Tables.listed`), so the lines are the same each
time they are asked for.
-/

namespace FontCatalog

/-! ## What is listed of a font -/

/-- **What is listed of a font**: its properties and its face. A font with
named instances is listed once for each of them. -/
def Tables.listed (tables : Tables) : List (FontProperties × FontFace) :=
  (FontEntry.ofTables default 0 tables).map fun entry =>
    (entry.properties, entry.faceOf tables)

/-- The entries of a font are as many as it is listed for, wherever it
is. -/
theorem Tables.map_ofTables (tables : Tables) (file : FontFile) (index : Nat) :
    ((FontEntry.ofTables file index tables).map fun entry =>
      (entry.properties, entry.faceOf tables)) = tables.listed := by
  rw [listed, FontEntry.ofTables_eq_map_moved default file 0 index, List.map_map]
  rfl

/-- **What is listed of the fonts of a file.** -/
def Font.listed (fonts : List Font) : List (FontProperties × FontFace) :=
  fonts.flatMap (·.tables.listed)

/-- **The lines for what is listed**, with `index` as the number of the
first font. -/
def detailLines (index : Nat) (listing : List (FontProperties × FontFace)) : List String :=
  (listing.zipIdx index).map fun p => detailLine p.2 p.1.2

@[simp] theorem length_detailLines (index : Nat) (listing : List (FontProperties × FontFace)) :
    (detailLines index listing).length = listing.length := by
  rw [detailLines, List.length_map, List.length_zipIdx]

theorem detailLines_cons (index : Nat) (first : FontProperties × FontFace)
    (listing : List (FontProperties × FontFace)) :
    detailLines index (first :: listing)
      = detailLine index first.2 :: detailLines (index + 1) listing := by
  rw [detailLines, List.zipIdx_cons, List.map_cons]
  rfl

namespace MemoryLoader

/-- **A file with fonts in a memory loader**: all fonts of the data that the
loader has for it. -/
structure HasFonts (memory : MemoryLoader) (file : FontFile) (fonts : List Font) : Prop where
  /-- The file is one of the loader. -/
  loader : file.loader = .memory
  /-- Its data is there, and is font data. -/
  faces : ∃ source, memory.data? file.key = some source ∧ Font.faces source.data = .ok fonts

/-- **An entry that a memory loader gives**: its file is one of the loader,
and from the data that the loader has for it its face can be read. -/
structure Gives (memory : MemoryLoader) (entry : FontEntry)
    (listed : FontProperties × FontFace) : Prop where
  /-- The file is one of the loader. -/
  loader : entry.file.loader = .memory
  /-- The properties are those listed. -/
  properties : entry.properties = listed.1
  /-- The face is the one listed. -/
  face : entry.face (memory.data? entry.file.key) = .ok listed.2

variable {memory : MemoryLoader} {file : FontFile} {source : FontSource} {fonts : List Font}

/-- **What a file with fonts brings into a set.** -/
theorem HasFonts.ofFile_eq (h : memory.HasFonts file fonts) :
    FontEntry.ofFile file (memory.data? file.key) = .ok (FontEntry.ofFonts file fonts) := by
  obtain ⟨source, hdata, hfaces⟩ := h.faces
  rw [hdata, FontEntry.ofFile, hfaces]

/-- A file with data that brings something into a set has fonts. -/
theorem exists_hasFonts_of_ofFile (hloader : file.loader = .memory)
    (hsome : (memory.data? file.key).isSome = true) {entries : List FontEntry}
    (h : FontEntry.ofFile file (memory.data? file.key) = .ok entries) :
    ∃ fonts, memory.HasFonts file fonts := by
  obtain ⟨source, hsource⟩ := Option.isSome_iff_exists.mp hsome
  rw [hsource, FontEntry.ofFile] at h
  split at h
  · next fonts hfonts => exact ⟨fonts, hloader, source, hsource, hfonts⟩
  · cases h

/-- A font that is read by its index gives what is listed of it. -/
theorem forall₂_gives_ofTables (hloader : file.loader = .memory)
    (hdata : memory.data? file.key = some source) {index : Nat} {font : Font}
    (hfont : Font.face source.data index = .ok font) :
    List.Forall₂ memory.Gives (FontEntry.ofTables file index font.tables) font.tables.listed := by
  rw [← font.tables.map_ofTables file index, List.forall₂_map_right_iff, List.forall₂_same]
  intro entry hentry
  obtain ⟨rfl, rfl⟩ := FontEntry.file_faceIndex_of_mem_ofTables hentry
  refine ⟨hloader, rfl, ?_⟩
  rw [hdata]
  exact FontEntry.face_eq_faceOf hfont

/-- **What building a set accepts, reading a face accepts**: the entries of
a file all of whose fonts were read give what is listed of these. -/
theorem HasFonts.forall₂_gives (h : memory.HasFonts file fonts) :
    List.Forall₂ memory.Gives (FontEntry.ofFonts file fonts) (Font.listed fonts) := by
  obtain ⟨source, hdata, hfonts⟩ := h.faces
  have hface : ∀ i font, fonts[i]? = some font → Font.face source.data (0 + i) = .ok font := by
    intro i font hi
    rw [Nat.zero_add]
    exact Font.face_eq_of_faces hfonts hi
  rw [FontEntry.ofFonts, Font.listed]
  -- The number of the first font varies in the induction.
  generalize 0 = start at hface ⊢
  have hloader := h.loader
  clear hfonts h
  induction fonts generalizing start with
  | nil => exact List.Forall₂.nil
  | cons font fonts ih =>
    rw [List.zipIdx_cons, List.flatMap_cons, List.flatMap_cons]
    refine List.rel_append (forall₂_gives_ofTables hloader hdata (hface 0 font rfl))
      (ih (start + 1) fun i other hi => ?_)
    rw [Nat.add_right_comm, Nat.add_assoc]
    exact hface (i + 1) other hi

/-- The files that a loader gives for sources have data with it. -/
theorem isSome_data?_of_mem_createAll {l : MemoryLoader} {id : LoaderId}
    {sources : List FontSource} (h : file ∈ (l.createAll id sources).1) :
    file.loader = id ∧ ((l.createAll id sources).2.data? file.key).isSome = true := by
  rw [fst_createAll] at h
  obtain ⟨⟨s, k⟩, hmem, rfl⟩ := List.mem_map.mp h
  have hk := List.mem_zipIdx hmem
  refine ⟨rfl, ?_⟩
  rw [data?_isSome_iff, length, files_createAll, List.length_append]
  show (UInt32.ofNat k).toNat < l.length + sources.length
  rw [UInt32.toNat_ofNat']
  exact Nat.lt_of_le_of_lt (Nat.mod_le _ _) hk.2.1

end MemoryLoader

/-! ## Sets of files of the own loader -/

namespace LoaderWorld

variable {σ : Type} {w : LoaderWorld σ} {memory : MemoryLoader} {registered : List LoaderId}

/-- **The entries of files in memory** are what the data of each brings, one
after the other, up to the first that is not font data; and the world is as
it was. -/
theorem entries_withMemory (hregistered : .memory ∈ registered) {files : List FontFile}
    (hfiles : ∀ file ∈ files, file.loader = .memory) (s : σ) :
    (w.withMemory memory).entries registered files s
      = ((files.mapM fun file => FontEntry.ofFile file (memory.data? file.key)).map List.flatten,
        s) := by
  have hdata : ∀ file ∈ files,
      (w.withMemory memory).data file.loader file.key s = (memory.data? file.key, s) := by
    intro file hfile
    rw [hfiles file hfile, data_withMemory]
  have hcontribution : ∀ file ∈ files, (w.withMemory memory).contribution registered s file
      = FontEntry.ofFile file (memory.data? file.key) := by
    intro file hfile
    have hloader : file.loader ∈ registered := by rwa [hfiles file hfile]
    rw [contribution, if_neg (not_not_intro hloader), hdata file hfile]
  rw [entries_of_quiet fun file hfile => by rw [hdata file hfile],
    mapM_congr_of_mem hcontribution]

/-- **The set of files with fonts** gives what is listed of the fonts, file
by file. -/
theorem buildSet_of_hasFonts (hregistered : .memory ∈ registered) {files : List FontFile}
    {fonts : List (List Font)} (h : List.Forall₂ memory.HasFonts files fonts) (s : σ) :
    ∃ set, (w.withMemory memory).buildSet registered files s = (.ok set, s) ∧
      List.Forall₂ memory.Gives set.entries (fonts.flatMap Font.listed) := by
  have hloader : ∀ file ∈ files, file.loader = .memory := by
    intro file hfile
    obtain ⟨fonts, -, hfonts⟩ := exists_right_of_mem_left h hfile
    exact hfonts.loader
  obtain ⟨parts, hparts, hgives⟩ : ∃ parts : List (List FontEntry),
      List.Forall₂ (fun file part =>
        FontEntry.ofFile file (memory.data? file.key) = .ok part) files parts ∧
      List.Forall₂ (fun part fonts => List.Forall₂ memory.Gives part (Font.listed fonts))
        parts fonts :=
    exists_forall₂_of_forall₂ h fun file fonts hfonts =>
      ⟨_, hfonts.ofFile_eq, hfonts.forall₂_gives⟩
  refine ⟨⟨parts.flatten⟩, ?_, ?_⟩
  · rw [buildSet, entries_withMemory hregistered hloader, mapM_eq_ok_iff_forall₂.mpr hparts]
    rfl
  · rw [List.flatMap_def]
    exact List.rel_flatten (List.forall₂_map_right_iff.mpr hgives)

/-- **A set of files in memory gives what is listed of it.** -/
theorem forall₂_gives_of_buildSet {files : List FontFile} {s s' : σ} {set : FontSet}
    (hfiles : ∀ file ∈ files, file.loader = .memory ∧ (memory.data? file.key).isSome = true)
    (h : (w.withMemory memory).buildSet registered files s = (.ok set, s')) :
    ∃ listing, List.Forall₂ memory.Gives set.entries listing := by
  by_cases hregistered : LoaderId.memory ∈ registered
  · have hset := h
    rw [buildSet, entries_withMemory hregistered fun file hfile => (hfiles file hfile).1] at hset
    cases hparts : files.mapM fun file => FontEntry.ofFile file (memory.data? file.key) with
    | error error =>
      rw [hparts] at hset
      cases hset
    | ok parts =>
      have hparts := mapM_eq_ok_iff_forall₂.mp hparts
      obtain ⟨fonts, hfonts⟩ : ∃ fonts, List.Forall₂ memory.HasFonts files fonts := by
        refine exists_forall₂_of_forall_mem fun file hfile => ?_
        obtain ⟨part, -, hpart⟩ := exists_right_of_mem_left hparts hfile
        obtain ⟨hloader, hsome⟩ := hfiles file hfile
        exact MemoryLoader.exists_hasFonts_of_ofFile hloader hsome hpart
      obtain ⟨set', hset', hgives⟩ := buildSet_of_hasFonts (w := w) hregistered hfonts s
      rw [h] at hset'
      cases hset'
      exact ⟨_, hgives⟩
  · -- Without the loader registered, no file was accepted.
    cases files with
    | nil =>
      cases h
      exact ⟨[], List.Forall₂.nil⟩
    | cons file files =>
      have hloader := (hfiles file (List.mem_cons_self ..)).1
      rw [buildSet, entries, if_pos (by rw [hloader]; exact hregistered)] at h
      cases h

/-! ## Details of such a set -/

variable {entries : List FontEntry} {listing : List (FontProperties × FontFace)}

theorem anyRemote_of_gives (h : List.Forall₂ memory.Gives entries listing) (s : σ) :
    (w.withMemory memory).anyRemote entries s = (false, s) := by
  induction h with
  | nil => rfl
  | cons hfirst _ ih =>
    rw [anyRemote, hfirst.loader]
    exact ih

theorem readFace_of_gives {entry : FontEntry} {listed : FontProperties × FontFace}
    (h : memory.Gives entry listed) (s : σ) :
    (w.withMemory memory).readFace entry s = (.ok listed.2, s) := by
  rw [readFace, h.loader, data_withMemory]
  exact congrArg (·, s) h.face

theorem requestAll_of_gives (h : List.Forall₂ memory.Gives entries listing) (s : σ) :
    (w.withMemory memory).requestAll entries s = (.ok (), s) := by
  induction h with
  | nil => rfl
  | cons hfirst _ ih =>
    rw [requestAll, hfirst.loader]
    exact ih

variable (signal : StopSignal σ)

/-- Data in memory is not waited for. -/
theorem await_of_loader {file : FontFile} (h : file.loader = .memory) (deadline : Deadline)
    (pauses : Nat) (t : Timed σ) :
    (w.withMemory memory).await signal file deadline pauses t = (.arrived, t) := by
  rw [await, h]
  rfl

theorem awaitLines_of_gives (h : List.Forall₂ memory.Gives entries listing) (deadline : Deadline)
    (patience index : Nat) (t : Timed σ) :
    (w.withMemory memory).awaitLines signal deadline patience index entries t
      = (some (detailLines index listing), t) := by
  induction h generalizing index with
  | nil => rfl
  | cons hfirst _ ih =>
    rw [awaitLines, await_of_loader signal hfirst.loader]
    dsimp only
    rw [readFace_of_gives hfirst]
    dsimp only
    rw [ih, detailLines_cons]

/-- **The details of a set in memory** are the lines for what is listed,
whatever the timeout, and nothing happens to the world. -/
theorem details_of_gives (h : List.Forall₂ memory.Gives entries listing) (timeout : Duration)
    (patience : Nat) {t : Timed σ} (hsilent : signal t.world = false) :
    (w.withMemory memory).details signal timeout patience entries t
      = (detailLines 0 listing, t) := by
  rw [details, if_neg (by rw [hsilent]; exact Bool.false_ne_true), requestAll_of_gives h]
  dsimp only
  rw [awaitLines_of_gives signal h]
  rfl

end LoaderWorld

/-! ## Sets that were built from memory -/

namespace Catalog

variable {σ : Type} {w : LoaderWorld σ} {c c' : Catalog}

/-- **A catalogue whose set is in its own loader**: the loader gives every
entry. -/
def GivesAll (c : Catalog) (listing : List (FontProperties × FontFace)) : Prop :=
  c.isBuilt = true ∧ List.Forall₂ c.memoryLoader.Gives c.entries listing

/-- **A set that was built from memory is in the own loader.** -/
theorem exists_givesAll_of_buildFromMemory {sources : List FontSource} {s s' : σ}
    {set : FontSet} (h : c.buildFromMemory w sources s = (.ok set, c', s')) :
    c'.entries = set.entries ∧ ∃ listing, c'.GivesAll listing := by
  have hbuild := memoryBuild w sources c s
  rw [h] at hbuild
  cases hbuild with
  | built _ _ _ hset =>
    obtain ⟨listing, hlisting⟩ := LoaderWorld.forall₂_gives_of_buildSet
      (fun _ hfile => MemoryLoader.isSome_data?_of_mem_createAll hfile) hset
    exact ⟨rfl, listing, rfl, hlisting⟩

/-- Nobody but the catalogue changes its loader, and it does so only in a
build: what is given stays given. -/
theorem GivesAll.of_eq {listing : List (FontProperties × FontFace)} (h : c.GivesAll listing)
    (hset : c'.fontSet = c.fontSet) (hmemory : c'.memory = c.memory) : c'.GivesAll listing := by
  rw [GivesAll, isBuilt, entries, memoryLoader, hset, hmemory]
  exact h

end Catalog

namespace Session

variable {σ : Type} {w : LoaderWorld σ}

/-- **A step keeps a set that is in the own loader there.** -/
theorem givesAll_step {c : Session σ} {listing : List (FontProperties × FontFace)}
    (h : c.catalog.GivesAll listing) {step : SessionStep σ}
    (hstep : ∀ change, step ≠ .changeMemory change) :
    (c.step w step).2.catalog.GivesAll listing := by
  have hafter := c.catalogStep (w := w) step
  generalize (c.step w step).2.catalog = after at hafter ⊢
  cases hafter with
  | kept => exact h
  | register _ _ id =>
    refine h.of_eq (c.catalog.fontSet_register id) ?_
    unfold Catalog.register
    split <;> rfl
  | buildFromMemory _ _ sources =>
    rw [Catalog.buildFromMemory_of_isBuilt w h.1]
    exact h
  | buildFromFiles _ _ files =>
    rw [Catalog.buildFromFiles_of_isBuilt w h.1]
    exact h
  | locale => exact h
  | changeMemory change => exact absurd rfl (hstep change)

/-- A build replies with a number of fonts if it gives a set of so many. -/
theorem eq_ok_of_replyToBuild {result : Except FontError FontSet} {count : Nat}
    (h : replyToBuild result = .built count) : ∃ set, result = .ok set ∧ set.length = count := by
  cases result with
  | error error => cases h
  | ok set => exact ⟨set, rfl, CatalogReply.built.inj h⟩

/-- **A set that was built from memory can be read.** Whatever the sources
are, if the set of their fonts is built, then from that time on, whatever
is asked and whatever happens in the world, there are no remote fonts, the
face of every entry can be read, and a call for details that is not stopped
at its start gives one line for each font: the same lines every time, for
every timeout. None of this changes anything in the world. -/
theorem readable_after_buildFromMemory {c : Session σ} {signal : StopSignal σ} {patience : Nat}
    {sources : List FontSource} {count : Nat}
    (hbuild : (c.step w (.ask signal patience (.buildFromMemory sources))).1
      = some (.built count)) :
    ∃ lines : List String, lines.length = count ∧
      ∀ steps : List (SessionStep σ), (∀ change, .changeMemory change ∉ steps) →
        ∀ later : Session σ,
          later = c.after w (.ask signal patience (.buildFromMemory sources) :: steps) →
          later.catalog.fontCount = count ∧
          (∀ s, later.catalog.hasRemoteFonts w s = (false, s)) ∧
          (∀ entry ∈ later.catalog.entries, ∃ face, ∀ s,
            (later.catalog.inWorld w).readFace entry s = (.ok face, s)) ∧
          ∀ (signal : StopSignal σ) (timeout : Duration) (patience : Nat) (t : Timed σ),
            signal t.world = false →
            later.catalog.details w signal timeout patience t = (lines, t) := by
  obtain ⟨set, hset, hcount⟩ : ∃ set,
      (c.catalog.buildFromMemory w sources c.timed.world).1 = .ok set ∧ set.length = count :=
    eq_ok_of_replyToBuild (Option.some.inj hbuild)
  obtain ⟨hentries, listing, hgives⟩ := Catalog.exists_givesAll_of_buildFromMemory
    (show c.catalog.buildFromMemory w sources c.timed.world = (.ok set, _, _) from
      Prod.ext hset rfl)
  have hlength : listing.length = count := by
    rw [← hcount, FontSet.length, ← hentries]
    exact hgives.2.length_eq.symm
  refine ⟨detailLines 0 listing, (length_detailLines 0 listing).trans hlength, ?_⟩
  intro steps hsteps later hlater
  have hkept : later.catalog.GivesAll listing := by
    rw [hlater, after_cons]
    refine after_induction_of_mem (P := fun c => c.catalog.GivesAll listing)
      (fun c step hmem h => givesAll_step h fun change heq => ?_) hgives
    exact hsteps change (heq ▸ hmem)
  refine ⟨?_, fun s => LoaderWorld.anyRemote_of_gives hkept.2 s, fun entry hentry => ?_,
    fun signal timeout patience t hsilent =>
      LoaderWorld.details_of_gives signal hkept.2 timeout patience hsilent⟩
  · exact hkept.2.length_eq.trans hlength
  · obtain ⟨listed, -, hlisted⟩ := exists_right_of_mem_left hkept.2 hentry
    exact ⟨listed.2, fun s => LoaderWorld.readFace_of_gives hlisted s⟩

/-- A font without tables and a collection of two such fonts. Later another
loader is registered and another build is tried; there are three lines at
no timeout at all and at the longest. -/
theorem readable_after_buildFromMemory_of_collection :
    ∃ (c later : Session Unit) (sources : List FontSource) (steps : List (SessionStep Unit))
      (lines : List String),
      (c.step .vacant (.ask .silent 0 (.buildFromMemory sources))).1 = some (.built 3) ∧
      (∀ change, .changeMemory change ∉ steps) ∧
      later = c.after .vacant (.ask .silent 0 (.buildFromMemory sources) :: steps) ∧
      lines.length = 3 ∧ later.catalog.fontCount = 3 ∧
      later.catalog.details .vacant .silent 0 0 ⟨(), 0⟩ = (lines, ⟨(), 0⟩) ∧
      later.catalog.details .vacant .silent Duration.longest 0 ⟨(), 0⟩ = (lines, ⟨(), 0⟩) := by
  let bare : Bytes := [0, 1, 0, 0, 0, 0, 0, 0, 0, 0, 0, 0]
  let sources : List FontSource := [.whole "bare" bare, .whole "two"
    ([0x74, 0x74, 0x63, 0x66, 0, 1, 0, 0, 0, 0, 0, 2, 0, 0, 0, 20, 0, 0, 0, 20] ++ bare)]
  let c : Session Unit := new (.empty true) ⟨(), 0⟩
  let steps : List (SessionStep Unit) :=
    [.ask .silent 0 (.register (.outside 1)), .ask .silent 0 (.buildFromFiles [])]
  have hbuild : (c.step .vacant (.ask .silent 0 (.buildFromMemory sources))).1
      = some (.built 3) := by decide +kernel
  have hsteps : ∀ change, .changeMemory change ∉ steps := by
    intro change hmem
    rcases List.mem_cons.mp hmem with h | hmem
    · cases h
    · cases List.mem_singleton.mp hmem
  obtain ⟨lines, hlines, hlater⟩ := readable_after_buildFromMemory hbuild
  obtain ⟨hcount, -, -, hdetails⟩ := hlater steps hsteps _ rfl
  exact ⟨c, _, sources, steps, lines, hbuild, hsteps, rfl, hlines, hcount,
    hdetails .silent 0 0 ⟨(), 0⟩ rfl, hdetails .silent Duration.longest 0 ⟨(), 0⟩ rfl⟩

end Session

end FontCatalog
