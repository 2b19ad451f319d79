import FontCatalog.CommandLine.Run
import FontCatalog.Proofs.MemoryReports
import FontCatalog.Proofs.PackedFonts
import FontCatalog.Proofs.PlainFonts

/-!
# Commands on fonts in memory

A command on fonts in memory goes through many hands: paths are gathered,
files are read and packed, the package and the document hand out sources, a
catalogue builds a set of them, and two reports are written. `MemoryRun`
says what comes of it without any of these steps, from the files alone, and
`run_eq_iff_memoryRun` says that this is what comes of it, in every case.

The cases are in the order in which a command can fail: for its directory,
for the first path that cannot be read, for the first file that is not font
data. A file is parsed only after all files are read, so one that cannot be
read counts before any that is damaged, wherever the two stand. The two
fonts that are always there cannot fail, and neither can the packing.

Whatever fails, it fails before the first report, so nothing but the line
for the scenario is written then. The last case is the limit of the keys,
which have 32 bits: up to that many fonts, and so for every command that is
ever given, it does not arise.
-/

namespace FontCatalog.CommandLine

open Catalog (reportedNames reportsText)

/-! ## What comes of a command -/

/-- **The paths of a command**: those named one by one, and then the font
files of the directory, if one is named. -/
inductive NamedPaths (tree : FileTree) (o : Options) : List String → Prop
  /-- No directory is named. -/
  | alone (hdirectory : o.fontDirectory = none) : NamedPaths tree o o.fonts
  /-- There is a directory, and its font files are found. -/
  | withDirectory {directory : String} {files : List String}
    (hdirectory : o.fontDirectory = some directory) (his : tree.isDirectory directory = true)
    (hfiles : Glob.fontFiles tree directory = .ok files) : NamedPaths tree o (o.fonts ++ files)

/-- A path that can be read. -/
def IsReadable (tree : FileTree) (path : String) : Prop := ∃ data, tree.read path = .ok data

/-- **A path of a file with fonts**, all of them. -/
def HasFonts (tree : FileTree) (path : String) (fonts : List Font) : Prop :=
  ∃ data, tree.read path = .ok data ∧ Font.faces data = .ok fonts

/-- What is listed of the font that the application brings with it. -/
def bundledListing : FontProperties × FontFace :=
  ApplicationFonts.bundledFont.plainListing 486

/-- What is listed of the font of the document. -/
def documentListing : FontProperties × FontFace := Document.sampleFont.plainListing 528

/-- What is written where there are `count` fonts, of which `listing` is
listed. -/
def reportOutput (o : Options) (count : Nat) (listing : List (FontProperties × FontFace)) :
    String :=
  scenarioLine ++ reportsText count (reportedNames o.locale listing) (detailLines 0 listing)

/-- **What comes of a command on fonts in memory.** -/
inductive MemoryRun (tree : FileTree) (o : Options) : Outcome → Prop
  /-- The directory is not one. -/
  | noDirectory {directory : String} (hdirectory : o.fontDirectory = some directory)
    (hnot : tree.isDirectory directory = false) :
    MemoryRun tree o ⟨scenarioLine, 1, some (.directoryNotFound directory)⟩
  /-- The directory cannot be searched. -/
  | noSearch {directory : String} {error : Glob.SearchError}
    (hdirectory : o.fontDirectory = some directory) (his : tree.isDirectory directory = true)
    (hsearch : Glob.fontFiles tree directory = .error error) :
    MemoryRun tree o ⟨scenarioLine, 1, some (.search error)⟩
  /-- A path cannot be read, and none before it. -/
  | unreadable {before after : List String} {path : String} {cause : FileError}
    (hpaths : NamedPaths tree o (before ++ path :: after))
    (hbefore : ∀ earlier ∈ before, IsReadable tree earlier)
    (hpath : tree.read path = .error cause) :
    MemoryRun tree o ⟨scenarioLine, 1, some (.unreadableFile path cause)⟩
  /-- All paths can be read, and a file is not font data, and none before
  it. -/
  | malformed {before after : List String} {path : String} {data : Bytes} {cause : ReadError}
    (hpaths : NamedPaths tree o (before ++ path :: after))
    (hread : ∀ other ∈ before ++ path :: after, IsReadable tree other)
    (hbefore : ∀ earlier ∈ before, ∃ fonts, HasFonts tree earlier fonts)
    (hdata : tree.read path = .ok data) (hcause : Font.faces data = .error cause)
    (hkey : before.length + 1 < UInt32.size) :
    MemoryRun tree o
      ⟨scenarioLine, 1, some (.unbuildable (.unreadable (fontNameOf path) cause))⟩
  /-- All files have fonts: the set has them between the two fonts that are
  always there, and there are as many lines as fonts, whatever the
  timeout. -/
  | reported {paths : List String} {fonts : List (List Font)} (hpaths : NamedPaths tree o paths)
    (hfonts : List.Forall₂ (HasFonts tree) paths fonts)
    (hkeys : paths.length + 2 ≤ UInt32.size) :
    MemoryRun tree o
      ⟨reportOutput o (2 + (fonts.flatMap Font.listed).length)
        (bundledListing :: (fonts.flatMap Font.listed ++ [documentListing])), 0, none⟩
  /-- There are more fonts than keys: those without a key of their own are
  taken for the ones that have their keys. -/
  | overfull {paths : List String} {fonts : List (List Font)} (hpaths : NamedPaths tree o paths)
    (hread : ∀ path ∈ paths, IsReadable tree path)
    (hfonts : List.Forall₂ (HasFonts tree) (paths.take (UInt32.size - 1)) fonts)
    (hkeys : UInt32.size < paths.length + 2)
    {listing : List (FontProperties × FontFace)}
    (hlisting : listing
      = (byKey ([bundledListing] :: fonts.map Font.listed) (paths.length + 2)).flatten) :
    MemoryRun tree o ⟨reportOutput o listing.length listing, 0, none⟩

/-! ## Gathering the sources -/

variable {tree : FileTree} {o : Options} {paths : List String}

theorem fontPaths_of_namedPaths (h : NamedPaths tree o paths) : fontPaths tree o = .ok paths := by
  cases h with
  | alone hdirectory => rw [fontPaths, hdirectory]
  | withDirectory hdirectory his hfiles =>
    rw [fontPaths, hdirectory]
    dsimp only
    rw [his, hfiles]
    rfl

/-- **A source that is read from a path**: called by the name the path ends
in, with the data of the file. -/
def ReadsAs (tree : FileTree) (path : String) (source : FontSource) : Prop :=
  source.name = fontNameOf path ∧ tree.read path = .ok source.data

/-- **A source of one font**, of which `listing` is listed. -/
def IsListedAs (listing : FontProperties × FontFace) (source : FontSource) : Prop :=
  ∃ font, Font.faces source.data = .ok [font] ∧ Font.listed [font] = [listing]

theorem ReadsAs.faces_eq {path : String} {source : FontSource} {fonts : List Font}
    (h : ReadsAs tree path source) (hfonts : HasFonts tree path fonts) :
    Font.faces source.data = .ok fonts := by
  obtain ⟨data, hdata, hfaces⟩ := hfonts
  rw [h.2] at hdata
  cases hdata
  exact hfaces

/-- **Files that can be read are read**, in order. -/
theorem exists_readFonts (hread : ∀ path ∈ paths, IsReadable tree path) :
    ∃ fonts, readFonts tree paths = .ok fonts ∧
      List.Forall₂ (fun path font => font.1 = fontNameOf path ∧ tree.read path = .ok font.2)
        paths fonts := by
  obtain ⟨fonts, hfonts⟩ : ∃ fonts, List.Forall₂ (fun path (font : String × Bytes) =>
      font.1 = fontNameOf path ∧ tree.read path = .ok font.2) paths fonts := by
    refine exists_forall₂_of_forall_mem fun path hmem => ?_
    obtain ⟨data, hdata⟩ := hread path hmem
    exact ⟨(fontNameOf path, data), rfl, hdata⟩
  refine ⟨fonts, mapM_eq_ok_iff_forall₂.mpr (hfonts.imp ?_), hfonts⟩
  rintro path ⟨_, data⟩ ⟨rfl, hdata⟩
  dsimp only at hdata ⊢
  rw [hdata]

/-- The first file that cannot be read is the reason that none are. -/
theorem readFonts_of_unreadable {before after : List String} {path : String} {cause : FileError}
    (hbefore : ∀ earlier ∈ before, IsReadable tree earlier)
    (hpath : tree.read path = .error cause) :
    readFonts tree (before ++ path :: after) = .error (.unreadableFile path cause) := by
  refine mapM_eq_error_of_first (fun earlier hmem => ?_) ?_
  · obtain ⟨data, hdata⟩ := hbefore earlier hmem
    exact ⟨(fontNameOf earlier, data), by rw [hdata]⟩
  · rw [hpath]

/-- The font of the application, once it is packed. -/
theorem exists_bundled : ∃ data, ApplicationFonts.bundled
    = .ok (FontPackage.empty.push ApplicationFonts.bundledFont.fullName data) ∧
      ∃ font, Font.faces data = .ok [font] ∧ Font.listed [font] = [bundledListing] := by
  obtain ⟨data, font, hbuild, hfaces, hlisted⟩ :=
    ApplicationFonts.isPlain_bundledFont.exists_listed
  exact ⟨data, by rw [ApplicationFonts.bundled, hbuild]; rfl, font, hfaces, hlisted⟩

/-- The sample document, once its font is made. -/
theorem exists_sample : ∃ data, Document.sample
    = .ok (Document.ofText Document.sampleText [(Document.sampleFont.fullName, data)]) ∧
      ∃ font, Font.faces data = .ok [font] ∧ Font.listed [font] = [documentListing] := by
  obtain ⟨data, font, hbuild, hfaces, hlisted⟩ := Document.isPlain_sampleFont.exists_listed
  exact ⟨data, by rw [Document.sample, hbuild]; rfl, font, hfaces, hlisted⟩

/-- **The sources of a command** whose files can be read: the font of the
application, the files in their order, and the font of the document. -/
theorem exists_memorySources (hpaths : NamedPaths tree o paths)
    (hread : ∀ path ∈ paths, IsReadable tree path) :
    ∃ first files last, memorySources tree o = .ok (first :: (files ++ [last])) ∧
      IsListedAs bundledListing first ∧ List.Forall₂ (ReadsAs tree) paths files ∧
      IsListedAs documentListing last := by
  obtain ⟨fonts, hfonts, hreads⟩ := exists_readFonts hread
  obtain ⟨bundled, hbundled, hbundledListed⟩ := exists_bundled
  obtain ⟨embedded, hsample, hembeddedListed⟩ := exists_sample
  have hpackage : ((FontPackage.empty.push ApplicationFonts.bundledFont.fullName bundled).pushAll
      fonts).Packs ([(ApplicationFonts.bundledFont.fullName, bundled)] ++ fonts) :=
    (FontPackage.packs_empty.push _ _).pushAll fonts
  have hdocument : (Document.ofText Document.sampleText
      [(Document.sampleFont.fullName, embedded)]).package.Packs
        [(Document.sampleFont.fullName, embedded)] :=
    (FontPackage.packs_empty.pushRaw _).pushAll _
  obtain ⟨own, hown, hownFonts⟩ := hpackage.sources
  obtain ⟨carried, hcarried, hcarriedFonts⟩ := hdocument.sources
  obtain ⟨first, files, hfirst, hfiles, rfl⟩ := List.forall₂_cons_right_iff.mp hownFonts
  obtain ⟨last, rest, hlast, hrest, rfl⟩ := List.forall₂_cons_right_iff.mp hcarriedFonts
  obtain rfl := List.forall₂_nil_right_iff.mp hrest
  refine ⟨first, files, last, ?_, ?_, ?_, ?_⟩
  · rw [memorySources, fontPaths_of_namedPaths hpaths, hbundled, hsample]
    change (readFonts tree paths >>= _) = _
    rw [hfonts]
    change ((ApplicationFonts.fontSources _).mapError RunError.sources >>= _) = _
    rw [ApplicationFonts.fontSources, hown]
    change ((Document.fontSources _).mapError RunError.sources >>= _) = _
    rw [Document.fontSources, hcarried]
    rfl
  · rw [IsListedAs, hfirst.2]
    exact hbundledListed
  · refine (forall₂_trans hreads hfiles.flip).imp ?_
    rintro path source ⟨font, ⟨hname, hdata⟩, hsource⟩
    exact ⟨hsource.1.trans hname, hdata.trans (congrArg Except.ok hsource.2.symm)⟩
  · rw [IsListedAs, hlast.2]
    exact hembeddedListed

theorem memorySources_of_unreadable {error : RunError} (hpaths : NamedPaths tree o paths)
    (hread : readFonts tree paths = .error error) : memorySources tree o = .error error := by
  obtain ⟨bundled, hbundled, -⟩ := exists_bundled
  rw [memorySources, fontPaths_of_namedPaths hpaths, hbundled]
  change (readFonts tree paths >>= _) = _
  rw [hread]
  rfl

/-! ## Building and reporting -/

/-- Building and reporting, on a new catalogue. -/
theorem memoryReports_eq (sources : List FontSource) (o : Options) :
    memoryReports sources o
      = match (Catalog.blank o.locale).buildFromMemory LoaderWorld.vacant sources () with
        | (.error error, _, _) => .error (.unbuildable error)
        | (.ok _, c, world) => .ok (c.propertiesReport ++
            (c.interactiveDetailsReport LoaderWorld.vacant (Duration.ofSeconds o.timeout) 0
              ⟨world, 0⟩).1) := rfl

/-- **Sources with fonts are reported on.** -/
theorem memoryReports_of_fonts {sources : List FontSource} {fonts : List (List Font)}
    (hfonts : List.Forall₂ (fun source fonts => Font.faces source.data = .ok fonts)
      (sources.take UInt32.size) fonts)
    {listing : List (FontProperties × FontFace)}
    (hlisting : listing = (byKey (fonts.map Font.listed) sources.length).flatten)
    (hsome : listing ≠ []) :
    memoryReports sources o = .ok (reportsText listing.length (reportedNames o.locale listing)
      (detailLines 0 listing)) := by
  obtain ⟨set, c, hbuild, hlocale, hgives⟩ := Catalog.exists_buildFromMemory_blank
    LoaderWorld.vacant o.locale () hfonts
  rw [← hlisting] at hgives
  rw [memoryReports_eq, hbuild]
  dsimp only
  rw [hgives.reports_eq hsome, hlocale]

/-- **The first source that is not font data is the reason that there is no
report.** -/
theorem memoryReports_of_unreadable {before after : List FontSource} {source : FontSource}
    {cause : ReadError} (hkey : before.length < UInt32.size)
    (hbefore : ∀ s ∈ before, ∃ fonts, Font.faces s.data = .ok fonts)
    (hsource : Font.faces source.data = .error cause) :
    memoryReports (before ++ source :: after) o
      = .error (.unbuildable (.unreadable source.name cause)) := by
  have hbuild := Catalog.fst_buildFromMemory_blank_of_unreadable LoaderWorld.vacant o.locale ()
    after hkey hbefore hsource
  rw [memoryReports_eq]
  generalize (Catalog.blank o.locale).buildFromMemory LoaderWorld.vacant _ () = result at hbuild ⊢
  obtain ⟨_, c, s⟩ := result
  cases hbuild
  rfl

/-! ## Running the command -/

theorem run_of_memorySources_error (hscenario : o.scenario = some .inMemory) {error : RunError}
    (h : memorySources tree o = .error error) : run tree o = ⟨scenarioLine, 1, some error⟩ := by
  rw [run, hscenario]
  dsimp only
  rw [h]
  rfl

theorem run_of_fontPaths_error (hscenario : o.scenario = some .inMemory) {error : RunError}
    (h : fontPaths tree o = .error error) : run tree o = ⟨scenarioLine, 1, some error⟩ := by
  refine run_of_memorySources_error hscenario ?_
  rw [memorySources, h]
  rfl

theorem run_of_memorySources (hscenario : o.scenario = some .inMemory)
    {sources : List FontSource} (h : memorySources tree o = .ok sources) :
    run tree o = match memoryReports sources o with
      | .ok reports => ⟨scenarioLine ++ reports, 0, none⟩
      | .error error => ⟨scenarioLine, 1, some error⟩ := by
  rw [run, hscenario]
  dsimp only
  rw [h]
  rfl

/-- **A damaged file fails the command**, once all files are read. The font of
the application has the first key, so a file has the key behind its
number. -/
theorem run_of_malformed (hscenario : o.scenario = some .inMemory) {before after : List String}
    {path : String} {data : Bytes} {cause : ReadError}
    (hpaths : NamedPaths tree o (before ++ path :: after))
    (hread : ∀ other ∈ before ++ path :: after, IsReadable tree other)
    (hbefore : ∀ earlier ∈ before, ∃ fonts, HasFonts tree earlier fonts)
    (hdata : tree.read path = .ok data) (hcause : Font.faces data = .error cause)
    (hkey : before.length + 1 < UInt32.size) :
    run tree o = ⟨scenarioLine, 1, some (.unbuildable (.unreadable (fontNameOf path) cause))⟩ := by
  obtain ⟨first, files, last, hsources, ⟨font, hfont, -⟩, hfiles, -⟩ :=
    exists_memorySources hpaths hread
  obtain ⟨earlier, source, later, rfl, hearlier, hsource, -⟩ := exists_split_of_forall₂ hfiles
  have hreports : memoryReports (first :: (earlier ++ source :: later ++ [last])) o
      = .error (.unbuildable (.unreadable source.name cause)) := by
    rw [List.append_assoc, List.cons_append, ← List.cons_append]
    refine memoryReports_of_unreadable ?_ (List.forall_mem_cons.mpr ⟨⟨_, hfont⟩, ?_⟩) ?_
    · rw [List.length_cons, ← hearlier.length_eq]
      exact hkey
    · intro s hs
      obtain ⟨path, hmem, hreads⟩ := exists_left_of_mem_right hearlier hs
      obtain ⟨fonts, hfonts⟩ := hbefore path hmem
      exact ⟨fonts, hreads.faces_eq hfonts⟩
    · obtain rfl : data = source.data := Except.ok.inj (hdata.symm.trans hsource.2)
      exact hcause
  rw [run_of_memorySources hscenario hsources, hreports]
  dsimp only
  rw [hsource.1]

/-- Sources that are read from paths with fonts have these fonts. -/
theorem forall₂_faces {files : List FontSource} {fonts : List (List Font)}
    (hfiles : List.Forall₂ (ReadsAs tree) paths files)
    (hfonts : List.Forall₂ (HasFonts tree) paths fonts) :
    List.Forall₂ (fun source fonts => Font.faces source.data = .ok fonts) files fonts := by
  refine (forall₂_trans hfiles.flip hfonts).imp fun source fonts h => ?_
  obtain ⟨path, hreads, hfonts⟩ := h
  exact ReadsAs.faces_eq hreads hfonts

/-- There are two sources more than there are paths. -/
theorem length_sources {files : List FontSource} (h : List.Forall₂ (ReadsAs tree) paths files)
    (first last : FontSource) : (first :: (files ++ [last])).length = paths.length + 2 := by
  rw [List.length_cons, List.length_append, List.length_singleton, h.length_eq]

/-- **Files with fonts are reported on**, each font in its place. -/
theorem run_of_hasFonts (hscenario : o.scenario = some .inMemory) {fonts : List (List Font)}
    (hpaths : NamedPaths tree o paths) (hfonts : List.Forall₂ (HasFonts tree) paths fonts)
    (hkeys : paths.length + 2 ≤ UInt32.size) :
    run tree o
      = ⟨reportOutput o (2 + (fonts.flatMap Font.listed).length)
          (bundledListing :: (fonts.flatMap Font.listed ++ [documentListing])), 0, none⟩ := by
  have hread : ∀ path ∈ paths, IsReadable tree path := by
    intro path hmem
    obtain ⟨fonts, -, data, hdata, -⟩ := exists_right_of_mem_left hfonts hmem
    exact ⟨data, hdata⟩
  obtain ⟨first, files, last, hsources, ⟨bundled, hbundled, hbundledListed⟩, hfiles,
    embedded, hembedded, hembeddedListed⟩ := exists_memorySources hpaths hread
  have hlength := length_sources hfiles first last
  have hfaces : List.Forall₂ (fun source fonts => Font.faces source.data = .ok fonts)
      (first :: (files ++ [last])) ([bundled] :: (fonts ++ [[embedded]])) :=
    List.Forall₂.cons hbundled (List.rel_append (forall₂_faces hfiles hfonts)
      (List.Forall₂.cons hembedded List.Forall₂.nil))
  have hlisting : bundledListing :: (fonts.flatMap Font.listed ++ [documentListing])
      = (byKey (([bundled] :: (fonts ++ [[embedded]])).map Font.listed)
          (first :: (files ++ [last])).length).flatten := by
    rw [hfaces.length_eq, ← List.length_map (f := Font.listed), byKey_of_length_le]
    · rw [List.map_cons, List.map_append, List.map_singleton, hbundledListed, hembeddedListed,
        List.flatten_cons, List.flatten_append, List.flatten_singleton, List.flatMap_def]
      rfl
    · rw [List.length_map, ← hfaces.length_eq, hlength]
      exact hkeys
  have hcount : (bundledListing :: (fonts.flatMap Font.listed ++ [documentListing])).length
      = 2 + (fonts.flatMap Font.listed).length := by
    rw [List.length_cons, List.length_append, List.length_singleton]
    omega
  rw [run_of_memorySources hscenario hsources, memoryReports_of_fonts
    (by rwa [List.take_of_length_le (hlength ▸ hkeys)]) hlisting (List.cons_ne_nil _ _), hcount]
  rfl

/-- **More fonts than keys** are reported on as well, by what is found for
their keys. -/
theorem run_of_overfull (hscenario : o.scenario = some .inMemory) {fonts : List (List Font)}
    (hpaths : NamedPaths tree o paths) (hread : ∀ path ∈ paths, IsReadable tree path)
    (hfonts : List.Forall₂ (HasFonts tree) (paths.take (UInt32.size - 1)) fonts)
    (hkeys : UInt32.size < paths.length + 2) {listing : List (FontProperties × FontFace)}
    (hlisting : listing
      = (byKey ([bundledListing] :: fonts.map Font.listed) (paths.length + 2)).flatten) :
    run tree o = ⟨reportOutput o listing.length listing, 0, none⟩ := by
  obtain ⟨first, files, last, hsources, ⟨bundled, hbundled, hbundledListed⟩, hfiles, -⟩ :=
    exists_memorySources hpaths hread
  have hlength := length_sources hfiles first last
  have hfaces : List.Forall₂ (fun source fonts => Font.faces source.data = .ok fonts)
      ((first :: (files ++ [last])).take UInt32.size) ([bundled] :: fonts) := by
    have htake : (files ++ [last]).take (UInt32.size - 1) = files.take (UInt32.size - 1) := by
      rw [List.take_append_of_le_length]
      rw [← hfiles.length_eq]
      omega
    rw [List.take_cons (by decide), htake]
    exact List.Forall₂.cons hbundled (forall₂_faces (List.forall₂_take _ hfiles) hfonts)
  have hsome : listing ≠ [] := by
    have hmem : bundledListing ∈ listing := by
      rw [hlisting]
      exact List.mem_flatten.mpr ⟨[bundledListing],
        List.mem_map.mpr ⟨0, List.mem_range.mpr (Nat.succ_pos _), rfl⟩,
        List.mem_singleton_self _⟩
    exact List.ne_nil_of_mem hmem
  rw [run_of_memorySources hscenario hsources, memoryReports_of_fonts hfaces ?_ hsome]
  · rfl
  · rw [List.map_cons, hbundledListed, hlength]
    exact hlisting

/-- **What is said to come of a command comes of it.** -/
theorem MemoryRun.run_eq (hscenario : o.scenario = some .inMemory) {outcome : Outcome}
    (h : MemoryRun tree o outcome) : run tree o = outcome := by
  cases h with
  | noDirectory hdirectory hnot =>
    refine run_of_fontPaths_error hscenario ?_
    rw [fontPaths, hdirectory]
    dsimp only
    rw [hnot]
    rfl
  | noSearch hdirectory his hsearch =>
    refine run_of_fontPaths_error hscenario ?_
    rw [fontPaths, hdirectory]
    dsimp only
    rw [his, hsearch]
    rfl
  | unreadable hpaths hbefore hpath =>
    exact run_of_memorySources_error hscenario
      (memorySources_of_unreadable hpaths (readFonts_of_unreadable hbefore hpath))
  | malformed hpaths hread hbefore hdata hcause hkey =>
    exact run_of_malformed hscenario hpaths hread hbefore hdata hcause hkey
  | reported hpaths hfonts hkeys => exact run_of_hasFonts hscenario hpaths hfonts hkeys
  | overfull hpaths hread hfonts hkeys hlisting =>
    exact run_of_overfull hscenario hpaths hread hfonts hkeys hlisting

/-- Where the keys run out, only the files that have a key of their own
count. -/
theorem memoryRun_of_overfull (hpaths : NamedPaths tree o paths)
    (hread : ∀ path ∈ paths, IsReadable tree path)
    (hfonts : ∀ path ∈ paths.take (UInt32.size - 1), ∃ fonts, HasFonts tree path fonts)
    (hkeys : UInt32.size < paths.length + 2) : ∃ outcome, MemoryRun tree o outcome := by
  obtain ⟨fonts, hfonts⟩ := exists_forall₂_of_forall_mem hfonts
  exact ⟨_, .overfull hpaths hread hfonts hkeys rfl⟩

theorem exists_memoryRun_of_namedPaths (hpaths : NamedPaths tree o paths) :
    ∃ outcome, MemoryRun tree o outcome := by
  rcases forall_or_exists_first (IsReadable tree) paths with
    hread | ⟨before, path, after, rfl, hbefore, hpath⟩
  · rcases forall_or_exists_first (fun path => ∃ fonts, HasFonts tree path fonts) paths with
      hfonts | ⟨before, path, after, rfl, hbefore, hpath⟩
    · by_cases hkeys : paths.length + 2 ≤ UInt32.size
      · obtain ⟨fonts, hfonts⟩ := exists_forall₂_of_forall_mem hfonts
        exact ⟨_, .reported hpaths hfonts hkeys⟩
      · exact memoryRun_of_overfull hpaths hread
          (fun path hmem => hfonts path (List.mem_of_mem_take hmem)) (Nat.lt_of_not_le hkeys)
    · obtain ⟨data, hdata⟩ := hread path (List.mem_append_right _ (List.mem_cons_self ..))
      cases hfaces : Font.faces data with
      | ok fonts => exact absurd ⟨fonts, data, hdata, hfaces⟩ hpath
      | error cause =>
        by_cases hkey : before.length + 1 < UInt32.size
        · exact ⟨_, .malformed hpaths hread hbefore hdata hfaces hkey⟩
        · -- The damaged file has no key of its own, so it is never parsed.
          refine memoryRun_of_overfull hpaths hread (fun other hmem => hbefore other ?_) ?_
          · rw [List.take_append_of_le_length (by omega)] at hmem
            exact List.mem_of_mem_take hmem
          · rw [List.length_append, List.length_cons]
            omega
  · cases hcause : tree.read path with
    | ok data => exact absurd ⟨data, hcause⟩ hpath
    | error cause => exact ⟨_, .unreadable hpaths hbefore hcause⟩

/-- **Something comes of every command.** -/
theorem exists_memoryRun (tree : FileTree) (o : Options) : ∃ outcome, MemoryRun tree o outcome := by
  cases hdirectory : o.fontDirectory with
  | none => exact exists_memoryRun_of_namedPaths (.alone hdirectory)
  | some directory =>
    cases his : tree.isDirectory directory with
    | false => exact ⟨_, .noDirectory hdirectory his⟩
    | true =>
      cases hfiles : Glob.fontFiles tree directory with
      | error error => exact ⟨_, .noSearch hdirectory his hfiles⟩
      | ok files => exact exists_memoryRun_of_namedPaths (.withDirectory hdirectory his hfiles)

end FontCatalog.CommandLine
