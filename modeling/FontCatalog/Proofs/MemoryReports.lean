import FontCatalog.Catalog.Report
import FontCatalog.Proofs.ReadableSets
import Mathlib.Data.List.GetD

/-!
# Reports on sets from memory

A new catalogue that builds a set from memory and reports on it is a
function of the data alone. If all data is font data, the reports have a
fixed form (`Catalog.reportsText`): the number of fonts, their names, and a
line for each of them – no fetching is announced and no line is missing,
since all fonts are in memory (`Catalog.GivesAll.reports_eq`). If some is
not, the set is not built, and the first source that cannot be read is the
reason (`Catalog.fst_buildFromMemory_blank_of_unreadable`).

One limit is in the keys of the catalogue's own loader. They have 32 bits,
so with more sources than there are keys, keys come up a second time, and
the font that is found for such a key is the one that had it first. `byKey`
lists what is found; up to the limit that is simply what was put in
(`byKey_of_length_le`).
-/

namespace FontCatalog

/-! ## Keys of sources -/

/-- **What is found for the first `n` keys that are given out**, of lists
that were put in one after the other. Behind the last key, the first ones
are given out again. -/
def byKey {α : Type} (xs : List (List α)) (n : Nat) : List (List α) :=
  (List.range n).map fun k => xs.getD (k % UInt32.size) []

/-- As long as there are keys, everything that was put in is found in its
place. -/
theorem byKey_of_length_le {α : Type} {xs : List (List α)} (h : xs.length ≤ UInt32.size) :
    byKey xs xs.length = xs := by
  refine List.ext_getElem (by rw [byKey, List.length_map, List.length_range]) fun k hk hk' => ?_
  simp only [byKey, List.getElem_map, List.getElem_range]
  rw [Nat.mod_eq_of_lt (Nat.lt_of_lt_of_le hk' h), List.getD_eq_getElem _ _ hk']

theorem map_byKey {α β : Type} {f : List α → List β} (hf : f [] = []) (xs : List (List α))
    (n : Nat) : (byKey xs n).map f = byKey (xs.map f) n := by
  rw [byKey, byKey, List.map_map]
  refine List.map_congr_left fun k _ => ?_
  rw [Function.comp_apply, ← hf, List.getD_map]

namespace MemoryLoader

variable {sources : List FontSource}

/-- The files for sources that are the first of their loader. -/
def filesOf (sources : List FontSource) : List FontFile :=
  (empty.createAll .memory sources).1

theorem filesOf_eq (sources : List FontSource) :
    filesOf sources = sources.zipIdx.map fun p => ⟨.memory, ⟨UInt32.ofNat p.2⟩, p.1.name⟩ :=
  fst_createAll empty .memory sources

/-- **The data of the `k`-th file**, counted up to the number of keys. -/
theorem data?_ofNat (sources : List FontSource) (k : Nat) :
    (⟨sources⟩ : MemoryLoader).data? ⟨UInt32.ofNat k⟩ = sources[k % UInt32.size]? := by
  rw [data?]
  exact congrArg (sources[·]?) UInt32.toNat_ofNat'

/-- **The fonts of sources are found by their keys.** -/
theorem forall₂_hasFonts {fonts : List (List Font)}
    (h : List.Forall₂ (fun source fonts => Font.faces source.data = .ok fonts)
      (sources.take UInt32.size) fonts) :
    List.Forall₂ (⟨sources⟩ : MemoryLoader).HasFonts (filesOf sources)
      (byKey fonts sources.length) := by
  have hrange : List.range sources.length = sources.zipIdx.map Prod.snd := by
    rw [List.zipIdx_map_snd, List.range_eq_range']
  rw [filesOf_eq, byKey, hrange, List.map_map, List.forall₂_map_left_iff,
    List.forall₂_map_right_iff, List.forall₂_same]
  rintro ⟨source, k⟩ hmem
  have hk : k % UInt32.size < sources.length :=
    Nat.lt_of_le_of_lt (Nat.mod_le _ _) (List.snd_lt_of_mem_zipIdx hmem)
  have hsource : (sources.take UInt32.size)[k % UInt32.size]? = some sources[k % UInt32.size] := by
    rw [List.getElem?_take_of_lt (Nat.mod_lt _ (by decide)), List.getElem?_eq_getElem hk]
  obtain ⟨found, hfound, hfaces⟩ := exists_getElem?_of_forall₂ h hsource
  refine ⟨rfl, sources[k % UInt32.size], ?_, ?_⟩
  · rw [data?_ofNat, List.getElem?_eq_getElem hk]
  · rw [Function.comp_apply, List.getD_eq_getElem?_getD, hfound]
    exact hfaces

/-- **The first source that is not font data fails them all**, as long as it
has a key of its own. -/
theorem mapM_ofFile_eq_error {before after : List FontSource} {source : FontSource}
    {error : ReadError} (hkey : before.length < UInt32.size)
    (hbefore : ∀ s ∈ before, ∃ fonts, Font.faces s.data = .ok fonts)
    (hsource : Font.faces source.data = .error error) :
    ((filesOf (before ++ source :: after)).mapM fun file =>
        FontEntry.ofFile file ((⟨before ++ source :: after⟩ : MemoryLoader).data? file.key))
      = .error (.unreadable source.name error) := by
  -- The keys up to the source are all different, so each stands for its own source.
  have hdata : ∀ {s : FontSource} {k : Nat}, (before ++ source :: after)[k]? = some s →
      k ≤ before.length → (⟨before ++ source :: after⟩ : MemoryLoader).data? ⟨UInt32.ofNat k⟩
        = some s := by
    intro s k hs hk
    rw [data?_ofNat, Nat.mod_eq_of_lt (Nat.lt_of_le_of_lt hk hkey), hs]
  rw [filesOf_eq, List.zipIdx_append, List.map_append, List.zipIdx_cons, List.map_cons]
  refine mapM_eq_error_of_first (fun file hfile => ?_) ?_
  · obtain ⟨⟨s, k⟩, hmem, rfl⟩ := List.mem_map.mp hfile
    have hs : before[k]? = some s := List.mem_zipIdx_iff_getElem?.mp hmem
    have hk : k < before.length := List.snd_lt_of_mem_zipIdx hmem
    obtain ⟨fonts, hfonts⟩ := hbefore s (List.mem_of_getElem? hs)
    refine ⟨FontEntry.ofFonts ⟨.memory, ⟨UInt32.ofNat k⟩, s.name⟩ fonts, ?_⟩
    dsimp only
    rw [hdata ((List.getElem?_append_left hk).trans hs) (Nat.le_of_lt hk), FontEntry.ofFile, hfonts]
  · have hs : (before ++ source :: after)[before.length]? = some source := by
      rw [List.getElem?_append_right (Nat.le_refl _), Nat.sub_self, List.getElem?_cons_zero]
    dsimp only
    rw [Nat.zero_add, hdata hs (Nat.le_refl _), FontEntry.ofFile, hsource]

end MemoryLoader

namespace Catalog

/-! ## A new catalogue's set -/

/-- A new catalogue that can load fonts from memory and wants names in a
given language. -/
def blank (locale : String) : Catalog := (new (.empty true)).withLocale locale

/-- The new catalogue when it has kept sources. -/
def holding (locale : String) (sources : List FontSource) : Catalog :=
  (blank locale).withOwnLoader.keeping sources

@[simp] theorem memoryLoader_holding (locale : String) (sources : List FontSource) :
    (holding locale sources).memoryLoader = ⟨sources⟩ :=
  congrArg MemoryLoader.mk (MemoryLoader.files_createAll .empty .memory sources)

variable {σ : Type} {w : LoaderWorld σ} {locale : String} {sources : List FontSource} {s s' : σ}
  {set : FontSet} {error : FontError}

/-- **A new catalogue's build from memory comes to building the set**:
nothing else stands in its way. -/
theorem buildFromMemory_blank : (blank locale).buildFromMemory w sources s
    = match (holding locale sources).buildFromFiles w (MemoryLoader.filesOf sources) s with
      | (.ok set, c, s) => (.ok set, c, s)
      | (.error error, c, s) =>
        (.error error, { c with memory := some (c.memoryLoader.truncate 0) }, s) :=
  buildFromMemory_of_ensureMemory rfl rfl (ensureMemory_of_notMem rfl List.not_mem_nil)

theorem buildFromMemory_blank_of_ok
    (hset : (w.withMemory ⟨sources⟩).buildSet [.memory] (MemoryLoader.filesOf sources) s
      = (.ok set, s')) :
    (blank locale).buildFromMemory w sources s
      = (.ok set, { holding locale sources with fontSet := some set }, s') := by
  rw [← memoryLoader_holding locale] at hset
  rw [buildFromMemory_blank, buildFromFiles_of_ok rfl hset]

theorem fst_buildFromMemory_blank_of_error
    (hset : (w.withMemory ⟨sources⟩).buildSet [.memory] (MemoryLoader.filesOf sources) s
      = (.error error, s')) :
    ((blank locale).buildFromMemory w sources s).1 = .error error := by
  rw [← memoryLoader_holding locale] at hset
  rw [buildFromMemory_blank, buildFromFiles_of_error rfl hset]

/-- **Sources that are all font data make a set**, and the catalogue's own
loader gives what is listed of their fonts. -/
theorem exists_buildFromMemory_blank (w : LoaderWorld σ) (locale : String) (s : σ)
    {fonts : List (List Font)}
    (h : List.Forall₂ (fun source fonts => Font.faces source.data = .ok fonts)
      (sources.take UInt32.size) fonts) :
    ∃ set c, (blank locale).buildFromMemory w sources s = (.ok set, c, s) ∧
      c.locale = locale ∧ c.GivesAll (byKey (fonts.map Font.listed) sources.length).flatten := by
  obtain ⟨set, hset, hgives⟩ := LoaderWorld.buildSet_of_hasFonts (w := w)
    (List.mem_singleton_self LoaderId.memory) (MemoryLoader.forall₂_hasFonts h) s
  refine ⟨set, _, buildFromMemory_blank_of_ok hset, rfl, rfl, ?_⟩
  rw [List.flatMap_def, map_byKey (f := Font.listed) rfl] at hgives
  show List.Forall₂ (holding locale sources).memoryLoader.Gives set.entries _
  rw [memoryLoader_holding]
  exact hgives

/-- **A source that is not font data is the reason that there is no set**: the
first one, as long as it has a key of its own. -/
theorem fst_buildFromMemory_blank_of_unreadable (w : LoaderWorld σ) (locale : String) (s : σ)
    {before : List FontSource} {source : FontSource} {cause : ReadError}
    (after : List FontSource) (hkey : before.length < UInt32.size)
    (hbefore : ∀ s ∈ before, ∃ fonts, Font.faces s.data = .ok fonts)
    (hsource : Font.faces source.data = .error cause) :
    ((blank locale).buildFromMemory w (before ++ source :: after) s).1
      = .error (.unreadable source.name cause) := by
  have hloader : ∀ file ∈ MemoryLoader.filesOf (before ++ source :: after),
      file.loader = .memory := fun _ hfile =>
    (MemoryLoader.isSome_data?_of_mem_createAll hfile).1
  have hset : (w.withMemory ⟨before ++ source :: after⟩).buildSet [.memory]
      (MemoryLoader.filesOf (before ++ source :: after)) s
        = (.error (.unreadable source.name cause), s) := by
    rw [LoaderWorld.buildSet,
      LoaderWorld.entries_withMemory (List.mem_singleton_self LoaderId.memory) hloader,
      MemoryLoader.mapM_ofFile_eq_error hkey hbefore hsource]
    rfl
  exact fst_buildFromMemory_blank_of_error hset

/-! ## The text of the reports -/

/-- Lines come behind a text that is there. -/
theorem foldl_lines (text : String) (lines : List String) :
    lines.foldl (fun text line => text ++ line ++ "\n") text = text ++ textOfLines lines := by
  rw [textOfLines]
  induction lines generalizing text with
  | nil => exact String.append_empty.symm
  | cons line lines ih =>
    rw [List.foldl_cons, List.foldl_cons, ih, ih ("" ++ line ++ "\n"), String.empty_append,
      String.append_assoc, String.append_assoc, String.append_assoc]

theorem textOfLines_append (lines more : List String) :
    textOfLines (lines ++ more) = textOfLines lines ++ textOfLines more := by
  rw [textOfLines, List.foldl_append, foldl_lines]
  rfl

/-- **The names that are reported**: of everything listed the full name that
suits `locale` best, each once. -/
def reportedNames (locale : String) (listing : List (FontProperties × FontFace)) : List String :=
  (listing.filterMap fun listed => LocalizedName.select? listed.1.fullName locale).eraseDups

/-- **The text of both reports** on fonts that are there: how many they are,
their names, and a line for each. -/
def reportsText (count : Nat) (names lines : List String) : String :=
  textOfLines <|
    ["Number of fonts in the font set: " ++ toString count,
     "",
     "Full face name property for fonts in the custom font set:"]
      ++ names
      ++ ["",
          "",
          "Reporting some details requiring actual font data:"]
      ++ lines

variable {c : Catalog} {listing : List (FontProperties × FontFace)}

theorem GivesAll.fontCount_eq (h : c.GivesAll listing) : c.fontCount = listing.length :=
  h.2.length_eq

/-- The names of a set are those of what is listed. -/
theorem GivesAll.fullNames_eq (h : c.GivesAll listing) :
    c.fullNames = reportedNames c.locale listing := by
  obtain ⟨hbuilt, hgives⟩ := h
  obtain ⟨set, hset⟩ := Option.isSome_iff_exists.mp hbuilt
  rw [fullNames, fullNamesFor, hset, Option.map_some, Option.getD_some, FontSet.propertyValues,
    reportedNames]
  rw [entries, hset, Option.map_some, Option.getD_some] at hgives
  refine congrArg List.eraseDups ?_
  rw [FontSet.bestValues]
  generalize set.entries = entries at hgives
  induction hgives with
  | nil => rfl
  | cons hfirst _ ih =>
    rw [List.filterMap_cons, List.filterMap_cons, hfirst.properties, ih]
    rfl

/-- **The reports on a set in memory** have the number of its fonts, their
names and a line for each, whatever the timeout. -/
theorem GivesAll.reports_eq (h : c.GivesAll listing) (hsome : listing ≠ []) (timeout : Duration)
    (patience : Nat) (t : Timed σ) :
    c.propertiesReport ++ (c.interactiveDetailsReport w timeout patience t).1
      = reportsText listing.length (reportedNames c.locale listing) (detailLines 0 listing) := by
  have hcount : c.fontCount ≠ 0 := by
    rw [h.fontCount_eq]
    exact fun hzero => hsome (List.length_eq_zero_iff.mp hzero)
  have hremote : ∀ s, c.hasRemoteFonts w s = (false, s) :=
    fun s => LoaderWorld.anyRemote_of_gives h.2 s
  have hdetails : c.details w StopSignal.silent timeout patience t = (detailLines 0 listing, t) :=
    LoaderWorld.details_of_gives StopSignal.silent h.2 timeout patience rfl
  have hlines : (detailLines 0 listing).isEmpty = false := by
    rw [List.isEmpty_eq_false_iff, ← List.length_pos_iff, length_detailLines, List.length_pos_iff]
    exact hsome
  have hproperties : c.propertiesReport = textOfLines
      (["Number of fonts in the font set: " ++ toString listing.length,
        "",
        "Full face name property for fonts in the custom font set:"]
        ++ reportedNames c.locale listing ++ [""]) := by
    rw [propertiesReport, if_neg hcount, h.fontCount_eq, h.fullNames_eq]
    rfl
  have hrest : (c.interactiveDetailsReport w timeout patience t).1 = textOfLines
      (["", "Reporting some details requiring actual font data:"] ++ detailLines 0 listing) := by
    rw [interactiveDetailsReport, hremote]
    dsimp only
    rw [detailsReport, if_neg hcount, hremote]
    dsimp only
    rw [hdetails]
    dsimp only
    rw [hlines]
    rfl
  rw [hproperties, hrest, ← textOfLines_append, reportsText]
  simp only [List.append_assoc, List.cons_append, List.nil_append]

end Catalog

end FontCatalog
