import FontCatalog.Proofs.MemoryBuilds
import FontCatalog.Proofs.RelatedLists

/-!
# Sets do not depend on who owns the data

A source is a range of something larger, and of that larger thing a set of
fonts sees nothing: it reads the bytes of the range, and speaks of the source
by its name. So sources with the same names and the same bytes make the same
set, whoever owns the bytes and wherever in their owner they lie.

That goes through three levels. What a file brings into a set is made from the
bytes of its source (`FontEntry.ofFile_congr`). Two worlds that answer all
questions for data with the same bytes build the same sets and read the same
faces (`LoaderWorld.SameBytes`). And two memory loaders with the same fonts
make such worlds of any world, so that a build from memory goes the same way
with either (`Catalog.buildFromMemory_congr`).
-/

namespace FontCatalog

/-- **Sources that are the same font**: with one name and with the same data. -/
def FontSource.SameAs (a b : FontSource) : Prop := a.name = b.name ∧ a.data = b.data

namespace FontEntry

variable {a b : Option FontSource}

/-- Of the answer of a loader only the bytes count for what a file brings. -/
theorem ofFile_congr (file : FontFile) (h : a.map FontSource.data = b.map FontSource.data) :
    ofFile file a = ofFile file b := by
  cases a with
  | none =>
    obtain rfl := Option.map_eq_none_iff.mp h.symm
    rfl
  | some source =>
    obtain ⟨other, rfl, hdata⟩ := Option.map_eq_some_iff.mp h.symm
    rw [ofFile, ofFile, hdata]

/-- And for the face of an entry. -/
theorem face_congr (entry : FontEntry) (h : a.map FontSource.data = b.map FontSource.data) :
    entry.face a = entry.face b := by
  cases a with
  | none =>
    obtain rfl := Option.map_eq_none_iff.mp h.symm
    rfl
  | some source =>
    obtain ⟨other, rfl, hdata⟩ := Option.map_eq_some_iff.mp h.symm
    rw [face, face, hdata]

end FontEntry

/-! ## Worlds with the same bytes -/

namespace LoaderWorld

variable {σ : Type} {w v : LoaderWorld σ}

/-- **Worlds with the same bytes**: asked for data, both give the same bytes or
none, and go on in the same state. -/
def SameBytes (w v : LoaderWorld σ) : Prop :=
  ∀ id key s, (w.data id key s).1.map FontSource.data = (v.data id key s).1.map FontSource.data ∧
    (w.data id key s).2 = (v.data id key s).2

theorem SameBytes.refl (w : LoaderWorld σ) : w.SameBytes w := fun _ _ _ => ⟨rfl, rfl⟩

/-- They give the same entries, file by file. -/
theorem SameBytes.entries_eq (h : w.SameBytes v) (registered : List LoaderId)
    (files : List FontFile) (s : σ) :
    w.entries registered files s = v.entries registered files s := by
  induction files generalizing s with
  | nil => rfl
  | cons file files ih =>
    obtain ⟨hbytes, hstate⟩ := h file.loader file.key s
    rw [entries, entries]
    dsimp only
    rw [FontEntry.ofFile_congr file hbytes, hstate, ih]

/-- **They build the same sets.** -/
theorem SameBytes.buildSet_eq (h : w.SameBytes v) (registered : List LoaderId)
    (files : List FontFile) (s : σ) :
    w.buildSet registered files s = v.buildSet registered files s := by
  rw [buildSet, buildSet, h.entries_eq]

/-- **They read the same faces.** -/
theorem SameBytes.readFace_eq (h : w.SameBytes v) (entry : FontEntry) (s : σ) :
    w.readFace entry s = v.readFace entry s := by
  obtain ⟨hbytes, hstate⟩ := h entry.file.loader entry.file.key s
  rw [readFace, readFace]
  dsimp only
  rw [entry.face_congr hbytes, hstate]

/-- Memory loaders with the same fonts make worlds with the same bytes. -/
theorem sameBytes_withMemory (w : LoaderWorld σ) {l m : MemoryLoader}
    (h : List.Forall₂ FontSource.SameAs l.files m.files) :
    (w.withMemory l).SameBytes (w.withMemory m) := by
  intro id key s
  cases id with
  | outside index => exact ⟨rfl, rfl⟩
  | memory =>
    have hdata : l.files.map FontSource.data = m.files.map FontSource.data :=
      map_eq_map_iff_forall₂.mpr (h.imp fun _ _ hab => hab.2)
    rw [data_withMemory, data_withMemory, MemoryLoader.data?, MemoryLoader.data?,
      ← List.getElem?_map, ← List.getElem?_map, hdata]
    exact ⟨rfl, rfl⟩

end LoaderWorld

/-! ## Builds from memory -/

namespace MemoryLoader

variable {ss ts : List FontSource}

/-- The files of sources have their names and their numbers, and nothing else
of them. -/
theorem fst_createAll_congr (l : MemoryLoader) (id : LoaderId)
    (h : List.Forall₂ FontSource.SameAs ss ts) :
    (l.createAll id ss).1 = (l.createAll id ts).1 := by
  have hnames : ss.map FontSource.name = ts.map FontSource.name :=
    map_eq_map_iff_forall₂.mpr (h.imp fun _ _ hab => hab.1)
  have hfiles : ∀ us : List FontSource, (l.createAll id us).1
      = ((us.map FontSource.name).zipIdx l.length).map fun p =>
        ⟨id, ⟨UInt32.ofNat p.2⟩, p.1⟩ := by
    intro us
    rw [fst_createAll, List.zipIdx_map, List.map_map]
    rfl
  rw [hfiles, hfiles, hnames]

end MemoryLoader

namespace Catalog

variable {σ : Type} {w : LoaderWorld σ} {ss ts : List FontSource} {s : σ}

/-- Keeping either of the sources makes worlds with the same bytes. -/
theorem sameBytes_keeping (c : Catalog) (w : LoaderWorld σ)
    (h : List.Forall₂ FontSource.SameAs ss ts) :
    ((c.keeping ss).inWorld w).SameBytes ((c.keeping ts).inWorld w) := by
  refine LoaderWorld.sameBytes_withMemory w ?_
  show List.Forall₂ FontSource.SameAs (c.memoryLoader.createAll .memory ss).2.files
    (c.memoryLoader.createAll .memory ts).2.files
  rw [MemoryLoader.files_createAll, MemoryLoader.files_createAll]
  exact List.rel_append (List.forall₂_same.mpr fun _ _ => ⟨rfl, rfl⟩) h

/-- A catalogue that is ready has its own loader, or gets it. -/
theorem Ready.ensureMemory_eq {c own : Catalog} (h : c.Ready own) :
    c.ensureMemory = (.ok (), own) := by
  cases h with
  | before h => exact ensureMemory_of_isSome h
  | made h hmem => exact ensureMemory_of_notMem h hmem

/-- **Each case of a build from memory is how the build goes.** -/
theorem MemoryBuild.buildFromMemory_eq {c : Catalog}
    {result : Except FontError FontSet × Catalog × σ} (h : c.MemoryBuild w ss s result) :
    c.buildFromMemory w ss s = result := by
  have hunbuilt : ∀ own, c.Ready own → c.isBuilt = false → (own.keeping ss).isBuilt = false :=
    fun own hown hbuilt => (congrArg Option.isSome hown.fontSet_eq).trans hbuilt
  cases h with
  | refused hbuilt =>
    rw [buildFromMemory, hbuilt]
    rfl
  | unsupported hbuilt hloads =>
    rw [buildFromMemory, hbuilt, hloads]
    rfl
  | unregistered hbuilt hloads hnone hmem =>
    rw [buildFromMemory, hbuilt, hloads, ensureMemory_of_mem hnone hmem]
    rfl
  | failed hbuilt hloads hown hset =>
    have hrest := cutBack_keeping ss hown.isSome_memory
    rw [buildFromMemory_of_ensureMemory hbuilt hloads hown.ensureMemory_eq,
      buildFromFiles_of_error (hunbuilt _ hown hbuilt) hset]
    dsimp only
    rw [hrest]
  | built hbuilt hloads hown hset =>
    rw [buildFromMemory_of_ensureMemory hbuilt hloads hown.ensureMemory_eq,
      buildFromFiles_of_ok (hunbuilt _ hown hbuilt) hset]

/-- **A build from memory goes the same way with sources that are the same
fonts**: with the same set or the same error, in a world that goes on in the
same state; and afterwards the catalogue has the same set and answers with the
same bytes. -/
theorem buildFromMemory_congr (c : Catalog) (w : LoaderWorld σ) (s : σ)
    (h : List.Forall₂ FontSource.SameAs ss ts) :
    (c.buildFromMemory w ss s).1 = (c.buildFromMemory w ts s).1 ∧
      (c.buildFromMemory w ss s).2.2 = (c.buildFromMemory w ts s).2.2 ∧
      (c.buildFromMemory w ss s).2.1.fontSet = (c.buildFromMemory w ts s).2.1.fontSet ∧
      ((c.buildFromMemory w ss s).2.1.inWorld w).SameBytes
        ((c.buildFromMemory w ts s).2.1.inWorld w) := by
  have hsame : ∀ own : Catalog, ((own.keeping ss).inWorld w).buildSet own.registry.loaders
      (own.filesFor ss) s = ((own.keeping ts).inWorld w).buildSet own.registry.loaders
        (own.filesFor ts) s := by
    intro own
    rw [(own.sameBytes_keeping w h).buildSet_eq, filesFor, filesFor,
      MemoryLoader.fst_createAll_congr _ _ h]
  have hbuild := memoryBuild w ss c s
  generalize c.buildFromMemory w ss s = result at hbuild ⊢
  cases hbuild with
  | refused hbuilt =>
    have hother : c.MemoryBuild w ts s _ := .refused hbuilt
    rw [hother.buildFromMemory_eq]
    exact ⟨rfl, rfl, rfl, .refl _⟩
  | unsupported hbuilt hloads =>
    have hother : c.MemoryBuild w ts s _ := .unsupported hbuilt hloads
    rw [hother.buildFromMemory_eq]
    exact ⟨rfl, rfl, rfl, .refl _⟩
  | unregistered hbuilt hloads hnone hmem =>
    have hother : c.MemoryBuild w ts s _ := .unregistered hbuilt hloads hnone hmem
    rw [hother.buildFromMemory_eq]
    exact ⟨rfl, rfl, rfl, .refl _⟩
  | failed hbuilt hloads hown hset =>
    rw [(MemoryBuild.failed hbuilt hloads hown ((hsame _).symm.trans hset)).buildFromMemory_eq]
    exact ⟨rfl, rfl, rfl, .refl _⟩
  | built hbuilt hloads hown hset =>
    rw [(MemoryBuild.built hbuilt hloads hown ((hsame _).symm.trans hset)).buildFromMemory_eq]
    exact ⟨rfl, rfl, rfl, Catalog.sameBytes_keeping _ w h⟩

end Catalog

end FontCatalog
