import FontCatalog.Catalog.Basic

/-!
# Builds from memory, case by case

A build from memory is asked for on a catalogue in any state, and most of
what is said of it depends on how far it came. It is refused where a set is
built or fonts cannot be loaded from memory; it ends early where the
catalogue's own loader cannot be registered; and only then are the sources
kept and their set built. `Catalog.MemoryBuild` lists these cases, each
with everything that is left behind, and `Catalog.memoryBuild` says that
there are no others.

A build that fails after the sources were kept cuts the loader back to what
it held before, which is to say that it leaves the loader as it was
(`MemoryLoader.truncate_createAll`). So the failed cases speak of no
sources at all.
-/

namespace FontCatalog

namespace MemoryLoader

variable (l : MemoryLoader) (id : LoaderId) (sources : List FontSource)

/-- **Cutting back undoes keeping.** -/
theorem truncate_createAll : (l.createAll id sources).2.truncate l.length = l := by
  rw [truncate, files_createAll, length, List.take_left]

/-- The files that keeping several sources gives: each is named like its
source, and its key is the number of sources before it. -/
theorem fst_createAll : (l.createAll id sources).1
    = (sources.zipIdx l.length).map fun p => ⟨id, ⟨UInt32.ofNat p.2⟩, p.1.name⟩ := by
  induction sources generalizing l with
  | nil => rfl
  | cons s sources ih =>
    have hlength : (l.keep s).length = l.length + 1 := by
      rw [length, keep, List.length_append]
      rfl
    rw [createAll, List.zipIdx_cons, List.map_cons]
    dsimp only [create]
    rw [ih, hlength]
    rfl

end MemoryLoader

namespace Registry

variable {r : Registry} {id : LoaderId}

/-- The registry with one more call in its journal. -/
def noting (r : Registry) (call : RegistryCall) : Registry :=
  { r with journal := r.journal ++ [call] }

/-- The registry with one more loader. -/
def adding (r : Registry) (id : LoaderId) : Registry :=
  { r with loaders := r.loaders ++ [id] }

/-- A loader that is registered is refused, and only the journal shows
it. -/
theorem register_of_mem (h : id ∈ r.loaders) :
    r.register id = (.error .alreadyRegistered, r.noting (.register id)) := by
  rw [register, if_pos h]
  rfl

/-- Any other loader becomes the last one. -/
theorem register_of_notMem (h : id ∉ r.loaders) :
    r.register id = (.ok (), (r.noting (.register id)).adding id) := by
  rw [register, if_neg h]
  rfl

end Registry

/-- **Why a set cannot be built**: the loader of a file is not registered, or
the data of a file is not font data. -/
theorem LoaderWorld.of_buildSet_eq_error {σ : Type} {w : LoaderWorld σ}
    {registered : List LoaderId} {files : List FontFile} {s s' : σ} {error : FontError}
    (h : w.buildSet registered files s = (.error error, s')) :
    (∃ name, error = .notRegistered name) ∨ ∃ name cause, error = .unreadable name cause := by
  have hentries : (w.entries registered files s).1 = .error error := by
    have hfst := congrArg Prod.fst h
    rw [buildSet] at hfst
    cases hresult : (w.entries registered files s).1 with
    | ok entries =>
      dsimp only at hfst
      rw [hresult] at hfst
      cases hfst
    | error e =>
      dsimp only at hfst
      rw [hresult] at hfst
      exact congrArg Except.error (Except.error.inj hfst)
  clear h
  fun_induction w.entries registered files s with
  | case1 => cases hentries
  | case2 file => exact Or.inl ⟨file.name, (Except.error.inj hentries).symm⟩
  | case3 file files s _ source _ _ e hfile =>
    cases hentries
    cases source with
    | none => cases hfile
    | some source =>
      rw [FontEntry.ofFile] at hfile
      split at hfile
      · cases hfile
      · exact Or.inr ⟨file.name, _, (Except.error.inj hfile).symm⟩
  | case4 => cases hentries
  | case5 file files s _ source s' _ first hfile e s'' hrest ih =>
    cases hentries
    rw [hrest] at ih
    exact ih rfl

namespace Catalog

variable {c : Catalog} {id : LoaderId}

/-- The catalogue after a loader was refused: only the journal of the
registry shows it. -/
def refusing (c : Catalog) (id : LoaderId) : Catalog :=
  { c with registry := c.registry.noting (.register id) }

/-- The catalogue with a loader that it registered. -/
def registering (c : Catalog) (id : LoaderId) : Catalog :=
  { c with
    registry := (c.registry.noting (.register id)).adding id
    registered := c.registered ++ [id] }

/-- The catalogue with its own loader made and registered. -/
def withOwnLoader (c : Catalog) : Catalog :=
  { c.registering .memory with memory := some .empty }

/-- The catalogue with sources kept in its own loader. -/
def keeping (c : Catalog) (sources : List FontSource) : Catalog :=
  { c with memory := some (c.memoryLoader.createAll .memory sources).2 }

/-- The files that the catalogue's own loader gives for sources. -/
def filesFor (c : Catalog) (sources : List FontSource) : List FontFile :=
  (c.memoryLoader.createAll .memory sources).1

theorem register_of_mem (h : id ∈ c.registry.loaders) :
    c.register id = (.error .alreadyRegistered, c.refusing id) := by
  rw [register, Registry.register_of_mem h]
  rfl

theorem register_of_notMem (h : id ∉ c.registry.loaders) :
    c.register id = (.ok (), c.registering id) := by
  rw [register, Registry.register_of_notMem h]
  rfl

/-! ## The catalogue's own loader -/

/-- **When a catalogue has its own loader**, and what it has to do to get
it. -/
theorem ensureMemory_of_isSome (h : c.memory.isSome = true) : c.ensureMemory = (.ok (), c) := by
  obtain ⟨memory, hmemory⟩ := Option.isSome_iff_exists.mp h
  rw [ensureMemory, hmemory]

theorem ensureMemory_of_mem (h : c.memory = none) (hmem : .memory ∈ c.registry.loaders) :
    c.ensureMemory = (.error .alreadyRegistered, c.refusing .memory) := by
  rw [ensureMemory, h]
  dsimp only
  rw [register_of_mem hmem]

theorem ensureMemory_of_notMem (h : c.memory = none) (hmem : .memory ∉ c.registry.loaders) :
    c.ensureMemory = (.ok (), c.withOwnLoader) := by
  rw [ensureMemory, h]
  dsimp only
  rw [register_of_notMem hmem]
  rfl

/-- **A catalogue that is ready to keep sources**: it had its own loader
before, or it has just made it. -/
inductive Ready (c : Catalog) : Catalog → Prop
  /-- The loader was there. -/
  | before (h : c.memory.isSome = true) : Ready c c
  /-- The loader is made and registered. -/
  | made (h : c.memory = none) (hmem : .memory ∉ c.registry.loaders) : Ready c c.withOwnLoader

variable {own : Catalog}

theorem Ready.isSome_memory (h : c.Ready own) : own.memory.isSome = true := by
  cases h with
  | before h => exact h
  | made => rfl

theorem Ready.fontSet_eq (h : c.Ready own) : own.fontSet = c.fontSet := by
  cases h <;> rfl

/-- A catalogue that has its own loader gets it back as it was when the
sources are let go of. -/
theorem cutBack_keeping (sources : List FontSource) (h : own.memory.isSome = true) :
    { own.keeping sources with
      memory := some ((own.keeping sources).memoryLoader.truncate own.memoryLoader.length) }
      = own := by
  have hloader : (own.keeping sources).memoryLoader.truncate own.memoryLoader.length
      = own.memoryLoader := MemoryLoader.truncate_createAll own.memoryLoader .memory sources
  have hmemory : some own.memoryLoader = own.memory := by
    obtain ⟨memory, hmemory⟩ := Option.isSome_iff_exists.mp h
    rw [memoryLoader, hmemory, Option.getD_some]
  rw [hloader, hmemory]
  rfl

/-! ## The cases -/

variable {σ : Type} (w : LoaderWorld σ) (sources : List FontSource) (c) (s : σ)

/-- **How a build from memory goes**: its result, the catalogue afterwards
and the state of the world afterwards. -/
inductive MemoryBuild : Except FontError FontSet × Catalog × σ → Prop
  /-- There is a set already. -/
  | refused (hbuilt : c.isBuilt = true) : MemoryBuild (.error .alreadyBuilt, c, s)
  /-- Fonts cannot be loaded from memory. -/
  | unsupported (hbuilt : c.isBuilt = false) (hloads : c.registry.loadsMemory = false) :
    MemoryBuild (.error .unsupported, c, s)
  /-- The own loader is not made yet, and cannot be registered. -/
  | unregistered (hbuilt : c.isBuilt = false) (hloads : c.registry.loadsMemory = true)
    (hnone : c.memory = none) (hmem : .memory ∈ c.registry.loaders) :
    MemoryBuild (.error .alreadyRegistered, c.refusing .memory, s)
  /-- The set cannot be built; the sources are not kept. -/
  | failed {own : Catalog} {error : FontError} {s' : σ} (hbuilt : c.isBuilt = false)
    (hloads : c.registry.loadsMemory = true) (hown : c.Ready own)
    (hset : ((own.keeping sources).inWorld w).buildSet own.registry.loaders
      (own.filesFor sources) s = (.error error, s')) :
    MemoryBuild (.error error, own, s')
  /-- The set is built. -/
  | built {own : Catalog} {set : FontSet} {s' : σ} (hbuilt : c.isBuilt = false)
    (hloads : c.registry.loadsMemory = true) (hown : c.Ready own)
    (hset : ((own.keeping sources).inWorld w).buildSet own.registry.loaders
      (own.filesFor sources) s = (.ok set, s')) :
    MemoryBuild (.ok set, { own.keeping sources with fontSet := some set }, s')

variable {w sources c s} {files : List FontFile} {set : FontSet} {error : FontError} {s' : σ}

theorem buildFromFiles_of_ok (hbuilt : c.isBuilt = false)
    (hset : (c.inWorld w).buildSet c.registry.loaders files s = (.ok set, s')) :
    c.buildFromFiles w files s = (.ok set, { c with fontSet := some set }, s') := by
  rw [buildFromFiles, hbuilt, hset]
  rfl

theorem buildFromFiles_of_error (hbuilt : c.isBuilt = false)
    (hset : (c.inWorld w).buildSet c.registry.loaders files s = (.error error, s')) :
    c.buildFromFiles w files s = (.error error, c, s') := by
  rw [buildFromFiles, hbuilt, hset]
  rfl

/-- A build that comes to keeping sources goes on as a build of their files,
and lets go of the sources where that fails. -/
theorem buildFromMemory_of_ensureMemory (hbuilt : c.isBuilt = false)
    (hloads : c.registry.loadsMemory = true) (hensure : c.ensureMemory = (.ok (), own)) :
    c.buildFromMemory w sources s
      = match (own.keeping sources).buildFromFiles w (own.filesFor sources) s with
        | (.ok set, c, s) => (.ok set, c, s)
        | (.error error, c, s) =>
          (.error error,
            { c with memory := some (c.memoryLoader.truncate own.memoryLoader.length) }, s) := by
  rw [buildFromMemory, hbuilt, hloads, hensure]
  rfl

/-- A build that comes to keeping sources. -/
theorem memoryBuild_of_ready (hbuilt : c.isBuilt = false)
    (hloads : c.registry.loadsMemory = true) (hown : c.Ready own)
    (hensure : c.ensureMemory = (.ok (), own)) :
    c.MemoryBuild w sources s (c.buildFromMemory w sources s) := by
  have hunbuilt : (own.keeping sources).isBuilt = false :=
    (congrArg Option.isSome hown.fontSet_eq).trans hbuilt
  have hstart : c.buildFromMemory w sources s = _ :=
    buildFromMemory_of_ensureMemory hbuilt hloads hensure
  cases hset : ((own.keeping sources).inWorld w).buildSet own.registry.loaders
      (own.filesFor sources) s with
  | mk result s' =>
    cases result with
    | ok set =>
      rw [hstart, buildFromFiles_of_ok hunbuilt hset]
      exact MemoryBuild.built hbuilt hloads hown hset
    | error error =>
      have hrest := cutBack_keeping sources hown.isSome_memory
      rw [hstart, buildFromFiles_of_error hunbuilt hset]
      dsimp only
      rw [hrest]
      exact MemoryBuild.failed hbuilt hloads hown hset

/-- **Every build from memory goes in one of these ways.** -/
theorem memoryBuild (w : LoaderWorld σ) (sources : List FontSource) (c : Catalog) (s : σ) :
    c.MemoryBuild w sources s (c.buildFromMemory w sources s) := by
  cases hbuilt : c.isBuilt with
  | true =>
    rw [buildFromMemory, hbuilt]
    exact MemoryBuild.refused hbuilt
  | false =>
    cases hloads : c.registry.loadsMemory with
    | false =>
      rw [buildFromMemory, hbuilt, hloads]
      exact MemoryBuild.unsupported hbuilt hloads
    | true =>
      cases hmemory : c.memory with
      | some memory =>
        have hsome : c.memory.isSome = true := by rw [hmemory]; rfl
        exact memoryBuild_of_ready hbuilt hloads (Ready.before hsome)
          (ensureMemory_of_isSome hsome)
      | none =>
        by_cases hmem : LoaderId.memory ∈ c.registry.loaders
        · rw [buildFromMemory, hbuilt, hloads, ensureMemory_of_mem hmemory hmem]
          exact MemoryBuild.unregistered hbuilt hloads hmemory hmem
        · exact memoryBuild_of_ready hbuilt hloads (Ready.made hmemory hmem)
            (ensureMemory_of_notMem hmemory hmem)

end Catalog

end FontCatalog
