import FontCatalog.Proofs.LoaderLedger
import FontCatalog.Proofs.SetOrder

/-!
# Failed builds leave no trace

The sources of a build from memory are kept before they are read, so a
build that fails at some file has to let go of all of them again. If it did
not, nothing would be seen of it at once; but the next build would give its
files other keys and find other data behind them. What has to be shown is
therefore a statement on two runs: a build goes the same way whether or not
others were tried before it in vain.

Two facts carry it. A catalogue without a set keeps no sources
(`Catalog.KeepsNothing`), since the builds that failed let go of theirs. And
failed builds change one thing at most, once: the own loader is made and
registered (`Catalog.FailedBuilds.eq_or`). A build that comes after makes
the loader if it needs one, so it does not matter to it.
-/

namespace FontCatalog

namespace LoaderWorld

variable {σ : Type}

/-- **Reading data has no effect** in a world. -/
def DataIsQuiet (w : LoaderWorld σ) : Prop := ∀ id key s, (w.data id key s).2 = s

variable {w : LoaderWorld σ}

theorem DataIsQuiet.withMemory (h : w.DataIsQuiet) (memory : MemoryLoader) :
    (w.withMemory memory).DataIsQuiet := by
  intro id key s
  cases id with
  | memory => rfl
  | outside index => exact h (.outside index) key s

/-- Where reading data has no effect, building a set has none. -/
theorem DataIsQuiet.buildSet_snd (h : w.DataIsQuiet) (registered : List LoaderId)
    (files : List FontFile) (s : σ) : (w.buildSet registered files s).2 = s := by
  rw [buildSet_of_quiet fun file _ => h file.loader file.key s]

/-- A loader more is no concern to files of other loaders. -/
theorem buildSet_append_of_notMem {registered : List LoaderId} {id : LoaderId}
    {files : List FontFile} (h : ∀ file ∈ files, file.loader ≠ id) (s : σ) :
    w.buildSet (registered ++ [id]) files s = w.buildSet registered files s := by
  have hentries : w.entries (registered ++ [id]) files s = w.entries registered files s := by
    induction files generalizing s with
    | nil => rfl
    | cons file files ih =>
      have hmem : file.loader ∈ registered ++ [id] ↔ file.loader ∈ registered := by
        rw [List.mem_append, List.mem_singleton, or_iff_left (h file (List.mem_cons_self ..))]
      have hrest := ih fun other hother => h other (List.mem_cons_of_mem _ hother)
      rw [entries, entries]
      simp only [hmem, hrest]
  rw [buildSet, buildSet, hentries]

end LoaderWorld

/-! ## Builds, tried one after the other -/

/-- **A build that can be asked for.** -/
inductive BuildOrder where
  /-- From font data in memory. -/
  | memory (sources : List FontSource)
  /-- From files. -/
  | files (files : List FontFile)

/-- The files that a build was asked for. -/
def BuildOrder.namedFiles : BuildOrder → List FontFile
  | .memory _ => []
  | .files named => named

namespace Catalog

variable {σ : Type} (w : LoaderWorld σ)

/-- **A build of the set**, in one way or the other. -/
def build (c : Catalog) (s : σ) : BuildOrder → Except FontError FontSet × Catalog × σ
  | .memory sources => c.buildFromMemory w sources s
  | .files files => c.buildFromFiles w files s

/-- **Builds that were tried in vain**, one after the other: where they
start and where they lead. -/
inductive FailedBuilds (c : Catalog) (s : σ) : Catalog → σ → Prop
  /-- None so far. -/
  | start : FailedBuilds c s c s
  /-- One more. -/
  | more {c₁ c₂ : Catalog} {s₁ s₂ : σ} {order : BuildOrder} {error : FontError}
    (h : FailedBuilds c s c₁ s₁) (hbuild : c₁.build w s₁ order = (.error error, c₂, s₂)) :
    FailedBuilds c s c₂ s₂

/-- **A catalogue that keeps no sources**, if it has no set: its own loader,
where it is made, is empty. -/
def KeepsNothing (c : Catalog) : Prop :=
  c.isBuilt = false → ∀ memory, c.memory = some memory → memory = .empty

variable {w} {c c' : Catalog} {s s' : σ}

/-- A catalogue that makes its own loader keeps nothing in it. -/
theorem Ready.keepsNothing {own : Catalog} (hown : c.Ready own) (h : c.KeepsNothing) :
    own.KeepsNothing := by
  cases hown with
  | before => exact h
  | made =>
    intro _ memory hmemory
    exact (Option.some.inj hmemory).symm

/-- **A build from memory that fails keeps no sources.** -/
theorem keepsNothing_buildFromMemory (h : c.KeepsNothing) (sources : List FontSource) (s : σ) :
    (c.buildFromMemory w sources s).2.1.KeepsNothing := by
  have hbuild := memoryBuild w sources c s
  generalize c.buildFromMemory w sources s = outcome at hbuild ⊢
  cases hbuild with
  | refused => exact h
  | unsupported => exact h
  | unregistered => exact h
  | failed _ _ hown => exact hown.keepsNothing h
  | built => exact fun hunbuilt => by cases hunbuilt

theorem keepsNothing_buildFromFiles (h : c.KeepsNothing) (files : List FontFile) (s : σ) :
    (c.buildFromFiles w files s).2.1.KeepsNothing := by
  unfold buildFromFiles
  split
  · exact h
  split
  · exact fun hunbuilt => by cases hunbuilt
  · exact h

/-- **A catalogue whose own loader is its own**: where that loader is not
made yet, it is not registered either. -/
def OwnLoaderIsFree (c : Catalog) : Prop := c.memory = none → .memory ∉ c.registry.loaders

/-- **What a failed build can do**: make the own loader, or nothing. The
world is as it was. -/
theorem eq_or_of_build_eq_error {order : BuildOrder} {error : FontError}
    (h : c.build w s order = (.error error, c', s')) (hquiet : w.DataIsQuiet)
    (hunbuilt : c.isBuilt = false) (hfree : c.OwnLoaderIsFree) :
    (c' = c ∨ c.memory = none ∧ c' = c.withOwnLoader) ∧ s' = s := by
  cases order with
  | files files =>
    have hsame := (hquiet.withMemory c.memoryLoader).buildSet_snd c.registry.loaders files s
    rw [build] at h
    cases hset : (c.inWorld w).buildSet c.registry.loaders files s with
    | mk result s'' =>
      rw [inWorld] at hset
      rw [hset] at hsame
      cases result with
      | ok set =>
        rw [buildFromFiles_of_ok hunbuilt hset] at h
        cases h
      | error e =>
        rw [buildFromFiles_of_error hunbuilt hset] at h
        cases h
        exact ⟨Or.inl rfl, hsame⟩
  | memory sources =>
    have hbuild := memoryBuild w sources c s
    rw [build] at h
    rw [h] at hbuild
    cases hbuild with
    | refused => exact ⟨Or.inl rfl, rfl⟩
    | unsupported => exact ⟨Or.inl rfl, rfl⟩
    | unregistered _ _ hnone hmem => exact absurd hmem (hfree hnone)
    | failed _ _ hown hset =>
      have hsame := (hquiet.withMemory (c'.keeping sources).memoryLoader).buildSet_snd
        c'.registry.loaders (c'.filesFor sources) s
      rw [inWorld] at hset
      rw [hset] at hsame
      refine ⟨?_, hsame⟩
      cases hown with
      | before => exact Or.inl rfl
      | made hnone => exact Or.inr ⟨hnone, rfl⟩

/-- **Failed builds make the own loader, or do nothing**, however many there
are. -/
theorem FailedBuilds.eq_or (h : c.FailedBuilds w s c' s') (hquiet : w.DataIsQuiet)
    (hunbuilt : c.isBuilt = false) (hfree : c.OwnLoaderIsFree) :
    (c' = c ∨ c.memory = none ∧ c' = c.withOwnLoader) ∧ s' = s := by
  induction h with
  | start => exact ⟨Or.inl rfl, rfl⟩
  | more _ hbuild ih =>
    obtain ⟨rfl | ⟨hnone, rfl⟩, rfl⟩ := ih
    · exact eq_or_of_build_eq_error hbuild hquiet hunbuilt hfree
    · -- With the loader made there is nothing left to do.
      obtain ⟨rfl | ⟨hnone', -⟩, rfl⟩ :=
        eq_or_of_build_eq_error hbuild hquiet hunbuilt fun hnone' => by cases hnone'
      · exact ⟨Or.inr ⟨hnone, rfl⟩, rfl⟩
      · cases hnone'

/-! ## The next build -/

/-- **A build from memory goes the same way if the own loader is made before
it**, since it would make it itself. -/
theorem buildFromMemory_withOwnLoader (hnone : c.memory = none) (hfree : c.OwnLoaderIsFree)
    (sources : List FontSource) (s : σ) :
    (c.withOwnLoader.buildFromMemory w sources s).1 = (c.buildFromMemory w sources s).1 := by
  have hensure : c.withOwnLoader.ensureMemory = c.ensureMemory := by
    rw [ensureMemory_of_notMem hnone (hfree hnone), ensureMemory_of_isSome rfl]
  have hbuilt : c.withOwnLoader.isBuilt = c.isBuilt := rfl
  have hloads : c.withOwnLoader.registry.loadsMemory = c.registry.loadsMemory := rfl
  rw [buildFromMemory, buildFromMemory, hensure, hbuilt, hloads]
  split
  · rfl
  split
  · rfl
  · rfl

/-- So does a build from files, as long as none of them is a file of the
own loader. -/
theorem buildFromFiles_withOwnLoader (hnone : c.memory = none) {files : List FontFile}
    (hfiles : ∀ file ∈ files, file.loader ≠ .memory) (s : σ) :
    (c.withOwnLoader.buildFromFiles w files s).1 = (c.buildFromFiles w files s).1 := by
  have hworld : c.withOwnLoader.inWorld w = c.inWorld w := by
    show w.withMemory .empty = w.withMemory (c.memory.getD .empty)
    rw [hnone]
    rfl
  have hset : (c.withOwnLoader.inWorld w).buildSet c.withOwnLoader.registry.loaders files s
      = (c.inWorld w).buildSet c.registry.loaders files s := by
    rw [hworld]
    exact LoaderWorld.buildSet_append_of_notMem hfiles s
  have hbuilt : c.withOwnLoader.isBuilt = c.isBuilt := rfl
  rw [buildFromFiles, buildFromFiles, hset, hbuilt]
  split
  · rfl
  · split <;> rfl

end Catalog

namespace Session

variable {σ : Type} {w : LoaderWorld σ}

/-- **A step that leaves the catalogue's own loader to the catalogue.**
Nobody else has that loader, so nobody can register it or change its
sources, before there is a set with its files. -/
def LeavesOwnLoader : SessionStep σ → Prop
  | .ask _ _ (.register id) => id ≠ .memory
  | .changeMemory _ => False
  | _ => True

theorem askedLoader_ne_of_leavesOwnLoader {step : SessionStep σ} (h : LeavesOwnLoader step) :
    askedLoader step ≠ some .memory := by
  cases step with
  | ask signal patience request =>
    cases request with
    | register id => exact fun hid => h (Option.some.inj hid)
    | _ => exact nofun
  | _ => exact nofun

/-- A catalogue without a set has no fonts. -/
theorem fontCount_of_not_isBuilt {c : Catalog} (h : c.isBuilt = false) : c.fontCount = 0 := by
  have hnone : c.fontSet = none := isBuilt_eq_false_iff (c := ⟨c, ⟨(), 0⟩⟩) |>.mp h
  rw [Catalog.fontCount, Catalog.entries, hnone]
  rfl

/-- A step keeps a catalogue without a set from keeping sources. -/
theorem keepsNothing_step {c : Session σ} {step : SessionStep σ} (h : c.catalog.KeepsNothing)
    (hstep : LeavesOwnLoader step) : (c.step w step).2.catalog.KeepsNothing := by
  have hafter := c.catalogStep (w := w) step
  generalize (c.step w step).2.catalog = after at hafter ⊢
  cases hafter with
  | kept => exact h
  | register signal patience id =>
    unfold Catalog.register
    split <;> exact h
  | buildFromMemory _ _ sources => exact Catalog.keepsNothing_buildFromMemory h sources _
  | buildFromFiles _ _ files => exact Catalog.keepsNothing_buildFromFiles h files _
  | locale => exact h
  | changeMemory => exact hstep.elim

/-- **Failed builds leave no trace.** Take a catalogue without a set, after
whatever was done with it, in a world where reading data has no effect. Try
any builds, from memory and from files, that fail. Then there is still no
set and no font, and no sources are kept; all that can have changed is that
the own loader is made and registered. And every build that comes now has
the result that it would have had without them: the same error, or a set
with the same entries.

A build can name a file of the own loader only if that loader was made
before, since it is the loader that makes its files. -/
theorem build_after_failedBuilds (hquiet : w.DataIsQuiet) {registry : Registry}
    (hfree : .memory ∉ registry.loaders) {t : Timed σ} {steps : List (SessionStep σ)}
    (hsteps : ∀ step ∈ steps, LeavesOwnLoader step) {c c' : Catalog} {s s' : σ}
    (hc : c = ((new registry t).after w steps).catalog) (hunbuilt : c.isBuilt = false)
    (hfailed : c.FailedBuilds w s c' s') :
    c'.isBuilt = false ∧ c'.fontCount = 0 ∧
      (∀ memory, c'.memory = some memory → memory.isEmpty = true) ∧
      (c' = c ∨ c.memory = none ∧ c' = c.withOwnLoader) ∧ s' = s ∧
      ∀ order : BuildOrder,
        (∀ file ∈ order.namedFiles, file.loader = .memory → c.memory.isSome = true) →
        (c'.build w s' order).1 = (c.build w s order).1 := by
  have hnothing : c.KeepsNothing := by
    rw [hc]
    refine after_induction_of_mem (P := fun c => c.catalog.KeepsNothing)
      (fun c step hmem h => keepsNothing_step h (hsteps step hmem)) ?_
    exact fun _ memory hmemory => by cases hmemory
  have hown : c.OwnLoaderIsFree := by
    intro hnone hmem
    have honce : c.OwnLoaderOnce registry := by
      rw [hc]
      exact ownLoaderOnce_after hfree t fun step hstep =>
        askedLoader_ne_of_leavesOwnLoader (hsteps step hstep)
    have hsome := honce.mem_iff.mp hmem
    rw [hnone] at hsome
    cases hsome
  obtain ⟨heq, rfl⟩ := hfailed.eq_or hquiet hunbuilt hown
  obtain rfl | ⟨hnone, rfl⟩ := heq
  · refine ⟨hunbuilt, fontCount_of_not_isBuilt hunbuilt, fun memory hmemory => ?_, Or.inl rfl, rfl,
      fun _ _ => rfl⟩
    rw [hnothing hunbuilt memory hmemory]
    rfl
  · refine ⟨hunbuilt, fontCount_of_not_isBuilt hunbuilt, fun memory hmemory => ?_,
      Or.inr ⟨hnone, rfl⟩, rfl, fun order hnamed => ?_⟩
    · obtain rfl := Option.some.inj hmemory
      rfl
    · cases order with
      | memory sources => exact Catalog.buildFromMemory_withOwnLoader hnone hown sources _
      | files files =>
        refine Catalog.buildFromFiles_withOwnLoader hnone (fun file hfile hloader => ?_) _
        have hsome := hnamed file hfile hloader
        rw [hnone] at hsome
        cases hsome

/-- Two sources are tried of which the second is junk, and then a file of a
loader that is not registered. The own loader is made, and the next build
gives its file the first key. -/
theorem build_after_failedBuilds_of_junk :
    ∃ (registry : Registry) (c c' : Catalog) (small : FontSource),
      .memory ∉ registry.loaders ∧
      c = ((new registry ⟨(), 0⟩).after .vacant []).catalog ∧ c.isBuilt = false ∧
      c.FailedBuilds .vacant () c' () ∧ c' ≠ c ∧ c'.isBuilt = false ∧
      (∀ memory, c'.memory = some memory → memory.isEmpty = true) ∧
      (c'.build .vacant () (.memory [small])).1 = (c.build .vacant () (.memory [small])).1 ∧
      (c.build .vacant () (.memory [small])).1
        = .ok ⟨[⟨⟨.memory, ⟨0⟩, "small"⟩, 0, none, ⟨[], [], []⟩⟩]⟩ := by
  let registry : Registry := ⟨true, [.outside 7], []⟩
  let small : FontSource := .whole "small" [0, 1, 0, 0, 0, 0, 0, 0, 0, 0, 0, 0]
  let junk : FontSource := .whole "junk" [1, 2, 3]
  let c := Catalog.new registry
  have hquiet : LoaderWorld.vacant.DataIsQuiet := fun _ _ _ => rfl
  have hfree : .memory ∉ registry.loaders := by decide
  have hmemory : c.build .vacant () (.memory [small, junk])
      = (.error (.unreadable "junk" .outOfBounds), c.withOwnLoader, ()) := by decide +kernel
  have hfiles : c.withOwnLoader.build .vacant () (.files [⟨.outside 3, ⟨0⟩, "far"⟩])
      = (.error (.notRegistered "far"), c.withOwnLoader, ()) := by decide +kernel
  have hfailed := (Catalog.FailedBuilds.start.more hmemory).more hfiles
  have hsteps : ∀ step ∈ ([] : List (SessionStep Unit)), LeavesOwnLoader step :=
    fun _ hstep => absurd hstep List.not_mem_nil
  obtain ⟨hunbuilt, -, hempty, -, -, hnext⟩ := build_after_failedBuilds hquiet hfree
    (t := ⟨(), 0⟩) hsteps rfl rfl hfailed
  refine ⟨registry, c, _, small, hfree, rfl, rfl, hfailed, ?_, hunbuilt, hempty,
    hnext (.memory [small]) fun _ hfile => absurd hfile List.not_mem_nil, ?_⟩
  · decide +kernel
  · decide +kernel

end Session

end FontCatalog
