import FontCatalog.Proofs.SessionRuns

/-!
# The set of a catalogue is built once

There are two ways to build the set, and both begin with the same
question. So the set of a catalogue changes in one kind of step only: a
build that succeeds, of a catalogue without a set. `Session.fontSet_step`
says that of all steps, whatever is asked and whatever happens in between.

A run is therefore of one of two kinds. In one the set is never built. In
the other there is one step that builds it; before that step there is no
set, and from then on there is always the set that was built, and every
further build is refused and changes nothing.
-/

namespace FontCatalog

namespace Catalog

variable {σ : Type} (w : LoaderWorld σ) (c : Catalog)

/-! ## Builds -/

/-- Registering a loader does not concern the set. -/
@[simp] theorem fontSet_register (id : LoaderId) : (c.register id).2.fontSet = c.fontSet := by
  unfold register
  split <;> rfl

@[simp] theorem fontSet_ensureMemory : c.ensureMemory.2.fontSet = c.fontSet := by
  unfold ensureMemory
  split
  · rfl
  · split
    · next h => exact (congrArg (·.2.fontSet) h).symm.trans (c.fontSet_register .memory)
    · next h => exact (congrArg (·.2.fontSet) h).symm.trans (c.fontSet_register .memory)

/-- **A built catalogue refuses to build from files**, and nothing is
changed. -/
theorem buildFromFiles_of_isBuilt {c : Catalog} (h : c.isBuilt = true) (files : List FontFile)
    (s : σ) : c.buildFromFiles w files s = (.error .alreadyBuilt, c, s) := by
  rw [buildFromFiles, if_pos h]

/-- **A built catalogue refuses to build from memory**, and nothing is
changed. -/
theorem buildFromMemory_of_isBuilt {c : Catalog} (h : c.isBuilt = true)
    (sources : List FontSource) (s : σ) :
    c.buildFromMemory w sources s = (.error .alreadyBuilt, c, s) := by
  rw [buildFromMemory, if_pos h]

/-- **What a build does to the set**: the set that it returns is the set
from then on, and if it returns none the set is what it was. -/
theorem fontSet_buildFromFiles (files : List FontFile) (s : σ) :
    (c.buildFromFiles w files s).2.1.fontSet
      = (c.buildFromFiles w files s).1.toOption.or c.fontSet := by
  unfold buildFromFiles
  split
  · rfl
  · split <;> rfl

theorem fontSet_buildFromMemory (sources : List FontSource) (s : σ) :
    (c.buildFromMemory w sources s).2.1.fontSet
      = (c.buildFromMemory w sources s).1.toOption.or c.fontSet := by
  unfold buildFromMemory
  split
  · rfl
  split
  · rfl
  have hensure := c.fontSet_ensureMemory
  split
  · next error c' hmemory =>
    rw [hmemory] at hensure
    exact hensure
  · next c' hmemory =>
    rw [hmemory] at hensure
    have hbuild := fontSet_buildFromFiles w
      { c' with memory := some (c'.memoryLoader.createAll .memory sources).2 }
      (c'.memoryLoader.createAll .memory sources).1 s
    rw [← hensure]
    dsimp only
    split
    · next hresult =>
      rw [hresult] at hbuild
      exact hbuild
    · next hresult =>
      rw [hresult] at hbuild
      exact hbuild

end Catalog

namespace CatalogRequest

/-- Whether a request is one to build the set. -/
def IsBuild : CatalogRequest → Prop
  | .buildFromMemory _ => True
  | .buildFromFiles _ => True
  | _ => False

end CatalogRequest

namespace Session

variable {σ : Type} {w : LoaderWorld σ} {c : Session σ}

/-- **A session whose set is built refuses to build**: the reply says so,
and neither the catalogue nor the world is changed. -/
theorem perform_build_of_isBuilt (h : c.catalog.isBuilt = true) (signal : StopSignal σ)
    (patience : Nat) {request : CatalogRequest} (hrequest : request.IsBuild) :
    c.perform w signal patience request = (.failed .alreadyBuilt, c) := by
  cases request with
  | buildFromMemory sources =>
    rw [perform, Catalog.buildFromMemory_of_isBuilt w h]
    rfl
  | buildFromFiles files =>
    rw [perform, Catalog.buildFromFiles_of_isBuilt w h]
    rfl
  | _ => exact hrequest.elim

/-- What a build does to the set, by its reply. -/
theorem fontSet_of_build {before after : Catalog} {result : Except FontError FontSet}
    (hset : after.fontSet = result.toOption.or before.fontSet)
    (hrefused : before.isBuilt = true → result = .error .alreadyBuilt) :
    (after.fontSet = before.fontSet ∧ ∀ count, replyToBuild result ≠ .built count) ∨
      ∃ set, before.fontSet = none ∧ after.fontSet = some set ∧
        replyToBuild result = .built set.length := by
  cases result with
  | error error => exact Or.inl ⟨hset, fun _ hreply => by cases hreply⟩
  | ok set =>
    have hunbuilt : before.fontSet = none :=
      Option.not_isSome_iff_eq_none.mp fun hbuilt => by cases hrefused hbuilt
    exact Or.inr ⟨set, hunbuilt, hset, rfl⟩

/-- A request other than a build leaves the set alone. -/
theorem fontSet_perform_of_not_isBuild (c : Session σ) (signal : StopSignal σ) (patience : Nat)
    {request : CatalogRequest} (h : ¬request.IsBuild) :
    (c.perform w signal patience request).2.catalog.fontSet = c.catalog.fontSet ∧
      ∀ count, (c.perform w signal patience request).1 ≠ .built count := by
  cases request with
  | register id =>
    have hkept := c.catalog.fontSet_register id
    rw [perform]
    cases hregister : c.catalog.register id with
    | mk result catalog =>
      rw [hregister] at hkept
      cases result <;> exact ⟨hkept, fun _ hreply => by cases hreply⟩
  | buildFromMemory => exact absurd trivial h
  | buildFromFiles => exact absurd trivial h
  | localities =>
    rw [perform]
    split <;> exact ⟨rfl, fun _ hreply => by cases hreply⟩
  | fetch index =>
    rw [perform]
    cases c.entry? index with
    | none => exact ⟨rfl, fun _ hreply => by cases hreply⟩
    | some entry =>
      cases hask : (c.catalog.inWorld w).request entry.file.loader entry.file.key
        c.timed.world with
      | mk result world =>
        simp only [hask]
        cases result <;> exact ⟨rfl, fun _ hreply => by cases hreply⟩
  | face index =>
    rw [perform]
    cases c.entry? index with
    | none => exact ⟨rfl, fun _ hreply => by cases hreply⟩
    | some entry =>
      cases hread : (c.catalog.inWorld w).readFace entry c.timed.world with
      | mk result world =>
        simp only [hread]
        cases result <;> exact ⟨rfl, fun _ hreply => by cases hreply⟩
  | _ => exact ⟨rfl, fun _ hreply => by cases hreply⟩

/-- **What one step does to the set**: a step that builds it finds none and
says how many fonts it has, and no other step changes it. -/
theorem fontSet_step (c : Session σ) (step : SessionStep σ) :
    ((c.step w step).2.catalog.fontSet = c.catalog.fontSet ∧
        ∀ count, (c.step w step).1 ≠ some (.built count)) ∨
      ∃ set, c.catalog.fontSet = none ∧ (c.step w step).2.catalog.fontSet = some set ∧
        (c.step w step).1 = some (.built set.length) := by
  cases step with
  | ask signal patience request =>
    have hreply : ∀ reply, (c.step w (.ask signal patience request)).1 = some reply
        ↔ (c.perform w signal patience request).1 = reply := fun _ => Option.some_inj
    simp only [ne_eq, hreply]
    cases request with
    | buildFromMemory sources =>
      exact fontSet_of_build (c.catalog.fontSet_buildFromMemory w sources c.timed.world)
        fun h => congrArg Prod.fst (Catalog.buildFromMemory_of_isBuilt w h sources _)
    | buildFromFiles files =>
      exact fontSet_of_build (c.catalog.fontSet_buildFromFiles w files c.timed.world)
        fun h => congrArg Prod.fst (Catalog.buildFromFiles_of_isBuilt w h files _)
    | _ => exact Or.inl (fontSet_perform_of_not_isBuild c signal patience id)
  | _ => exact Or.inl ⟨rfl, fun _ hreply => by cases hreply⟩

/-! ## Runs -/

/-- **No build succeeded**: there is no set after the first so many steps,
however many, and no reply says that a set was built. -/
def Unbuilt (w : LoaderWorld σ) (c : Session σ) (steps : List (SessionStep σ)) : Prop :=
  (∀ front, front <+: steps → (c.after w front).catalog.isBuilt = false) ∧
    ∀ count, .built count ∉ c.replies w steps

/-- **The set is there for good**: everything that is said of fonts without
their data is said of this set, and a build is refused, in whatever world,
and changes neither the catalogue nor the world. -/
structure Settled (set : FontSet) (c : Session σ) : Prop where
  /-- The set is built. -/
  isBuilt : c.catalog.isBuilt = true
  /-- There are as many fonts as in the set. -/
  fontCount : c.catalog.fontCount = set.length
  /-- The fonts are those of the set. -/
  entries : c.catalog.entries = set.entries
  /-- So are the full names, in every language. -/
  fullNamesFor : ∀ locale,
    c.catalog.fullNamesFor locale = set.propertyValues .fullName locale
  /-- There is no other build. -/
  refuses : ∀ (w : LoaderWorld σ) (signal : StopSignal σ) (patience : Nat)
    (request : CatalogRequest), request.IsBuild →
      c.perform w signal patience request = (.failed .alreadyBuilt, c)

theorem settled_of_fontSet {set : FontSet} (h : c.catalog.fontSet = some set) : c.Settled set := by
  have hbuilt : c.catalog.isBuilt = true := by
    rw [Catalog.isBuilt, h]
    rfl
  have hentries : c.catalog.entries = set.entries := by
    rw [Catalog.entries, h]
    rfl
  refine ⟨hbuilt, congrArg List.length hentries, hentries, fun locale => ?_,
    fun w signal patience _ hrequest => perform_build_of_isBuilt hbuilt signal patience hrequest⟩
  rw [Catalog.fullNamesFor, h]
  rfl

theorem isBuilt_eq_false_iff : c.catalog.isBuilt = false ↔ c.catalog.fontSet = none := by
  rw [Catalog.isBuilt, Option.isSome_eq_false_iff, Option.isNone_iff_eq_none]

/-- A step of a session with a set keeps it and builds none. -/
theorem fontSet_step_of_eq_some {set : FontSet} (h : c.catalog.fontSet = some set)
    (step : SessionStep σ) :
    (c.step w step).2.catalog.fontSet = some set ∧
      ∀ count, (c.step w step).1 ≠ some (.built count) := by
  rcases c.fontSet_step (w := w) step with ⟨hkept, hreply⟩ | ⟨_, hnone, -, -⟩
  · exact ⟨hkept.trans h, hreply⟩
  · rw [h] at hnone
    cases hnone

/-- **A set that is there stays.** -/
theorem fontSet_after_of_eq_some {set : FontSet} (h : c.catalog.fontSet = some set)
    (steps : List (SessionStep σ)) : (c.after w steps).catalog.fontSet = some set := by
  have hstep : ∀ (c : Session σ) (step : SessionStep σ),
      c.catalog.fontSet = some set → (c.step w step).2.catalog.fontSet = some set :=
    fun _ step hset => (fontSet_step_of_eq_some hset step).1
  exact after_induction (P := fun c => c.catalog.fontSet = some set) hstep h steps

/-- Where there is a set, no build succeeds any more. -/
theorem built_not_mem_replies {set : FontSet} (h : c.catalog.fontSet = some set)
    (steps : List (SessionStep σ)) (count : Nat) : .built count ∉ c.replies w steps := by
  induction steps generalizing c with
  | nil => exact List.not_mem_nil
  | cons step steps ih =>
    obtain ⟨hset, hreply⟩ := fontSet_step_of_eq_some (w := w) h step
    intro hmem
    rcases List.mem_append.mp hmem with hmem | hmem
    · exact hreply count (Option.mem_toList.mp hmem)
    · exact ih hset hmem

theorem unbuilt_nil (h : c.catalog.isBuilt = false) : c.Unbuilt w [] := by
  refine ⟨fun front hfront => ?_, fun _ => List.not_mem_nil⟩
  rw [List.prefix_nil.mp hfront]
  exact h

/-- A step that builds nothing may come first. -/
theorem Unbuilt.cons {step : SessionStep σ} {steps : List (SessionStep σ)}
    (hfirst : c.catalog.isBuilt = false)
    (hreply : ∀ count, (c.step w step).1 ≠ some (.built count))
    (h : (c.step w step).2.Unbuilt w steps) : c.Unbuilt w (step :: steps) := by
  constructor
  · intro front hfront
    rcases List.prefix_cons_iff.mp hfront with rfl | ⟨rest, rfl, hrest⟩
    · exact hfirst
    · exact h.1 rest hrest
  · intro count hmem
    rcases List.mem_append.mp hmem with hmem | hmem
    · exact hreply count (Option.mem_toList.mp hmem)
    · exact h.2 count hmem

/-- **A run from a session without a set** builds none, or there is one step
that builds it, and no step before that one did. -/
theorem unbuilt_or_exists_build (h : c.catalog.fontSet = none) (steps : List (SessionStep σ)) :
    c.Unbuilt w steps ∨ ∃ before build rest set, steps = before ++ build :: rest ∧
      c.Unbuilt w before ∧ ((c.after w before).step w build).1 = some (.built set.length) ∧
      ((c.after w before).step w build).2.catalog.fontSet = some set := by
  have hfirst := isBuilt_eq_false_iff.mpr h
  induction steps generalizing c with
  | nil => exact Or.inl (unbuilt_nil hfirst)
  | cons step steps ih =>
    rcases c.fontSet_step (w := w) step with ⟨hkept, hreply⟩ | ⟨set, -, hset, hreply⟩
    · have hnone := hkept.trans h
      rcases ih hnone (isBuilt_eq_false_iff.mpr hnone) with
        hunbuilt | ⟨before, build, rest, set, rfl, hbefore, hbuild, hset⟩
      · exact Or.inl (hunbuilt.cons hfirst hreply)
      · exact Or.inr ⟨step :: before, build, rest, set, rfl, hbefore.cons hfirst hreply, hbuild,
          hset⟩
    · exact Or.inr ⟨[], step, steps, set, rfl, unbuilt_nil hfirst, hreply, hset⟩

/-- A session with a new catalogue. -/
def new (registry : Registry) (t : Timed σ) : Session σ := ⟨Catalog.new registry, t⟩

/-- **The set is built once and stays.** In a run of a new catalogue,
whatever is asked and however the loaders change in between, no build
succeeds; or one does, and no other: up to it the set is not built, it
replies with the number of fonts, and after it and any number of further
steps the set is the same and every build is refused without effect. -/
theorem single_build (w : LoaderWorld σ) (registry : Registry) (t : Timed σ)
    (steps : List (SessionStep σ)) :
    (new registry t).Unbuilt w steps ∨
      ∃ before build rest set, steps = before ++ build :: rest ∧
        (new registry t).Unbuilt w before ∧
        (((new registry t).after w before).step w build).1 = some (.built set.length) ∧
        (∀ front, front <+: rest →
          ((new registry t).after w (before ++ build :: front)).Settled set) ∧
        ∀ count, .built count ∉ ((new registry t).after w (before ++ [build])).replies w rest := by
  have hnew : (new registry t).catalog.fontSet = none := rfl
  refine (unbuilt_or_exists_build hnew steps).imp_right ?_
  rintro ⟨before, build, rest, set, rfl, hbefore, hbuild, hset⟩
  refine ⟨before, build, rest, set, rfl, hbefore, hbuild, fun front _ => ?_, ?_⟩
  · rw [after_append, after_cons]
    exact settled_of_fontSet (fontSet_after_of_eq_some hset front)
  · rw [after_append, after_cons, after_nil]
    exact built_not_mem_replies hset rest

end Session

end FontCatalog
