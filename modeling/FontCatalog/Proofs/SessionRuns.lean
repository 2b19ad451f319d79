import FontCatalog.Catalog.Session

/-!
# Runs of a session

Over its life a catalogue is asked many things, and in between the world
goes on: downloads arrive, time passes, and loaders, the catalogue's own
one included, gain and lose data. A `SessionStep` is any of these, and a
run is a list of them. `Session.after` is where a run leads and
`Session.replies` what was answered on the way.

What a step keeps, a run keeps (`Session.after_induction`), and what a step
can do to the catalogue is said once, in `Session.CatalogStep`: most of what
is asked are questions, which leave it as it is.
-/

namespace FontCatalog

/-- **What can happen to a session.** -/
inductive SessionStep (σ : Type) where
  /-- The catalogue is asked something. -/
  | ask (signal : StopSignal σ) (patience : Nat) (request : CatalogRequest)
  /-- Names are wanted in another language from now on. -/
  | locale (locale : String)
  /-- The world changes, or time passes. -/
  | change (change : Timed σ → Timed σ)
  /-- The sources of the catalogue's own loader change. -/
  | changeMemory (change : MemoryLoader → MemoryLoader)

namespace Session

variable {σ : Type} (w : LoaderWorld σ)

/-- **One step of a session**, and the reply if something was asked. -/
def step (c : Session σ) : SessionStep σ → Option CatalogReply × Session σ
  | .ask signal patience request =>
    (some (c.perform w signal patience request).1, (c.perform w signal patience request).2)
  | .locale locale => (none, { c with catalog := c.catalog.withLocale locale })
  | .change change => (none, { c with timed := change c.timed })
  | .changeMemory change =>
    (none, { c with catalog := { c.catalog with memory := c.catalog.memory.map change } })

/-- **Where a run leads.** -/
def after (c : Session σ) (steps : List (SessionStep σ)) : Session σ :=
  steps.foldl (fun c step => (c.step w step).2) c

/-- **What is answered in a run**, in order. -/
def replies (c : Session σ) : List (SessionStep σ) → List CatalogReply
  | [] => []
  | step :: steps => (c.step w step).1.toList ++ replies (c.step w step).2 steps

variable {w} {c : Session σ}

@[simp] theorem after_nil : c.after w [] = c := rfl

@[simp] theorem after_cons (step : SessionStep σ) (steps : List (SessionStep σ)) :
    c.after w (step :: steps) = (c.step w step).2.after w steps := rfl

theorem after_append (steps more : List (SessionStep σ)) :
    c.after w (steps ++ more) = (c.after w steps).after w more :=
  List.foldl_append

/-- **What every step keeps holds after every run.** -/
theorem after_induction {P : Session σ → Prop} (hstep : ∀ c step, P c → P (c.step w step).2)
    (h : P c) (steps : List (SessionStep σ)) : P (c.after w steps) := by
  induction steps generalizing c with
  | nil => exact h
  | cons step steps ih => exact ih (hstep c step h)

/-- **What the steps of a run keep holds after the run.** -/
theorem after_induction_of_mem {P : Session σ → Prop} {steps : List (SessionStep σ)}
    (hstep : ∀ c, ∀ step ∈ steps, P c → P (c.step w step).2) (h : P c) :
    P (c.after w steps) := by
  induction steps generalizing c with
  | nil => exact h
  | cons step steps ih =>
    exact ih (fun c' step' hmem => hstep c' step' (List.mem_cons_of_mem _ hmem))
      (hstep c step (List.mem_cons_self ..) h)

/-! ## What a step does to the catalogue -/

/-- **What one step can make of the catalogue.** -/
inductive CatalogStep (w : LoaderWorld σ) (c : Session σ) : SessionStep σ → Catalog → Prop
  /-- A question, or something that happens in the world: nothing. -/
  | kept (step : SessionStep σ) : CatalogStep w c step c.catalog
  /-- A loader is to be registered. -/
  | register (signal : StopSignal σ) (patience : Nat) (id : LoaderId) :
    CatalogStep w c (.ask signal patience (.register id)) (c.catalog.register id).2
  /-- The set is to be built from memory. -/
  | buildFromMemory (signal : StopSignal σ) (patience : Nat) (sources : List FontSource) :
    CatalogStep w c (.ask signal patience (.buildFromMemory sources))
      (c.catalog.buildFromMemory w sources c.timed.world).2.1
  /-- The set is to be built from files. -/
  | buildFromFiles (signal : StopSignal σ) (patience : Nat) (files : List FontFile) :
    CatalogStep w c (.ask signal patience (.buildFromFiles files))
      (c.catalog.buildFromFiles w files c.timed.world).2.1
  /-- Names are wanted in another language. -/
  | locale (locale : String) : CatalogStep w c (.locale locale) (c.catalog.withLocale locale)
  /-- The sources of the own loader change. -/
  | changeMemory (change : MemoryLoader → MemoryLoader) :
    CatalogStep w c (.changeMemory change)
      { c.catalog with memory := c.catalog.memory.map change }

/-- **A step does one of these things to the catalogue.** -/
theorem catalogStep (c : Session σ) (step : SessionStep σ) :
    CatalogStep w c step (c.step w step).2.catalog := by
  have hkept : ∀ after : Session σ, after.catalog = c.catalog →
      CatalogStep w c step after.catalog := fun after h => h ▸ CatalogStep.kept step
  cases step with
  | ask signal patience request =>
    cases request with
    | register id => exact CatalogStep.register signal patience id
    | buildFromMemory sources => exact CatalogStep.buildFromMemory signal patience sources
    | buildFromFiles files => exact CatalogStep.buildFromFiles signal patience files
    | localities =>
      refine hkept _ ?_
      rw [step, perform]
      split <;> rfl
    | fetch index =>
      refine hkept _ ?_
      rw [step, perform]
      split <;> rfl
    | face index =>
      refine hkept _ ?_
      rw [step, perform]
      split <;> rfl
    | hasRemoteFonts => exact hkept _ rfl
    | details timeout => exact hkept _ rfl
    | detailsReport timeout => exact hkept _ rfl
    | interactiveDetailsReport timeout => exact hkept _ rfl
  | locale locale => exact CatalogStep.locale locale
  | change change => exact hkept _ rfl
  | changeMemory change => exact CatalogStep.changeMemory change

end Session

end FontCatalog
