import FontCatalog.Proofs.MemoryBuilds
import FontCatalog.Proofs.SingleBuild
import Mathlib.Data.List.Nodup

/-!
# The ledger of loaders

A catalogue registers loaders on two ways: when it is told to, and when
fonts in memory come for the first time. In the end it has to take back
the loaders that it registered, all of them and no others – the registry
may be shared, and loaders that were there before are not its business. It
keeps a list for that purpose, and this list must not get out of step with
the registry, whatever is asked, refused, tried again or never asked.

`Catalog.LedgerStep` says what one step can do to the list and the registry:
nothing, a refusal, or one more loader at the end of both. So the registered
loaders are at any time those from before and then the catalogue's, each
once, and taking the catalogue's back leaves those from before.
-/

namespace FontCatalog

namespace Registry

/-- **Forgetting several loaders** leaves the others in their order, and
every one of them is in the journal. -/
theorem foldl_unregister (ids : List LoaderId) (r : Registry) :
    ids.foldl unregister r = { r with
      loaders := r.loaders.filter (· ∉ ids)
      journal := r.journal ++ ids.map .unregister } := by
  induction ids generalizing r with
  | nil =>
    have hall : r.loaders.filter (· ∉ ([] : List LoaderId)) = r.loaders :=
      List.filter_eq_self.mpr fun id _ => decide_eq_true List.not_mem_nil
    rw [hall, List.map_nil, List.append_nil]
    rfl
  | cons id ids ih =>
    have hfilter : (r.loaders.filter (· ≠ id)).filter (· ∉ ids)
        = r.loaders.filter (· ∉ id :: ids) := by
      rw [List.filter_filter]
      refine List.filter_congr fun other _ => ?_
      rw [← Bool.decide_and, decide_eq_decide, List.mem_cons, not_or, and_comm]
    rw [List.foldl_cons, ih, unregister, ← hfilter, List.map_cons, List.append_assoc]
    rfl

end Registry

namespace Catalog

/-! ## What a step does to the ledger -/

/-- **The same ledger**: the same registry, the same loaders to be taken
back, and an own loader in both catalogues or in neither. -/
structure SameLedger (c c' : Catalog) : Prop where
  /-- The registry is the same. -/
  registry : c'.registry = c.registry
  /-- So is what will be taken back. -/
  registered : c'.registered = c.registered
  /-- There is an own loader in both, or in neither. -/
  hasOwn : c'.memory.isSome = c.memory.isSome

theorem SameLedger.refl (c : Catalog) : c.SameLedger c := ⟨rfl, rfl, rfl⟩

/-- **What one step can do to the ledger.** `asked` is the loader that is to
be registered, if that is the step. -/
inductive LedgerStep (asked : Option LoaderId) (c c' : Catalog) : Prop
  /-- Nothing. -/
  | kept (h : c.SameLedger c')
  /-- A loader is refused: one that was asked for, or the own one. -/
  | refused (id : LoaderId) (hasked : asked = some id ∨ id = .memory ∧ c.memory = none)
    (hmem : id ∈ c.registry.loaders) (h : (c.refusing id).SameLedger c')
  /-- The loader that was asked for is registered. -/
  | registered (id : LoaderId) (hasked : asked = some id) (hmem : id ∉ c.registry.loaders)
    (h : (c.registering id).SameLedger c')
  /-- The own loader is made and registered. -/
  | made (hnone : c.memory = none) (hmem : .memory ∉ c.registry.loaders)
    (h : c.withOwnLoader.SameLedger c')

variable {c c' : Catalog} {asked : Option LoaderId} {origin : Registry}

theorem ledgerStep_register (c : Catalog) (id : LoaderId) :
    LedgerStep (some id) c (c.register id).2 := by
  by_cases hmem : id ∈ c.registry.loaders
  · rw [register_of_mem hmem]
    exact LedgerStep.refused id (Or.inl rfl) hmem (.refl _)
  · rw [register_of_notMem hmem]
    exact LedgerStep.registered id rfl hmem (.refl _)

/-- A catalogue that got ready for sources made its own loader or had
it. -/
theorem Ready.ledgerStep {own : Catalog} (hown : c.Ready own) (h : own.SameLedger c') :
    LedgerStep asked c c' := by
  cases hown with
  | before => exact LedgerStep.kept h
  | made hnone hmem => exact LedgerStep.made hnone hmem h

variable {σ : Type} (w : LoaderWorld σ) (s : σ)

/-- **A build from memory registers the own loader and no other**, and not
twice. -/
theorem ledgerStep_buildFromMemory (sources : List FontSource) (c : Catalog) :
    LedgerStep asked c (c.buildFromMemory w sources s).2.1 := by
  have hbuild := memoryBuild w sources c s
  generalize c.buildFromMemory w sources s = outcome at hbuild ⊢
  cases hbuild with
  | refused => exact LedgerStep.kept (.refl c)
  | unsupported => exact LedgerStep.kept (.refl c)
  | unregistered _ _ hnone hmem =>
    exact LedgerStep.refused .memory (Or.inr ⟨rfl, hnone⟩) hmem (.refl _)
  | failed _ _ hown => exact hown.ledgerStep (.refl _)
  | built _ _ hown => exact hown.ledgerStep ⟨rfl, rfl, hown.isSome_memory.symm⟩

theorem ledgerStep_buildFromFiles (files : List FontFile) (c : Catalog) :
    LedgerStep asked c (c.buildFromFiles w files s).2.1 := by
  refine LedgerStep.kept ?_
  unfold buildFromFiles
  split
  · exact .refl c
  · split <;> exact ⟨rfl, rfl, rfl⟩

/-! ## What every step keeps -/

/-- **The ledger is in order**: the registered loaders are those from before
and then the catalogue's, each once. -/
structure LedgerInOrder (origin : Registry) (c : Catalog) : Prop where
  /-- First the loaders from before, then the catalogue's. -/
  loaders : c.registry.loaders = origin.loaders ++ c.registered
  /-- No loader twice. -/
  nodup : c.registry.loaders.Nodup

theorem LedgerInOrder.step (hstep : LedgerStep asked c c') (h : LedgerInOrder origin c) :
    LedgerInOrder origin c' := by
  have hsame : ∀ {b : Catalog}, b.SameLedger c' → LedgerInOrder origin b →
      LedgerInOrder origin c' := by
    intro b hb hordered
    constructor
    · rw [hb.registry, hb.registered]
      exact hordered.loaders
    · rw [hb.registry]
      exact hordered.nodup
  have hadded : ∀ {id : LoaderId}, id ∉ c.registry.loaders →
      LedgerInOrder origin (c.registering id) := by
    intro id hmem
    constructor
    · show c.registry.loaders ++ [id] = origin.loaders ++ (c.registered ++ [id])
      rw [h.loaders, List.append_assoc]
    · show (c.registry.loaders ++ [id]).Nodup
      exact h.nodup.append (List.nodup_singleton id) (List.disjoint_singleton.mpr hmem)
  cases hstep with
  | kept hc => exact hsame hc h
  | refused id _ _ hc => exact hsame hc ⟨h.loaders, h.nodup⟩
  | registered id _ hmem hc => exact hsame hc (hadded hmem)
  | made _ hmem hc => exact hsame hc ⟨(hadded hmem).loaders, (hadded hmem).nodup⟩

/-- **The own loader is called for once**: it is registered exactly if it is
made, and there is one call for it then and none before. -/
structure OwnLoaderOnce (origin : Registry) (c : Catalog) : Prop where
  /-- The own loader is registered exactly if it is made. -/
  mem_iff : .memory ∈ c.registry.loaders ↔ c.memory.isSome = true
  /-- There is one call for it, or none. -/
  count : c.registry.journal.count (.register .memory)
    = origin.journal.count (.register .memory) + c.memory.isSome.toNat

theorem OwnLoaderOnce.step (hstep : LedgerStep asked c c') (hasked : asked ≠ some .memory)
    (h : OwnLoaderOnce origin c) : OwnLoaderOnce origin c' := by
  have hsame : ∀ {b : Catalog}, b.SameLedger c' → OwnLoaderOnce origin b →
      OwnLoaderOnce origin c' := by
    intro b hb hown
    constructor
    · rw [hb.registry, hb.hasOwn]
      exact hown.mem_iff
    · rw [hb.registry, hb.hasOwn]
      exact hown.count
  have hother : ∀ {id : LoaderId}, id ≠ .memory →
      (c.registry.journal ++ [RegistryCall.register id]).count (.register .memory)
        = c.registry.journal.count (.register .memory) := by
    intro id hid
    have hne : RegistryCall.register id ≠ .register .memory :=
      fun heq => hid (RegistryCall.register.inj heq)
    rw [List.count_append, List.count_singleton, if_neg (by rwa [beq_iff_eq]), Nat.add_zero]
  cases hstep with
  | kept hc => exact hsame hc h
  | refused id hid hmem hc =>
    -- A refused loader is not the own one: that is registered only if it is made.
    have hne : id ≠ .memory := by
      rintro rfl
      rcases hid with hid | ⟨-, hnone⟩
      · exact hasked hid
      · have hsome := h.mem_iff.mp hmem
        rw [hnone] at hsome
        cases hsome
    exact hsame hc ⟨h.mem_iff, (hother hne).trans h.count⟩
  | registered id hid hmem hc =>
    have hne : id ≠ .memory := by
      rintro rfl
      exact hasked hid
    refine hsame hc ⟨?_, (hother hne).trans h.count⟩
    show .memory ∈ c.registry.loaders ++ [id] ↔ c.memory.isSome = true
    rw [List.mem_append, List.mem_singleton, or_iff_left fun heq => hne heq.symm]
    exact h.mem_iff
  | made hnone hmem hc =>
    refine hsame hc ⟨?_, ?_⟩
    · show .memory ∈ c.registry.loaders ++ [.memory] ↔ true = true
      exact iff_of_true (List.mem_append_right _ (List.mem_singleton_self _)) rfl
    · have hcount := h.count
      rw [hnone] at hcount
      show (c.registry.journal ++ [RegistryCall.register .memory]).count (.register .memory) = _ + 1
      rw [List.count_append, List.count_singleton_self, hcount]
      rfl

/-! ## The end of a catalogue -/

/-- **A catalogue takes back what it registered**, in that order, and with
the ledger in order nothing else goes. -/
theorem LedgerInOrder.release_eq (h : LedgerInOrder origin c) :
    c.release = { c.registry with
      loaders := origin.loaders
      journal := c.registry.journal ++ c.registered.map .unregister } := by
  have hnodup := h.nodup
  rw [h.loaders] at hnodup
  have hkept : (origin.loaders ++ c.registered).filter (· ∉ c.registered) = origin.loaders := by
    have hfirst : origin.loaders.filter (· ∉ c.registered) = origin.loaders :=
      List.filter_eq_self.mpr fun id hid =>
        decide_eq_true fun hmem => List.disjoint_of_nodup_append hnodup hid hmem
    have hsecond : c.registered.filter (· ∉ c.registered) = [] :=
      List.filter_eq_nil_iff.mpr fun id hid hnot => of_decide_eq_true hnot hid
    rw [List.filter_append, hfirst, hsecond, List.append_nil]
  rw [release, Registry.foldl_unregister, h.loaders, hkept]

/-- **A catalogue whose ledger is in step with the registry**, and what
follows for whatever is done next. -/
structure KeepsLedger (origin : Registry) (c : Catalog) : Prop where
  /-- The registered loaders are those from before, then the catalogue's. -/
  loaders : c.registry.loaders = origin.loaders ++ c.registered
  /-- No loader is registered twice. -/
  nodup : c.registry.loaders.Nodup
  /-- So none is in the ledger twice, -/
  registered_nodup : c.registered.Nodup
  /-- least of all the catalogue's own loader. -/
  own_le_one : c.registered.count .memory ≤ 1
  /-- Registering fails exactly for a loader that is registered. -/
  register_fails_iff : ∀ id,
    (c.register id).1 = .error .alreadyRegistered ↔ id ∈ c.registry.loaders
  /-- That changes nothing, but for the journal of the registry. -/
  register_refused : ∀ id ∈ c.registry.loaders, (c.register id).2 = c.refusing id
  /-- Any other loader is added to the registry and to the ledger. -/
  register_accepted : ∀ id, id ∉ c.registry.loaders →
    c.register id = (.ok (), c.registering id)
  /-- A build from memory that is refused registers nothing, and does
  nothing else either. -/
  buildFromMemory_refused : ∀ {σ : Type} (w : LoaderWorld σ) (sources : List FontSource) (s : σ),
    (c.buildFromMemory w sources s).1 = .error .alreadyBuilt
        ∨ (c.buildFromMemory w sources s).1 = .error .unsupported →
      c.buildFromMemory w sources s = ((c.buildFromMemory w sources s).1, c, s)
  /-- Once the own loader is made, no build from memory concerns the
  registry. -/
  buildFromMemory_again : ∀ {σ : Type} (w : LoaderWorld σ) (sources : List FontSource) (s : σ),
    c.memory.isSome = true → (c.buildFromMemory w sources s).2.1.registry = c.registry
  /-- In the end there are the loaders from before. -/
  release_loaders : c.release.loaders = origin.loaders
  /-- Every loader of the ledger is taken back, in order, and no other. -/
  release_journal :
    c.release.journal = c.registry.journal ++ c.registered.map .unregister

/-- A build from memory that is refused does nothing. -/
theorem buildFromMemory_of_refused (sources : List FontSource)
    (h : (c.buildFromMemory w sources s).1 = .error .alreadyBuilt
      ∨ (c.buildFromMemory w sources s).1 = .error .unsupported) :
    c.buildFromMemory w sources s = ((c.buildFromMemory w sources s).1, c, s) := by
  have hbuild := memoryBuild w sources c s
  generalize c.buildFromMemory w sources s = outcome at h hbuild ⊢
  cases hbuild with
  | refused => rfl
  | unsupported => rfl
  | unregistered => rcases h with h | h <;> cases h
  | failed _ _ _ hset =>
    -- A set that cannot be built has other reasons.
    rcases LoaderWorld.of_buildSet_eq_error hset with ⟨name, rfl⟩ | ⟨name, cause, rfl⟩ <;>
      rcases h with h | h <;> cases h
  | built => rcases h with h | h <;> cases h

/-- With its own loader made, a catalogue builds from memory without the
registry. -/
theorem registry_buildFromMemory_of_isSome (sources : List FontSource)
    (h : c.memory.isSome = true) : (c.buildFromMemory w sources s).2.1.registry = c.registry := by
  have hready : ∀ {own : Catalog}, c.Ready own → own.registry = c.registry := by
    intro own hown
    cases hown with
    | before => rfl
    | made hnone =>
      rw [hnone] at h
      cases h
  have hbuild := memoryBuild w sources c s
  generalize c.buildFromMemory w sources s = outcome at hbuild ⊢
  cases hbuild with
  | refused => rfl
  | unsupported => rfl
  | unregistered _ _ hnone =>
    rw [hnone] at h
    cases h
  | failed _ _ hown => exact hready hown
  | @built own _ _ _ _ hown _ => exact (show own.registry = c.registry from hready hown)

theorem LedgerInOrder.registered_nodup (h : LedgerInOrder origin c) : c.registered.Nodup := by
  have hnodup := h.nodup
  rw [h.loaders] at hnodup
  exact List.Nodup.of_append_right hnodup

theorem LedgerInOrder.keepsLedger (h : LedgerInOrder origin c) : KeepsLedger origin c where
  loaders := h.loaders
  nodup := h.nodup
  registered_nodup := h.registered_nodup
  own_le_one := List.nodup_iff_count_le_one.mp h.registered_nodup .memory
  register_fails_iff id := by
    by_cases hmem : id ∈ c.registry.loaders
    · rw [register_of_mem hmem]
      exact iff_of_true rfl hmem
    · rw [register_of_notMem hmem]
      exact iff_of_false nofun hmem
  register_refused id hmem := by rw [register_of_mem hmem]
  register_accepted id hmem := register_of_notMem hmem
  buildFromMemory_refused w sources s hrefused := buildFromMemory_of_refused w s sources hrefused
  buildFromMemory_again w sources s hown := registry_buildFromMemory_of_isSome w s sources hown
  release_loaders := by rw [h.release_eq]
  release_journal := by rw [h.release_eq]

end Catalog

namespace Session

variable {σ : Type} {w : LoaderWorld σ}

/-- The loader that a step asks to register, if that is the step. -/
def askedLoader : SessionStep σ → Option LoaderId
  | .ask _ _ (.register id) => some id
  | _ => none

/-- **Every step of a session is a step of its ledger.** -/
theorem ledgerStep (c : Session σ) (step : SessionStep σ) :
    Catalog.LedgerStep (askedLoader step) c.catalog (c.step w step).2.catalog := by
  have hstep := c.catalogStep (w := w) step
  generalize (c.step w step).2.catalog = after at hstep ⊢
  cases hstep with
  | kept => exact Catalog.LedgerStep.kept (.refl _)
  | register _ _ id => exact c.catalog.ledgerStep_register id
  | buildFromMemory _ _ sources => exact Catalog.ledgerStep_buildFromMemory w _ sources c.catalog
  | buildFromFiles _ _ files => exact Catalog.ledgerStep_buildFromFiles w _ files c.catalog
  | locale => exact Catalog.LedgerStep.kept ⟨rfl, rfl, rfl⟩
  | changeMemory => exact Catalog.LedgerStep.kept ⟨rfl, rfl, Option.isSome_map ..⟩

/-- A run in which nobody else has the own loader calls for it once. -/
theorem ownLoaderOnce_after {registry : Registry} (hfresh : .memory ∉ registry.loaders)
    (t : Timed σ) {steps : List (SessionStep σ)}
    (hasked : ∀ step ∈ steps, askedLoader step ≠ some .memory) :
    ((new registry t).after w steps).catalog.OwnLoaderOnce registry := by
  have hstart : (new registry t).catalog.OwnLoaderOnce registry :=
    ⟨iff_of_false hfresh Bool.false_ne_true, rfl⟩
  exact after_induction_of_mem (P := fun c => c.catalog.OwnLoaderOnce registry)
    (fun c step hmem h => h.step (c.ledgerStep step) (hasked step hmem)) hstart

/-- **Ledger and registry stay in step.** Whatever is asked of a new
catalogue and whatever happens in between, the registered loaders are those
that were registered before and then those of the catalogue's ledger, each
once. Registering fails for these and for no others; builds from memory
that are refused register nothing; and in the end every loader of the
ledger is taken back, once and in order, so that those from before are
left.

The own loader is made by the catalogue, so nobody else can have it before.
It is then called for once, with the first build from memory that is not
refused, however many there are. -/
theorem ledger_after (w : LoaderWorld σ) {registry : Registry}
    (hregistry : registry.loaders.Nodup) (t : Timed σ) (steps : List (SessionStep σ)) :
    ((new registry t).after w steps).catalog.KeepsLedger registry ∧
      (.memory ∉ registry.loaders → (∀ step ∈ steps, askedLoader step ≠ some .memory) →
        ((new registry t).after w steps).catalog.OwnLoaderOnce registry) := by
  have hstart : (new registry t).catalog.LedgerInOrder registry :=
    ⟨(List.append_nil _).symm, hregistry⟩
  have hend : ((new registry t).after w steps).catalog.LedgerInOrder registry :=
    after_induction (P := fun c => c.catalog.LedgerInOrder registry)
      (fun c step h => h.step (c.ledgerStep step)) hstart steps
  exact ⟨hend.keepsLedger, fun hfresh hasked => ownLoaderOnce_after hfresh t hasked⟩

/-- A catalogue over a registry with a loader of someone else: that loader
is refused, another one is registered, and fonts in memory are tried twice
in vain. -/
theorem ledger_after_of_retries :
    ∃ (registry : Registry) (steps : List (SessionStep Unit)) (c : Catalog),
      registry.loaders = [.outside 7] ∧ registry.loaders.Nodup ∧
      steps.length = 4 ∧ c = ((new registry ⟨(), 0⟩).after .vacant steps).catalog ∧
      c.registered = [.outside 0, .memory] ∧
      c.registry.loaders = [.outside 7] ++ c.registered ∧
      c.registry.journal.count (.register .memory) = 1 ∧
      c.release.loaders = [.outside 7] ∧
      c.release.journal = c.registry.journal ++ [.unregister (.outside 0), .unregister .memory] := by
  let registry : Registry := ⟨true, [.outside 7], []⟩
  let steps : List (SessionStep Unit) :=
    [.ask .silent 0 (.register (.outside 7)), .ask .silent 0 (.register (.outside 0)),
     .ask .silent 0 (.buildFromMemory [.whole "junk" [1, 2, 3]]),
     .ask .silent 0 (.buildFromMemory [.whole "junk" [1, 2, 3]])]
  have hnodup : registry.loaders.Nodup := List.nodup_singleton _
  have hregistered : ((new registry ⟨(), 0⟩).after .vacant steps).catalog.registered
      = [.outside 0, .memory] := by decide +kernel
  have hmade : ((new registry ⟨(), 0⟩).after .vacant steps).catalog.memory.isSome = true := by
    decide +kernel
  have hfresh : .memory ∉ registry.loaders := by decide
  have hasked : ∀ step ∈ steps, askedLoader step ≠ some .memory := by
    have hall : ∀ asked ∈ [some (LoaderId.outside 7), some (.outside 0), none, none],
        asked ≠ some .memory := by decide
    exact fun step hmem => hall _ (List.mem_map_of_mem hmem)
  obtain ⟨hledger, hown⟩ := ledger_after LoaderWorld.vacant hnodup ⟨(), 0⟩ steps
  have hcount := (hown hfresh hasked).count
  rw [hmade] at hcount
  refine ⟨registry, steps, _, rfl, hnodup, rfl, rfl, hregistered, hledger.loaders, hcount,
    hledger.release_loaders, ?_⟩
  rw [hledger.release_journal, hregistered]
  rfl

end Session

end FontCatalog
