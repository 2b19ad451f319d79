import FontCatalog.Loader.File

/-!
# The registry of loaders

A font subsystem reads files only of loaders that are registered with it.
The registry is the list of those, each at most once, in the order in
which they came; it also says whether the subsystem can load fonts from
memory at all, and it keeps a journal of what it was asked to do,
including what it refused.
-/

namespace FontCatalog

/-- **An entry of the journal.** -/
inductive RegistryCall where
  /-- A loader was to be registered. -/
  | register (id : LoaderId)
  /-- A loader was to be forgotten. -/
  | unregister (id : LoaderId)
deriving DecidableEq

/-- **The registered loaders of a font subsystem.** -/
structure Registry where
  /-- Whether fonts can be loaded from memory. -/
  loadsMemory : Bool
  /-- The registered loaders. -/
  loaders : List LoaderId
  /-- What the registry was asked to do, the latest last. -/
  journal : List RegistryCall
deriving DecidableEq

namespace Registry

/-- A registry without loaders. -/
def empty (loadsMemory : Bool) : Registry := ⟨loadsMemory, [], []⟩

/-- **Registers a loader**, if it is not registered yet. -/
def register (r : Registry) (id : LoaderId) : Except FontError Unit × Registry :=
  let r := { r with journal := r.journal ++ [.register id] }
  if id ∈ r.loaders then (.error .alreadyRegistered, r)
  else (.ok (), { r with loaders := r.loaders ++ [id] })

/-- **Forgets a loader**; one that is not registered is no concern. -/
def unregister (r : Registry) (id : LoaderId) : Registry :=
  { r with loaders := r.loaders.filter (· ≠ id), journal := r.journal ++ [.unregister id] }

/-- How often a registration was asked for. -/
def registrations (r : Registry) : Nat :=
  r.journal.countP fun call => match call with
    | .register _ => true
    | .unregister _ => false

/-- How often forgetting a loader was asked for. -/
def unregistrations (r : Registry) : Nat :=
  r.journal.countP fun call => match call with
    | .register _ => false
    | .unregister _ => true

/-- A registry in one line. -/
def describe (r : Registry) : String :=
  "SkrifaBackend \x7b loaders: " ++ toString r.loaders.length ++ " \x7d"

end Registry

end FontCatalog
