import FontCatalog.Loader.File

/-!
# The loader for font data in memory

A memory loader keeps sources in the order in which they came. The key of
a file is the number of sources that were kept before it, so what a key
stands for is a position; when the loader is cut back, the positions
behind the cut stand for nothing until new sources take them.

All data of a memory loader is present at all times.
-/

namespace FontCatalog

/-- **A loader of sources in memory.** -/
structure MemoryLoader where
  /-- The sources kept, by key. -/
  files : List FontSource
deriving DecidableEq

namespace MemoryLoader

/-- The loader without sources. -/
def empty : MemoryLoader := ⟨[]⟩

/-- How many sources are kept. -/
def length (l : MemoryLoader) : Nat := l.files.length

/-- Whether no source is kept. -/
def isEmpty (l : MemoryLoader) : Bool := l.files.isEmpty

/-- The key that the next source will get. -/
def nextKey (l : MemoryLoader) : FileKey := ⟨UInt32.ofNat l.length⟩

/-- The loader with one more source. -/
def keep (l : MemoryLoader) (s : FontSource) : MemoryLoader := ⟨l.files ++ [s]⟩

/-- **Keeping a source**: the file that refers to it, named like the
source, and the loader with it. `id` is the identity of the loader. -/
def create (l : MemoryLoader) (id : LoaderId) (s : FontSource) : FontFile × MemoryLoader :=
  (⟨id, l.nextKey, s.name⟩, l.keep s)

/-- Keeping several sources, from the first to the last. -/
def createAll (l : MemoryLoader) (id : LoaderId) : List FontSource → List FontFile × MemoryLoader
  | [] => ([], l)
  | s :: ss =>
    let (file, l) := l.create id s
    let (files, l) := l.createAll id ss
    (file :: files, l)

/-- The loader cut back to its first `length` sources. -/
def truncate (l : MemoryLoader) (length : Nat) : MemoryLoader := ⟨l.files.take length⟩

/-- **The source that a key stands for.** -/
def data? (l : MemoryLoader) (key : FileKey) : Option FontSource := l.files[key.index.toNat]?

/-- A key has data exactly while it is below the number of sources. -/
theorem data?_isSome_iff (l : MemoryLoader) (key : FileKey) :
    (l.data? key).isSome = true ↔ key.index.toNat < l.length := by
  simp only [data?, length, Option.isSome_iff_exists, List.getElem?_eq_some_iff]
  exact ⟨fun ⟨_, h, _⟩ => h, fun h => ⟨_, h, rfl⟩⟩

/-- Keeping a source changes nothing for the keys in use. -/
theorem data?_keep_of_lt {l : MemoryLoader} {key : FileKey} (h : key.index.toNat < l.length)
    (s : FontSource) : (l.keep s).data? key = l.data? key :=
  List.getElem?_append_left h

/-- Cutting back takes away exactly the keys behind the cut. -/
theorem data?_truncate (l : MemoryLoader) (length : Nat) (key : FileKey) :
    (l.truncate length).data? key = if key.index.toNat < length then l.data? key else none := by
  simp only [truncate, data?, List.getElem?_take]

/-- Keeping several sources is keeping them one behind the other. -/
theorem files_createAll (l : MemoryLoader) (id : LoaderId) (ss : List FontSource) :
    (l.createAll id ss).2.files = l.files ++ ss := by
  induction ss generalizing l with
  | nil => simp [createAll]
  | cons s ss ih =>
    simp only [createAll, ih, create, keep, List.append_assoc, List.cons_append, List.nil_append]

end MemoryLoader

end FontCatalog
