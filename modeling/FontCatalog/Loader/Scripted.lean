import FontCatalog.Loader.World

/-!
# Scripted loaders

A scripted loader stands in for a loader of remote fonts. Each of its
files follows a script: what happens when it is asked to fetch the data,
after how many questions for its locality the data has arrived, and after
how many the caller is told to stop. Questions count only once the data
was asked for.

A `Shelf` is a world of such loaders and of memory loaders, with the
signal to stop as part of its state.
-/

namespace FontCatalog

/-- **What a scripted file does when it is asked to fetch its data.** -/
inductive FetchResponse where
  /-- It refuses. -/
  | refuse
  /-- Its locality changes. -/
  | become (locality : Locality)
deriving DecidableEq

/-- **When a scripted file hands out its data.** -/
inductive DataVisibility where
  /-- At all times. -/
  | always
  /-- At no time. -/
  | never
  /-- While it is present. -/
  | whenPresent
deriving DecidableEq

/-- **A file that follows a script.** -/
structure ScriptedFile where
  /-- The data. -/
  data : Bytes
  /-- The data once it was asked for, if that is different. -/
  fetchedData : Option Bytes
  /-- Whether the data is there now. -/
  locality : Locality
  /-- What happens when the data is asked for. -/
  response : Option FetchResponse
  /-- The number of questions after which the data is there. -/
  presentAfter : Option Nat
  /-- The number of questions after which the caller is told to stop. -/
  stopAfter : Option Nat
  /-- When the data is handed out. -/
  visibility : DataVisibility
  /-- How often the data was asked for. -/
  requests : Nat
  /-- How many questions have counted. -/
  polls : Nat
deriving DecidableEq

namespace ScriptedFile

/-- **A question for the locality**: the file afterwards, and whether the
caller is told to stop. The answer is the locality of the file afterwards. -/
def poll (f : ScriptedFile) : ScriptedFile × Bool :=
  if f.requests = 0 then (f, false)
  else
    let polls := f.polls + 1
    let locality := if f.presentAfter.any (· < polls) then .present else f.locality
    ({ f with polls := polls, locality := locality }, f.stopAfter.any (· < polls))

/-- **A request for the data**: the file afterwards, and whether it
refuses. -/
def fetch (f : ScriptedFile) : ScriptedFile × Bool :=
  let asked := { f with requests := f.requests + 1 }
  match f.response with
  | none => (asked, false)
  | some .refuse => (asked, true)
  | some (.become locality) => ({ asked with locality := locality }, false)

/-- The data that is handed out. -/
def data? (f : ScriptedFile) : Option Bytes :=
  let visible := match f.visibility with
    | .always => true
    | .never => false
    | .whenPresent => f.locality = .present
  if !visible then none
  else some (if 0 < f.requests then f.fetchedData.getD f.data else f.data)

end ScriptedFile

/-- **A loader on a shelf.** -/
inductive ShelfLoader where
  /-- A loader of sources in memory. -/
  | memory (loader : MemoryLoader)
  /-- A loader whose files follow scripts. -/
  | scripted (files : List ScriptedFile)

/-- **A shelf of loaders**, and whether the signal to stop has fired. -/
structure Shelf where
  /-- The loaders, by index. -/
  loaders : List ShelfLoader
  /-- Whether the signal to stop has fired. -/
  stopped : Bool

namespace Shelf

/-- The script of a file, if the shelf has a scripted loader with it. -/
def script? (s : Shelf) (loader : Nat) (key : FileKey) : Option ScriptedFile :=
  match s.loaders[loader]? with
  | some (.scripted files) => files[key.index.toNat]?
  | _ => none

/-- The shelf with a file of a scripted loader replaced. -/
def setScript (s : Shelf) (loader : Nat) (key : FileKey) (f : ScriptedFile) : Shelf :=
  match s.loaders[loader]? with
  | some (.scripted files) =>
    { s with loaders := s.loaders.set loader (.scripted (files.set key.index.toNat f)) }
  | _ => s

/-- The memory loader at an index, if there is one. -/
def memory? (s : Shelf) (loader : Nat) : Option MemoryLoader :=
  match s.loaders[loader]? with
  | some (.memory l) => some l
  | _ => none

/-- The shelf with a memory loader cut back. -/
def truncate (s : Shelf) (loader length : Nat) : Shelf :=
  match s.memory? loader with
  | some l => { s with loaders := s.loaders.set loader (.memory (l.truncate length)) }
  | none => s

/-- How a file without a name of its own is spoken of. -/
def fileName (key : FileKey) : String := "file " ++ toString key.index.toNat

/-- Asks a loader for the locality of a file. -/
def locality (loader : Nat) (key : FileKey) (s : Shelf) : Locality × Shelf :=
  if (s.memory? loader).isSome then (.present, s)
  else match s.script? loader key with
    | none => (.remote, s)
    | some f =>
      let (f, stop) := f.poll
      let s := s.setScript loader key f
      (f.locality, { s with stopped := s.stopped || stop })

/-- Asks a loader to fetch a file. -/
def request (loader : Nat) (key : FileKey) (s : Shelf) : Except FontError Unit × Shelf :=
  if (s.memory? loader).isSome then (.ok (), s)
  else match s.script? loader key with
    | none => (.error (.fetchFailed (fileName key) "unknown key"), s)
    | some f =>
      let (f, refused) := f.fetch
      (if refused then .error (.fetchFailed (fileName key) "refused") else .ok (),
        s.setScript loader key f)

/-- The data of a file. -/
def data? (s : Shelf) (loader : Nat) (key : FileKey) : Option FontSource :=
  match s.memory? loader with
  | some l => l.data? key
  | none => ((s.script? loader key).bind (·.data?)).map (FontSource.whole (fileName key))

/-- **The world that a shelf is.** Nothing happens in a pause. -/
def world : LoaderWorld Shelf where
  locality
    | .outside i, key, s => s.locality i key
    | .memory, _, s => (.remote, s)
  request
    | .outside i, key, s => s.request i key
    | .memory, key, s => (.error (.fetchFailed (fileName key) "unknown key"), s)
  data
    | .outside i, key, s => (s.data? i key, s)
    | .memory, _, s => (none, s)
  pause _ s := s

end Shelf

end FontCatalog
