import FontCatalog.Loader.Memory

/-!
# The world of loaders

A catalogue of fonts asks loaders three things: whether data is there, to
fetch it, and for the data. Loaders may be anything that answers – a
network, a disk, a test – and what they answer may depend on everything
they were asked before. `LoaderWorld σ` is just that: three questions,
each of which may change a state of type `σ`, and what the world does
while a catalogue pauses.

Nothing is assumed of a world. In particular a question for one file may
change the answers for another, and may fire the signal on which a caller
wants to stop; such a signal is an observation of the state, `σ → Bool`.

The catalogue's own memory loader is not part of the world outside.
`LoaderWorld.withMemory` puts it in: questions for its files are answered
from its sources and leave the world alone.
-/

namespace FontCatalog

/-- **What can be asked of loaders**, each question with the state it
leaves behind. -/
structure LoaderWorld (σ : Type) where
  /-- Whether the data of a file is there. -/
  locality : LoaderId → FileKey → σ → Locality × σ
  /-- Asks for the data of a file to be fetched; returns at once. -/
  request : LoaderId → FileKey → σ → Except FontError Unit × σ
  /-- The data of a file, if it is there. -/
  data : LoaderId → FileKey → σ → Option FontSource × σ
  /-- What happens in a pause of the given length. -/
  pause : Nat → σ → σ

namespace LoaderWorld

variable {σ : Type}

/-- **A world with a catalogue's own memory loader in it.** Its data is
present, fetching it does nothing, and the world is not changed. -/
def withMemory (w : LoaderWorld σ) (memory : MemoryLoader) : LoaderWorld σ where
  locality
    | .memory, _, s => (.present, s)
    | id, key, s => w.locality id key s
  request
    | .memory, _, s => (.ok (), s)
    | id, key, s => w.request id key s
  data
    | .memory, key, s => (memory.data? key, s)
    | id, key, s => w.data id key s
  pause := w.pause

/-- The data of a file of the memory loader is the source kept for it. -/
@[simp] theorem data_withMemory (w : LoaderWorld σ) (memory : MemoryLoader) (key : FileKey)
    (s : σ) : (w.withMemory memory).data .memory key s = (memory.data? key, s) := rfl

/-- **The world without loaders**: nothing is there, and asking for it does
nothing. -/
def vacant : LoaderWorld Unit where
  locality _ _ s := (.remote, s)
  request _ _ s := (.ok (), s)
  data _ _ s := (none, s)
  pause _ s := s

end LoaderWorld

end FontCatalog
