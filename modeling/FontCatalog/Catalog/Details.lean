import FontCatalog.Clock
import FontCatalog.Catalog.Basic

/-!
# Details that need the font data

Some details can only be read from the data of a font, and the data may
have to be fetched. `LoaderWorld.details` gives one line per font, or no
lines at all: it first asks for the data of every font, then waits for
each font in turn and reads its face, and whatever goes wrong on the way –
a request is refused, the wait is stopped or takes too long, a face cannot
be read – leaves no lines.

A wait (`LoaderWorld.await`) asks for the locality first, so data that is
there never waits; then it looks at the stop signal, then at the deadline,
which is one for the whole call, and then it pauses. Pauses bring the
deadline nearer, so their number is known before the wait starts
(`Deadline.pauses`). A wait without a deadline is held to the `patience`
of the caller, which bounds nothing else.
-/

namespace FontCatalog

/-- **A state of the world at a point in time.** -/
structure Timed (σ : Type) where
  /-- The state of the world. -/
  world : σ
  /-- The time. -/
  now : Instant

/-- **How a wait ends.** -/
inductive WaitOutcome where
  /-- The data is there. -/
  | arrived
  /-- The stop signal has fired. -/
  | stopped
  /-- The deadline is reached. -/
  | timedOut
  /-- There is no deadline, and the caller has no more patience. -/
  | exhausted
deriving DecidableEq

/-- A signal to stop, read off the state of the world. -/
abbrev StopSignal (σ : Type) := σ → Bool

namespace StopSignal

/-- A signal that never fires. -/
def silent {σ : Type} : StopSignal σ := fun _ => false

end StopSignal

/-- **The line for a font**: its name, or its number where it has none, and
the height of its lower-case letters. A face read from font data has a whole
number of units for its height, and rounding it to the nearest whole number
leaves it as it is. -/
def detailLine (index : Nat) (face : FontFace) : String :=
  face.fullName.getD ("Font " ++ toString index) ++ ": x-height = "
    ++ toString face.metrics.xHeight.toInt

namespace LoaderWorld

variable {σ : Type}

/-- **Waits until the data of a file is there**, with at most `pauses`
pauses. -/
def await (w : LoaderWorld σ) (signal : StopSignal σ) (file : FontFile) (deadline : Deadline) :
    (pauses : Nat) → Timed σ → WaitOutcome × Timed σ
  | pauses, t =>
    let (locality, world) := w.locality file.loader file.key t.world
    let asked : Timed σ := { t with world := world }
    if locality = .present then (.arrived, asked)
    else if signal world then (.stopped, asked)
    else
      match deadline.pause? t.now with
      | none => (.timedOut, asked)
      | some length =>
        match pauses with
        | 0 => (.exhausted, asked)
        | pauses + 1 =>
          w.await signal file deadline pauses ⟨w.pause length world, t.now + length⟩

/-- Asks for the data of every entry, up to the first refusal. -/
def requestAll (w : LoaderWorld σ) : List FontEntry → σ → Except FontError Unit × σ
  | [], s => (.ok (), s)
  | entry :: entries, s =>
    match w.request entry.file.loader entry.file.key s with
    | (.ok (), s) => w.requestAll entries s
    | (.error error, s) => (.error error, s)

/-- Waits for each entry in turn and reads its face; `index` is the number
of the first. There are lines for all entries, or none where one fails. -/
def awaitLines (w : LoaderWorld σ) (signal : StopSignal σ) (deadline : Deadline)
    (patience : Nat) : (index : Nat) → List FontEntry → Timed σ → Option (List String) × Timed σ
  | _, [], t => (some [], t)
  | index, entry :: entries, t =>
    match w.await signal entry.file deadline (deadline.pauses patience t.now) t with
    | (.arrived, t) =>
      match w.readFace entry t.world with
      | (.error _, world) => (none, { t with world := world })
      | (.ok face, world) =>
        match w.awaitLines signal deadline patience (index + 1) entries { t with world := world }
        with
        | (none, t) => (none, t)
        | (some lines, t) => (some (detailLine index face :: lines), t)
    | (_, t) => (none, t)

/-- **One line per font, or no lines.** -/
def details (w : LoaderWorld σ) (signal : StopSignal σ) (timeout : Duration) (patience : Nat)
    (entries : List FontEntry) (t : Timed σ) : List String × Timed σ :=
  if signal t.world then ([], t)
  else
    let deadline := Deadline.after t.now timeout
    match w.requestAll entries t.world with
    | (.error _, world) => ([], { t with world := world })
    | (.ok (), world) =>
      let (lines, t) := w.awaitLines signal deadline patience 0 entries { t with world := world }
      (lines.getD [], t)

end LoaderWorld

namespace Catalog

variable {σ : Type}

/-- **The details of a catalogue's set**; none before it is built. -/
def details (w : LoaderWorld σ) (signal : StopSignal σ) (timeout : Duration) (patience : Nat)
    (c : Catalog) (t : Timed σ) : List String × Timed σ :=
  (c.inWorld w).details signal timeout patience c.entries t

end Catalog

end FontCatalog
