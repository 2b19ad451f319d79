import FontCatalog.Synthetic.Font
import FontCatalog.Table.Name

/-!
# The `name` table of a synthetic font

A synthetic font has its family, style and page-description name in the
fallback language, and a full name in the fallback language and in every
other that was given. The records are in the order of their languages, and
for one language in the order of what they name.

The texts go into a pool in which every text is kept once. A record says
how long its text is and where in the pool it starts, both in sixteen bits.
A pool in which a text starts too far on cannot be written, and that is an
error. For a text that is too long none was thought of: its length is
reckoned in sixteen bits and overflows, before any place is asked for.
-/

namespace FontCatalog

/-- **Why a synthetic font cannot be built.** -/
inductive BuildError where
  /-- The names together are too long for the `name` table. -/
  | namesTooLong
  /-- Reckoning the length of a name in sixteen bits overflows. This is not
  an error that is returned: building breaks off. -/
  | overflow
deriving DecidableEq

/-- **A text to be written into a `name` table.** -/
structure NameText where
  /-- The number of the language. -/
  language : UInt16
  /-- What the text names. -/
  nameId : Nat
  /-- The text. -/
  text : String
deriving DecidableEq

namespace NameText

/-- By language, and for one language by what is named. -/
def le (a b : NameText) : Bool :=
  a.language < b.language || (a.language == b.language && a.nameId ≤ b.nameId)

end NameText

/-- **A pool of texts**, each kept once. -/
structure TextPool where
  /-- The texts, one behind the other. -/
  storage : Bytes
  /-- The texts kept, and where each starts. -/
  places : List (Bytes × Nat)

namespace TextPool

/-- The pool without texts. -/
def empty : TextPool := ⟨[], []⟩

/-- **Where a text starts in the pool**, and the pool with it kept. -/
def keep (p : TextPool) (b : Bytes) : Nat × TextPool :=
  match p.places.lookup b with
  | some start => (start, p)
  | none =>
    (p.storage.length, ⟨p.storage ++ b, (b, p.storage.length) :: p.places⟩)

/-- Where each of several texts starts, and the pool with all of them. -/
def keepAll (p : TextPool) : List Bytes → List Nat × TextPool
  | [] => ([], p)
  | b :: bs =>
    let (start, p) := p.keep b
    let (starts, p) := p.keepAll bs
    (start :: starts, p)

end TextPool

namespace SyntheticFont

/-- The texts of a synthetic font, as they come. -/
def texts (f : SyntheticFont) : List NameText :=
  let own : List NameText :=
    [⟨Language.fallbackId, NameId.family, f.family⟩,
     ⟨Language.fallbackId, NameId.subfamily, f.style⟩,
     ⟨Language.fallbackId, NameId.postscript, f.postscriptName⟩]
  let composed : List NameText :=
    if f.fullNames.any (·.1 == Language.fallbackId) then []
    else [⟨Language.fallbackId, NameId.full, f.fullName⟩]
  own ++ composed ++ f.fullNames.map fun (language, name) => ⟨language, NameId.full, name⟩

/-- **The texts in the order of the records.** -/
def sortedTexts (f : SyntheticFont) : List NameText := f.texts.mergeSort NameText.le

/-- The twelve bytes of the record of a text of `length` bytes that starts
at `start` in the storage. -/
def nameRecord (t : NameText) (length start : Nat) : Bytes :=
  Bytes.be16 3 ++ Bytes.be16 1 ++ Bytes.be16 t.language.toNat ++ Bytes.be16 t.nameId
    ++ Bytes.be16 length ++ Bytes.be16 start

/-- **The bytes of the `name` table**, if every length and every position in
it can be written. -/
def nameTable (f : SyntheticFont) : Except BuildError Bytes :=
  let texts := f.sortedTexts
  let encoded := texts.map fun t => Text.Utf16.encode t.text
  let (starts, pool) := TextPool.empty.keepAll encoded
  let storageStart := 6 + 12 * texts.length
  if encoded.any (0x10000 ≤ ·.length) then .error .overflow
  else if storageStart < 0x10000 ∧ starts.all (· < 0x10000) then
    .ok <| Bytes.be16 0 ++ Bytes.be16 texts.length ++ Bytes.be16 storageStart
      ++ (texts.zip (encoded.zip starts)).flatMap (fun (t, b, start) =>
            nameRecord t b.length start)
      ++ pool.storage
  else .error .namesTooLong

end SyntheticFont

end FontCatalog
