import FontCatalog.FontSource

/-!
# Fonts packed into one buffer

A package is one buffer that fonts and anything else are appended to. It
remembers where each font lies, and every font starts at a multiple of
four, with zeros filled in before it where that is needed; nothing that
was appended is moved or changed later.

The fonts come out again as sources (`FontPackage.sources`), of which some
other object that lends the same bytes may be the owner.
-/

namespace FontCatalog

/-- **A font in a package**: its name, and where it lies. -/
structure FontPart where
  /-- The name of the font. -/
  name : String
  /-- Where it starts. -/
  start : Nat
  /-- Where it stops, not counting this position. -/
  stop : Nat
deriving DecidableEq

/-- **A buffer of fonts and other things.** -/
structure FontPackage where
  /-- The buffer. -/
  bytes : Bytes
  /-- The fonts in it, in the order in which they came. -/
  parts : List FontPart
deriving DecidableEq

namespace FontPackage

/-- The empty package. -/
def empty : FontPackage := ⟨[], []⟩

/-- The package with something appended that is not a font. -/
def pushRaw (b : FontPackage) (data : Bytes) : FontPackage := { b with bytes := b.bytes ++ data }

/-- **The package with a font appended**, at the next multiple of four. -/
def push (b : FontPackage) (name : String) (data : Bytes) : FontPackage :=
  let start := b.bytes.padded.length
  ⟨b.bytes.padded ++ data, b.parts ++ [⟨name, start, start + data.length⟩]⟩

/-- The package with several fonts appended. -/
def pushAll (b : FontPackage) (fonts : List (String × Bytes)) : FontPackage :=
  fonts.foldl (fun b (name, data) => b.push name data) b

/-- **The fonts as sources** of an owner that lends the bytes of the
package.
The first font that is out of the owner's bounds fails them all. -/
def sources (b : FontPackage) (owner : Bytes) : Except FontError (List FontSource) :=
  b.parts.mapM fun part => FontSource.ofRange part.name owner part.start part.stop

/-! ## What stays where it is

Appending never changes what is there, so whatever a range selects it
selects for good. -/

@[simp] theorem bytes_push (b : FontPackage) (name : String) (data : Bytes) :
    (b.push name data).bytes = b.bytes.padded ++ data := rfl

theorem bytes_prefix_pushRaw (b : FontPackage) (data : Bytes) :
    b.bytes <+: (b.pushRaw data).bytes := List.prefix_append _ _

/-- Padding and font come behind what is there. -/
theorem bytes_prefix_push (b : FontPackage) (name : String) (data : Bytes) :
    b.bytes <+: (b.push name data).bytes := by
  rw [bytes_push, Bytes.padded, List.append_assoc]
  exact List.prefix_append _ _

/-- Several fonts come behind what is there, too. -/
theorem bytes_prefix_pushAll (b : FontPackage) (fonts : List (String × Bytes)) :
    b.bytes <+: (b.pushAll fonts).bytes := by
  induction fonts generalizing b with
  | nil => exact List.prefix_rfl
  | cons font fonts ih =>
    exact (b.bytes_prefix_push font.1 font.2).trans (ih (b.push font.1 font.2))

/-- **The range of a font selects the font**, right after it came. -/
theorem slice?_push (b : FontPackage) (name : String) (data : Bytes) :
    (b.push name data).bytes.slice? b.bytes.padded.length data.length = some data := by
  have h := Bytes.slice?_append b.bytes.padded data []
  rwa [List.append_nil] at h

end FontPackage

end FontCatalog
