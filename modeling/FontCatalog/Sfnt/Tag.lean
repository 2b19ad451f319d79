/-!
# Tags

Tables, axes and metrics are named by four characters of ASCII, read as
one 32-bit number. `Tag.named "glyf"` is the tag with that spelling.
-/

namespace FontCatalog

/-- **A four-character name**, as the 32-bit number its bytes form. -/
structure Tag where
  /-- The number, most significant character first. -/
  code : UInt32
deriving DecidableEq, Inhabited

namespace Tag

/-- The tag spelled by the characters of `s`. -/
def named (s : String) : Tag :=
  ⟨UInt32.ofNat (s.toList.foldl (fun n c => n * 256 + c.toNat) 0)⟩

/-- The tag that a number read from a font stands for. -/
def ofNat (n : Nat) : Tag := ⟨UInt32.ofNat n⟩

/-- Tags are ordered as their bytes are. -/
def le (a b : Tag) : Bool := decide (a.code ≤ b.code)

end Tag

end FontCatalog
