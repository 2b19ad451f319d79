/-!
# Equality up to the case of ASCII letters

Language tags are written in either case, so tags are compared without
regard to it. Only the letters `A … Z` and `a … z` are folded; every other
character counts as it is.
-/

namespace FontCatalog.Text

/-- The lower-case form of an ASCII letter, and any other character itself. -/
def lowerAscii (c : Char) : Char :=
  if 'A' ≤ c ∧ c ≤ 'Z' then Char.ofNat (c.toNat + 32) else c

/-- A text with its ASCII letters in lower case. -/
def foldCase (s : String) : List Char := s.toList.map lowerAscii

/-- **Equality up to the case of ASCII letters.** -/
def sameIgnoringCase (s t : String) : Bool := foldCase s == foldCase t

/-- Two texts are the same up to case exactly when folding makes them
equal, so being the same is an equivalence. -/
theorem sameIgnoringCase_iff (s t : String) :
    sameIgnoringCase s t = true ↔ foldCase s = foldCase t := beq_iff_eq

end FontCatalog.Text
