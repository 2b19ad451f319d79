/-!
# White space

White space here is the Unicode property of that name: 25 characters, of
which six are ASCII. Trimming takes it off both ends of a text and
touches nothing between.
-/

namespace FontCatalog.Text

/-- **White space**, as the Unicode property has it. -/
def isBlank (c : Char) : Bool :=
  let n := c.toNat
  (0x9 ≤ n && n ≤ 0xD) || n == 0x20 || n == 0x85 || n == 0xA0 || n == 0x1680
    || (0x2000 ≤ n && n ≤ 0x200A) || n == 0x2028 || n == 0x2029 || n == 0x202F
    || n == 0x205F || n == 0x3000

/-- The characters left when white space is taken off both ends. -/
def trimChars (cs : List Char) : List Char :=
  ((cs.dropWhile isBlank).reverse.dropWhile isBlank).reverse

/-- The text left when white space is taken off both ends. -/
def trim (s : String) : String := String.ofList (trimChars s.toList)

end FontCatalog.Text
