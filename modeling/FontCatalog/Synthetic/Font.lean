import FontCatalog.Language

/-!
# Synthetic fonts

A synthetic font is a small but complete font made to order: names and
vertical metrics are chosen, and the rest is as simple as a font can be –
two glyphs, an empty one and a box for the letter x. `SyntheticFont` is
the order. It starts from a family and a style (`SyntheticFont.ofNames`)
and is changed by settings, one after the other (`SyntheticFont.adjust`).

The full name is the family and the style unless a setting gives one for
the fallback language. Full names in other languages can be added; for
each language the last one given counts, in the place of the first.
-/

namespace FontCatalog

/-- **An order for a font.** -/
structure SyntheticFont where
  /-- The family. -/
  family : String
  /-- The style within the family. -/
  style : String
  /-- Full names by language number, in the order in which the languages
  were first given. -/
  fullNames : List (UInt16 × String)
  /-- How many units the em has. -/
  unitsPerEm : UInt16
  /-- How far lines reach above the baseline. -/
  ascender : Int16
  /-- How far lines reach below it, negative downwards. -/
  descender : Int16
  /-- The height of capital letters; also of the box for x, where no
  height of lower-case letters is stated. -/
  capHeight : Int16
  /-- The height of lower-case letters, if the font is to state it. -/
  xHeight : Option Int16
deriving DecidableEq

/-- **A change to an order.** -/
inductive SyntheticSetting where
  /-- Sets the units per em. -/
  | unitsPerEm (n : UInt16)
  /-- Sets the ascender. -/
  | ascender (n : Int16)
  /-- Sets the descender. -/
  | descender (n : Int16)
  /-- Sets the height of capital letters. -/
  | capHeight (n : Int16)
  /-- States a height of lower-case letters. -/
  | xHeight (n : Int16)
  /-- States no heights, and draws the box for x up to the given one. -/
  | drawnXHeight (n : Int16)
  /-- Gives the full name in a language. -/
  | fullName (language : UInt16) (name : String)
deriving DecidableEq

namespace SyntheticFont

/-- The order for a family and a style, with the usual metrics. -/
def ofNames (family style : String) : SyntheticFont where
  family := family
  style := style
  fullNames := []
  unitsPerEm := 1000
  ascender := 800
  descender := -200
  capHeight := 700
  xHeight := some 500

/-- A list of names by language with the name of one language put in: in
its place if the language is there, else at the end. -/
def putName (language : UInt16) (name : String) :
    List (UInt16 × String) → List (UInt16 × String)
  | [] => [(language, name)]
  | (l, n) :: rest =>
    if l = language then (l, name) :: rest else (l, n) :: putName language name rest

/-- **An order with one setting changed.** -/
def set (f : SyntheticFont) : SyntheticSetting → SyntheticFont
  | .unitsPerEm n => { f with unitsPerEm := n }
  | .ascender n => { f with ascender := n }
  | .descender n => { f with descender := n }
  | .capHeight n => { f with capHeight := n }
  | .xHeight n => { f with xHeight := some n }
  -- The height of the box takes the place of the height of capitals.
  | .drawnXHeight n => { f with xHeight := none, capHeight := n }
  | .fullName language name => { f with fullNames := putName language name f.fullNames }

/-- An order with several settings changed, from the first to the last. -/
def adjust (f : SyntheticFont) (settings : List SyntheticSetting) : SyntheticFont :=
  settings.foldl set f

/-- **The full name in the fallback language.** -/
def fullName (f : SyntheticFont) : String :=
  (f.fullNames.lookup Language.fallbackId).getD (f.family ++ " " ++ f.style)

/-- A text without its spaces. -/
def withoutSpaces (s : String) : String := String.ofList (s.toList.filter (· ≠ ' '))

/-- The name in page descriptions: family and style without spaces, with a
hyphen between them. -/
def postscriptName (f : SyntheticFont) : String :=
  withoutSpaces f.family ++ "-" ++ withoutSpaces f.style

/-- How high the box for x is drawn. -/
def boxHeight (f : SyntheticFont) : Int16 := f.xHeight.getD f.capHeight

/-- A name that was put in is the one found for its language. -/
theorem lookup_putName_self (language : UInt16) (name : String)
    (names : List (UInt16 × String)) :
    (putName language name names).lookup language = some name := by
  induction names with
  | nil => simp [putName]
  | cons entry rest ih =>
    obtain ⟨l, n⟩ := entry
    unfold putName
    split
    · next h => simp [h]
    · next h =>
      have hne : (language == l) = false := by
        simpa using fun heq : language = l => h heq.symm
      rw [List.lookup_cons, hne]
      exact ih

/-- The names of other languages stay as they are. -/
theorem lookup_putName_of_ne {language other : UInt16} (hother : other ≠ language)
    (name : String) (names : List (UInt16 × String)) :
    (putName language name names).lookup other = names.lookup other := by
  induction names with
  | nil =>
    have : (other == language) = false := by simpa using hother
    simp [putName, List.lookup_cons, this]
  | cons entry rest ih =>
    obtain ⟨l, n⟩ := entry
    unfold putName
    split
    · next h =>
      have : (other == l) = false := by simpa [h] using hother
      rw [List.lookup_cons, List.lookup_cons, this]
    · rw [List.lookup_cons, List.lookup_cons]
      split
      · rfl
      · exact ih

end SyntheticFont

end FontCatalog
