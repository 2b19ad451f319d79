import FontCatalog.Bundle.Package
import FontCatalog.Synthetic.Build

/-!
# Documents that carry their fonts

A document is a text and the fonts embedded with it, in one package: the
UTF-8 bytes of the text come first, and the fonts behind them. The fonts
are sources that the document owns.
-/

namespace FontCatalog

/-- **A text and its fonts.** -/
structure Document where
  /-- Text and fonts, one behind the other. -/
  package : FontPackage
  /-- How many bytes the text has. -/
  textLength : Nat
deriving DecidableEq

namespace Document

/-- The UTF-8 bytes of a text. -/
def utf8 (text : String) : Bytes := text.toUTF8.data.toList

/-- **The document of a text and named fonts.** -/
def ofText (text : String) (fonts : List (String × Bytes)) : Document :=
  ⟨(FontPackage.empty.pushRaw (utf8 text)).pushAll fonts, (utf8 text).length⟩

/-- **The text of a document.** -/
def text (d : Document) : String :=
  (String.fromUTF8? ⟨(d.package.bytes.take d.textLength).toArray⟩).getD ""

/-- How many fonts are embedded. -/
def fontCount (d : Document) : Nat := d.package.parts.length

/-- **The embedded fonts**, owned by the document. -/
def fontSources (d : Document) : Except FontError (List FontSource) :=
  d.package.sources d.package.bytes

/-- The text of the sample document. -/
def sampleText : String := "The quick brown fox jumps over the lazy dog."

/-- The font of the sample document. -/
def sampleFont : SyntheticFont :=
  (SyntheticFont.ofNames "Fontsets Serif" "Italic").adjust [.xHeight 528, .capHeight 690]

/-- **A short document with one embedded font.** -/
def sample : Except BuildError Document :=
  sampleFont.build.map fun data => ofText sampleText [(sampleFont.fullName, data)]

end Document

end FontCatalog
