import FontCatalog.Bundle.Package
import FontCatalog.Synthetic.Build

/-!
# The fonts of the application

The application brings one font with it and can take on more, from files
that the user names. All of them are kept in one package, and handed out
as sources that the package owns.
-/

namespace FontCatalog.ApplicationFonts

/-- The font that the application brings with it. -/
def bundledFont : SyntheticFont :=
  (SyntheticFont.ofNames "Fontsets Sans" "Regular").adjust [.xHeight 486, .capHeight 712]

/-- **The package of the bundled font alone.** -/
def bundled : Except BuildError FontPackage :=
  bundledFont.build.map fun data => FontPackage.empty.push bundledFont.fullName data

/-- **The fonts of a package**, owned by it. -/
def fontSources (package : FontPackage) : Except FontError (List FontSource) :=
  package.sources package.bytes

end FontCatalog.ApplicationFonts
