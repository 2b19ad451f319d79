import FontCatalog.Glob.Search

/-!
# Font files of a directory

The font files of a directory are found by pattern, one pattern for each
usual ending, and listed in the order of their paths. The path of the
directory is part of the pattern that is searched for.
-/

namespace FontCatalog.Glob

/-- The patterns of names that font files usually have. -/
def fontPatterns : List String := ["*.ttf", "*.otf", "*.ttc", "*.otc"]

/-- **A search that failed**: the pattern, and what is wrong with it. -/
structure SearchError where
  /-- The pattern for paths. -/
  pattern : String
  /-- What is wrong with it. -/
  cause : PatternError
deriving DecidableEq

namespace SearchError

/-- What is said of the error, without its cause. -/
def message (e : SearchError) : String := "Failed to glob pattern: " ++ e.pattern

end SearchError

/-- **The paths in a directory that a pattern stands for.** -/
def filesMatching (t : FileTree) (directory pattern : String) :
    Except SearchError (List String) :=
  let whole := Path.join directory pattern
  (search t whole).mapError fun cause => ⟨whole, cause⟩

/-- **The font files of a directory**, in the order of their paths. -/
def fontFiles (t : FileTree) (directory : String) : Except SearchError (List String) := do
  let found ← fontPatterns.mapM (filesMatching t directory)
  return found.flatten.mergeSort Path.le

end FontCatalog.Glob
