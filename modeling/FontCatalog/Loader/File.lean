import FontCatalog.FontSource

/-!
# Font files

A loader turns keys into font data. What is handed round of it is a file:
which loader, which key, and a name to speak of it by. A file does not
hold the data and does not say whether the data is there; that is asked of
the loader, and may change from one question to the next.
-/

namespace FontCatalog

/-- **Which of its files a loader is asked for.** -/
structure FileKey where
  /-- The number of the file. -/
  index : UInt32
deriving DecidableEq, Inhabited

/-- **Which loader is meant.** Loaders are told apart by identity and not
by what they hold. -/
inductive LoaderId where
  /-- The loader that a catalogue makes for font data in memory. -/
  | memory
  /-- A loader from elsewhere. -/
  | outside (index : Nat)
deriving DecidableEq, Inhabited

/-- **Whether font data is there.** -/
inductive Locality where
  /-- All of it is there. -/
  | present
  /-- Some of it is there. -/
  | incomplete
  /-- None of it is there. -/
  | remote
deriving DecidableEq, Inhabited

/-- **A file of a loader.** -/
structure FontFile where
  /-- The loader. -/
  loader : LoaderId
  /-- The key the loader knows the file by. -/
  key : FileKey
  /-- The name of the file. -/
  name : String
deriving DecidableEq, Inhabited

namespace FontFile

/-- A file in one line. -/
def describe (f : FontFile) : String :=
  "FontFile \x7b key: FileKey(" ++ toString f.key.index.toNat ++ "), name: "
    ++ Text.quoted f.name ++ ", .. \x7d"

end FontFile

end FontCatalog
