import FontCatalog.CommandLine.Run

/-!
# The program

A command is run on a file tree, and the program makes that tree out of
what is on disk. It looks only at what the options name: first at the
names in the directory of font files, which decide on the paths, and then
at the data behind these paths.

A directory whose name reads as a pattern may stand for others beside it,
so in that case the names below its plain part are all looked at, as many
levels down as the pattern has components.
-/

namespace FontCatalog.CommandLine

/-- How deep a pattern for any number of directories looks. -/
def recursiveDepth : Nat := 32

/-- The path from the root that a way stands for. -/
def absolutePath (way : List String) : String := "/" ++ String.intercalate "/" way

/-- The way that pieces of a path lead, from another one. -/
def follow (way : List String) (pieces : List String) : List String :=
  pieces.foldl
    (fun way piece =>
      if piece = "" ∨ piece = "." then way
      else if piece = ".." then way.dropLast
      else way ++ [piece])
    way

/-- Where a path starts. -/
def startingWay (working : List String) (path : String) : List String :=
  if Path.isAbsolute path then [] else working

/-- Whether a piece of a path is read as a pattern. -/
def isPatternPiece (piece : String) : Bool :=
  piece.toList.any fun c => c = '*' || c = '?' || c = '['

/-- The tree with the node at the end of a way as it is on disk. A
directory is entered without its entries. -/
def observe (root : FileNode) (way : List String) : IO FileNode := do
  let place := (← IO.currentDir) / absolutePath way
  if ← place.isDir then
    return root.makeDirectory way
  else if ← place.pathExists then
    return root.write way (← IO.FS.readBinFile place).data.toList
  else
    return root

/-- The tree with everything that a path passes as it is on disk. -/
def observePath (working : List String) (root : FileNode) (path : String) : IO FileNode := do
  let start := startingWay working path
  let pieces := Path.pieces path
  let mut root := root
  for count in [1:pieces.length + 1] do
    root ← observe root (follow start (pieces.take count))
  return root

/-- The tree with the names of entries below a directory, down to a given
depth. The data of files is left out. -/
def observeNames (root : FileNode) (way : List String) : (depth : Nat) → IO FileNode
  | 0 => return root
  | depth + 1 => do
    let place := (← IO.currentDir) / absolutePath way
    if !(← place.isDir) then return root
    let mut root := root
    for entry in ← place.readDir do
      let below := way ++ [entry.fileName]
      if ← entry.path.isDir then
        root ← observeNames (root.makeDirectory below) below depth
      else
        root := root.write below []
    return root

/-- The tree with the names that decide what a directory of font files
has. -/
def observeDirectory (working : List String) (root : FileNode) (directory : String) :
    IO FileNode := do
  let start := startingWay working directory
  let pieces := Path.pieces directory
  let plain := follow start (pieces.takeWhile fun piece => !isPatternPiece piece)
  let rest := pieces.dropWhile fun piece => !isPatternPiece piece
  let depth := if "**" ∈ rest then recursiveDepth else rest.length + 1
  let top := plain.take (plain.length - rest.count "..")
  observeNames (← observePath working root directory) top (depth + (plain.length - top.length))

/-- **The part of the disk that a command looks at.** -/
def observeTree (o : Options) : IO FileTree := do
  let working := follow [] (Path.pieces (← IO.currentDir).toString)
  let root := FileNode.emptyDirectory.makeDirectory working
  let root ← match o.fontDirectory with
    | none => pure root
    | some directory => observeDirectory working root directory
  match fontPaths ⟨root, working⟩ o with
  | .error _ => return ⟨root, working⟩
  | .ok paths => return ⟨← paths.foldlM (observePath working) root, working⟩

end FontCatalog.CommandLine

open FontCatalog CommandLine in
/-- **The program**: reads the options, runs the command and returns its
exit code. -/
def main (arguments : List String) : IO UInt32 := do
  match Options.read arguments with
  | .error .displayHelp =>
    IO.print help
    return 0
  | .error error =>
    IO.eprintln error.message
    return UInt32.ofNat error.exitCode
  | .ok options =>
    let outcome := run (← observeTree options) options
    IO.print outcome.output
    match outcome.error with
    | none => pure ()
    | some error => IO.eprintln error.report
    return UInt32.ofNat outcome.exitCode
