import FontCatalog.Bytes
import FontCatalog.FileTree.Path

/-!
# File trees

What a command finds on disk is a tree: a file is its bytes and a
directory is a list of named nodes. A path is followed from the working
directory, or from the root if it starts there, one piece at a time, and
only a directory can be followed further. Above the root there is the
root.

Following a path gives the node it leads to together with the nodes above
that, so that going on with `..` is possible (`FileTree.find`).
-/

namespace FontCatalog

/-- **A node of a file tree.** -/
inductive FileNode where
  /-- A file with its bytes. -/
  | file (data : Bytes)
  /-- A directory with its entries. -/
  | directory (entries : List (String × FileNode))

/-- **Why a path cannot be read.** -/
inductive FileError where
  /-- There is nothing of that name. -/
  | missing
  /-- The path goes on behind a file. -/
  | notDirectory
  /-- The path leads to a directory and not to a file. -/
  | isDirectory
deriving DecidableEq

/-- **A file tree with a working directory**, given by the names that lead
to it from the root. -/
structure FileTree where
  /-- The root. -/
  root : FileNode
  /-- The way from the root to the working directory. -/
  working : List String

namespace FileError

/-- What is said of the error. -/
def message : FileError → String
  | missing => "No such file or directory (os error 2)"
  | notDirectory => "Not a directory (os error 20)"
  | isDirectory => "Is a directory (os error 21)"

end FileError

namespace FileNode

/-- The directory without entries. -/
def emptyDirectory : FileNode := directory []

/-- Whether a node is a directory. -/
def isDirectory : FileNode → Bool
  | file _ => false
  | directory _ => true

/-- The entries of a directory; a file has none. -/
def entries : FileNode → List (String × FileNode)
  | file _ => []
  | directory entries => entries

/-- Entries with the one of a given name changed; one that is missing is
put in as an empty directory first. -/
def changeEntry (name : String) (f : FileNode → FileNode) :
    List (String × FileNode) → List (String × FileNode)
  | [] => [(name, f emptyDirectory)]
  | (n, node) :: rest =>
    if n = name then (n, f node) :: rest else (n, node) :: changeEntry name f rest

/-- **The tree with the node at the end of a way changed.** Directories
that are missing on the way are made. -/
def change (f : FileNode → FileNode) : List String → FileNode → FileNode
  | [], node => f node
  | name :: names, node => directory (changeEntry name (change f names) node.entries)

/-- The tree with a file written. -/
def write (way : List String) (data : Bytes) (node : FileNode) : FileNode :=
  change (fun _ => file data) way node

/-- The tree with a directory made, unless it is there. -/
def makeDirectory (way : List String) (node : FileNode) : FileNode :=
  change (fun n => if n.isDirectory then n else emptyDirectory) way node

/-- **One step**: from a node and those above it to the node that a piece
of a path leads to. -/
def step (node : FileNode) (above : List FileNode) (piece : String) :
    Except FileError (FileNode × List FileNode) :=
  match node with
  | file _ => .error .notDirectory
  | directory entries =>
    if piece = "" ∨ piece = "." then .ok (node, above)
    else if piece = ".." then
      match above with
      | [] => .ok (node, [])
      | parent :: above => .ok (parent, above)
    else match entries.lookup piece with
      | some child => .ok (child, node :: above)
      | none => .error .missing

/-- **Following pieces of a path**, one step after the other. -/
def walk (node : FileNode) (above : List FileNode) :
    List String → Except FileError (FileNode × List FileNode)
  | [] => .ok (node, above)
  | piece :: rest =>
    match node.step above piece with
    | .error error => .error error
    | .ok (node, above) => walk node above rest

end FileNode

namespace FileTree

/-- The working directory and the nodes above it. -/
def workingNode (t : FileTree) : FileNode × List FileNode :=
  match t.root.walk [] t.working with
  | .ok place => place
  | .error _ => (t.root, [])

/-- Where a path starts. -/
def startOf (t : FileTree) (path : String) : FileNode × List FileNode :=
  if Path.isAbsolute path then (t.root, []) else t.workingNode

/-- **The node a path leads to**, and the nodes above it. The empty path
leads nowhere. -/
def find (t : FileTree) (path : String) : Except FileError (FileNode × List FileNode) :=
  if path.isEmpty then .error .missing
  else (t.startOf path).1.walk (t.startOf path).2 (Path.pieces path)

/-- Whether a path leads to a directory. -/
def isDirectory (t : FileTree) (path : String) : Bool :=
  match t.find path with
  | .ok (node, _) => node.isDirectory
  | .error _ => false

/-- **The bytes of the file a path leads to.** -/
def read (t : FileTree) (path : String) : Except FileError Bytes :=
  match t.find path with
  | .ok (.file data, _) => .ok data
  | .ok (.directory _, _) => .error .isDirectory
  | .error error => .error error

end FileTree

end FontCatalog
