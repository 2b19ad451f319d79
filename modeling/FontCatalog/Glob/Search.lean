import FontCatalog.FileTree.Basic
import FontCatalog.Glob.Pattern

/-!
# Searching a file tree by patterns

A search takes one pattern per component of a path and goes down the tree
from the working directory. A pattern of mere characters is followed like
a piece of a path; any other is tried on the entries of the directory, in
the order of their names. So the directory part of a path is a pattern
too: a directory whose name has brackets in it does not find itself.

The results are paths, in the order in which the search comes upon them:
what lies below an entry comes right behind the entry itself. A path is
put together from what was followed, so it keeps repeated names such as
`a/../a`; only a leading dot is dropped, by starting anew from the working
directory.
-/

namespace FontCatalog.Glob

open FontCatalog

/-- Whether a path does not leave the working directory. -/
def staysHere (path : String) : Bool := Path.components path == [.here]

/-- A path with a name behind it; from the working directory the name
alone. -/
def extend (path name : String) : String :=
  if staysHere path then name else Path.join path name

/-- The entries of a directory in the order of their names. -/
def sortedEntries (node : FileNode) : List (String × FileNode) :=
  node.entries.mergeSort fun a b => decide (a.1 ≤ b.1)

/-- An entry is smaller than its directory. -/
theorem sizeOf_lt_of_mem_sortedEntries {node child : FileNode} {name : String}
    (h : (name, child) ∈ sortedEntries node) : sizeOf child < sizeOf node := by
  have hmem : (name, child) ∈ node.entries := (List.mergeSort_perm _ _).mem_iff.mp h
  cases node with
  | file data => simp [FileNode.entries] at hmem
  | directory entries =>
    have hlt : sizeOf (name, child) < sizeOf entries := List.sizeOf_lt_of_mem hmem
    simp only [FileNode.directory.sizeOf_spec, Prod.mk.sizeOf_spec] at hlt ⊢
    omega

/-- The special names that a pattern starting with a dot stands for, the
one that is searched first in front. -/
def specialNames (p : Pattern) : List String :=
  if p.head? = some (.char '.') then ["..", "."].filter fun name => p.accepts name.toList
  else []

/-- Patterns with every run of patterns for any number of directories
drawn together to one, which stands for as much. -/
def drawTogether : List Pattern → List Pattern
  | p :: q :: ps =>
    if p.isRecursive && q.isRecursive then drawTogether (q :: ps)
    else p :: drawTogether (q :: ps)
  | ps => ps

/-! ## The search

The three functions follow the three situations of a search: patterns are
to be tried *within* a node; a node was *found* for all patterns so far;
and an *entry* of a directory came up, on which the first pattern has not
been tried. -/

mutual

/-- The results of trying `ps` within a node. `directories` says whether
only directories are wanted. -/
def within (directories : Bool) (ps : List Pattern) (path : String) (node : FileNode)
    (above : List FileNode) : List String :=
  match ps with
  | [] => []
  | p :: ps =>
    match p.literal? with
    | some name =>
      let next := extend path name
      match node.step above name with
      | .ok (child, above) =>
        if next.isEmpty then [] else found directories ps next child above
      | .error _ => []
    | none =>
      ((specialNames p).flatMap fun name =>
        match node.step above name with
        | .ok (child, above) => found directories ps (Path.join path name) child above
        | .error _ => [])
      ++ (sortedEntries node).attach.flatMap fun ⟨(name, child), hmem⟩ =>
        have := sizeOf_lt_of_mem_sortedEntries hmem
        entry directories (p :: ps) (extend path name) name child (node :: above)
termination_by (ps.length, sizeOf node, 0)

/-- The results at a node that was found, with the patterns `ps` left. -/
def found (directories : Bool) (ps : List Pattern) (path : String) (node : FileNode)
    (above : List FileNode) : List String :=
  match ps with
  | [] => if directories && !node.isDirectory then [] else [path]
  | p :: ps => within directories (p :: ps) path node above
termination_by (ps.length, sizeOf node, 1)

/-- The results at an entry called `name`, with the patterns `ps` to be
tried. A pattern for any number of directories stands for none, so the
next pattern is tried on the entry itself, and for one more, so the search
goes on below. -/
def entry (directories : Bool) (ps : List Pattern) (path name : String) (node : FileNode)
    (above : List FileNode) : List String :=
  match ps with
  | [] => []
  | p :: ps =>
    if p.isRecursive then
      match ps with
      | [] =>
        if node.isDirectory then path :: within directories [p] path node above else []
      | q :: qs =>
        (if q.accepts name.toList then found directories qs path node above else [])
          ++ (if node.isDirectory then within directories (p :: q :: qs) path node above else [])
    else if p.accepts name.toList then found directories ps path node above
    else []
termination_by (ps.length, sizeOf node, 1)

end

/-- The texts of the component patterns of a pattern for paths. A slash at
the end has nothing behind it. -/
def componentTexts (pattern : String) : List String :=
  let behindRoot := pattern.toList.dropWhile (· = '/')
  if behindRoot.isEmpty then [""]
  else
    let pieces := Path.pieces (String.ofList behindRoot)
    if pieces.getLast? = some "" then pieces.dropLast else pieces

/-- **The paths of a tree that a pattern stands for**, in the order of the
search. The text as a whole has to be a pattern, and each component has
to be one of its own. -/
def search (t : FileTree) (pattern : String) : Except PatternError (List String) := do
  let _ ← Pattern.read pattern
  let ps ← (componentTexts pattern).mapM Pattern.read
  let start := if Path.isAbsolute pattern then "/" else "."
  let (node, above) := t.startOf pattern
  return within (Path.endsWithSlash pattern) (drawTogether ps) start node above

end FontCatalog.Glob
