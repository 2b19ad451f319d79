/-!
# Paths

A path is a text in which slashes separate names. Two views of it matter.
Following a path looks at every piece between slashes, the empty ones
included, since an empty piece at the end demands a directory
(`Path.pieces`). Comparing paths looks at their components, which leave
out what does not change the way: empty pieces, and a dot anywhere but at
the start (`Path.components`).
-/

namespace FontCatalog.Path

/-- The pieces of a text between slashes, of which there is at least one. -/
def pieceChars : List Char → List (List Char)
  | [] => [[]]
  | c :: cs =>
    if c = '/' then [] :: pieceChars cs
    else match pieceChars cs with
      | [] => [[c]]
      | p :: ps => (c :: p) :: ps

/-- **The pieces of a path** between slashes. -/
def pieces (path : String) : List String := (pieceChars path.toList).map String.ofList

/-- Whether a path starts at the root. -/
def isAbsolute (path : String) : Bool := path.toList.head? == some '/'

/-- Whether a path ends with a slash. -/
def endsWithSlash (path : String) : Bool := path.toList.getLast? == some '/'

/-- **A path followed by another**: a path from the root replaces the first
one, any other goes on from it. -/
def join (path next : String) : String :=
  if isAbsolute next then next
  else if path.isEmpty || endsWithSlash path then path ++ next
  else path ++ "/" ++ next

/-- **A step of a path.** -/
inductive Component where
  /-- Start at the root. -/
  | root
  /-- Stay; only at the start. -/
  | here
  /-- Go to the directory above. -/
  | up
  /-- Go to the entry of that name. -/
  | down (name : String)
deriving DecidableEq

/-- The steps of the pieces behind the first one. -/
def innerComponent? (piece : String) : Option Component :=
  if piece = "" ∨ piece = "." then none
  else if piece = ".." then some .up
  else some (.down piece)

/-- **The steps of a path.** -/
def components (path : String) : List Component :=
  if isAbsolute path then .root :: (pieces path).filterMap innerComponent?
  else match pieces path with
    | [] => []
    | first :: rest =>
      (if first = "." then [.here] else (innerComponent? first).toList)
        ++ rest.filterMap innerComponent?

/-- The name that a path ends in, if it ends in one. -/
def fileName? (path : String) : Option String :=
  match (components path).getLast? with
  | some (.down name) => some name
  | _ => none

namespace Component

/-- The order of the kinds of steps. -/
def rank : Component → Nat
  | root => 0
  | here => 1
  | up => 2
  | down _ => 3

/-- Steps are ordered by kind, and by name where both go down. -/
def lt (a b : Component) : Bool :=
  match a, b with
  | down m, down n => m < n
  | _, _ => a.rank < b.rank

end Component

/-- Step by step, with the shorter way first. -/
def componentsLe : List Component → List Component → Bool
  | [], _ => true
  | _ :: _, [] => false
  | a :: as, b :: bs => a.lt b || (a == b && componentsLe as bs)

/-- **The order of paths**: by their steps. -/
def le (p q : String) : Bool := componentsLe (components p) (components q)

end FontCatalog.Path
