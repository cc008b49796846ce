import TypedJson.Entries
import TypedJson.Files.Access

/-!
# Trees of files

A `FileTree` holds files by their places. A directory is there as long as something is in it, and
nothing is known outside the tree. `FileTree.access` is the access to a tree that is the state of a
program.
-/

namespace TypedJson

/-- Files by the names on the way to them, from the root of the tree. -/
abbrev FileTree : Type := Entries (List String) (List UInt8)

namespace FileTree

/-- Whether a place is a directory: the root, or a place on the way to a file. -/
def isDirectory (tree : FileTree) (place : List String) : Bool :=
  place.isEmpty || tree.any fun (p, _) ↦ place.isPrefixOf p && place.length < p.length

/-- What is found at a place. -/
def kindAt? (tree : FileTree) (place : List String) : Option FileKind :=
  if Entries.has tree place then some .file
  else if tree.isDirectory place then some .directory
  else none

/-- The place that steps lead to. Every step but the last leads to a directory. -/
def follow (tree : FileTree) (place : List String) : List String → Option (List String)
  | [] => some place
  | step :: steps =>
    if !tree.isDirectory place then none
    else if step = "" || step = "." then tree.follow place steps
    else if step = ".." then
      if place.isEmpty then none else tree.follow place.dropLast steps
    else tree.follow (place ++ [step]) steps

/-- The place of a path. -/
def locate? (tree : FileTree) (path : String) : Option (List String) :=
  if path.isEmpty || path.startsWith "/" then none else tree.follow [] (path.splitOn "/")

/-- The names in a directory. -/
def namesAt (tree : FileTree) (place : List String) : List String :=
  (tree.filterMap fun (p, _) ↦
    if place.isPrefixOf p then (p.drop place.length).head? else none).eraseDups

/-- The place of a path along which directories are made where there are none. -/
def target (path : String) : List String :=
  (path.splitOn "/").foldl (fun place step ↦
    if step = "" || step = "." then place
    else if step = ".." then place.dropLast
    else place ++ [step]) []

/-- The tree with a file, or why it cannot be written, in the words of the operating system. -/
def write (tree : FileTree) (path : String) (bytes : List UInt8) : Except String FileTree :=
  let place := target path
  let parent := place.dropLast
  if Entries.has tree parent then .error "File exists (os error 17)"
  else if (List.range parent.length).any fun n ↦ Entries.has tree (parent.take n) then
    .error "Not a directory (os error 20)"
  else if path.endsWith "/" || tree.isDirectory place then .error "Is a directory (os error 21)"
  else .ok (Entries.put tree place bytes)

/-- The access to the files of a tree. -/
def access : FileAccess (StateM FileTree) where
  kind? path := return (← get).locate? path >>= (← get).kindAt?
  names path := return (((← get).locate? path).map (← get).namesAt).getD []
  read? path := return (← get).locate? path >>= Entries.find? (← get)
  write path bytes := do
    match (← get).write path bytes with
    | .ok tree =>
      set tree
      return none
    | .error reason => return some reason
  remove path := do
    if let some place := (← get).locate? path then modify fun tree ↦ Entries.erase tree place

end FileTree

end TypedJson
