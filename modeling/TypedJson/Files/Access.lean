/-!
# Access to files

Whoever works with files is given what can be done with them, so the same program runs on a disk and
on a `FileTree`.
-/

namespace TypedJson

/-- What a path can lead to. -/
inductive FileKind where
  | file
  | directory
  deriving DecidableEq

/-- What can be done with files. -/
structure FileAccess (m : Type → Type) where
  /-- What is found at a path. -/
  kind? : String → m (Option FileKind)
  /-- The names in a directory, in any order. -/
  names : String → m (List String)
  /-- The bytes of a file. -/
  read? : String → m (Option (List UInt8))
  /-- Writes a file, with the directories on the way to it. The answer is why that failed. -/
  write : String → List UInt8 → m (Option String)
  /-- Removes a file, if it is there. -/
  remove : String → m Unit

namespace FileAccess

/-- The path of a name in a directory. What is in the working directory goes by its name. -/
def join (directory name : String) : String :=
  if directory = "." then name
  else if directory.endsWith "/" then directory ++ name
  else directory ++ "/" ++ name

/-- Whether a path leads to a directory. -/
def isDirectory {m : Type → Type} [Monad m] (files : FileAccess m) (path : String) : m Bool :=
  return (← files.kind? path) = some .directory

end FileAccess

end TypedJson
