import TypedJson.Files.Access
import TypedJson.Files.Wildcard

/-!
# Searching for files

A pattern for paths is a pattern for each name on the way. The search enters the directories that
the first patterns accept and goes on with the others there; names are visited in order, and a
directory before what it holds. A path has at most `Search.longest` bytes, and each step of a search
makes the path longer.
-/

namespace TypedJson.Search

open Wildcard (Pattern PatternError)

/-- The length to which paths grow. -/
def longest : Nat := 4096

/-- The names on a path. A slash at the end adds no name. -/
def names (path : List Char) : List (List Char) :=
  let parts := path.splitOn '/'
  if parts.getLast? = some [] then parts.dropLast else parts

variable {m : Type → Type} [Monad m] (files : FileAccess m)

/-- The paths below a path that patterns accept, with at most `fuel` names in between. If
`onlyDirectories` is set, files are left out. -/
def below (onlyDirectories : Bool) : (fuel : Nat) → List Pattern → (path : String) →
    m (List String)
  | 0, _, _ | _, [], _ => return []
  | fuel + 1, pattern :: rest, path => do
    /- What follows a place that a pattern accepts. -/
    let enter (rest : List Pattern) (place : String) : m (List String) := do
      if !rest.isEmpty then below onlyDirectories fuel rest place
      else if onlyDirectories then
        return if ← files.isDirectory place then [place] else []
      else return [place]
    let accept (patterns : List Pattern) (name place : String) : m (List String) :=
      match patterns with
      | [] => return []
      | p :: rest => if Wildcard.accepts p name.toList then enter rest place else return []
    match Wildcard.literal? pattern with
    | some chars =>
      let name := String.ofList chars
      let place := FileAccess.join path name
      let isThere ←
        if name = "." || name = ".." then files.isDirectory path
        else pure (← files.kind? place).isSome
      if isThere then enter rest place else return []
    | none =>
      if !(← files.isDirectory path) then return []
      let visit (name : String) : m (List String) := do
        let place := FileAccess.join path name
        if !Wildcard.isRecursive pattern then accept (pattern :: rest) name place
        else
          let rest := rest.dropWhile Wildcard.isRecursive
          let here ← accept rest name place
          if ← files.isDirectory place then
            let inside ← below onlyDirectories fuel (pattern :: rest) place
            return (if rest.isEmpty then [place] else here) ++ inside
          else return here
      let hidden (name : String) : m (List String) :=
        match pattern with
        | .char '.' :: _ => accept (pattern :: rest) name (path ++ "/" ++ name)
        | _ => return []
      let children := (← files.names path).mergeSort fun a b ↦ !decide (b < a)
      return (← [".", ".."].reverse.mapM hidden).flatten ++ (← children.mapM visit).flatten

/-- The paths that a pattern accepts. -/
def paths (text : String) : Except PatternError (m (List String)) := do
  let _ ← Wildcard.ofText text.toList
  let relative := text.toList.dropWhile (· == '/')
  let patterns ← (names relative).mapM Wildcard.ofText
  let start := if text.startsWith "/" then "/" else "."
  return below files (text.endsWith "/") longest patterns start

end TypedJson.Search
