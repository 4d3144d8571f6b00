/-!
# Files by path

What can go wrong when a file is read, and a small tree of files in a working directory.  A directory
exists when a file lies below it.  A path is followed component by component as a file system does
it: `.` and empty components stay, `..` goes up, and nothing can be passed through but a directory.
-/

namespace Cadence

inductive FileError
  | notFound
  | notDirectory
  | isDirectory
  | notText
  /-- Anything else, by its description and number. -/
  | other (description : String) (code : Nat)
  deriving DecidableEq

namespace FileError

def message : FileError → String
  | notFound => "No such file or directory (os error 2)"
  | notDirectory => "Not a directory (os error 20)"
  | isDirectory => "Is a directory (os error 21)"
  | notText => "stream did not contain valid UTF-8"
  | other description code => description ++ " (os error " ++ toString code ++ ")"

def isAbsence : FileError → Bool
  | notFound | notDirectory | other .. => true
  | isDirectory | notText => false

end FileError

abbrev FileReader := String → Except FileError ByteArray

namespace FileReader

def holds (read : FileReader) (path : String) : Bool :=
  match read path with
  | .ok _ => true
  | .error e => !e.isAbsence

def text (read : FileReader) (path : String) : Except FileError String := do
  match String.fromUTF8? (← read path) with
  | some s => .ok s
  | none => .error .notText

end FileReader

abbrev FileTree := List (List String × ByteArray)

namespace FileTree

def ofPaths (files : List (String × ByteArray)) : FileTree :=
  files.map fun (path, bytes) => (path.splitOn "/", bytes)

def isDirectory (t : FileTree) (place : List String) : Bool :=
  place.all (· == "..") || place == ["/"] ||
    t.any fun (path, _) => place.isPrefixOf path && place.length < path.length

def parent (place : List String) : List String :=
  match place.getLast? with
  | none | some ".." => place ++ [".."]
  | some "/" => place
  | some _ => place.dropLast

def follow (t : FileTree) (place : List String) : List String → Except FileError (List String)
  | [] => .ok place
  | c :: cs =>
    if !t.isDirectory place then .error .notDirectory
    else if c = "" ∨ c = "." then t.follow place cs
    else if c = ".." then t.follow (parent place) cs
    else
      let next := place ++ [c]
      if t.isDirectory next || (t.lookup next).isSome then t.follow next cs
      else .error .notFound

def locate (t : FileTree) (path : String) : Except FileError (List String) :=
  match path.splitOn "/" with
  | [""] => .error .notFound
  | "" :: rest => t.follow ["/"] rest
  | components => t.follow [] components

def read (t : FileTree) : FileReader := fun path => do
  match t.lookup (← t.locate path) with
  | some bytes => .ok bytes
  | none => .error .isDirectory

end FileTree

end Cadence
