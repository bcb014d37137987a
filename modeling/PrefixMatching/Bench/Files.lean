import PrefixMatching.Bench.Path

/-!
# Files below the working folder

A file is found by walking the names of its path, one after the other, from the working folder.
Every name but the last one has to lead to a folder, also where the next name leads back out of it.
A path that leads to a folder opens like that of a file, but there is nothing to read.
-/

namespace PrefixMatching
namespace Bench

/-- A failure to read from a path that could be opened. -/
structure ReadFailure where
  path : Bytes
deriving DecidableEq, Repr

/-- The names on the way from the working folder to a file or a folder. -/
abbrev Location := List Bytes

/-- Files with their locations and contents, and the folder that they are in. -/
structure Files where
  folder : Location
  entries : List (Location × Bytes)
deriving DecidableEq, Repr

/-- Where a path leads: to a location, or to a folder that is not below the working folder. -/
inductive Place where
  | location (names : Location)
  | outside
deriving DecidableEq, Repr

namespace Files

/-- The files of one folder. -/
def inFolder (folder : Bytes) (contents : List (Bytes × Bytes)) : Files where
  folder := pathNames folder
  entries := contents.map fun (file, content) => (pathNames (joinPath folder file), content)

/-- Whether a location is that of a folder: the folder of the files, one around it, or one with a
file below it. -/
def isFolder (files : Files) (location : Location) : Bool :=
  location.isPrefixOf files.folder ||
    files.entries.any fun (file, _) => location.isPrefixOf file && location ≠ file

/-- Where a name leads. An empty name and a dot stay in a folder, two dots lead to the folder around
it. Outside of the working folder no other names are known. -/
def walk? (files : Files) : Place → Bytes → Option Place
  | .outside, name =>
    if name.isEmpty || name = ascii "." || name = ascii ".." then some .outside else none
  | .location names, name =>
    if !files.isFolder names then none
    else if name.isEmpty || name = ascii "." then some (.location names)
    else if name = ascii ".." then
      if names.isEmpty then some .outside else some (.location names.dropLast)
    else some (.location (names ++ [name]))

/-- Where a path leads, if it leads to a place at all. -/
def locate? (files : Files) (path : Bytes) : Option Place :=
  (pathNames path).foldlM files.walk? (if startsAtRoot path then .outside else .location [])

/-- The length of the longest path that can be opened. -/
def longestPath : Nat := 4095

/-- What comes of opening a path and reading from it: the content of a file, nothing where nothing
can be opened, and a failure at a folder. The path ends before its first zero byte. -/
def read (files : Files) (path : Bytes) : Except ReadFailure (Option Bytes) :=
  let opened := beforeZero path
  if opened.isEmpty || longestPath < opened.length then .ok none
  else
    match files.locate? opened with
    | none => .ok none
    | some .outside => .error ⟨path⟩
    | some (.location names) =>
      match files.entries.lookup names with
      | some content => .ok (some content)
      | none => if files.isFolder names then .error ⟨path⟩ else .ok none

end Files
end Bench
end PrefixMatching
