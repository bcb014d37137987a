import PrefixMatching.Bytes

/-!
# Paths

Paths are byte strings whose names are separated by slashes.
-/

namespace PrefixMatching
namespace Bench

/-- Whether a path starts at the root. -/
def startsAtRoot (path : Bytes) : Bool := path.head? = some (byte '/')

/-- A path below a folder. A path that starts at the root stands for itself. -/
def joinPath (folder path : Bytes) : Bytes :=
  if startsAtRoot path || folder.isEmpty then path
  else if folder.getLast? = some (byte '/') then folder ++ path
  else folder ++ ascii "/" ++ path

/-- The names of a path. Between two slashes and after a last slash there is an empty name. -/
def pathNames (path : Bytes) : List Bytes := path.splitOn (byte '/')

end Bench
end PrefixMatching
