import WebviewProxy.Path.Basic

/-!
# Normal form of a path

The components of a path are replayed on a growing path: a name is appended, a
parent directory takes the last name off again, and the current directory does
nothing.  A parent directory has no effect at the root or where no name is
left, so the normal form never climbs above its start.  Only the text of the
path is looked at, never a file system.
-/

namespace WebviewProxy.Path

/-- The path without its last name and the slashes before it; the root stays.
Where a slash ends the path, only the slashes at the end go and no name does;
the paths that are built by a replay end in none but the root. -/
def dropLast (path : Path) : Path :=
  let kept := ((path.bytes.reverse.dropWhile (· != slash)).dropWhile
    (· == slash)).reverse
  if kept = [] ∧ path.isAbsolute then ⟨[slash]⟩ else ⟨kept⟩

def replay (path : Path) : Component → Path
  | .root => path.join ⟨[slash]⟩
  | .current => path
  | .parent => path.dropLast
  | .name bytes => path.join ⟨bytes⟩

def normalize (path : Path) : Path :=
  path.components.foldl replay ⟨[]⟩

end WebviewProxy.Path
