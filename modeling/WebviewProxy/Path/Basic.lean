import WebviewProxy.Text.Utf8

/-!
# Paths

A path is a string of bytes whose segments are separated by slashes.  Its
components are what the segments mean: the root in front of an absolute path,
the current directory at the head of a relative one, the parent directory, and
names.  Empty segments and other dots mean nothing.
-/

namespace WebviewProxy

structure Path where
  bytes : List UInt8
  deriving DecidableEq, Repr

namespace Path

def slash : UInt8 := 0x2F

def dot : List UInt8 := [0x2E]

def dotDot : List UInt8 := [0x2E, 0x2E]

def ofString (text : String) : Path := ⟨Utf8.bytes text⟩

def display (path : Path) : String := Utf8.lossy path.bytes

def isAbsolute (path : Path) : Bool :=
  path.bytes.head? == some slash

/-- The bytes between the slashes; there is one segment more than slashes. -/
def split : List UInt8 → List (List UInt8)
  | [] => [[]]
  | byte :: rest =>
      if byte = slash then [] :: split rest
      else match split rest with
        | [] => [[byte]]
        | segment :: segments => (byte :: segment) :: segments

def segments (path : Path) : List (List UInt8) := split path.bytes

inductive Component where
  | root
  | current
  | parent
  | name (bytes : List UInt8)
  deriving DecidableEq, Repr

/-- What a segment means where it is not at the head of a relative path. -/
def Component.ofSegment? (segment : List UInt8) : Option Component :=
  if segment = [] ∨ segment = dot then none
  else if segment = dotDot then some .parent
  else some (.name segment)

/-- What stands in front of the components that the segments give. -/
def anchor (path : Path) : List Component :=
  if path.isAbsolute then [.root]
  else if path.segments.head? = some dot then [.current]
  else []

def components (path : Path) : List Component :=
  path.anchor ++ path.segments.filterMap Component.ofSegment?

/-- The last component, when it is a name. -/
def fileName? (path : Path) : Option (List UInt8) :=
  match path.components.getLast? with
  | some (.name bytes) => some bytes
  | _ => none

/-- The path `other` seen from `base`: an absolute path stands for itself, and
a relative one is appended after a slash unless one is already there. -/
def join (base other : Path) : Path :=
  if other.isAbsolute then other
  else if base.bytes = [] ∨ base.bytes.getLast? = some slash then
    ⟨base.bytes ++ other.bytes⟩
  else ⟨base.bytes ++ slash :: other.bytes⟩

end Path

end WebviewProxy
