import WebviewProxy.Path.Normal
import WebviewProxy.Refusal
import WebviewProxy.Text.Percent

/-!
# Identity of a file

A file is known by the `file` URL of its path, which the export step computes
too.  The path is made absolute with the working directory, brought to its
normal form, and written name by name with percent escapes.  A backslash is an
ordinary byte of a name; it is escaped last, in the finished URL.
-/

namespace WebviewProxy.Identity

def urlPath : List (List UInt8) → List Char
  | [] => ['/']
  | names => names.flatMap fun name =>
      '/' :: Percent.encode Percent.isReserved name

def escapeBackslashes (url : List Char) : List Char :=
  url.flatMap fun c => if c = '\\' then ['%', '5', 'C'] else [c]

/-- The names of a path below the root. -/
def names (path : Path) : List (List UInt8) :=
  path.components.filterMap fun
    | .name bytes => some bytes
    | _ => none

/-- The `file` URL of a path in normal form. -/
def url? (path : Path) : Option String :=
  if path.isAbsolute then
    let url := "file://".toList ++ urlPath (names path)
    some (String.ofList (escapeBackslashes url))
  else none

/-- The identity of the file at `path`, seen from `cwd` when it is relative. -/
def ofPath (path : Path) (cwd : Option Path) : Except Refusal String := do
  let located ←
    if path.isAbsolute then pure path
    else match cwd with
      | some base => pure (base.join path)
      | none => throw (.noWorkingDirectory path)
  let normal := located.normalize
  match url? normal with
  | some url => pure url
  | none => throw (.notAbsolute normal)

end WebviewProxy.Identity
