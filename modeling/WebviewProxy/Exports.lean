import WebviewProxy.Refusal
import WebviewProxy.Tree.Program

/-!
# Exports of a module

The tree is walked depth first in source order, also through functions, classes
and module blocks, and the inside of a declaration is never entered.  A default
export is noted wherever it stands; of the named exports only the first one met
is kept, and a later one never takes its place.
-/

namespace WebviewProxy

structure Exports where
  hasDefault : Bool := false
  firstNamed : Option Span := none
  deriving DecidableEq, Repr

namespace Exports

def note (exports : Exports) (form : Form) (span : Span) : Exports :=
  match form with
  | .exportDefaultDeclaration | .exportDefaultExpression =>
      { exports with hasDefault := true }
  | .exportDeclaration | .exportNamed =>
      { exports with firstNamed := exports.firstNamed.or (some span) }
  | _ => exports

mutual

/-- Notes the outermost declarations of a tree. -/
def visit (exports : Exports) : Tree → Exports
  | .atom _ => exports
  | .list items => exports.visitItems items
  | .string .. => exports
  | .statement _ expression => exports.visit expression
  | .declaration form span _ => exports.note form span
  | .node _ parts => exports.visitParts parts

def visitItems (exports : Exports) : List Tree → Exports
  | [] => exports
  | item :: rest => (exports.visit item).visitItems rest

def visitParts (exports : Exports) : List (String × Tree) → Exports
  | [] => exports
  | (_, part) :: rest => (exports.visit part).visitParts rest

end

/-- A file becomes a component by its default export and may have no other;
`whole` is the span of the file. -/
def check (exports : Exports) (whole : Span) : Except Refusal Unit :=
  match exports.firstNamed with
  | some span => .error (.namedExport span)
  | none =>
      if exports.hasDefault then .ok ()
      else .error (.noDefaultExport whole)

end Exports

def Program.exports (program : Program) : Exports :=
  ({} : Exports).visitItems program.body

end WebviewProxy
