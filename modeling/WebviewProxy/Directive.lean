import WebviewProxy.Text.Slice
import WebviewProxy.Tree.Program

/-!
# The directive prologue

The prologue of a program is its longest start of expression statements that
are directly string literals.  A literal counts by its source text, without the
byte at either end, so an escaped spelling of the directive is another text;
only a literal that was never written down counts by its value.
-/

namespace WebviewProxy.Directive

/-- The directive that marks a file as a component for the web view. -/
def useDom : String := "use dom"

/-- The text by which a literal counts as a directive. -/
def text (value : String) (raw : Option String) : String :=
  match raw with
  | none => value
  | some raw =>
      String.ofList <|
        (Slice.slice? 1 (raw.utf8ByteSize - 1) raw.toList).getD []

def ofItem? : Tree → Option String
  | .statement _ (.string _ value raw) => some (text value raw)
  | _ => none

/-- Whether the prologue of the items spells `directive`. -/
def occursIn (directive : String) : List Tree → Bool
  | [] => false
  | item :: rest =>
      match ofItem? item with
      | none => false
      | some spelled => spelled = directive || occursIn directive rest

end Directive

def Program.hasDirective (program : Program) : Bool :=
  Directive.occursIn Directive.useDom program.body

end WebviewProxy
