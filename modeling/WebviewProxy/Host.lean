import WebviewProxy.Rewrite

/-!
# The host of the rewrite

A host hands over a program with the facts of its build and gets back a program
and what there is to report.  It keeps no metadata of files, so the identity of
a rewritten file travels in a comment in front of the module, where the export
step picks it up; without a place in the source there is none.
-/

namespace WebviewProxy

structure Host where
  options : Option String
  environment : Option String
  cwd : Option String
  filename : Option String
  /-- Whether comments can be attached to the program. -/
  comments : Bool
  deriving DecidableEq, Repr

structure Diagnostic where
  message : String
  span : Option Span
  deriving DecidableEq, Repr

/-- A block comment in front of what stands at `position`. -/
structure Comment where
  position : Nat
  text : String
  deriving DecidableEq, Repr

structure Emission where
  program : Program
  diagnostics : List Diagnostic := []
  comments : List Comment := []
  log : List Record := []
  deriving DecidableEq, Repr

def Refusal.diagnostic (refusal : Refusal) : Diagnostic :=
  ⟨refusal.message, refusal.span?⟩

/-- The comments that publish a reference in front of a program. -/
def Program.announce (program : Program) (reference : String) :
    List Comment :=
  match program.span.located? with
  | some span => [⟨span.start, " " ++ referenceKey ++ ": " ++ reference ++ " "⟩]
  | none => []

namespace Host

def build (host : Host) : Build :=
  .ofOptions (.ofHost host.options) host.environment host.cwd

def workspace (host : Host) (program : Program) : Workspace where
  program := program
  filename := host.filename.map Path.ofString
  metadata := .object []
  log := Options.warnings host.options

def transform (host : Host) (program : Program) : Emission :=
  let (result, after) := (host.workspace program).rewrite host.build
  let emission : Emission := { program := after.program, log := after.log }
  match result with
  | .error refusal => { emission with diagnostics := [refusal.diagnostic] }
  | .ok .untouched => emission
  | .ok (.rewritten reference) =>
      if host.comments then
        { emission with comments := after.program.announce reference }
      else emission

end Host

end WebviewProxy
