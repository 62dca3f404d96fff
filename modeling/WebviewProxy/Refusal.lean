import WebviewProxy.Path.Basic
import WebviewProxy.Platform
import WebviewProxy.Tree.Span

/-!
# Refusals

Why a file that carries the directive is not rewritten.  A refusal about the
exports of the file points at its place in the source, unless that place is a
dummy span.
-/

namespace WebviewProxy

inductive Refusal where
  | filenameMissing
  | noWorkingDirectory (path : Path)
  | notAbsolute (path : Path)
  | namedExport (span : Span)
  | noDefaultExport (span : Span)
  | unsupportedPlatform (platform : Option Platform)
  | metadataNotObject
  deriving DecidableEq, Repr

namespace Refusal

def message : Refusal → String
  | .filenameMissing =>
      "[use dom] expected a filename to be set for the file being transformed"
  | .noWorkingDirectory path =>
      "[use dom] cannot resolve relative filename " ++ path.display ++
        " without a working directory"
  | .notAbsolute path =>
      "[use dom] cannot convert " ++ path.display ++ " to a file URL"
  | .namedExport _ =>
      "Modules with the \"use dom\" directive only support " ++
        "a single default export."
  | .noDefaultExport _ =>
      "The \"use dom\" directive requires a default export " ++
        "to be present in the file."
  | .unsupportedPlatform platform =>
      "production \"use dom\" directive is not supported yet for platform: " ++
        (platform.map Platform.name).getD "undefined"
  | .metadataNotObject => "expected the file metadata to be an object"

def span? : Refusal → Option Span
  | .namedExport span => span.located?
  | .noDefaultExport span => span.located?
  | _ => none

end Refusal

end WebviewProxy
