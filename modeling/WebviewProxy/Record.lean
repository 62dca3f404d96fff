/-!
# Records of the log

What a build is told beside the result: that a web build left a file alone,
that a file was rewritten, or that the options were not understood.
-/

namespace WebviewProxy

inductive Level where
  | trace
  | debug
  | warn
  deriving DecidableEq, Repr

inductive Record where
  | skippedOnWeb
  | rewrote (production : Bool) (reference : String)
  | malformedOptions
  deriving DecidableEq, Repr

namespace Record

def level : Record → Level
  | .skippedOnWeb => .trace
  | .rewrote .. => .debug
  | .malformedOptions => .warn

def message : Record → String
  | .skippedOnWeb => "skipping \"use dom\" rewrite on web"
  | .rewrote .. => "rewrote \"use dom\" module into a WebView proxy"
  | .malformedOptions => "ignoring malformed \"use dom\" plugin options"

end Record

end WebviewProxy
