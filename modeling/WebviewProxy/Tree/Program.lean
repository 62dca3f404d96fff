import WebviewProxy.Tree.Basic

/-!
# Programs

A program is a module or a script: a list of items with the span of the whole
and the text of an interpreter line.  Only a module can export anything.
-/

namespace WebviewProxy

inductive SourceType where
  | module
  | script
  deriving DecidableEq, Repr

structure Program where
  sourceType : SourceType
  span : Span
  body : List Tree
  interpreter : Option String
  deriving DecidableEq, Repr

end WebviewProxy
