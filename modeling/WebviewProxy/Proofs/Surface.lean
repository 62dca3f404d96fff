import WebviewProxy.Directive
import WebviewProxy.Exports

/-!
# What the checks read of a tree

Of a whole program the checks see two lists: the texts of its directive
prologue, and its outermost declarations in source order.  A declaration is
outermost when it does not lie inside another one; statements, functions,
classes and module blocks around it do not count.  The walk over the exports is
determined by the second list alone.
-/

namespace WebviewProxy

namespace Directive

/-- The texts of the prologue of the items. -/
def prologue : List Tree → List String
  | [] => []
  | item :: rest =>
      match ofItem? item with
      | none => []
      | some spelled => spelled :: prologue rest

theorem occursIn_iff_mem_prologue (directive : String) (items : List Tree) :
    occursIn directive items = true ↔ directive ∈ prologue items := by
  induction items with
  | nil => simp [occursIn, prologue]
  | cons item rest ih =>
      cases hitem : ofItem? item with
      | none => simp [occursIn, prologue, hitem]
      | some spelled =>
          simp only [occursIn, prologue, hitem, Bool.or_eq_true,
            decide_eq_true_eq, List.mem_cons]
          rw [ih, eq_comm]

end Directive

def Program.prologue (program : Program) : List String :=
  Directive.prologue program.body

/-- The module that consists of the directive and the items. -/
def Program.marked (items : List Tree) : Program where
  sourceType := .module
  span := ⟨1, 100⟩
  body :=
    .statement .zero
      (.string .zero Directive.useDom (some "\"use dom\"")) :: items
  interpreter := none

theorem Program.hasDirective_iff (program : Program) :
    program.hasDirective = true ↔
      Directive.useDom ∈ program.prologue :=
  Directive.occursIn_iff_mem_prologue Directive.useDom program.body

/-! ## Outermost declarations -/

/-- A declaration as the walk sees it. -/
structure Declaration where
  form : Form
  span : Span
  deriving DecidableEq, Repr

namespace Declaration

def isDefaultExport (declaration : Declaration) : Bool :=
  match declaration.form with
  | .exportDefaultDeclaration | .exportDefaultExpression => true
  | _ => false

def isNamedExport (declaration : Declaration) : Bool :=
  match declaration.form with
  | .exportDeclaration | .exportNamed => true
  | _ => false

end Declaration

namespace Tree

mutual

/-- The outermost declarations of a tree, in source order. -/
def declarations : Tree → List Declaration
  | .atom _ => []
  | .list items => declarationsOfItems items
  | .string .. => []
  | .statement _ expression => declarations expression
  | .declaration form span _ => [⟨form, span⟩]
  | .node _ parts => declarationsOfParts parts

def declarationsOfItems : List Tree → List Declaration
  | [] => []
  | item :: rest => declarations item ++ declarationsOfItems rest

def declarationsOfParts : List (String × Tree) → List Declaration
  | [] => []
  | (_, part) :: rest => declarations part ++ declarationsOfParts rest

end

end Tree

def Program.declarations (program : Program) : List Declaration :=
  Tree.declarationsOfItems program.body

namespace Exports

/-- The exports known after a walk that has met the declarations too. -/
def extend (exports : Exports) (declarations : List Declaration) :
    Exports where
  hasDefault :=
    exports.hasDefault || declarations.any Declaration.isDefaultExport
  firstNamed :=
    exports.firstNamed.or
      ((declarations.find? Declaration.isNamedExport).map Declaration.span)

theorem extend_nil (exports : Exports) : exports.extend [] = exports := by
  simp [extend]

theorem extend_append (exports : Exports)
    (front back : List Declaration) :
    exports.extend (front ++ back) = (exports.extend front).extend back := by
  simp only [extend, List.any_append, List.find?_append, Bool.or_assoc,
    Option.or_assoc]
  rw [Option.map_or]

theorem note_eq_extend (exports : Exports) (form : Form) (span : Span) :
    exports.note form span = exports.extend [⟨form, span⟩] := by
  cases form <;>
    simp [note, extend, Declaration.isDefaultExport,
      Declaration.isNamedExport]

mutual

theorem visit_eq_extend (exports : Exports) :
    (tree : Tree) → exports.visit tree = exports.extend tree.declarations
  | .atom _ => (extend_nil exports).symm
  | .list items => visitItems_eq_extend exports items
  | .string .. => (extend_nil exports).symm
  | .statement _ expression => visit_eq_extend exports expression
  | .declaration form span _ => note_eq_extend exports form span
  | .node _ parts => visitParts_eq_extend exports parts

theorem visitItems_eq_extend (exports : Exports) :
    (items : List Tree) → exports.visitItems items =
      exports.extend (Tree.declarationsOfItems items)
  | [] => (extend_nil exports).symm
  | item :: rest => by
      unfold visitItems Tree.declarationsOfItems
      rw [visitItems_eq_extend _ rest, visit_eq_extend exports item,
        extend_append]

theorem visitParts_eq_extend (exports : Exports) :
    (parts : List (String × Tree)) → exports.visitParts parts =
      exports.extend (Tree.declarationsOfParts parts)
  | [] => (extend_nil exports).symm
  | (_, part) :: rest => by
      unfold visitParts Tree.declarationsOfParts
      rw [visitParts_eq_extend _ rest, visit_eq_extend exports part,
        extend_append]

end

end Exports

namespace Program

theorem exports_eq_extend (program : Program) :
    program.exports = ({} : Exports).extend program.declarations :=
  Exports.visitItems_eq_extend {} program.body

theorem exports_hasDefault (program : Program) :
    program.exports.hasDefault =
      program.declarations.any Declaration.isDefaultExport := by
  rw [exports_eq_extend]
  simp [Exports.extend]

theorem exports_firstNamed (program : Program) :
    program.exports.firstNamed =
      (program.declarations.find? Declaration.isNamedExport).map
        Declaration.span := by
  rw [exports_eq_extend]
  simp [Exports.extend]

end Program

end WebviewProxy
