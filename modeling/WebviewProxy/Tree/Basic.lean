import WebviewProxy.Json.Value
import WebviewProxy.Tree.Span

/-!
# Syntax trees

A tree keeps every part of every node.  String literals, expression statements
and module declarations have constructors of their own, because the rewrite
looks at them; every other construct is a node with the name of its type and
its named parts, in the order in which they stand in the source.  A node that
carries no type, such as an argument of a call, has none.
-/

namespace WebviewProxy

inductive Atom where
  | null
  | bool (value : Bool)
  | number (value : Decimal)
  | text (value : String)
  | span (value : Span)
  deriving DecidableEq, Repr

/-- The forms of declaration that only the top level of a module, or of a
module block inside it, may hold. -/
inductive Form where
  | importFrom
  | exportDeclaration
  | exportNamed
  | exportDefaultDeclaration
  | exportDefaultExpression
  | exportAll
  | importEquals
  | exportAssignment
  | namespaceExport
  deriving DecidableEq, Repr

def Form.all : List Form :=
  [.importFrom, .exportDeclaration, .exportNamed, .exportDefaultDeclaration,
    .exportDefaultExpression, .exportAll, .importEquals, .exportAssignment,
    .namespaceExport]

def Form.typeName : Form → String
  | .importFrom => "ImportDeclaration"
  | .exportDeclaration => "ExportDeclaration"
  | .exportNamed => "ExportNamedDeclaration"
  | .exportDefaultDeclaration => "ExportDefaultDeclaration"
  | .exportDefaultExpression => "ExportDefaultExpression"
  | .exportAll => "ExportAllDeclaration"
  | .importEquals => "TsImportEqualsDeclaration"
  | .exportAssignment => "TsExportAssignment"
  | .namespaceExport => "TsNamespaceExportDeclaration"

def Form.ofTypeName? (name : String) : Option Form :=
  Form.all.find? fun form => form.typeName = name

theorem Form.ofTypeName?_typeName (form : Form) :
    ofTypeName? form.typeName = some form := by
  cases form <;> decide

inductive Tree where
  | atom (value : Atom)
  | list (items : List Tree)
  | string (span : Span) (value : String) (raw : Option String)
  | statement (span : Span) (expression : Tree)
  | declaration (form : Form) (span : Span) (parts : List (String × Tree))
  | node (type : Option String) (parts : List (String × Tree))
  deriving Repr, Inhabited

namespace Tree

mutual

def same : Tree → Tree → Bool
  | .atom a, .atom b => a = b
  | .list a, .list b => sameItems a b
  | .string s v r, .string s' v' r' => s = s' && v = v' && r = r'
  | .statement s e, .statement s' e' => s = s' && same e e'
  | .declaration f s p, .declaration f' s' p' =>
      f = f' && s = s' && sameParts p p'
  | .node t p, .node t' p' => t = t' && sameParts p p'
  | _, _ => false

def sameItems : List Tree → List Tree → Bool
  | [], [] => true
  | a :: as, b :: bs => same a b && sameItems as bs
  | _, _ => false

def sameParts : List (String × Tree) → List (String × Tree) → Bool
  | [], [] => true
  | (n, a) :: as, (m, b) :: bs => n = m && same a b && sameParts as bs
  | _, _ => false

end

mutual

theorem same_iff : (a b : Tree) → (same a b = true ↔ a = b)
  | .atom a, b => by cases b <;> simp [same]
  | .list a, b => by cases b <;> simp [same, sameItems_iff a]
  | .string .., b => by cases b <;> simp [same, and_assoc]
  | .statement _ e, b => by cases b <;> simp [same, same_iff e]
  | .declaration _ _ p, b => by
      cases b <;> simp [same, sameParts_iff p, and_assoc]
  | .node _ p, b => by cases b <;> simp [same, sameParts_iff p]

theorem sameItems_iff : (a b : List Tree) → (sameItems a b = true ↔ a = b)
  | [], b => by cases b <;> simp [sameItems]
  | a :: as, b => by
      cases b <;> simp [sameItems, same_iff a, sameItems_iff as]

theorem sameParts_iff :
    (a b : List (String × Tree)) → (sameParts a b = true ↔ a = b)
  | [], b => by cases b <;> simp [sameParts]
  | (n, a) :: as, b => by
      cases b with
      | nil => simp [sameParts]
      | cons part bs =>
          obtain ⟨m, b⟩ := part
          simp [sameParts, same_iff a, sameParts_iff as, and_assoc]

end

instance : DecidableEq Tree := fun a b =>
  decidable_of_iff (same a b = true) (same_iff a b)

end Tree

end WebviewProxy
