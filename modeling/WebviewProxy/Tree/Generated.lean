import WebviewProxy.Tree.Basic

/-!
# Trees of generated code

Generated code stands nowhere in the source, so every span is zero; it belongs
to no scope that a later pass has marked, so every context number is zero too.
-/

namespace WebviewProxy.Tree.Generated

def zero : Tree := .atom (.span .zero)

def null : Tree := .atom .null

def flag (value : Bool) : Tree := .atom (.bool value)

def text (value : String) : Tree := .atom (.text value)

def context : Tree := .atom (.number ⟨0, 0⟩)

def stringLiteral (value : String) : Tree := .string .zero value none

/-- A name that is looked up in its scope. -/
def identifier (name : String) : Tree :=
  .node (some "Identifier")
    [("span", zero), ("ctxt", context), ("value", text name),
      ("optional", flag false)]

/-- A name that a pattern binds. -/
def binding (name : String) : Tree :=
  .node (some "Identifier")
    [("span", zero), ("ctxt", context), ("value", text name),
      ("optional", flag false), ("typeAnnotation", null)]

def propertyName (name : String) : Tree :=
  .node (some "Identifier") [("span", zero), ("value", text name)]

def argument (expression : Tree) : Tree :=
  .node none [("spread", null), ("expression", expression)]

def member (object : Tree) (property : String) : Tree :=
  .node (some "MemberExpression")
    [("span", zero), ("object", object),
      ("property", propertyName property)]

def call (callee : Tree) (arguments : List Tree) : Tree :=
  .node (some "CallExpression")
    [("span", zero), ("ctxt", context), ("callee", callee),
      ("arguments", .list (arguments.map argument)), ("typeArguments", null)]

def new (callee : Tree) (arguments : List Tree) : Tree :=
  .node (some "NewExpression")
    [("span", zero), ("ctxt", context), ("callee", callee),
      ("arguments", .list (arguments.map argument)), ("typeArguments", null)]

/-- The sum, or for strings the concatenation, of two expressions. -/
def add (left right : Tree) : Tree :=
  .node (some "BinaryExpression")
    [("span", zero), ("operator", text "+"), ("left", left),
      ("right", right)]

def object (properties : List Tree) : Tree :=
  .node (some "ObjectExpression")
    [("span", zero), ("properties", .list properties)]

def property (name : String) (value : Tree) : Tree :=
  .node (some "KeyValueProperty")
    [("key", propertyName name), ("value", value)]

def spread (expression : Tree) : Tree :=
  .node (some "SpreadElement")
    [("spread", zero), ("arguments", expression)]

def returnStatement (value : Tree) : Tree :=
  .node (some "ReturnStatement") [("span", zero), ("argument", value)]

def arrow (params : List Tree) (statements : List Tree) : Tree :=
  let body := .node (some "BlockStatement")
    [("span", zero), ("ctxt", context), ("stmts", .list statements)]
  .node (some "ArrowFunctionExpression")
    [("span", zero), ("ctxt", context), ("params", .list params),
      ("body", body), ("async", flag false), ("generator", flag false),
      ("typeParameters", null), ("returnType", null)]

def constant (name : String) (value : Tree) : Tree :=
  let declarator := .node (some "VariableDeclarator")
    [("span", zero), ("id", binding name), ("init", value),
      ("definite", flag false)]
  .node (some "VariableDeclaration")
    [("span", zero), ("ctxt", context), ("kind", text "const"),
      ("declare", flag false), ("declarations", .list [declarator])]

/-- The import of one name, described by its specifier. -/
def importing (specifier : Tree) (source : String) : Tree :=
  .declaration .importFrom .zero
    [("specifiers", .list [specifier]), ("source", stringLiteral source),
      ("typeOnly", flag false), ("with", null), ("phase", text "evaluation")]

def importDefault (name source : String) : Tree :=
  let specifier := .node (some "ImportDefaultSpecifier")
    [("span", zero), ("local", identifier name)]
  importing specifier source

def importNamed (name source : String) : Tree :=
  let specifier := .node (some "ImportSpecifier")
    [("span", zero), ("local", identifier name), ("imported", null),
      ("isTypeOnly", flag false)]
  importing specifier source

def exportDefault (expression : Tree) : Tree :=
  .declaration .exportDefaultExpression .zero [("expression", expression)]

end WebviewProxy.Tree.Generated
