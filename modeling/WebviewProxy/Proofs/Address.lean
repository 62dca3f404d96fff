import WebviewProxy.Proxy
import WebviewProxy.Tree.Program

/-!
# The address in a proxy

A proxy can be read without a look at how it was built.  The address of its
page is the property `uri` of the constant `source`.  In production it is put
together from string literals, so its value is known before the proxy runs.  In
development it is a URL that is resolved when the proxy runs, and the literals
are the first argument of `new URL`.  Two proxies differ in nothing but their
addresses.
-/

namespace WebviewProxy

namespace Tree

/-! ## Parts of nodes -/

/-- The part under `key`, when the tree is a node of the type. -/
def part? (type : Option String) (key : String) : Tree → Option Tree
  | .node other parts => if other = type then parts.lookup key else none
  | _ => none

def itemsUnder (type : Option String) (key : String) (tree : Tree) :
    List Tree :=
  match tree.part? type key with
  | some (.list items) => items
  | _ => []

/-- Whether the part under `key` is an identifier that spells `name`. -/
def isNamed (type : Option String) (key name : String) (tree : Tree) : Bool :=
  (tree.part? type key).bind (part? "Identifier" "value") =
    some (.atom (.text name))

/-- What the first declaration of the variable `name` binds it to. -/
def initializer? (name : String) (body : List Tree) : Option Tree :=
  let declarators :=
    body.flatMap (itemsUnder "VariableDeclaration" "declarations")
  (declarators.find? (isNamed "VariableDeclarator" "id" name)).bind
    (part? "VariableDeclarator" "init")

def property? (name : String) (object : Tree) : Option Tree :=
  let properties := object.itemsUnder "ObjectExpression" "properties"
  (properties.find? (isNamed "KeyValueProperty" "key" name)).bind
    (part? "KeyValueProperty" "value")

def address? (body : List Tree) : Option Tree :=
  (initializer? "source" body).bind (property? "uri")

/-- The first argument of `new URL` in `new URL(…).toString()`. -/
def urlArgument? (expression : Tree) : Option Tree := do
  let method ← expression.part? "CallExpression" "callee"
  guard (method.isNamed "MemberExpression" "property" "toString")
  let url ← method.part? "MemberExpression" "object"
  guard (url.isNamed "NewExpression" "callee" "URL")
  let argument ← (url.itemsUnder "NewExpression" "arguments").head?
  argument.part? none "expression"

/-! ## Concatenations of literals -/

mutual

def literals? : Tree → Option (List String)
  | .string _ value _ => some [value]
  | .node type parts =>
      if type = some "BinaryExpression" ∧
          parts.lookup "operator" = some (.atom (.text "+")) then do
        return (← literalsUnder? "left" parts) ++
          (← literalsUnder? "right" parts)
      else none
  | _ => none

def literalsUnder? (key : String) :
    List (String × Tree) → Option (List String)
  | [] => none
  | (name, part) :: rest =>
      if name = key then literals? part else literalsUnder? key rest

end

mutual

/-- The tree with the value of every property `name` taken out. -/
def mask (name : String) : Tree → Tree
  | .list items => .list (maskItems name items)
  | .statement span expression => .statement span (mask name expression)
  | .declaration form span parts =>
      .declaration form span (maskParts name parts)
  | .node type parts =>
      if (node type parts).isNamed "KeyValueProperty" "key" name then
        .node type <| parts.map fun (key, part) =>
          (key, if key = "value" then .atom .null else part)
      else .node type (maskParts name parts)
  | tree => tree

def maskItems (name : String) : List Tree → List Tree
  | [] => []
  | item :: rest => mask name item :: maskItems name rest

def maskParts (name : String) :
    List (String × Tree) → List (String × Tree)
  | [] => []
  | (key, part) :: rest => (key, mask name part) :: maskParts name rest

end

end Tree

def Program.mask (name : String) (program : Program) : Program :=
  { program with body := Tree.maskItems name program.body }

namespace Page

theorem address?_proxyBody (page : Page) :
    Tree.address? page.proxyBody = some page.uri :=
  rfl

theorem mask_proxyBody (program : Program) (page other : Page) :
    ({ program with body := page.proxyBody } : Program).mask "uri" =
      ({ program with body := other.proxyBody } : Program).mask "uri" :=
  rfl

theorem literals?_devServer (basename identity : String) :
    (devServer basename identity).uri.urlArgument?.bind Tree.literals? =
      some [route basename, identity] :=
  rfl

end Page

end WebviewProxy
