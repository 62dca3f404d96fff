import WebviewProxy.Tree.Basic

/-!
# Source order of parts

A tree is walked in the order in which its parts stand in the source.  Where a
node arrives with its parts in another order, `Tree.ofParts` arranges them: the
keys that the type of node lists come first, in that order, and all other parts
follow as they came.  Types whose parts hold at most one subtree need no entry.
-/

namespace WebviewProxy.Tree

def functionKeys : List String :=
  ["params", "decorators", "body", "typeParameters", "returnType"]

def classKeys : List String :=
  ["decorators", "body", "superClass", "typeParams", "superTypeParams",
    "implements"]

def propertyKeys : List String :=
  ["key", "value", "typeAnnotation", "decorators"]

def signatureKeys : List String :=
  ["params", "typeParams", "typeAnnotation"]

def declarationOrder : List (String × List String) :=
  [("FunctionDeclaration", "identifier" :: functionKeys),
    ("ClassDeclaration", "identifier" :: classKeys),
    ("VariableDeclarator", ["id", "init"]),
    ("TsModuleDeclaration", ["id", "body"]),
    ("TsNamespaceDeclaration", ["id", "body"]),
    ("TsInterfaceDeclaration", ["id", "typeParams", "extends", "body"]),
    ("TsTypeAliasDeclaration", ["id", "typeParams", "typeAnnotation"]),
    ("TsEnumDeclaration", ["id", "members"]),
    ("TsEnumMember", ["id", "init"])]

def statementOrder : List (String × List String) :=
  [("WithStatement", ["object", "body"]),
    ("LabeledStatement", ["label", "body"]),
    ("IfStatement", ["test", "consequent", "alternate"]),
    ("SwitchStatement", ["discriminant", "cases"]),
    ("SwitchCase", ["test", "consequent"]),
    ("TryStatement", ["block", "handler", "finalizer"]),
    ("CatchClause", ["param", "body"]),
    ("WhileStatement", ["test", "body"]),
    ("DoWhileStatement", ["test", "body"]),
    ("ForStatement", ["init", "test", "update", "body"]),
    ("ForInStatement", ["left", "right", "body"]),
    ("ForOfStatement", ["left", "right", "body"])]

def expressionOrder : List (String × List String) :=
  [("FunctionExpression", "identifier" :: functionKeys),
    ("ArrowFunctionExpression",
      ["params", "body", "typeParameters", "returnType"]),
    ("ClassExpression", "identifier" :: classKeys),
    ("ConditionalExpression", ["test", "consequent", "alternate"]),
    ("BinaryExpression", ["left", "right"]),
    ("AssignmentExpression", ["left", "right"]),
    ("MemberExpression", ["object", "property"]),
    ("SuperPropExpression", ["obj", "property"]),
    ("CallExpression", ["callee", "arguments", "typeArguments"]),
    ("NewExpression", ["callee", "arguments", "typeArguments"]),
    ("TaggedTemplateExpression", ["tag", "typeParameters", "template"]),
    ("TemplateLiteral", ["expressions", "types", "quasis"]),
    ("TsAsExpression", ["expression", "typeAnnotation"]),
    ("TsSatisfiesExpression", ["expression", "typeAnnotation"]),
    ("TsTypeAssertion", ["expression", "typeAnnotation"]),
    ("TsInstantiation", ["expression", "typeArguments"]),
    ("JSXElement", ["opening", "children", "closing"]),
    ("JSXFragment", ["opening", "children", "closing"]),
    ("JSXOpeningElement", ["name", "attributes", "typeArguments"]),
    ("JSXAttribute", ["name", "value"])]

def memberOrder : List (String × List String) :=
  [("Constructor", ["key", "params", "body"]),
    ("ClassMethod", ["key", "function"]),
    ("PrivateMethod", ["key", "function"]),
    ("ClassProperty", propertyKeys),
    ("PrivateProperty", propertyKeys),
    ("AutoAccessor", propertyKeys),
    ("MethodProperty", "key" :: functionKeys),
    ("GetterProperty", ["key", "typeAnnotation", "body"]),
    ("SetterProperty", ["key", "thisParam", "param", "body"]),
    ("KeyValueProperty", ["key", "value"]),
    ("AssignmentProperty", ["key", "value"])]

def patternOrder : List (String × List String) :=
  [("Parameter", ["decorators", "pat"]),
    ("TsParameterProperty", ["decorators", "param"]),
    ("ArrayPattern", ["elements", "typeAnnotation"]),
    ("ObjectPattern", ["properties", "typeAnnotation"]),
    ("RestElement", ["argument", "typeAnnotation"]),
    ("AssignmentPattern", ["left", "right"]),
    ("KeyValuePatternProperty", ["key", "value"]),
    ("AssignmentPatternProperty", ["key", "value"])]

def typeOrder : List (String × List String) :=
  [("TsTypeParameter", ["name", "constraint", "default"]),
    ("TsExpressionWithTypeArguments", ["expression", "typeArguments"]),
    ("TsPropertySignature", ["key", "typeAnnotation"]),
    ("TsGetterSignature", ["key", "typeAnnotation"]),
    ("TsSetterSignature", ["key", "param"]),
    ("TsMethodSignature", ["key", "params", "typeAnn", "typeParams"]),
    ("TsCallSignatureDeclaration",
      ["params", "typeAnnotation", "typeParams"]),
    ("TsConstructSignatureDeclaration",
      ["params", "typeAnnotation", "typeParams"]),
    ("TsIndexSignature", ["params", "typeAnnotation"]),
    ("TsFunctionType", signatureKeys),
    ("TsConstructorType", signatureKeys),
    ("TsTypeReference", ["typeName", "typeParams"]),
    ("TsTypePredicate", ["paramName", "typeAnnotation"]),
    ("TsTypeQuery", ["exprName", "typeArguments"]),
    ("TsImportType",
      ["argument", "qualifier", "typeArguments", "attributes"]),
    ("TsTupleElement", ["label", "ty"]),
    ("TsConditionalType",
      ["checkType", "extendsType", "trueType", "falseType"]),
    ("TsIndexedAccessType", ["objectType", "indexType"]),
    ("TsMappedType", ["typeParam", "nameType", "typeAnnotation"])]

def sourceOrder : List (String × List String) :=
  declarationOrder ++ statementOrder ++ expressionOrder ++ memberOrder ++
    patternOrder ++ typeOrder

/-- The keys of the subtrees of a node, in source order.  The one node without
a type that has several subtrees is the function of a method. -/
def keysOf : Option String → List String
  | none => functionKeys
  | some type => (sourceOrder.lookup type).getD []

/-- The parts with those named in `keys` in front, in the order of `keys`. -/
def arrange (keys : List String) (parts : List (String × Tree)) :
    List (String × Tree) :=
  keys.filterMap (fun key => parts.find? fun part => part.1 = key) ++
    parts.filter fun part => part.1 ∉ keys

/-- The node of a type with its parts in source order. -/
def ofParts (type : Option String) (parts : List (String × Tree)) : Tree :=
  .node type (arrange (keysOf type) parts)

end WebviewProxy.Tree
