import WebviewProxy.Asset
import WebviewProxy.Tree.Generated

/-!
# The proxy of a component

The body that takes the place of a marked file imports React and a web view,
binds the address of the component's page, and exports a component that shows
the page and hands its properties on.  Only the address depends on the file:
production builds load an exported asset, and in development the page comes
from a route of the server.
-/

namespace WebviewProxy

/-- Where the web view loads the page of a component from. -/
inductive Page where
  | iosBundle (identity : String)
  | androidAsset (identity : String)
  | devServer (basename identity : String)
  deriving DecidableEq, Repr

namespace Page

open Tree.Generated

def webViewModule : String := "expo/dom/internal"

def devServerModule : String :=
  "react-native/Libraries/Core/Devtools/getDevServer"

/-- The route of a page on the server, up to the identity of the file.  The base
name stands in it as it is, with nothing escaped. -/
def route (basename : String) : String :=
  "/_expo/@dom/" ++ basename ++ "?file="

def uri : Page → Tree
  | .iosBundle identity => stringLiteral (Asset.iosUri identity)
  | .androidAsset identity =>
      add (stringLiteral Asset.androidRoot)
        (stringLiteral (Asset.androidPath identity))
  | .devServer basename identity =>
      let path := add (stringLiteral (route basename)) (stringLiteral identity)
      let server := call (call (identifier "require")
        [stringLiteral devServerModule]) []
      let url := new (identifier "URL") [path, member server "url"]
      call (member url "toString") []

def proxyBody (page : Page) : List Tree :=
  let properties := object
    [identifier "ref", spread (identifier "props"), identifier "source"]
  let element := call (member (identifier "React") "createElement")
    [identifier "WebView", properties]
  let render := arrow [binding "props", binding "ref"]
    [returnStatement element]
  [importDefault "React" "react",
    importNamed "WebView" webViewModule,
    constant "source" (object [property "uri" page.uri]),
    exportDefault (call (member (identifier "React") "forwardRef") [render])]

end Page

end WebviewProxy
