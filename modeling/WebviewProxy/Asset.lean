import WebviewProxy.Sha1

/-!
# Names of exported pages

The export step writes the page of a component to a file named by the digest
of the component's identity.  The rewritten module and the export step agree
on these names, which depend on nothing but the identity.
-/

namespace WebviewProxy.Asset

def iosBundleDirectory : String := "www.bundle"

def androidRoot : String := "file:///android_asset"

def androidDirectory : String := "www"

def hash (identity : String) : String :=
  String.ofList (Hex.ofBytes .small (sha1 (Utf8.bytes identity)))

def fileName (identity : String) : String :=
  hash identity ++ ".html"

/-- Where the page lies relative to the bundle on iOS. -/
def iosUri (identity : String) : String :=
  iosBundleDirectory ++ "/" ++ fileName identity

/-- What is appended to `androidRoot` when the proxy runs. -/
def androidPath (identity : String) : String :=
  androidDirectory ++ "/" ++ fileName identity

def androidUri (identity : String) : String :=
  androidRoot ++ androidPath identity

end WebviewProxy.Asset
