import WebviewProxy.Options
import WebviewProxy.Path.Basic
import WebviewProxy.Platform

/-!
# Builds

What a rewrite has to know about the build that a file belongs to.  The option
`isDev` decides between development and production; without it the name of the
environment does.  An empty working directory of the host counts as none.
-/

namespace WebviewProxy

structure Build where
  production : Bool
  platform : Option Platform
  cwd : Option Path
  deriving DecidableEq, Repr

namespace Build

def ofOptions (options : Options) (environment cwd : Option String) :
    Build where
  production :=
    match options.isDev with
    | some isDev => !isDev
    | none => environment = some "production"
  platform := options.platform.map Platform.ofName
  cwd := (cwd.filter (· ≠ "")).map Path.ofString

def isWeb (build : Build) : Bool :=
  build.platform = some .web

end Build

end WebviewProxy
