import WebviewProxy.Build
import WebviewProxy.Directive
import WebviewProxy.Exports
import WebviewProxy.Identity
import WebviewProxy.Proxy
import WebviewProxy.Record

/-!
# Rewriting a marked file

A rewrite works on a file at hand: its program, its name, its metadata and the
log of what was done.  A step may read and write all of them and may refuse;
what was written before a refusal stays written.  So the order of the steps
matters: everything that can be refused is settled before the first write.
-/

namespace WebviewProxy

structure Workspace where
  program : Program
  filename : Option Path
  metadata : Json
  log : List Record := []
  deriving Repr

inductive Outcome where
  | untouched
  | rewritten (reference : String)
  deriving DecidableEq, Repr

abbrev RewriteM := ExceptT Refusal (StateM Workspace)

/-- The key under which the identity of a rewritten file is published. -/
def referenceKey : String := "expoDomComponentReference"

/-- The identity that an earlier rewrite has published, if any. -/
def Workspace.reference? (workspace : Workspace) : Option String :=
  (workspace.metadata.get? referenceKey).bind Json.text?

def record (entry : Record) : RewriteM Unit :=
  modify fun workspace =>
    { workspace with log := workspace.log ++ [entry] }

/-- The name of the file; an empty one counts as none. -/
def Workspace.usableFilename (workspace : Workspace) :
    Except Refusal Path :=
  match workspace.filename with
  | some path => if path.bytes = [] then .error .filenameMissing else .ok path
  | none => .error .filenameMissing

/-- Refuses a program without a default export or with a named one; a script
has no exports at all. -/
def Program.checkExports (program : Program) : Except Refusal Unit :=
  match program.sourceType with
  | .script => .error (.noDefaultExport program.span)
  | .module => program.exports.check program.span

/-- Where the page of the file lies in a build. -/
def Build.page (build : Build) (filename : Path) (reference : String) :
    Except Refusal Page :=
  if build.production then
    match build.platform with
    | some .ios => .ok (.iosBundle reference)
    | some .android => .ok (.androidAsset reference)
    | platform => .error (.unsupportedPlatform platform)
  else
    .ok (.devServer (Utf8.lossy (filename.fileName?.getD [])) reference)

/-- The members of the metadata, which have to be an object. -/
def Workspace.members (workspace : Workspace) :
    Except Refusal (List (String × Json)) :=
  match workspace.metadata with
  | .object members => .ok members
  | _ => .error .metadataNotObject

/-- Replaces the body of a marked program by its proxy and publishes the
identity of the file. -/
def rewrite (build : Build) : RewriteM Outcome := do
  if build.isWeb then
    record .skippedOnWeb
    return .untouched
  unless (← get).program.hasDirective do
    return .untouched
  let filename ← (← get).usableFilename
  (← get).program.checkExports
  let reference ← Identity.ofPath filename build.cwd
  let page ← build.page filename reference
  let members ← (← get).members
  modify fun workspace =>
    { workspace with
      program := { workspace.program with body := page.proxyBody }
      metadata := .object
        (Json.setMember referenceKey (.string reference) members) }
  record (.rewrote build.production reference)
  return .rewritten reference

def Workspace.rewrite (workspace : Workspace) (build : Build) :
    Except Refusal Outcome × Workspace :=
  (WebviewProxy.rewrite build).run.run workspace

end WebviewProxy
