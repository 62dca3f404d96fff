import WebviewProxy.Tree.Order
import WebviewProxy.Host
import WebviewProxy.Proofs.Spelling
import WebviewProxy.Proofs.OwnExports
import WebviewProxy.Proofs.Outermost
import WebviewProxy.Proofs.Prologue
import WebviewProxy.Proofs.Announcement
import WebviewProxy.Proofs.OptionsLanguage
import WebviewProxy.Proofs.Address
import WebviewProxy.Proofs.OneIdentity
import WebviewProxy.Proofs.Modes
import WebviewProxy.Proofs.Finality
import WebviewProxy.Proofs.Route
import WebviewProxy.Proofs.Basename
import WebviewProxy.Proofs.Placement
import WebviewProxy.Proofs.Collisions
import WebviewProxy.Proofs.ComponentStack
import WebviewProxy.Proofs.SelfDelimiting
