import ParseRecovery.ConfigFile
import ParseRecovery.Excerpt
import ParseRecovery.Json.Forms
import ParseRecovery.Mailbox
import ParseRecovery.Network.Builder
import ParseRecovery.Session.Operation
import ParseRecovery.Proofs.Json.Forms
import ParseRecovery.Proofs.Network.Acceptance
import ParseRecovery.Proofs.Network.Assembly
import ParseRecovery.Proofs.Network.Entering
import ParseRecovery.Proofs.Network.Labels
import ParseRecovery.Proofs.Network.Reordering
import ParseRecovery.Proofs.Session.Agreement
import ParseRecovery.Proofs.Session.Alphabet
import ParseRecovery.Proofs.Session.Bounds
import ParseRecovery.Proofs.Session.Consumption
import ParseRecovery.Proofs.Session.Delivery
import ParseRecovery.Proofs.Session.Ending
import ParseRecovery.Proofs.Session.Entering
import ParseRecovery.Proofs.Session.Failures
import ParseRecovery.Proofs.Session.Handling
import ParseRecovery.Proofs.Session.Nesting
import ParseRecovery.Proofs.Session.Placement
import ParseRecovery.Proofs.Session.Progress
import ParseRecovery.Proofs.Session.Realignment
import ParseRecovery.Proofs.Session.Repair
import ParseRecovery.Proofs.Session.Restart
import ParseRecovery.Proofs.Session.Stalls
import ParseRecovery.Proofs.Session.Windows
import ParseRecovery.Proofs.Stream.Lookahead
