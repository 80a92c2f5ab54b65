import DaConcept.Crypto.Decoder
import DaConcept.Crypto.Malleable
import DaConcept.Node.Announce
import DaConcept.Node.Backlog
import DaConcept.Node.Boot
import DaConcept.Node.Client
import DaConcept.Node.Spread
import DaConcept.Node.Deletion
import DaConcept.Node.Exchange
import DaConcept.Node.Delivery
import DaConcept.Node.Listing
import DaConcept.Node.Loaders
import DaConcept.Node.Ownership
import DaConcept.Node.Privacy
import DaConcept.Node.Progress
import DaConcept.Node.Reach
import DaConcept.Node.Record
import DaConcept.Node.Stored
import DaConcept.Node.Tracking
