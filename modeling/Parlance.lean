import Parlance.Engine.Describe
import Parlance.Main
import Parlance.Proofs.Engine.Sequel
import Parlance.Proofs.Script.Printing
import Parlance.Proofs.Script.Progress
import Parlance.Proofs.Phrase.Parts
import Parlance.Proofs.Phrase.Recast
import Parlance.Proofs.Phrase.Strings
import Parlance.Proofs.Phrase.Spacing
import Parlance.Proofs.Phrase.Canonical
import Parlance.Proofs.Engine.Growth
import Parlance.Proofs.Engine.Locality
import Parlance.Proofs.Engine.Noninterference
import Parlance.Proofs.Engine.Dispatch
import Parlance.Proofs.Token.Writing
import Parlance.Proofs.Engine.Session
import Parlance.Proofs.Engine.Binding
import Parlance.Proofs.Engine.Frame
import Parlance.Proofs.Engine.Loops
import Parlance.Proofs.Engine.Handlers
import Parlance.Proofs.Phrase.Rules
import Parlance.Proofs.Phrase.Settled
import Parlance.Proofs.Phrase.Neat
import Parlance.Proofs.Phrase.Repeated
import Parlance.Proofs.Phrase.Paths
import Parlance.Proofs.Engine.Access
import Parlance.Proofs.Value.Coercion
import Parlance.Proofs.Files.Loading
import Parlance.Proofs.Script.Locating
import Parlance.Proofs.Engine.Scoping
import Parlance.Proofs.Phrase.Passes
