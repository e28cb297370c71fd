import Graft.Main
import Graft.Json.Parser
import Graft.Proofs.Entries
import Graft.Proofs.Path.Step
import Graft.Proofs.Path.Walk
import Graft.Proofs.Path.Agree
import Graft.Proofs.Path.Growth
import Graft.Proofs.Path.Creation
import Graft.Proofs.Path.Place
import Graft.Proofs.Node.Tree
import Graft.Proofs.Node.Convert
import Graft.Proofs.Identity
import Graft.Proofs.Rule.Copy
import Graft.Proofs.Rule.Effect
import Graft.Proofs.Rule.Order
import Graft.Proofs.Rule.Invariant
import Graft.Proofs.Rule.Verdict
import Graft.Proofs.Rule.Members
import Graft.Proofs.Number.Decimal
import Graft.Proofs.Number.RoundTrip
import Graft.Proofs.Node.RoundTrip
import Graft.Proofs.Rule.Composed
import Graft.Proofs.Node.Loaded
import Graft.Proofs.Node.Keys
import Graft.Proofs.Path.Grammar
import Graft.Proofs.Rule.Step
import Graft.Proofs.Rule.Default
import Graft.Proofs.Rule.Account
import Graft.Proofs.Rule.Unwritten
import Graft.Proofs.Text.Cut
import Graft.Proofs.Rule.Splice
import Graft.Proofs.Rule.Written
import Graft.Proofs.Path.Compose
import Graft.Proofs.Path.Position
import Graft.Proofs.Rule.Naming
import Graft.Proofs.Rule.Carry
import Graft.Proofs.Rule.Refine
import Graft.Proofs.Stream
import Graft.Proofs.Config
