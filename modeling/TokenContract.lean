import TokenContract.Main
import TokenContract.Proofs.Catalog.Soundness
import TokenContract.Proofs.Plan.Selection
import TokenContract.Proofs.Grouped
import TokenContract.Proofs.Sorting
import TokenContract.Proofs.Plan.Setters
import TokenContract.Proofs.Plan.Contributors
import TokenContract.Proofs.Plan.Coherence
import TokenContract.Proofs.Positions
import TokenContract.Proofs.Plan.Cycles
import TokenContract.Proofs.Plan.Dataflow
import TokenContract.Proofs.Plan.Supply
import TokenContract.Proofs.Plan.Administration
import TokenContract.Proofs.Dict
import TokenContract.Proofs.Feature.Output
import TokenContract.Proofs.Source.Agreement
import TokenContract.Proofs.Number.Gaps
import TokenContract.Proofs.Number.Shortest
import TokenContract.Proofs.Number.Text
import TokenContract.Proofs.Json.Compact
import TokenContract.Proofs.Spec.Alike
import TokenContract.Proofs.Generation.Alike
import TokenContract.Proofs.History.Transparency
import TokenContract.Proofs.History.Retention
import TokenContract.Proofs.Address
import TokenContract.Proofs.Catalog.Conformance
import TokenContract.Proofs.Generation.Outcome
import TokenContract.Proofs.Command.Outcome
import TokenContract.Proofs.Generation.Values
import TokenContract.Proofs.Generation.Timelock
import TokenContract.Proofs.Source.Completeness
import TokenContract.Proofs.Text.Breaks
import TokenContract.Proofs.Solidity.Block
import TokenContract.Proofs.Source.Outline
import TokenContract.Proofs.Solidity.Literal
import TokenContract.Proofs.Generation.Naming
import TokenContract.Proofs.Solidity.Braces
import TokenContract.Proofs.Feature.Braces
import TokenContract.Proofs.Source.Braces
import TokenContract.Proofs.Generation.Braces
import TokenContract.Proofs.Text.Mention
import TokenContract.Proofs.Feature.References
import TokenContract.Proofs.Generation.References
import TokenContract.Proofs.Plan.Extension
import TokenContract.Proofs.Generation.Overlay
import TokenContract.Proofs.Generation.Irrelevance
import TokenContract.Proofs.Generation.Congruence
import TokenContract.Proofs.Json.Numbers
import TokenContract.Proofs.Json.Decode
import TokenContract.Proofs.Spec.RoundTrip
import TokenContract.Proofs.Solidity.Constant
import TokenContract.Proofs.Number.Words
import TokenContract.Proofs.Spec.Supply
import TokenContract.Proofs.Text.Alike
import TokenContract.Proofs.Feature.Shares
import TokenContract.Proofs.Generation.Resupply
import TokenContract.Proofs.Generation.Supply
import TokenContract.Proofs.Text.Inset
import TokenContract.Proofs.Source.Imports
import TokenContract.Proofs.Generation.Imports
import TokenContract.Proofs.Catalog.Verification
import TokenContract.Proofs.Generation.Report
import TokenContract.Proofs.Source.Declarations
import TokenContract.Proofs.Generation.Mint
import TokenContract.Proofs.History.Agreement
import TokenContract.Proofs.Checksum
import TokenContract.Proofs.Number.Rational
import TokenContract.Proofs.Number.Steps
import TokenContract.Proofs.Feature.Counts
import TokenContract.Proofs.Generation.Lines
import TokenContract.Proofs.Generation.Rounding
import TokenContract.Proofs.Spec.Identifier
