import Obsplan.Binary.Hex
import Obsplan.Component.Probe
import Obsplan.Main
import Obsplan.Model.Json
import Obsplan.Twin.Json
import Obsplan.Proofs.Search.Frames
import Obsplan.Proofs.Resolution.Shape
import Obsplan.Proofs.Search.Provenance
import Obsplan.Proofs.Scale.Region
import Obsplan.Proofs.Coverage.Region
import Obsplan.Proofs.Decimal.Shortest
import Obsplan.Proofs.Decimal.Text
import Obsplan.Proofs.Scale.Text
import Obsplan.Proofs.Search.Keys
import Obsplan.Proofs.Resolution.Coverage
import Obsplan.Proofs.Context.Preferences
import Obsplan.Proofs.Search.Composition
import Obsplan.Proofs.Search.Ideal
import Obsplan.Proofs.Search.Uncut
import Obsplan.Proofs.Search.Reuse
import Obsplan.Proofs.Resolution.Reuse
import Obsplan.Proofs.Coverage.Tiling
import Obsplan.Proofs.Dataflow.Unfolding
import Obsplan.Proofs.Dataflow.Faithful
import Obsplan.Proofs.Resolution.Roots
import Obsplan.Proofs.Dataflow.Coverage
import Obsplan.Proofs.Service.Plans
import Obsplan.Proofs.Candidate.Richer
import Obsplan.Proofs.Search.Total
import Obsplan.Proofs.Search.Claims
import Obsplan.Proofs.Search.Richer
import Obsplan.Proofs.Search.Exact
import Obsplan.Proofs.Resolution.Richer
import Obsplan.Proofs.Search.Asked
import Obsplan.Proofs.Dataflow.Names
import Obsplan.Proofs.Dataflow.Order
import Obsplan.Proofs.Twin.Records
import Obsplan.Proofs.Execution.Evaluation
import Obsplan.Proofs.Execution.Steps
import Obsplan.Proofs.Execution.Refinement
import Obsplan.Proofs.Dataflow.Plans
import Obsplan.Proofs.Execution.References
import Obsplan.Proofs.Binary.Codec
import Obsplan.Proofs.Observable.Definition
import Obsplan.Proofs.Scale.Binary
import Obsplan.Proofs.Value.Binary
import Obsplan.Proofs.Execution.Invariants
import Obsplan.Proofs.Twin.Binary
import Obsplan.Proofs.Twin.Loading
import Obsplan.Proofs.Service.Contexts
import Obsplan.Proofs.Search.Levels
import Obsplan.Proofs.Resolution.Depth
import Obsplan.Proofs.Twin.Growth
import Obsplan.Proofs.Execution.Traces
import Obsplan.Proofs.Execution.Provenance
import Obsplan.Proofs.Twin.Activities
import Obsplan.Proofs.Execution.Closing
import Obsplan.Proofs.Service.Traffic
import Obsplan.Proofs.Resolution.Outages
import Obsplan.Proofs.Resolution.Screening
import Obsplan.Proofs.Service.Constraints
import Obsplan.Proofs.Service.Texts
import Obsplan.Proofs.Search.Refusals
import Obsplan.Proofs.Resolution.Links
import Obsplan.Proofs.Twin.Calls
import Obsplan.Proofs.Dataflow.Widening
import Obsplan.Proofs.Dataflow.Insertion
import Obsplan.Proofs.Dataflow.Depths
import Obsplan.Proofs.Dataflow.Limits
import Obsplan.Proofs.Dataflow.Numbering
import Obsplan.Proofs.Taxonomy.Order
import Obsplan.Proofs.Catalog.Index
import Obsplan.Proofs.Candidate.Ranking
import Obsplan.Proofs.Expression.Reading
import Obsplan.Proofs.Expression.Dependencies
import Obsplan.Proofs.Observable.Grammar
import Obsplan.Proofs.Value.Equality
import Obsplan.Proofs.Context.Merging
import Obsplan.Proofs.Service.Geometry
import Obsplan.Proofs.Version.Text
import Obsplan.Proofs.Candidate.Pins
import Obsplan.Proofs.Catalog.Loading
import Obsplan.Proofs.Model.Declaration
import Obsplan.Proofs.Candidate.Namespaces
import Obsplan.Proofs.Search.Namespaces
import Obsplan.Proofs.Resolution.Declarations
import Obsplan.Proofs.Scale.Exact
import Obsplan.Proofs.Scale.Volume
import Obsplan.Proofs.Coverage.Fraction
import Obsplan.Proofs.Scale.Partition
import Obsplan.Proofs.Coverage.Slices
import Obsplan.Proofs.Search.Kept
