import MapStyle.Compile.Operators.Probe
import MapStyle.Main
import MapStyle.Proofs.Reads
import MapStyle.Proofs.Compile.SideBySide
import MapStyle.Proofs.Compile.Operators
import MapStyle.Proofs.Compile.Documents
import MapStyle.Proofs.Compile.Reporting
import MapStyle.Proofs.Compile.TypeSoundness
import MapStyle.Proofs.Alike
import MapStyle.Proofs.Compile.Folding
import MapStyle.Proofs.Usability
import MapStyle.Proofs.Compile.Siblings
import MapStyle.Proofs.Compile.RejectedArguments
import MapStyle.Proofs.Interpolation.Search
import MapStyle.Proofs.StopFunction.Nesting
import MapStyle.Proofs.StopFunction.Composite
import MapStyle.Proofs.StopFunction.OwnZoom
import MapStyle.Proofs.StopFunction.Outputs
import MapStyle.Proofs.Number.Exact
import MapStyle.Proofs.Number.Real
import MapStyle.Proofs.Compile.Interpolations
import MapStyle.Proofs.Interpolation.Between
import MapStyle.Proofs.StopFunction.Exponential
import MapStyle.Proofs.StopFunction.AsInterpolation
import MapStyle.Proofs.StopFunction.ParsedKinds
import MapStyle.Proofs.StopFunction.AsGet
import MapStyle.Proofs.StopFunction.ZoomStops
import MapStyle.Proofs.Compile.Mentions
import MapStyle.Proofs.Compile.Scoping
import MapStyle.Proofs.Number.Written
import MapStyle.Proofs.Number.Shortest
import MapStyle.Proofs.Number.Bits
import MapStyle.Proofs.Number.Legible
import MapStyle.Proofs.Json.Quoting
import MapStyle.Proofs.Value.Rendering
import MapStyle.Proofs.StopFunction.Categories
import MapStyle.Proofs.Json.Numbers
import MapStyle.Proofs.StopFunction.Labels
import MapStyle.Proofs.StopFunction.Acceptance
import MapStyle.Proofs.StopFunction.Identities
import MapStyle.Proofs.StopFunction.Intervals
import MapStyle.Proofs.StopFunction.Defaults
import MapStyle.Proofs.Compile.Lookups
import MapStyle.Proofs.StopFunction.Lookups
import MapStyle.Proofs.Number.Named
import MapStyle.Proofs.Json.Reading
import MapStyle.Proofs.StopFunction.Refusals
import MapStyle.Proofs.Number.Reading
import MapStyle.Proofs.Number.Rounding
import MapStyle.Proofs.Number.Positions
import MapStyle.Proofs.Search.Bytes
import MapStyle.Proofs.Search.Places
import MapStyle.Proofs.Number.InReals
import MapStyle.Proofs.Interpolation.Ramps
import MapStyle.Proofs.StopFunction.NumberOutputs
import MapStyle.Proofs.StopFunction.ExportedZooms
import MapStyle.Proofs.Value.Equality
import MapStyle.Proofs.Comparisons
import MapStyle.Proofs.Compile.Placeless
import MapStyle.Proofs.Compile.Comparisons
import MapStyle.Proofs.StopFunction.Holding
import MapStyle.Proofs.Compile.LetForms
import MapStyle.Proofs.Number.Extended
import MapStyle.Proofs.Color.Validity
import MapStyle.Proofs.Color.Reading
import MapStyle.Proofs.Color.Blending
import MapStyle.Proofs.StopFunction.Inputs
import MapStyle.Proofs.StopFunction.Interleaving
import MapStyle.Proofs.Compile.Registration
import MapStyle.Proofs.Color.Rereading
import MapStyle.Proofs.Color.Hues
import MapStyle.Proofs.Interpolation.Matching
import MapStyle.Proofs.Value.Documents
import MapStyle.Proofs.StopFunction.Recursion
