import RecipeGraph.Ancestry
import RecipeGraph.Ancestry.Boundary
import RecipeGraph.Ancestry.Fingerprint
import RecipeGraph.Artifact
import RecipeGraph.Artifact.Wire
import RecipeGraph.Compile
import RecipeGraph.Compiler
import RecipeGraph.Edge
import RecipeGraph.Event
import RecipeGraph.Failure
import RecipeGraph.Graph
import RecipeGraph.Graph.Wire
import RecipeGraph.Json.Decoder
import RecipeGraph.Json.Draft
import RecipeGraph.Json.Fault
import RecipeGraph.Json.Form
import RecipeGraph.Json.Printer
import RecipeGraph.Json.Scanner
import RecipeGraph.Json.Value
import RecipeGraph.Kind
import RecipeGraph.Layers
import RecipeGraph.Main
import RecipeGraph.Node
import RecipeGraph.Number.Literal
import RecipeGraph.Number.Shortest
import RecipeGraph.Number.Written
import RecipeGraph.Params
import RecipeGraph.Params.Merge
import RecipeGraph.Params.Wire
import RecipeGraph.Reports
import RecipeGraph.Schedule
import RecipeGraph.Service
import RecipeGraph.Service.Media
import RecipeGraph.Service.Request
import RecipeGraph.Service.Route
import RecipeGraph.Service.Schema
import RecipeGraph.Service.Target
import RecipeGraph.Service.Wire
import RecipeGraph.Session
import RecipeGraph.Settings
import RecipeGraph.Shape
import RecipeGraph.Starter
import RecipeGraph.Store
import RecipeGraph.Summary
import RecipeGraph.Text.Digit
import RecipeGraph.Text.Order
import RecipeGraph.Text.Percent
import RecipeGraph.Text.Printable
import RecipeGraph.Text.Quoted
import RecipeGraph.Training
import RecipeGraph.Proofs.Aborting
import RecipeGraph.Proofs.Agreement
import RecipeGraph.Proofs.Ascending
import RecipeGraph.Proofs.Bindings
import RecipeGraph.Proofs.Boundaries
import RecipeGraph.Proofs.Closing
import RecipeGraph.Proofs.CompileRequest
import RecipeGraph.Proofs.Compiling
import RecipeGraph.Proofs.Consistency
import RecipeGraph.Proofs.Counted
import RecipeGraph.Proofs.Counting
import RecipeGraph.Proofs.Cycles
import RecipeGraph.Proofs.Decimals
import RecipeGraph.Proofs.Determining
import RecipeGraph.Proofs.Displacing
import RecipeGraph.Proofs.Distances
import RecipeGraph.Proofs.Documents
import RecipeGraph.Proofs.Editing
import RecipeGraph.Proofs.Equality
import RecipeGraph.Proofs.Exactness
import RecipeGraph.Proofs.Fields
import RecipeGraph.Proofs.FiniteDrafts
import RecipeGraph.Proofs.FiniteFields
import RecipeGraph.Proofs.FiniteLiterals
import RecipeGraph.Proofs.FiniteNumbers
import RecipeGraph.Proofs.Fitting
import RecipeGraph.Proofs.Freshness
import RecipeGraph.Proofs.Enduring
import RecipeGraph.Proofs.Guarding
import RecipeGraph.Proofs.Insisting
import RecipeGraph.Proofs.Lasting
import RecipeGraph.Proofs.Lineage
import RecipeGraph.Proofs.Literals
import RecipeGraph.Proofs.Loading
import RecipeGraph.Proofs.Matching
import RecipeGraph.Proofs.Meaning
import RecipeGraph.Proofs.Merging
import RecipeGraph.Proofs.Mirroring
import RecipeGraph.Proofs.Numerals
import RecipeGraph.Proofs.Ordering
import RecipeGraph.Proofs.Outcome
import RecipeGraph.Proofs.Overruling
import RecipeGraph.Proofs.Overwriting
import RecipeGraph.Proofs.Permuting
import RecipeGraph.Proofs.Printed
import RecipeGraph.Proofs.Products
import RecipeGraph.Proofs.Reachability
import RecipeGraph.Proofs.Recording
import RecipeGraph.Proofs.Redrawing
import RecipeGraph.Proofs.Refusing
import RecipeGraph.Proofs.Releasing
import RecipeGraph.Proofs.Reloading
import RecipeGraph.Proofs.Removing
import RecipeGraph.Proofs.Reordering
import RecipeGraph.Proofs.Repeating
import RecipeGraph.Proofs.Requests
import RecipeGraph.Proofs.Rereading
import RecipeGraph.Proofs.Rescanning
import RecipeGraph.Proofs.Resending
import RecipeGraph.Proofs.Resent
import RecipeGraph.Proofs.Restoring
import RecipeGraph.Proofs.Restricting
import RecipeGraph.Proofs.Results
import RecipeGraph.Proofs.Rewiring
import RecipeGraph.Proofs.Roundtrip
import RecipeGraph.Proofs.Sameness
import RecipeGraph.Proofs.Scanning
import RecipeGraph.Proofs.Scheduling
import RecipeGraph.Proofs.Seeding
import RecipeGraph.Proofs.Sessions
import RecipeGraph.Proofs.Settling
import RecipeGraph.Proofs.Shortest
import RecipeGraph.Proofs.Staleness
import RecipeGraph.Proofs.Storing
import RecipeGraph.Proofs.Striking
import RecipeGraph.Proofs.Tracking
import RecipeGraph.Proofs.Upstream
import RecipeGraph.Proofs.Verdicts
import RecipeGraph.Proofs.WellFormed
import RecipeGraph.Proofs.Writable
import RecipeGraph.Proofs.Yielding
