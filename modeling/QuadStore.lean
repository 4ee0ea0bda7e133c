import QuadStore.Main
import QuadStore.Proofs.Graph.History
import QuadStore.Proofs.Fragment.Releasing
import QuadStore.Proofs.Encoder.Locating
import QuadStore.Proofs.Encoder.Collecting
import QuadStore.Proofs.Encoder.Taking
import QuadStore.Proofs.Encoder.Removing
import QuadStore.Proofs.Encoder.Dropping
import QuadStore.Proofs.Store.Writes
import QuadStore.Proofs.Encoder.Legible
import QuadStore.Proofs.View.Vertices
import QuadStore.Proofs.View.Sites
import QuadStore.Proofs.View.Statements
import QuadStore.Proofs.View.Lists
import QuadStore.Proofs.View.Paths
import QuadStore.Proofs.Resolution
import QuadStore.Proofs.Store.Reading
import QuadStore.Proofs.Store.Contexts
import QuadStore.Proofs.Store.Deleting
import QuadStore.Proofs.Fragment.Reporting
import QuadStore.Proofs.Encoder.Reporting
import QuadStore.Proofs.Store.Texts
import QuadStore.Proofs.Store.Mixing
import QuadStore.Proofs.Quads.Spelling
import QuadStore.Proofs.Quads.Output
import QuadStore.Proofs.CommandLine.Exporting
import QuadStore.Proofs.Encoder.Roles
import QuadStore.Proofs.Fragment.Building
import QuadStore.Proofs.Statement.Json
import QuadStore.Proofs.Statement.Spelling
import QuadStore.Proofs.Store.Widening
import QuadStore.Proofs.Store.Undoing
import QuadStore.Proofs.Graph.Shrinking
import QuadStore.Proofs.Graph.Growing
import QuadStore.Proofs.Fragment.Applying
import QuadStore.Proofs.Fragment.Staging
import QuadStore.Proofs.Fragment.Refinding
import QuadStore.Proofs.Fragment.Repeating
import QuadStore.Proofs.Fragment.FirstMatch
import QuadStore.Proofs.Encoder.Tolerance
import QuadStore.Proofs.Encoder.Coherence
import QuadStore.Proofs.Store.Reports
import QuadStore.Proofs.Store.Staying
