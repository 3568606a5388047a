import PropertyGraph.Coloring
import PropertyGraph.Main
import PropertyGraph.Workspace
import PropertyGraph.Proofs.Codec
import PropertyGraph.Proofs.Codec.Varint
import PropertyGraph.Proofs.Run.Reader
import PropertyGraph.Proofs.Run.Writing
import PropertyGraph.Proofs.Run.Refinement
import PropertyGraph.Proofs.Chunk.Dispenser
import PropertyGraph.Proofs.Chunk.Pass
import PropertyGraph.Proofs.Chunk.Tally
import PropertyGraph.Proofs.Chunk.Completion
import PropertyGraph.Proofs.Chunk.Trace
import PropertyGraph.Proofs.Chunk.Run
import PropertyGraph.Proofs.Chunk.Claims
import PropertyGraph.Proofs.Coloring.Filling
import PropertyGraph.Proofs.Coloring.Slices
import PropertyGraph.Proofs.Coloring.Regroups
import PropertyGraph.Proofs.Relationship.Entries
import PropertyGraph.Proofs.Relationship.Segment
import PropertyGraph.Proofs.Relationship.ValueRuns
import PropertyGraph.Proofs.Relationship.Assembly
import PropertyGraph.Proofs.Relationship.Collection
import PropertyGraph.Proofs.Relationship.Columns
import PropertyGraph.Proofs.Relationship.Compression
import PropertyGraph.Proofs.Relationship.InOrder
import PropertyGraph.Proofs.Run.Probe
import PropertyGraph.Proofs.Run.Probes
import PropertyGraph.Proofs.Triangle.Count
import PropertyGraph.Proofs.Triangle.Restriction
import PropertyGraph.Proofs.Triangle.Enumeration
import PropertyGraph.Proofs.Triangle.External
import PropertyGraph.Proofs.Triangle.Producing
import PropertyGraph.Proofs.Triangle.Stream
import PropertyGraph.Proofs.Triangle.Cliques
import PropertyGraph.Proofs.View.Visitor
import PropertyGraph.Proofs.View.Projection
import PropertyGraph.Proofs.NameMap
import PropertyGraph.Proofs.Node.NodeSet
import PropertyGraph.Proofs.Node.Numbering
import PropertyGraph.Proofs.Node.IdMap
import PropertyGraph.Proofs.Node.Calls
import PropertyGraph.Proofs.Node.Subset
import PropertyGraph.Proofs.Node.Renumbering
import PropertyGraph.Proofs.Relationship.Built
import PropertyGraph.Proofs.Relationship.Symmetry
import PropertyGraph.Proofs.View.Part
import PropertyGraph.Proofs.Store.Catalog
import PropertyGraph.Proofs.Store.Course
import PropertyGraph.Proofs.Store.Mutation
import PropertyGraph.Proofs.Store.Properties
import PropertyGraph.Proofs.View.View
import PropertyGraph.Proofs.Store.Assembly
import PropertyGraph.Proofs.Store.Reachable
import PropertyGraph.Proofs.Store.Select
import PropertyGraph.Proofs.Store.Account
import PropertyGraph.Proofs.Store.Deletion
import PropertyGraph.Proofs.Store.Selection
import PropertyGraph.Proofs.View.Queries
import PropertyGraph.Proofs.Store.Coherent
import PropertyGraph.Proofs.Loader.Pending
import PropertyGraph.Proofs.Loader.Rows
import PropertyGraph.Proofs.Loader.Success
import PropertyGraph.Proofs.Loader.Loaded
import PropertyGraph.Proofs.Loader.Loading
import PropertyGraph.Proofs.Loader.Values
import PropertyGraph.Proofs.Store.NodeProperties
import PropertyGraph.Proofs.Store.NodeColumns
import PropertyGraph.Proofs.Store.Uniform
import PropertyGraph.Proofs.Store.Availability
import PropertyGraph.Proofs.Store.Consistent
import PropertyGraph.Proofs.Store.Parallel
import PropertyGraph.Proofs.View.Outside
import PropertyGraph.Proofs.Store.Resolution
import PropertyGraph.Proofs.Loader.Build
import PropertyGraph.Proofs.Loader.Recount
import PropertyGraph.Proofs.Loader.Triangles
import PropertyGraph.Proofs.Loader.NodeColumns
import PropertyGraph.Proofs.Loader.Resolution
import PropertyGraph.Proofs.Codec.Series
import PropertyGraph.Proofs.Transcript
import PropertyGraph.Proofs.Text
import PropertyGraph.Proofs.Loader.Calls
import PropertyGraph.Proofs.Loader.Reading
import PropertyGraph.Proofs.Loader.Import
import PropertyGraph.Proofs.View.Calls
