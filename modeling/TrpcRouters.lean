import TrpcRouters.Compiler.Scripted
import TrpcRouters.Main
import TrpcRouters.Proofs.Path.Components
import TrpcRouters.Proofs.OutputTree
import TrpcRouters.Proofs.Import.Walk
import TrpcRouters.Proofs.ConnectQuery.Modules
import TrpcRouters.Proofs.Text.SortedSet
import TrpcRouters.Proofs.Import.Resolution
import TrpcRouters.Proofs.Descriptor.Paths
import TrpcRouters.Proofs.Descriptor.Resolution
import TrpcRouters.Proofs.Text.Utf8
import TrpcRouters.Proofs.Wire.Encoding
import TrpcRouters.Proofs.Wire.RoundTrip
import TrpcRouters.Proofs.Descriptor.RoundTrip
import TrpcRouters.Proofs.Router.Identity
import TrpcRouters.Proofs.Router.Capture
import TrpcRouters.Proofs.ConnectQuery.Exports
import TrpcRouters.Proofs.FileTree.Growth
import TrpcRouters.Proofs.FileTree.Following
import TrpcRouters.Proofs.FileTree.Resolve
import TrpcRouters.Proofs.Path.Names
import TrpcRouters.Proofs.Path.Absolute
import TrpcRouters.Proofs.FileTree.Write
import TrpcRouters.Proofs.FileTree.Below
import TrpcRouters.Proofs.FileTree.Walk
import TrpcRouters.Proofs.Declaration.Pass
import TrpcRouters.Proofs.Discovery
import TrpcRouters.Proofs.FileTree.Scratch
import TrpcRouters.Proofs.FileTree.Opening
import TrpcRouters.Proofs.FileTree.Overlay
import TrpcRouters.Proofs.FileTree.Visit
import TrpcRouters.Proofs.Declaration.Adapt
import TrpcRouters.Proofs.Declaration.Rewriting
import TrpcRouters.Proofs.Rediscovery
import TrpcRouters.Proofs.Job
import TrpcRouters.Proofs.Generation.Stages
import TrpcRouters.Proofs.Generation.Scene
import TrpcRouters.Proofs.Generation.Call
import TrpcRouters.Proofs.Generation.Placement
import TrpcRouters.Proofs.Generation.Containment
import TrpcRouters.Proofs.Generation.Emitted
import TrpcRouters.Proofs.Generation.Writing
import TrpcRouters.Proofs.Generation.Composition
import TrpcRouters.Proofs.Generation.Postcondition
import TrpcRouters.Proofs.Wire.Concatenation
import TrpcRouters.Proofs.Descriptor.Concatenation
import TrpcRouters.Proofs.Router.Duplicate
import TrpcRouters.Proofs.FileTree.Folder
import TrpcRouters.Proofs.Generation.Routers
import TrpcRouters.Proofs.Router.Scope
import TrpcRouters.Proofs.Text.Json
import TrpcRouters.Proofs.Router.Factory
import TrpcRouters.Proofs.Text.Utf16
import TrpcRouters.Proofs.Wire.Spelling
import TrpcRouters.Proofs.Wire.Truncation
import TrpcRouters.Proofs.Descriptor.Truncation
import TrpcRouters.Proofs.Descriptor.Padding
import TrpcRouters.Proofs.Descriptor.Order
import TrpcRouters.Proofs.Declaration.Likeness
import TrpcRouters.Proofs.FileTree.Abreast
import TrpcRouters.Proofs.FileTree.Stops
import TrpcRouters.Proofs.Generation.Beside
import TrpcRouters.Proofs.Generation.ConnectOnly
import TrpcRouters.Proofs.Declaration.Occurrences
import TrpcRouters.Proofs.Path.Order
import TrpcRouters.Proofs.FileTree.Order
import TrpcRouters.Proofs.Declaration.Changes
import TrpcRouters.Proofs.FileTree.Spelling
import TrpcRouters.Proofs.Watch.Snapshot
import TrpcRouters.Proofs.Watch.Session
import TrpcRouters.Proofs.FileTree.Trail
import TrpcRouters.Proofs.Undisturbed
import TrpcRouters.Proofs.Generation.Unseen
import TrpcRouters.Proofs.Router.Imports
import TrpcRouters.Proofs.Compiler.ImportRoots
import TrpcRouters.Proofs.FileTree.Written
import TrpcRouters.Proofs.ConnectQuery.Partition
import TrpcRouters.Proofs.FileTree.Listing
import TrpcRouters.Proofs.Discovery.Canonical
import TrpcRouters.Proofs.ConnectQuery.Bindings
import TrpcRouters.Proofs.Import.Relative
import TrpcRouters.Proofs.Compiler.Arguments
import TrpcRouters.Proofs.Discovery.Names
import TrpcRouters.Proofs.Compiler.SearchPath
import TrpcRouters.Proofs.CommandLine.Verbs
import TrpcRouters.Proofs.Identifier.NormalForm
