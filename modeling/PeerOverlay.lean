import PeerOverlay.Main
import PeerOverlay.Sink.Memory
import PeerOverlay.Proofs.Topology.SimpleGraph
import PeerOverlay.Proofs.Topology.Lattice
import PeerOverlay.Proofs.Topology.Rewiring
import PeerOverlay.Proofs.Topology.SmallWorld
import PeerOverlay.Proofs.Topology.Unrewired
import PeerOverlay.Proofs.Outcome
import PeerOverlay.Proofs.Ports.Capacity
import PeerOverlay.Proofs.Configurator
import PeerOverlay.Proofs.Generation.Build
import PeerOverlay.Proofs.Generation.Addressing
import PeerOverlay.Proofs.Generation.Failure
import PeerOverlay.Proofs.Generation.Isolation
import PeerOverlay.Proofs.Host
import PeerOverlay.Proofs.Endpoint
import PeerOverlay.Proofs.Artifact.Settings
import PeerOverlay.Proofs.Artifact.Assignments
import PeerOverlay.Proofs.Artifact.PerNodeKeys
import PeerOverlay.Proofs.FileTree.Lookup
import PeerOverlay.Proofs.FileTree.Making
import PeerOverlay.Proofs.Text.Numeral
import PeerOverlay.Proofs.Artifact.FileName
import PeerOverlay.Proofs.Sink.Directory
import PeerOverlay.Proofs.Generation.Directory
import PeerOverlay.Proofs.Generation.Leftovers
import PeerOverlay.Proofs.Generation.Fresh
import PeerOverlay.Proofs.FileTree.Way
import PeerOverlay.Proofs.Generation.Calls
import PeerOverlay.Proofs.Generation.Refusals
import PeerOverlay.Proofs.Json.Grammar
import PeerOverlay.Proofs.Json.Printing
import PeerOverlay.Proofs.Artifact.JsonText
import PeerOverlay.Proofs.Artifact.Agreement
import PeerOverlay.Proofs.Calendar
import PeerOverlay.Proofs.FileTree.Moving
import PeerOverlay.Proofs.LogArchive.Filing
import PeerOverlay.Proofs.LogArchive.Keeping
import PeerOverlay.Proofs.Configurator.Pulls
import PeerOverlay.Proofs.Sink.Agreement
import PeerOverlay.Proofs.Sink.Clearing
import PeerOverlay.Proofs.Endpoint.Grammar
import PeerOverlay.Proofs.Ports.Allocation
import PeerOverlay.Proofs.Endpoint.Rereading
import PeerOverlay.Proofs.Generation.NeighborText
import PeerOverlay.Proofs.LogArchive.LogDate
import PeerOverlay.Proofs.Config.Layers
import PeerOverlay.Proofs.FileTree.Removing
import PeerOverlay.Proofs.Cleanup
import PeerOverlay.Proofs.LogArchive.Listing
import PeerOverlay.Proofs.Topology.Views
import PeerOverlay.Proofs.Topology.Searching
import PeerOverlay.Proofs.CommandLine.Requests
import PeerOverlay.Proofs.CommandLine.Parsing
import PeerOverlay.Proofs.Yaml.Documents
import PeerOverlay.Proofs.Yaml.Readers
import PeerOverlay.Proofs.Yaml.Records
import PeerOverlay.Proofs.Config.Sections
import PeerOverlay.Proofs.Config.Documents
