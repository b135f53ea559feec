import BoardNets.Catalog.Cache
import BoardNets.Catalog.Format
import BoardNets.Catalog.Lab
import BoardNets.Catalog.Specialisation
import BoardNets.Circuit.Build
import BoardNets.Circuit.Drawing
import BoardNets.Netlist.Synthesis
import BoardNets.Proofs.Ancillary.Agreement
import BoardNets.Proofs.Ancillary.Extension
import BoardNets.Proofs.Ancillary.Listing
import BoardNets.Proofs.Ancillary.Order
import BoardNets.Proofs.Ancillary.Series
import BoardNets.Proofs.Bus.Agreement
import BoardNets.Proofs.Bus.Drivers
import BoardNets.Proofs.Bus.Extension
import BoardNets.Proofs.Bus.Members
import BoardNets.Proofs.Bus.Partition
import BoardNets.Proofs.Bus.Repetition
import BoardNets.Proofs.Bus.Resemblance
import BoardNets.Proofs.Bus.Sources
import BoardNets.Proofs.Catalog.Cache
import BoardNets.Proofs.Catalog.Components
import BoardNets.Proofs.Catalog.Consistency
import BoardNets.Proofs.Catalog.Entries
import BoardNets.Proofs.Catalog.Format
import BoardNets.Proofs.Catalog.Linking
import BoardNets.Proofs.Catalog.Networks
import BoardNets.Proofs.Catalog.Records
import BoardNets.Proofs.Catalog.Specialisation
import BoardNets.Proofs.Circuit.Activity
import BoardNets.Proofs.Circuit.Additions
import BoardNets.Proofs.Circuit.Anchors
import BoardNets.Proofs.Circuit.Arena
import BoardNets.Proofs.Circuit.Attempts
import BoardNets.Proofs.Circuit.Building
import BoardNets.Proofs.Circuit.Confluence
import BoardNets.Proofs.Circuit.Duties
import BoardNets.Proofs.Circuit.Edits
import BoardNets.Proofs.Circuit.Extension
import BoardNets.Proofs.Circuit.Flattened
import BoardNets.Proofs.Circuit.Forest
import BoardNets.Proofs.Circuit.Frame
import BoardNets.Proofs.Circuit.Idle
import BoardNets.Proofs.Circuit.Inheritance
import BoardNets.Proofs.Circuit.Instructions
import BoardNets.Proofs.Circuit.Ledger
import BoardNets.Proofs.Circuit.Lineage
import BoardNets.Proofs.Circuit.Outline
import BoardNets.Proofs.Circuit.Owners
import BoardNets.Proofs.Circuit.Pinned
import BoardNets.Proofs.Circuit.Realisation
import BoardNets.Proofs.Circuit.Reordering
import BoardNets.Proofs.Circuit.Repetition
import BoardNets.Proofs.Circuit.Resemblance
import BoardNets.Proofs.Circuit.Resolution
import BoardNets.Proofs.Circuit.Slots
import BoardNets.Proofs.Circuit.Steady
import BoardNets.Proofs.Circuit.Tree
import BoardNets.Proofs.Circuit.Unfiltered
import BoardNets.Proofs.Circuit.Uses
import BoardNets.Proofs.Fragment.Abandoned
import BoardNets.Proofs.Fragment.Candidates
import BoardNets.Proofs.Fragment.Connections
import BoardNets.Proofs.Fragment.Deduced
import BoardNets.Proofs.Fragment.Extension
import BoardNets.Proofs.Fragment.Home
import BoardNets.Proofs.Fragment.Inference
import BoardNets.Proofs.Fragment.Pairing
import BoardNets.Proofs.Fragment.Standing
import BoardNets.Proofs.Fragment.Twins
import BoardNets.Proofs.Graph.Covers
import BoardNets.Proofs.Graph.Insertion
import BoardNets.Proofs.Graph.Order
import BoardNets.Proofs.Graph.Relocated
import BoardNets.Proofs.Id.Uuid
import BoardNets.Proofs.Json.Reader
import BoardNets.Proofs.Json.Record
import BoardNets.Proofs.Net.Alike
import BoardNets.Proofs.Net.Beside
import BoardNets.Proofs.Net.Edges
import BoardNets.Proofs.Net.Idle
import BoardNets.Proofs.Net.Names
import BoardNets.Proofs.Net.Networks
import BoardNets.Proofs.Net.Order
import BoardNets.Proofs.Net.Parallel
import BoardNets.Proofs.Net.Plan
import BoardNets.Proofs.Net.Planned
import BoardNets.Proofs.Net.Relisted
import BoardNets.Proofs.Net.Replaced
import BoardNets.Proofs.Net.Series
import BoardNets.Proofs.Net.Served
import BoardNets.Proofs.Net.Shape
import BoardNets.Proofs.Net.Unnamed
import BoardNets.Proofs.Netlist.Idle
import BoardNets.Proofs.Netlist.Outsiders
import BoardNets.Proofs.Netlist.Owned
import BoardNets.Proofs.Netlist.Partition
import BoardNets.Proofs.Netlist.Realised
import BoardNets.Proofs.Netlist.Reordered
import BoardNets.Proofs.Netlist.Repetition
import BoardNets.Proofs.Netlist.SameNames
import BoardNets.Proofs.Netlist.Straight
import BoardNets.Proofs.Sorted.Listing
import BoardNets.Proofs.Text.Hex
import BoardNets.Proofs.Text.Natural
import BoardNets.Proofs.Text.Numerals
