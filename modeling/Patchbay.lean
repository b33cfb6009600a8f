import Patchbay.Main
import Patchbay.Submission
import Patchbay.Group.Collapse
import Patchbay.Proofs.Sequencing.LinkIds
import Patchbay.Proofs.Sequencing.LastNode
import Patchbay.Proofs.Sequencing.Slots
import Patchbay.Proofs.Sequencing.Weave
import Patchbay.Proofs.Sequencing.RoundTrip
import Patchbay.Proofs.Sequencing.Hanging
import Patchbay.Proofs.Sequencing.Woven
import Patchbay.Proofs.Sequencing.Compaction
import Patchbay.Proofs.Sequencing.Canonical
import Patchbay.Proofs.Sequencing.Widgets
import Patchbay.Proofs.Sequencing.Runtime
import Patchbay.Proofs.Sequencing.Chain
import Patchbay.Proofs.Sequencing.Chained
import Patchbay.Proofs.Sequencing.Sewing
import Patchbay.Proofs.Sequencing.Successors
import Patchbay.Proofs.Sequencing.Contest
import Patchbay.Proofs.Graph.DataSlots
import Patchbay.Proofs.Sequencing.Migration
import Patchbay.Proofs.Ordering.Placing
import Patchbay.Proofs.Ordering.Schedule
import Patchbay.Proofs.Ordering.Queue
import Patchbay.Proofs.Ordering.Reach
import Patchbay.Proofs.Ordering.LegacyOrder
import Patchbay.Proofs.Ordering.FeedOrder
import Patchbay.Proofs.Graph.Loading
import Patchbay.Proofs.Graph.Slots
import Patchbay.Proofs.Graph.Wired
import Patchbay.Proofs.Graph.Nodes
import Patchbay.Proofs.Graph.Sound
import Patchbay.Proofs.Graph.Bare
import Patchbay.Proofs.Graph.Forwards
import Patchbay.Proofs.Graph.Reroute
import Patchbay.Proofs.Graph.Edits
import Patchbay.Proofs.Group.Exposure
import Patchbay.Proofs.Group.MemberIds
import Patchbay.Proofs.Group.Members
import Patchbay.Proofs.Primitive.Writes
import Patchbay.Proofs.Primitive.Pass
import Patchbay.Proofs.Compiler.Normalization
import Patchbay.Proofs.Compiler.Snapshot
import Patchbay.Proofs.Compiler.Agreement
import Patchbay.Proofs.Compiler.Serialization
import Patchbay.Proofs.Compiler.Extensions
import Patchbay.Proofs.Extension.Interleaving
import Patchbay.Proofs.Graph.Keyed
import Patchbay.Proofs.Group.Instance
import Patchbay.Proofs.Group.Run
import Patchbay.Proofs.Group.Replacement
import Patchbay.Proofs.Group.Containment
import Patchbay.Proofs.Group.Rounds
import Patchbay.Proofs.Group.Boundary
import Patchbay.Proofs.Group.InnerLinks
import Patchbay.Proofs.Group.Stages
import Patchbay.Proofs.Group.Rewiring
import Patchbay.Proofs.Group.Collapse
import Patchbay.Proofs.Group.Sketch
import Patchbay.Proofs.Group.Account
import Patchbay.Proofs.Group.Settling
import Patchbay.Proofs.Group.DataLinks
import Patchbay.Proofs.Group.Returning
import Patchbay.Proofs.Submission.Seeds
import Patchbay.Proofs.Submission.Runs
import Patchbay.Proofs.Stored.Values
import Patchbay.Proofs.Stored.Preservation
import Patchbay.Proofs.Stored.Objects
import Patchbay.Proofs.Stored.Documents
import Patchbay.Proofs.Stored.Lexemes
import Patchbay.Proofs.Stored.Text
import Patchbay.Proofs.Stored.Rereading
import Patchbay.Proofs.Stored.Records
import Patchbay.Proofs.Stored.Clean
import Patchbay.Proofs.Stored.Conversion
import Patchbay.Proofs.Reordering.Alike
import Patchbay.Proofs.Reordering.Writes
import Patchbay.Proofs.Reordering.Shuffles
import Patchbay.Proofs.Reordering.Carried
import Patchbay.Proofs.Reordering.Runtime
import Patchbay.Proofs.Reordering.Compile
import Patchbay.Proofs.Prompt.Idle
import Patchbay.Proofs.Prompt.Muted
import Patchbay.Proofs.Prompt.Detour
import Patchbay.Proofs.Prompt.Walks
import Patchbay.Proofs.Prompt.Shortcut
import Patchbay.Proofs.Ordering.Greedy
import Patchbay.Proofs.Ordering.ReadyHeap
import Patchbay.Proofs.Primitive.Supply
import Patchbay.Proofs.Group.Layout
import Patchbay.Proofs.Group.Entrances
import Patchbay.Proofs.Group.Handover
import Patchbay.Proofs.Primitive.Cascade
import Patchbay.Proofs.Compiler.Acceptance
import Patchbay.Proofs.Sequencing.Tabulation
import Patchbay.Proofs.Prompt.Offers
import Patchbay.Proofs.Graph.Displaced
import Patchbay.Proofs.Submission.Bounds
import Patchbay.Proofs.Submission.OwnSeeds
import Patchbay.Proofs.Graph.FreshIds
import Patchbay.Proofs.Checked.Forms
import Patchbay.Proofs.Checked.Planning
import Patchbay.Proofs.Checked.Expansion
import Patchbay.Proofs.Checked.Lookup
import Patchbay.Proofs.Checked.Compile
import Patchbay.Proofs.Ordering.Search
import Patchbay.Proofs.Compiler.MissingTypes
import Patchbay.Proofs.Compiler.Sanitizing
import Patchbay.Proofs.Prompt.WireFormat
