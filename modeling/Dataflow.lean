import Dataflow.Catalogue
import Dataflow.CommandLine.Run
import Dataflow.Evaluation.Session
import Dataflow.Graph.Edit
import Dataflow.Main
import Dataflow.Ragged.Broadcast
import Dataflow.Registry
import Dataflow.Settings
import Dataflow.Snapshot.Restore
import Dataflow.Snapshot.Save
import Dataflow.Proofs.Arena
import Dataflow.Proofs.Closure
import Dataflow.Proofs.Graph.Lookup
import Dataflow.Proofs.Graph.Follows
import Dataflow.Proofs.Graph.Wired
import Dataflow.Proofs.Graph.Integrity
import Dataflow.Proofs.Evaluate
import Dataflow.Proofs.Fresh
import Dataflow.Proofs.Loops
import Dataflow.Proofs.Digits
import Dataflow.Proofs.Document.Nested
import Dataflow.Proofs.Document.Reading
import Dataflow.Proofs.Document.Snapshot
import Dataflow.Proofs.Json.Numerals
import Dataflow.Proofs.Json.Printed
import Dataflow.Proofs.Json.Shown
import Dataflow.Proofs.RoundTrip
import Dataflow.Proofs.Forest
import Dataflow.Proofs.Graph.Outlined
import Dataflow.Proofs.Intact
import Dataflow.Proofs.Calls
import Dataflow.Proofs.Reload
import Dataflow.Proofs.Canonical
import Dataflow.Proofs.Ledger
import Dataflow.Proofs.Load
import Dataflow.Proofs.Evaluation.Lockstep
import Dataflow.Proofs.Twins
import Dataflow.Proofs.Flags
import Dataflow.Proofs.Legality
import Dataflow.Proofs.Evaluation.Rested
import Dataflow.Proofs.Evaluation.Thinned
import Dataflow.Proofs.Again
import Dataflow.Proofs.Evaluation.Distance
import Dataflow.Proofs.Evaluation.Measured
import Dataflow.Proofs.Rewired
import Dataflow.Proofs.Grown
import Dataflow.Proofs.Written
import Dataflow.Proofs.Subtree
import Dataflow.Proofs.Outline
import Dataflow.Proofs.Invalidation
import Dataflow.Proofs.Effects
import Dataflow.Proofs.Ragged.Nesting
import Dataflow.Proofs.Ragged.Matched
import Dataflow.Proofs.Evaluation.Trail
import Dataflow.Proofs.Reach
import Dataflow.Proofs.Removal
import Dataflow.Proofs.Ragged.Parts
import Dataflow.Proofs.Ragged.Expanded
import Dataflow.Proofs.Ragged.Grouped
import Dataflow.Proofs.Ragged.Regrouped
import Dataflow.Proofs.Ragged.Runs
import Dataflow.Proofs.Aliases
import Dataflow.Proofs.Walks
import Dataflow.Proofs.Ragged.Reshaped
import Dataflow.Proofs.Document.Reread
import Dataflow.Proofs.Blame
import Dataflow.Proofs.Evaluation.Ending
import Dataflow.Proofs.Inserted
import Dataflow.Proofs.Refused
