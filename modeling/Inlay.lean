import Inlay.Main
import Inlay.Script
import Inlay.Proofs.Path.Normal
import Inlay.Proofs.Path.Moves
import Inlay.Proofs.Path.Standing
import Inlay.Proofs.Path.Containment
import Inlay.Proofs.Path.Growth
import Inlay.Proofs.Path.Lexical
import Inlay.Proofs.Path.Nesting
import Inlay.Proofs.Text.Slice
import Inlay.Proofs.Text.Bytes
import Inlay.Proofs.Text.Decoding
import Inlay.Proofs.Text.Number
import Inlay.Proofs.Text.Line
import Inlay.Proofs.Marker.Tiling
import Inlay.Proofs.Marker.Occurrence
import Inlay.Proofs.Marker.Stray
import Inlay.Proofs.Marker.Front
import Inlay.Proofs.Marker.Residue
import Inlay.Proofs.Marker.Juncture
import Inlay.Proofs.Marker.Padding
import Inlay.Proofs.Marker.Snippet
import Inlay.Proofs.Plan.Dialogue
import Inlay.Proofs.Plan.Meaning
import Inlay.Proofs.Plan.Task
import Inlay.Proofs.Plan.Schedule
import Inlay.Proofs.Plan.Wording
import Inlay.Proofs.Plan.Silence
import Inlay.Proofs.Plan.Ending
import Inlay.Proofs.Plan.Timing
import Inlay.Proofs.Plan.Race
import Inlay.Proofs.Plan.Account
import Inlay.Proofs.Rendering.Passes
import Inlay.Proofs.Rendering.Diagnostics
import Inlay.Proofs.Rendering.Outcome
import Inlay.Proofs.Rendering.Sequential
import Inlay.Proofs.Rendering.Cycle
import Inlay.Proofs.Rendering.Document
import Inlay.Proofs.Rendering.Termination
import Inlay.Proofs.Rendering.Ancestry
import Inlay.Proofs.Rendering.Inclusion
import Inlay.Proofs.Rendering.Prompt
import Inlay.Proofs.Rendering.Parallel
import Inlay.Proofs.Rendering.Output
import Inlay.Proofs.Plan.Trace
import Inlay.Proofs.Rendering.Stages
import Inlay.Proofs.Rendering.Outline
import Inlay.Proofs.Rendering.Journal
import Inlay.Proofs.Rendering.Timing
import Inlay.Proofs.Rendering.Race
import Inlay.Proofs.Rendering.Attribution
import Inlay.Proofs.Rendering.Layout
import Inlay.Proofs.Rendering.Settled
import Inlay.Proofs.Output.Naming
import Inlay.Proofs.Output.Writing
import Inlay.Proofs.Output.Sink
import Inlay.Proofs.Tree.Growth
import Inlay.Proofs.Tree.Entry
import Inlay.Proofs.Batch.Ledger
import Inlay.Proofs.Batch.Destination
import Inlay.Proofs.Batch.Course
import Inlay.Proofs.Batch.Ending
import Inlay.Proofs.Batch.Order
import Inlay.Proofs.Batch.Omission
import Inlay.Proofs.Batch.Collision
import Inlay.Proofs.Batch.Window
import Inlay.Proofs.Batch.Diagnostics
import Inlay.Proofs.CommandLine.Switches
import Inlay.Proofs.CommandLine.RoundTrip
import Inlay.Proofs.Settings.Document
import Inlay.Proofs.Settings.Precedence
import Inlay.Proofs.Program.Diagnostics
