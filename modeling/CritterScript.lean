import CritterScript.Board
import CritterScript.Command.Arguments
import CritterScript.Command.Files
import CritterScript.Command.Report
import CritterScript.Machine.Fault
import CritterScript.Machine.Journal
import CritterScript.Machine.Operation
import CritterScript.Machine.Run
import CritterScript.Machine.Step
import CritterScript.Main
import CritterScript.Message
import CritterScript.Names
import CritterScript.Number.Decimal
import CritterScript.Number.Exact
import CritterScript.Number.Shortest
import CritterScript.Number.Text
import CritterScript.Opcode
import CritterScript.Program
import CritterScript.Random
import CritterScript.Reference.Entry
import CritterScript.Reference.Search
import CritterScript.Registers
import CritterScript.Script.Excerpt
import CritterScript.Script.Literal
import CritterScript.Script.Mistake
import CritterScript.Script.Reading
import CritterScript.Script.Token
import CritterScript.Session
import CritterScript.Settings.Basic
import CritterScript.Settings.Moment
import CritterScript.Settings.Quoted
import CritterScript.Settings.Statement
import CritterScript.Text.Basic
import CritterScript.Text.Blank
import CritterScript.Tick
import CritterScript.Value
import CritterScript.Proofs.Budget
import CritterScript.Proofs.Conformance
import CritterScript.Proofs.Grammar
import CritterScript.Proofs.Concatenation
import CritterScript.Proofs.FaultLines
import CritterScript.Proofs.Layout
import CritterScript.Proofs.Number.Order
import CritterScript.Proofs.Number.Packing
import CritterScript.Proofs.Number.Rounding
import CritterScript.Proofs.Number.ReadBack
import CritterScript.Proofs.Disassembly
import CritterScript.Proofs.Priorities
import CritterScript.Proofs.Outbox
import CritterScript.Proofs.Ballots
import CritterScript.Proofs.Displacement
import CritterScript.Proofs.Frames
import CritterScript.Proofs.Noninterference
import CritterScript.Proofs.Votes
import CritterScript.Proofs.Rearrangement
import CritterScript.Proofs.Draws
import CritterScript.Proofs.Provenance
import CritterScript.Proofs.Renaming
import CritterScript.Proofs.Labels
import CritterScript.Proofs.LeadingJump
import CritterScript.Proofs.Presets
import CritterScript.Proofs.Listing
import CritterScript.Proofs.Runs
import CritterScript.Proofs.Tokens
import CritterScript.Proofs.Literals
import CritterScript.Proofs.Spacing
import CritterScript.Proofs.Plurality
import CritterScript.Proofs.Streams
import CritterScript.Proofs.Places
import CritterScript.Proofs.Spans
import CritterScript.Proofs.Indexing
import CritterScript.Proofs.WellFormed
import CritterScript.Proofs.Precedence
import CritterScript.Proofs.Samples
import CritterScript.Proofs.Lookup
import CritterScript.Proofs.Transcripts
