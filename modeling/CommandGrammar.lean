import CommandGrammar.Files.Listing
import CommandGrammar.Main
import CommandGrammar.Proofs.Call.Invocation
import CommandGrammar.Proofs.Call.Numbering
import CommandGrammar.Proofs.Grammar.Closed
import CommandGrammar.Proofs.Grammar.WellFormed
import CommandGrammar.Proofs.Header.Contents
import CommandGrammar.Proofs.Header.Decoder
import CommandGrammar.Proofs.Header.Legible
import CommandGrammar.Proofs.Header.Lossless
import CommandGrammar.Proofs.Header.Reader
import CommandGrammar.Proofs.Header.RoundTrip
import CommandGrammar.Proofs.Machine.Basic
import CommandGrammar.Proofs.Machine.Simulation
import CommandGrammar.Proofs.OrderedMap
import CommandGrammar.Proofs.Outcome
import CommandGrammar.Proofs.Places
import CommandGrammar.Proofs.Tables.Acceptance
import CommandGrammar.Proofs.Tables.Build
import CommandGrammar.Proofs.Tables.Consistency
import CommandGrammar.Proofs.Tables.Damage
import CommandGrammar.Proofs.Text.OneLine
import CommandGrammar.Proofs.Text.Segments
import CommandGrammar.Sample
import CommandGrammar.Session
import CommandGrammar.Survey
import CommandGrammar.Proofs.Joining.Role
import CommandGrammar.Proofs.Grammar.Forms
import CommandGrammar.Proofs.Grammar.Reading
import CommandGrammar.Proofs.Grammar.Language
import CommandGrammar.Proofs.Grammar.Canonical
import CommandGrammar.Proofs.Grammar.ReadBack
import CommandGrammar.Proofs.Tables.LineNumbers
import CommandGrammar.Proofs.Recompilation
import CommandGrammar.Proofs.Call.Arguments
import CommandGrammar.Proofs.Call.DebugMessage
import CommandGrammar.Proofs.Call.Resolution
import CommandGrammar.Proofs.Header.Agreement
import CommandGrammar.Proofs.Joining.Kept
import CommandGrammar.Proofs.Joining.Idempotent
import CommandGrammar.Proofs.Joining.Lazy
import CommandGrammar.Proofs.Grammar.FirstFault
import CommandGrammar.Proofs.Grammar.Grouping
import CommandGrammar.Proofs.Call.OneCall
import CommandGrammar.Proofs.Grammar.Renumbering
import CommandGrammar.Proofs.InsertedLine
import CommandGrammar.Proofs.Command.Run
import CommandGrammar.Proofs.Command.Verdict
import CommandGrammar.Proofs.Compilation
import CommandGrammar.Proofs.Files.Path
import CommandGrammar.Proofs.Files.Tree
import CommandGrammar.Proofs.Command.Footprint
import CommandGrammar.Proofs.Tables.Conventions
import CommandGrammar.Proofs.Logged
import CommandGrammar.Proofs.Tables.Renumbering
import CommandGrammar.Proofs.Call.Order
import CommandGrammar.Proofs.Call.Occurrences
import CommandGrammar.Proofs.Call.PrintFormat
import CommandGrammar.Proofs.Call.Context
import CommandGrammar.Proofs.Header.Escaping
import CommandGrammar.Proofs.Header.Layout
import CommandGrammar.Proofs.Grammar.Pointing
import CommandGrammar.Proofs.Grammar.Editing
import CommandGrammar.Proofs.Command.Newlines
import CommandGrammar.Proofs.Agree
import CommandGrammar.Proofs.Session
