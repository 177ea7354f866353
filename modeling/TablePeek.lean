import TablePeek.Main
import TablePeek.SampleWriter
import TablePeek.Proofs.Guess
import TablePeek.Proofs.Loaders
import TablePeek.Proofs.AccessLog.Samples
import TablePeek.Proofs.Csv.TextColumns
import TablePeek.Proofs.Table.Invariant
import TablePeek.Proofs.Table.Previews
import TablePeek.Proofs.Table.Trips
import TablePeek.Proofs.Grid.Batching
import TablePeek.Proofs.Document.Shape
import TablePeek.Proofs.Document.Writing
import TablePeek.Proofs.Grid.Heights
import TablePeek.Proofs.Grid.Reading
import TablePeek.Proofs.Inference.Widening
import TablePeek.Proofs.Json.Order
import TablePeek.Proofs.NumberReaders
import TablePeek.Proofs.AccessLog.Draws
import TablePeek.Proofs.Json.Nested
import TablePeek.Proofs.Csv.Grammar
import TablePeek.Proofs.Csv.Splitting
import TablePeek.Proofs.Csv.Failures
import TablePeek.Proofs.Calendar
import TablePeek.Proofs.Instant
import TablePeek.Proofs.AccessLog.Times
import TablePeek.Proofs.Table.Acceptance
import TablePeek.Proofs.CommandLine.Precedence
import TablePeek.Proofs.Format
import TablePeek.Proofs.AccessLog.Period
