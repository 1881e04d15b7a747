import DocPath.Address
import DocPath.Cli.Arguments
import DocPath.Cli.Files
import DocPath.Cli.LogFilter
import DocPath.Cli.Place
import DocPath.Cli.Report
import DocPath.Cli.Run
import DocPath.Document
import DocPath.Event
import DocPath.Failure
import DocPath.Fields.Basic
import DocPath.Fields.Edit
import DocPath.Json.Basic
import DocPath.Json.Numeral
import DocPath.Json.Problem
import DocPath.Json.Quoted
import DocPath.Json.Reader
import DocPath.Json.Text
import DocPath.Json.Writer
import DocPath.Main
import DocPath.Number.Binary64
import DocPath.Number.Bits
import DocPath.Number.Decimal
import DocPath.Path.Basic
import DocPath.Path.Piece
import DocPath.Path.Read
import DocPath.Path.Scanner
import DocPath.Proofs.Absorption
import DocPath.Proofs.Agreement
import DocPath.Proofs.Arrivals
import DocPath.Proofs.Canonical
import DocPath.Proofs.Cleaning
import DocPath.Proofs.Commands
import DocPath.Proofs.Commute
import DocPath.Proofs.Composition
import DocPath.Proofs.Congruence
import DocPath.Proofs.Conversion
import DocPath.Proofs.Cursor
import DocPath.Proofs.Decimals
import DocPath.Proofs.DistinctNames
import DocPath.Proofs.Drift
import DocPath.Proofs.Effect
import DocPath.Proofs.Exactness
import DocPath.Proofs.Fields
import DocPath.Proofs.FirstFault
import DocPath.Proofs.Frames
import DocPath.Proofs.Grammar
import DocPath.Proofs.Interchange
import DocPath.Proofs.Joining
import DocPath.Proofs.Listing
import DocPath.Proofs.Logging
import DocPath.Proofs.Magnitudes
import DocPath.Proofs.Naming
import DocPath.Proofs.Nesting
import DocPath.Proofs.NumberTexts
import DocPath.Proofs.Numerals
import DocPath.Proofs.Quoted
import DocPath.Proofs.Reading
import DocPath.Proofs.Reports
import DocPath.Proofs.Residue
import DocPath.Proofs.RoundTrip
import DocPath.Proofs.Rounding
import DocPath.Proofs.Runs
import DocPath.Proofs.Sameness
import DocPath.Proofs.Scaling
import DocPath.Proofs.Sessions
import DocPath.Proofs.SetThenGet
import DocPath.Proofs.Shortest
import DocPath.Proofs.Spelling
import DocPath.Proofs.Step
import DocPath.Proofs.Traces
import DocPath.Proofs.Trees
import DocPath.Proofs.Writing
import DocPath.Session
import DocPath.Text.Alphanumeric
import DocPath.Text.Basic
import DocPath.Text.Blank
import DocPath.Text.Cut
import DocPath.Text.Integer
import DocPath.Text.Slice
import DocPath.Tree.Assignment
import DocPath.Tree.Basic
import DocPath.Tree.Fault
import DocPath.Tree.Focus
import DocPath.Tree.Lookup
import DocPath.Tree.Same
