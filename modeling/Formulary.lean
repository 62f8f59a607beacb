import Formulary.Sorting
import Formulary.Text.Blank
import Formulary.Text.Digit
import Formulary.Text.Letter
import Formulary.Text.Numeral
import Formulary.Text.Printable
import Formulary.Text.Trim
import Formulary.Text.Quoted
import Formulary.Text.Terminal
import Formulary.Number.Double
import Formulary.Number.Shortest
import Formulary.Number.Numeral
import Formulary.Number.Literal
import Formulary.Number.Notation
import Formulary.Json.Reader
import Formulary.Json.Printer
import Formulary.DataType
import Formulary.Operator
import Formulary.Signature
import Formulary.Catalog.Basic
import Formulary.Catalog.File
import Formulary.Catalog.Declaration
import Formulary.Settings.Variables
import Formulary.Settings.Load
import Formulary.Token.Span
import Formulary.Store.Basic
import Formulary.Session
import Formulary.Formula
import Formulary.Canonical
import Formulary.Structure
import Formulary.Typing.Inference
import Formulary.Check.Events
import Formulary.Command.Basic
import Formulary.Main
import Formulary.Proofs.Number.Shortest
import Formulary.Proofs.Number.Text
import Formulary.Proofs.Token.Layout
import Formulary.Proofs.Outline.Basic
import Formulary.Proofs.Outline.Scan
import Formulary.Proofs.Outline.Reread
import Formulary.Proofs.Term.Outline
import Formulary.Proofs.Term.Complete
import Formulary.Proofs.Term.Run
import Formulary.Proofs.Term.Sound
import Formulary.Proofs.Term.Marks
import Formulary.Proofs.Tree.Outline
import Formulary.Proofs.Tree.Forest
import Formulary.Proofs.Store.Alike
import Formulary.Proofs.Tree.Terms
import Formulary.Proofs.Outline.Tighten
import Formulary.Proofs.Check.Reached
import Formulary.Proofs.Check.Settled
import Formulary.Proofs.RoundTrip.Layout
import Formulary.Proofs.RoundTrip.Text
import Formulary.Proofs.Grammar.Basic
import Formulary.Proofs.Grammar.Accept
import Formulary.Proofs.RoundTrip.Store
import Formulary.Proofs.Store.Ancestors
import Formulary.Proofs.Term.Account
import Formulary.Proofs.Structure.Slots
import Formulary.Proofs.Structure.Valid
import Formulary.Proofs.Typing.Findings
import Formulary.Proofs.Typing.Vaguer
import Formulary.Proofs.Term.Limit
import Formulary.Proofs.Store.Lineage
import Formulary.Proofs.Term.Spans
import Formulary.Proofs.Typing.Codes
import Formulary.Proofs.Store.Listed
import Formulary.Proofs.Structure.Read
import Formulary.Proofs.Compose.Text
import Formulary.Proofs.RoundTrip.Limit
import Formulary.Proofs.RoundTrip.Valid
import Formulary.Proofs.RoundTrip.Recast
import Formulary.Proofs.Structure.Inert
import Formulary.Proofs.Relabel.Reordered
import Formulary.Proofs.Store.Edits
import Formulary.Proofs.RoundTrip.Names
import Formulary.Proofs.Store.InPlace
import Formulary.Proofs.Structure.Joining
import Formulary.Proofs.Store.Rebuilt
import Formulary.Proofs.Structure.Switched
import Formulary.Proofs.Compose.Spacing
import Formulary.Proofs.Token.Tiled
import Formulary.Proofs.Token.Value
import Formulary.Proofs.Typing.Enclosed
import Formulary.Proofs.Token.Written
import Formulary.Proofs.Token.Nested
import Formulary.Proofs.Store.Order
import Formulary.Proofs.Typing.Descent
import Formulary.Proofs.Structure.Offers
import Formulary.Proofs.Structure.Circles
import Formulary.Proofs.Command.Verdict
import Formulary.Proofs.Structure.Tokens
import Formulary.Proofs.Command.Standard
