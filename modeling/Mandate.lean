import Mandate.Action
import Mandate.Author
import Mandate.Author.Document
import Mandate.Batch
import Mandate.Batch.Document
import Mandate.Bytes
import Mandate.Decimal.Shortest
import Mandate.Format
import Mandate.Identity
import Mandate.Json.Error
import Mandate.Json.Literal
import Mandate.Json.Number
import Mandate.Json.Outline
import Mandate.Json.Printer
import Mandate.Json.Reader
import Mandate.Json.Record
import Mandate.Json.Token
import Mandate.Json.Value
import Mandate.Owner
import Mandate.Owner.Factory
import Mandate.Owner.Order
import Mandate.Proofs.Author.Outcome
import Mandate.Proofs.Batch.Building
import Mandate.Proofs.Bytes.Number
import Mandate.Proofs.Decoder.Reads
import Mandate.Proofs.Decoder.Repetition
import Mandate.Proofs.Decoder.Stable
import Mandate.Proofs.Document.Agreement
import Mandate.Proofs.Document.FirstRejected
import Mandate.Proofs.Document.Numbers
import Mandate.Proofs.Document.Rejection
import Mandate.Proofs.Document.Repeated
import Mandate.Proofs.Document.RoundTrip
import Mandate.Proofs.Document.Spelling
import Mandate.Proofs.Format.ByteStrings
import Mandate.Proofs.Format.Capacity
import Mandate.Proofs.Format.FirstFailure
import Mandate.Proofs.Format.RoundTrip
import Mandate.Proofs.Format.Shortest
import Mandate.Proofs.Format.Size
import Mandate.Proofs.Format.Spelling
import Mandate.Proofs.Format.Stability
import Mandate.Proofs.Format.Texts
import Mandate.Proofs.Format.Truncation
import Mandate.Proofs.Hex.Digits
import Mandate.Proofs.Hex.Number
import Mandate.Proofs.Hex.Outcome
import Mandate.Proofs.Identity.Text
import Mandate.Proofs.Json.Agreement
import Mandate.Proofs.Json.Layout
import Mandate.Proofs.Json.Members
import Mandate.Proofs.Json.Natural
import Mandate.Proofs.Json.Opened
import Mandate.Proofs.Json.Outline
import Mandate.Proofs.Json.Place
import Mandate.Proofs.Json.Printed
import Mandate.Proofs.Json.Reached
import Mandate.Proofs.Json.Repeated
import Mandate.Proofs.Json.Shape
import Mandate.Proofs.Length.Forms
import Mandate.Proofs.Length.Outcome
import Mandate.Proofs.Owner.Agreement
import Mandate.Proofs.Owner.Factory
import Mandate.Proofs.Owner.Order
import Mandate.Proofs.Owner.Recovery
import Mandate.Proofs.Owner.Retagging
import Mandate.Proofs.Session.Fifo
import Mandate.Proofs.Text.Order
import Mandate.Proofs.Utf8.Exact
import Mandate.Proofs.Utf8.Forms
import Mandate.Proofs.Utf8.Outcome
import Mandate.Sampling
import Mandate.Scheme
import Mandate.Session
import Mandate.Text.Hex
import Mandate.Text.Printable
import Mandate.Text.Quoted
import Mandate.Text.Utf8
import Mandate.Text.Utf8.Lemmas
import Mandate.Wire.Decoder
import Mandate.Wire.Error
import Mandate.Wire.Field
import Mandate.Wire.Length
import Mandate.Wire.Sink
