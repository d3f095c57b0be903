import BinaryPatch.Address
import BinaryPatch.Body
import BinaryPatch.Bytes
import BinaryPatch.Catalog.Basic
import BinaryPatch.Catalog.Builtin
import BinaryPatch.Catalog.Json
import BinaryPatch.Catalog.Order
import BinaryPatch.Catalog.Validate
import BinaryPatch.Command.Arguments
import BinaryPatch.Command.Console
import BinaryPatch.Command.FileSystem
import BinaryPatch.Command.Run
import BinaryPatch.Config
import BinaryPatch.Engine
import BinaryPatch.Fault
import BinaryPatch.Hex
import BinaryPatch.Image.Basic
import BinaryPatch.Image.Container
import BinaryPatch.Image.Slice
import BinaryPatch.Inspection
import BinaryPatch.Json.Decode
import BinaryPatch.Json.Printer
import BinaryPatch.Json.Reader
import BinaryPatch.Json.Value
import BinaryPatch.Pattern.Basic
import BinaryPatch.Pattern.Search
import BinaryPatch.Pattern.Text
import BinaryPatch.Platform
import BinaryPatch.Resolution.Attempt
import BinaryPatch.Resolution.CrossCheck
import BinaryPatch.Resolution.Report
import BinaryPatch.Resolution.Run
import BinaryPatch.Resolution.Search
import BinaryPatch.RestorePoint
import BinaryPatch.Text.Blank
import BinaryPatch.Text.Layout
import BinaryPatch.Text.Numeral
import BinaryPatch.Timestamp
import BinaryPatch.Toml.Reader
import BinaryPatch.Toml.Value
import BinaryPatch.Transaction.Basic
import BinaryPatch.Transaction.Commit
import BinaryPatch.Main
import BinaryPatch.Proofs.Bytes
import BinaryPatch.Proofs.Outcome
import BinaryPatch.Proofs.Universal
import BinaryPatch.Proofs.Search
import BinaryPatch.Proofs.Scan
import BinaryPatch.Proofs.Overlay
import BinaryPatch.Proofs.Catalog
import BinaryPatch.Proofs.Findings
import BinaryPatch.Proofs.Withdrawal
import BinaryPatch.Proofs.Locate
import BinaryPatch.Proofs.Report
import BinaryPatch.Proofs.ReportCap
import BinaryPatch.Proofs.Rounds
import BinaryPatch.Proofs.Attempts
import BinaryPatch.Proofs.DerivationOrder
import BinaryPatch.Proofs.RuleOrder
import BinaryPatch.Proofs.Components
import BinaryPatch.Proofs.Confinement
import BinaryPatch.Proofs.Ambiguity
import BinaryPatch.Proofs.PatchedForm
import BinaryPatch.Proofs.FuzzyWindow
import BinaryPatch.Proofs.Staging
import BinaryPatch.Proofs.Transaction
import BinaryPatch.Proofs.Apply
import BinaryPatch.Proofs.Plan
import BinaryPatch.Proofs.Progress
import BinaryPatch.Proofs.Authorization
import BinaryPatch.Proofs.Hex
import BinaryPatch.Proofs.Address
import BinaryPatch.Proofs.Undo
import BinaryPatch.Proofs.Json
import BinaryPatch.Proofs.CatalogDocument
import BinaryPatch.Proofs.Timestamp
import BinaryPatch.Proofs.RestorePoint
import BinaryPatch.Proofs.Requests
import BinaryPatch.Proofs.Coverage
import BinaryPatch.Proofs.Inspection
import BinaryPatch.Proofs.Command
import BinaryPatch.Proofs.Building
import BinaryPatch.Proofs.BodyOrder
import BinaryPatch.Proofs.Validation
import BinaryPatch.Proofs.Idempotence
import BinaryPatch.Proofs.Grammar
import BinaryPatch.Proofs.ReadBack
import BinaryPatch.Proofs.Splicing
import BinaryPatch.Proofs.Detection
