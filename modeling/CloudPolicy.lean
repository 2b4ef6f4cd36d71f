import CloudPolicy.Catalog
import CloudPolicy.Codec.Document
import CloudPolicy.Codec.Settings
import CloudPolicy.Explain
import CloudPolicy.FileTree
import CloudPolicy.Glob
import CloudPolicy.Json
import CloudPolicy.Keyed
import CloudPolicy.Logging
import CloudPolicy.Main
import CloudPolicy.Maintenance.Command
import CloudPolicy.Proofs.Catalog.Builtin
import CloudPolicy.Proofs.Catalog.Resources
import CloudPolicy.Proofs.Codec.Managed
import CloudPolicy.Proofs.Codec.Ranges
import CloudPolicy.Proofs.Codec.Rearranged
import CloudPolicy.Proofs.Codec.Record
import CloudPolicy.Proofs.Codec.Report
import CloudPolicy.Proofs.Codec.State
import CloudPolicy.Proofs.Evaluation.Block
import CloudPolicy.Proofs.Evaluation.Isolation
import CloudPolicy.Proofs.Evaluation.Schedule
import CloudPolicy.Proofs.Fingerprint
import CloudPolicy.Proofs.Ignore
import CloudPolicy.Proofs.Json.Paths
import CloudPolicy.Proofs.Json.ReadBack
import CloudPolicy.Proofs.Json.Scalar
import CloudPolicy.Proofs.Maintenance
import CloudPolicy.Proofs.Metadata
import CloudPolicy.Proofs.Registry
import CloudPolicy.Proofs.Report.Masked
import CloudPolicy.Proofs.Result
import CloudPolicy.Proofs.Rule
import CloudPolicy.Proofs.Scan.Consistency
import CloudPolicy.Proofs.Scan.Ignores
import CloudPolicy.Proofs.Scan.Nodes
import CloudPolicy.Proofs.Scan.ResourceOrder
import CloudPolicy.Proofs.Scan.Selection
import CloudPolicy.Proofs.ScanRun
import CloudPolicy.Proofs.Schema
import CloudPolicy.Proofs.Settings.ReadBack
import CloudPolicy.Proofs.Settings.Resolution
import CloudPolicy.Proofs.SourcePath
import CloudPolicy.Proofs.Text
import CloudPolicy.Proofs.Time
import CloudPolicy.Registry
import CloudPolicy.Report
import CloudPolicy.Result
import CloudPolicy.Rule
import CloudPolicy.Scan
import CloudPolicy.ScanRun
import CloudPolicy.Schema
import CloudPolicy.Settings
import CloudPolicy.State
import CloudPolicy.Text
import CloudPolicy.Time
import CloudPolicy.Toml
