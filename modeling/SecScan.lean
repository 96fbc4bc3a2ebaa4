import SecScan.Interop.Stub
import SecScan.Knowledge.Console
import SecScan.Llm.Console
import SecScan.Main
import SecScan.Project.Framework
import SecScan.Project.Stub
import SecScan.Proofs.Api.Schemas
import SecScan.Proofs.Calls.Implicit
import SecScan.Proofs.Calls.Signatures
import SecScan.Proofs.Calls.Summaries
import SecScan.Proofs.Command.Import
import SecScan.Proofs.Flow.Bindings
import SecScan.Proofs.Flow.IteratedFrontier
import SecScan.Proofs.Flow.Renumbering
import SecScan.Proofs.Flow.SingleAssignment
import SecScan.Proofs.Flow.Traces
import SecScan.Proofs.Ir.Aliases
import SecScan.Proofs.Ir.Extraction
import SecScan.Proofs.Ir.ScopeFlow
import SecScan.Proofs.Knowledge.Recall
import SecScan.Proofs.Llm.Excerpts
import SecScan.Proofs.Llm.Gateway
import SecScan.Proofs.Llm.Ledger
import SecScan.Proofs.Llm.Rotation
import SecScan.Proofs.Pipeline.Placement
import SecScan.Proofs.Pipeline.Secrets
import SecScan.Proofs.Pipeline.Served
import SecScan.Proofs.Privacy.Masking
import SecScan.Proofs.Project.Conditions
import SecScan.Proofs.Project.Priority
import SecScan.Proofs.Report.Sarif
import SecScan.Proofs.Scan.Baseline
import SecScan.Proofs.Scan.Impact
import SecScan.Proofs.Store.Merging
import SecScan.Proofs.Supply.NearNames
import SecScan.Proofs.Syntax.Comments
import SecScan.Proofs.Taint.Branches
import SecScan.Proofs.Taint.DataFlow
import SecScan.Proofs.Training.Tallies
import SecScan.Risk.Console
import SecScan.Scan.Template
import SecScan.Store.Console
import SecScan.Syntax.Listing
import SecScan.Telemetry.Console
import SecScan.Toml.Order
import SecScan.Training.Collection
