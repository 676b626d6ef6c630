import LogLayout.Value.Capture
import LogLayout.Value.Render
import LogLayout.Pattern.Compile
import LogLayout.Pattern.Report
import LogLayout.Pattern.Render
import LogLayout.Pattern.Document
import LogLayout.Level.Request
import LogLayout.Outcome
import LogLayout.Target
import LogLayout.Dispatch
import LogLayout.Span.Scope
import LogLayout.Settings.Environment
import LogLayout.Session
import LogLayout.Proofs.Pattern.Scanning
import LogLayout.Proofs.Complaint
import LogLayout.Proofs.Pattern.Compilation
import LogLayout.Proofs.Json.Lexing
import LogLayout.Proofs.Json.RoundTrip
import LogLayout.Proofs.Pattern.Abridgement
import LogLayout.Proofs.Pattern.NormalForm
import LogLayout.Proofs.Pattern.Spelling
import LogLayout.Proofs.Pattern.Storage
import LogLayout.Proofs.Pattern.Judgement
import LogLayout.Proofs.Pattern.Reports
import LogLayout.Proofs.Pattern.ReportOrigin
import LogLayout.Proofs.Pattern.OptionOrder
import LogLayout.Proofs.Pattern.Rewording
import LogLayout.Proofs.Pattern.SigilRenaming
import LogLayout.Proofs.Rendering
import LogLayout.Proofs.Delivery
import LogLayout.Proofs.Overrides
import LogLayout.Proofs.Span.Sharing
import LogLayout.Proofs.Span.Text
import LogLayout.Proofs.Dependence
import LogLayout.Proofs.Configuration
import LogLayout.Proofs.Entry
import LogLayout.Proofs.Pattern.Revalidation
import LogLayout.Proofs.Routing
import LogLayout.Proofs.Installation
import LogLayout.Proofs.Binding
import LogLayout.Proofs.Pattern.Pointing
import LogLayout.Proofs.Shadowing
import LogLayout.Proofs.Legibility
import LogLayout.Proofs.LevelNames
import LogLayout.Proofs.Target
import LogLayout.Proofs.Capture
import LogLayout.Proofs.Fields
import LogLayout.Proofs.Pattern.Confinement
import LogLayout.Proofs.Traversal
import LogLayout.Proofs.Pattern.Placement
