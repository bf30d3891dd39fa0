import MockAudit.Audit
import MockAudit.Call.Basic
import MockAudit.Call.Failure
import MockAudit.Catalog
import MockAudit.Checker.Basic
import MockAudit.Checker.Loading
import MockAudit.Command.Basic
import MockAudit.Command.CheckSignatures
import MockAudit.Command.Infer
import MockAudit.Command.Init
import MockAudit.Command.Verify
import MockAudit.CommandLine.Basic
import MockAudit.CommandLine.LogFilter
import MockAudit.CommandLine.Option
import MockAudit.CommandLine.Run
import MockAudit.Configuration.Basic
import MockAudit.Configuration.File
import MockAudit.Contract
import MockAudit.Error
import MockAudit.Files.Basic
import MockAudit.Files.Path
import MockAudit.Heap
import MockAudit.Hierarchy
import MockAudit.Json.Basic
import MockAudit.Json.Number
import MockAudit.Json.Reader
import MockAudit.Json.Structure
import MockAudit.Json.Writer
import MockAudit.Log
import MockAudit.Machine.Basic
import MockAudit.Machine.Dispatch
import MockAudit.Machine.Stubs
import MockAudit.Machine.Tracers
import MockAudit.Main
import MockAudit.Numeric.Binary64
import MockAudit.Numeric.Decimal
import MockAudit.Phase
import MockAudit.Program.Procedure
import MockAudit.Program.Script
import MockAudit.Proofs.Agreement
import MockAudit.Proofs.Announcements
import MockAudit.Proofs.ArgumentMatching
import MockAudit.Proofs.BackedStubs
import MockAudit.Proofs.BatchAudit
import MockAudit.Proofs.Binding
import MockAudit.Proofs.Building
import MockAudit.Proofs.CheckReports
import MockAudit.Proofs.Conclusion
import MockAudit.Proofs.ConfigurationSearch
import MockAudit.Proofs.Correlation
import MockAudit.Proofs.DeclarationFiles
import MockAudit.Proofs.DispatchRecords
import MockAudit.Proofs.Displacement
import MockAudit.Proofs.ExactInference
import MockAudit.Proofs.FailedLoads
import MockAudit.Proofs.Filtering
import MockAudit.Proofs.FiniteMaps
import MockAudit.Proofs.FloatRounding
import MockAudit.Proofs.Frames
import MockAudit.Proofs.FreshStart
import MockAudit.Proofs.GroundTruth
import MockAudit.Proofs.Grouping
import MockAudit.Proofs.Honesty
import MockAudit.Proofs.InferredSignatures
import MockAudit.Proofs.Interception
import MockAudit.Proofs.JsonRoundTrip
import MockAudit.Proofs.Lockstep
import MockAudit.Proofs.LosslessRecordings
import MockAudit.Proofs.NamedFlags
import MockAudit.Proofs.NestedEvents
import MockAudit.Proofs.NestedInterception
import MockAudit.Proofs.NumberTexts
import MockAudit.Proofs.OfflineVerdicts
import MockAudit.Proofs.PhaseOrder
import MockAudit.Proofs.Preparation
import MockAudit.Proofs.PrintedSignatures
import MockAudit.Proofs.PrintedTypes
import MockAudit.Proofs.RecordedArguments
import MockAudit.Proofs.RecordingRoundTrip
import MockAudit.Proofs.Registration
import MockAudit.Proofs.Reporting
import MockAudit.Proofs.Resolution
import MockAudit.Proofs.Retention
import MockAudit.Proofs.Session
import MockAudit.Proofs.SignatureMeaning
import MockAudit.Proofs.SignatureRoundTrip
import MockAudit.Proofs.SignatureTexts
import MockAudit.Proofs.SplicedUnions
import MockAudit.Proofs.StandIns
import MockAudit.Proofs.Strategies
import MockAudit.Proofs.StubbedAnswers
import MockAudit.Proofs.Subtyping
import MockAudit.Proofs.Symmetry
import MockAudit.Proofs.TomlStrings
import MockAudit.Proofs.Trace
import MockAudit.Proofs.TracedRuns
import MockAudit.Proofs.TracerLife
import MockAudit.Proofs.Transparency
import MockAudit.Proofs.TypeGrammar
import MockAudit.Proofs.TypesAsParameters
import MockAudit.Proofs.WrittenParameters
import MockAudit.Recording.Basic
import MockAudit.Recording.File
import MockAudit.Recording.Format
import MockAudit.Recording.Snapshot
import MockAudit.Report.Basic
import MockAudit.Report.Console
import MockAudit.Sample.TaxOffice
import MockAudit.Shape
import MockAudit.Signature.Basic
import MockAudit.Signature.Check
import MockAudit.Signature.File
import MockAudit.Signature.Inference
import MockAudit.Signature.Listing
import MockAudit.Signature.Parser
import MockAudit.Signature.TypeExpr
import MockAudit.Signature.TypeParser
import MockAudit.Stubs.Answer
import MockAudit.Stubs.Registry
import MockAudit.Target
import MockAudit.Text.Blank
import MockAudit.Text.Lines
import MockAudit.Text.Pattern
import MockAudit.Text.PatternParser
import MockAudit.Text.Quoted
import MockAudit.Text.Shown
import MockAudit.Toml.Basic
import MockAudit.Toml.Reader
import MockAudit.Toml.Scalar
import MockAudit.Toml.Writer
import MockAudit.Tracing.Capture
import MockAudit.Tracing.Event
import MockAudit.Tracing.Filter
import MockAudit.Tracing.WatchList
import MockAudit.Value.Basic
import MockAudit.Value.Equality
import MockAudit.Value.Text
import MockAudit.Verification
