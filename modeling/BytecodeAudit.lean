import BytecodeAudit.CommandLine.App
import BytecodeAudit.Proofs.Analyzer.Fixing
import BytecodeAudit.Proofs.Analyzer.Tracking
import BytecodeAudit.Proofs.Auditor.Accepted
import BytecodeAudit.Proofs.Bytecode.Points
import BytecodeAudit.Proofs.Cache.Histories
import BytecodeAudit.Proofs.Descriptor.Databases
import BytecodeAudit.Proofs.Descriptor.Messages
import BytecodeAudit.Proofs.Params.Layers
import BytecodeAudit.Proofs.Report.Stability
import BytecodeAudit.Proofs.Scan.Identity
import BytecodeAudit.Proofs.Scan.Opening
import BytecodeAudit.Proofs.Scan.Sequence
import BytecodeAudit.Proofs.View.Order
import BytecodeAudit.Proofs.View.Trees
import BytecodeAudit.Proofs.Watch.Batches
import BytecodeAudit.Repository
