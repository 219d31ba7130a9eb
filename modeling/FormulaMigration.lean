import FormulaMigration.Main
import FormulaMigration.Proofs.Blanks
import FormulaMigration.Proofs.LedgerLines
import FormulaMigration.Proofs.Migration
import FormulaMigration.Proofs.Negation
import FormulaMigration.Proofs.Numbers
import FormulaMigration.Proofs.PacketArtifacts
import FormulaMigration.Proofs.PacketGates
import FormulaMigration.Proofs.RemainingSpans
import FormulaMigration.Proofs.Spans
import FormulaMigration.Proofs.UnclosedGroups
import FormulaMigration.Proofs.MigrationSummary
import FormulaMigration.Proofs.ClosingParenthesis
import FormulaMigration.Proofs.CallItems
import FormulaMigration.Proofs.Pieces
import FormulaMigration.Proofs.QuotedArguments
import FormulaMigration.Proofs.RepeatedMigration
import FormulaMigration.Proofs.DocumentVersion
import FormulaMigration.Proofs.GateEnforcement
import FormulaMigration.Proofs.FixtureFiles
import FormulaMigration.Proofs.ReportPlaces
import FormulaMigration.Proofs.Verdicts
import FormulaMigration.Proofs.StructuralErrors
import FormulaMigration.Proofs.SpanDetection
import FormulaMigration.Proofs.NextOperator
import FormulaMigration.Proofs.SlicedConversion
import FormulaMigration.Proofs.Shapes
import FormulaMigration.Proofs.ArgumentScan
import FormulaMigration.Proofs.Emission
import FormulaMigration.Proofs.Recording
