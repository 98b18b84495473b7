import ImportCensus.CommandLine
import ImportCensus.Main
import ImportCensus.Proofs.Extraction.Exactness
import ImportCensus.Proofs.Report.Transposition
import ImportCensus.Proofs.Scan.Nesting
import ImportCensus.Proofs.Scan.Blanking
import ImportCensus.Proofs.Scan.Expression
import ImportCensus.Service
import ImportCensus.Proofs.Report.PackageIndex
import ImportCensus.Proofs.Run.Completion
import ImportCensus.Proofs.Path.Normal
import ImportCensus.Proofs.Report.PackageKey
import ImportCensus.Proofs.Salvage.Piece
import ImportCensus.Proofs.Salvage.Reading
import ImportCensus.Proofs.Salvage.Finding
import ImportCensus.Proofs.Salvage.Recovery
import ImportCensus.Proofs.Salvage.Merging
import ImportCensus.Proofs.Salvage.Linkage
import ImportCensus.Proofs.Salvage.Reexport
import ImportCensus.Proofs.Scan.Statement
import ImportCensus.Proofs.Scan.Uncommented
import ImportCensus.Proofs.Comment.Skipped
import ImportCensus.Proofs.Comment.Left
import ImportCensus.Proofs.Extraction.TypeOnly
import ImportCensus.Proofs.Extraction.Typed
import ImportCensus.Proofs.Extraction.Overwritten
import ImportCensus.Proofs.Salvage.Agreement
import ImportCensus.Proofs.Report.RoundTrip
import ImportCensus.Proofs.Report.Permutation
import ImportCensus.Proofs.Report.Summary
import ImportCensus.Proofs.Scan.Reworded
import ImportCensus.Proofs.Scan.Renewed
import ImportCensus.Proofs.Scan.Blindness
import ImportCensus.Proofs.Path.Following
import ImportCensus.Proofs.Run.Roots
import ImportCensus.Proofs.Service.Agreement
import ImportCensus.Proofs.Comment.Lines
import ImportCensus.Proofs.PackageName.Grammar
import ImportCensus.Proofs.Specifier.Classification
import ImportCensus.Proofs.Discovery.Union
import ImportCensus.Proofs.Scan.Culprit
import ImportCensus.Proofs.Scan.Progress
import ImportCensus.Proofs.Path.Address
import ImportCensus.Proofs.Glob.Search
import ImportCensus.Proofs.Discovery.Denotation
import ImportCensus.Proofs.Run.Recorded
