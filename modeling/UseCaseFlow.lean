import UseCaseFlow.Corpus.Load
import UseCaseFlow.Flow.Dump
import UseCaseFlow.Report.Csv
import UseCaseFlow.Report.Json
import UseCaseFlow.Proofs.Diagram.LineDefect
import UseCaseFlow.Proofs.Diagram.Lookahead
import UseCaseFlow.Proofs.Render.RoundTrip
import UseCaseFlow.Proofs.Scenario.Position
import UseCaseFlow.Proofs.Scenario.Same
import UseCaseFlow.Proofs.Scenario.Tally
import UseCaseFlow.Proofs.Diagram.DeclarationOrder
import UseCaseFlow.Proofs.Report.Csv
import UseCaseFlow.Proofs.Scenario.Layout
import UseCaseFlow.Proofs.Corpus.FileTree
import UseCaseFlow.Proofs.Corpus.Listing
import UseCaseFlow.Proofs.Corpus.Lookup
import UseCaseFlow.Proofs.Diagram.LexicalExtent
import UseCaseFlow.Proofs.Diagram.NestingDepth
import UseCaseFlow.Proofs.Diagram.NestingLimit
import UseCaseFlow.Proofs.Corpus.OneFile
import UseCaseFlow.Proofs.Corpus.Records
import UseCaseFlow.Proofs.Corpus.Isolation
import UseCaseFlow.Proofs.Report.JsonReader
import UseCaseFlow.Proofs.Report.JsonTokens
import UseCaseFlow.Proofs.Report.Json
import UseCaseFlow.Proofs.Diagram.Concatenation
import UseCaseFlow.Proofs.Flow.Replacement
import UseCaseFlow.Proofs.Flow.Unwrapping
import UseCaseFlow.Proofs.Flow.Rearrangement
import UseCaseFlow.Proofs.Scenario.Fence
import UseCaseFlow.Proofs.Corpus.Walk
import UseCaseFlow.Proofs.Flow.MainPath
import UseCaseFlow.Proofs.Render.Spacing
import UseCaseFlow.Proofs.Scenario.MetricBounds
import UseCaseFlow.Proofs.Text.ByteOrder
import UseCaseFlow.Proofs.Report.RowOrder
import UseCaseFlow.Proofs.Flow.Reordering
import UseCaseFlow.Proofs.Flow.Dump
import UseCaseFlow.Proofs.Diagram.ReaderCalls
import UseCaseFlow.Proofs.Diagram.NestedRange
import UseCaseFlow.Proofs.Diagram.ReaderBounds
