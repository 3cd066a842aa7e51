import Memoizer.Arena
import Memoizer.Http.Service
import Memoizer.Main
import Memoizer.Proofs.Facts
import Memoizer.Proofs.Reachability
import Memoizer.Proofs.Spans
import Memoizer.Proofs.UnionFind
import Memoizer.Proofs.MergedSpans
import Memoizer.Proofs.Lowering
import Memoizer.Proofs.Strict.Basic
import Memoizer.Proofs.Strict.Analysis
import Memoizer.Proofs.Strict.Partition
import Memoizer.Proofs.Partition
import Memoizer.Proofs.Strict.Rebuild
import Memoizer.Proofs.SetHistory
import Memoizer.Proofs.Safety
import Memoizer.Proofs.Leaves
import Memoizer.Proofs.Wrapping
import Memoizer.Proofs.MemoDecl
import Memoizer.Proofs.SpanMemos
import Memoizer.Proofs.Erasure
import Memoizer.Proofs.Number
import Memoizer.Proofs.Segments
import Memoizer.Proofs.Respelling
import Memoizer.Proofs.RoundTrip
import Memoizer.Proofs.Tiling
import Memoizer.Proofs.SpanWalk
import Memoizer.Proofs.LoweringSteps
import Memoizer.Proofs.Rejection
import Memoizer.Proofs.LogFrame
import Memoizer.Proofs.RuntimeImport
import Memoizer.Proofs.ImportUpkeep
import Memoizer.Proofs.ModuleCompile
import Memoizer.Proofs.ChangeCount
import Memoizer.Proofs.SourceUnits
import Memoizer.Proofs.NoInputs
import Memoizer.Proofs.Recompile
import Memoizer.Proofs.UpToSpelling
import Memoizer.Proofs.Origins
import Memoizer.Proofs.MemoSource
import Memoizer.Proofs.MemoReads
import Memoizer.Proofs.FreeNames
import Memoizer.Proofs.ScanParts
import Memoizer.Proofs.LinearUse
import Memoizer.Proofs.Expansion
import Memoizer.Proofs.Placeholders
import Memoizer.Proofs.Tokens
import Memoizer.Proofs.OperatorReader
import Memoizer.Proofs.Nesting
import Memoizer.Proofs.LooseCommas
import Memoizer.Proofs.ExpressionReader
import Memoizer.Proofs.NewChains
import Memoizer.Proofs.Shortest
import Memoizer.Proofs.NumberText
import Memoizer.Proofs.ArrayHoles
import Memoizer.Proofs.QuotedText
import Memoizer.Proofs.Places
