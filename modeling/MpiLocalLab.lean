import MpiLocalLab.Library.Bcast
import MpiLocalLab.Library.Blocks
import MpiLocalLab.Library.Checked
import MpiLocalLab.Library.EvenShares
import MpiLocalLab.Library.Grouping
import MpiLocalLab.Library.Machine
import MpiLocalLab.Library.MinSearch
import MpiLocalLab.Library.StableSort
import MpiLocalLab.Library.Takes
import MpiLocalLab.Library.Triple
import MpiLocalLab.Msearch.Types
import MpiLocalLab.Msearch.Metric
import MpiLocalLab.Msearch.Diag
import MpiLocalLab.Msearch.Problem
import MpiLocalLab.Msearch.Lexer
import MpiLocalLab.Msearch.Tokens
import MpiLocalLab.Msearch.Parser
import MpiLocalLab.Msearch.Format
import MpiLocalLab.Msearch.Decode
import MpiLocalLab.Msearch.Malformed
import MpiLocalLab.Msearch.Reader
import MpiLocalLab.Msearch.ReadBlocks
import MpiLocalLab.Msearch.ReadProblem
import MpiLocalLab.Msearch.ReaderSpec
import MpiLocalLab.Msearch.ReadRules
import MpiLocalLab.Msearch.ReadCleanup
import MpiLocalLab.Msearch.Lines
import MpiLocalLab.Msearch.Comments
import MpiLocalLab.Msearch.Serial
import MpiLocalLab.Msearch.Canonical
import MpiLocalLab.Msearch.ZeroPolicy
import MpiLocalLab.Msearch.Writer
import MpiLocalLab.Msearch.Answer
import MpiLocalLab.Msearch.OpenMp
import MpiLocalLab.Msearch.CudaKernel
import MpiLocalLab.Msearch.Cuda
import MpiLocalLab.Msearch.RunnerLocal
import MpiLocalLab.Msearch.InputOrder
import MpiLocalLab.Msearch.RunnerMpi
import MpiLocalLab.Msearch.RunnerRank
import MpiLocalLab.Msearch.RunnerSync
import MpiLocalLab.Msearch.RunnerClaims
import MpiLocalLab.Msearch.RunnerGather
import MpiLocalLab.Msearch.RunnerAgreement
import MpiLocalLab.Msearch.Runner
import MpiLocalLab.Msearch.Broadcast
import MpiLocalLab.Msearch.SizeBounds
import MpiLocalLab.Programs.Process
import MpiLocalLab.Programs.DistributedSum
import MpiLocalLab.Programs.MatrixMultiply
import MpiLocalLab.Programs.PingPong
import MpiLocalLab.Programs.Sizes
import MpiLocalLab.Msearch.Verify
import MpiLocalLab.Library.OutStream
import MpiLocalLab.Msearch.WriteResults
import MpiLocalLab.Msearch.Options
import MpiLocalLab.Msearch.OptionItems
import MpiLocalLab.Library.Slices
import MpiLocalLab.Tools.GenInput
import MpiLocalLab.Tools.Planting
import MpiLocalLab.Msearch.Printing
import MpiLocalLab.Tools.GenText
import MpiLocalLab.Tools.ReadBack
import MpiLocalLab.Library.Rounds
import MpiLocalLab.Msearch.RunSearch
import MpiLocalLab.Msearch.CudaCalls
import MpiLocalLab.Library.Delivery
import MpiLocalLab.Msearch.Backends
import MpiLocalLab.Msearch.BroadcastFailures
import MpiLocalLab.Msearch.Main
import MpiLocalLab.Msearch.MainMpi
import MpiLocalLab.Msearch.NodeTopology
import MpiLocalLab.Tools.Found
import MpiLocalLab.Library.Pattern
import MpiLocalLab.Msearch.ReportBench
import MpiLocalLab.Tools.RunBench
import MpiLocalLab.Tools.BenchRows
import MpiLocalLab.Tools.Hostfile
import MpiLocalLab.Msearch.Ownership
import MpiLocalLab.Msearch.MainOwnership
import MpiLocalLab.Msearch.RunnerOwnership
