import BuildLog.Main
import BuildLog.Proofs.Coloring
import BuildLog.Proofs.Layout.Locality
import BuildLog.Proofs.Layout.Records
import BuildLog.Proofs.Layout.FirstFault
import BuildLog.Proofs.Layout.CommandLines
import BuildLog.Proofs.Scan
import BuildLog.Proofs.BlobNumbers
import BuildLog.Proofs.Interleaving
import BuildLog.Proofs.Truncation
import BuildLog.Proofs.Faults
import BuildLog.Proofs.Layout.OneLine
import BuildLog.Proofs.Report
import BuildLog.Proofs.SkipWords
import BuildLog.Proofs.NearestTask
import BuildLog.Proofs.CountedCalls
import BuildLog.Proofs.AnnouncedOptions
import BuildLog.Proofs.FileTree.Walk
import BuildLog.Proofs.OlderGradle
import BuildLog.Proofs.Path
import BuildLog.Proofs.FileTree.Directory
import BuildLog.Proofs.FileTree.Written
import BuildLog.Proofs.FileTree.JavaSources
import BuildLog.Proofs.Build.Start
import BuildLog.Proofs.Build.Gradle
import BuildLog.Proofs.Build.Wrapper
import BuildLog.Proofs.Build.Maven
import BuildLog.Proofs.LaterScan
import BuildLog.Proofs.Text.NormalForm
import BuildLog.Proofs.Log.Tidy
import BuildLog.Proofs.LineEndings
import BuildLog.Proofs.WholeReport
import BuildLog.Proofs.OptionPositions
import BuildLog.Proofs.TaskPath
import BuildLog.Proofs.Log.Nearest
import BuildLog.Proofs.FileTree.LastName
import BuildLog.Proofs.Build.Frame
