import Csh.Lib.Interaction
import Csh.Lib.CString
import Csh.Lib.CNumber
import Csh.Slash
import Csh.RequireVersion
import Csh.VersionConstraint
import Csh.Poke
import Csh.ParamOffsets
import Csh.OffsetReading
import Csh.TargetGrammar
import Csh.ParamSet
import Csh.ValueList
import Csh.QueueCapacity
import Csh.ValueForms
import Csh.Walkdir
import Csh.BinFile
import Csh.Spaceboot
import Csh.SpacebootRuns
import Csh.UploadVerification
import Csh.SlotCommands
import Csh.FileTable
import Csh.SlotBounds
import Csh.FileSelection
import Csh.SlotArgument
import Csh.Lib.History
import Csh.Lib.KeyedList
import Csh.Environment
import Csh.ExpandVars
import Csh.RunEnvironment
import Csh.KnownHosts
import Csh.HostVariables
import Csh.HostFile
import Csh.CommandQueue
import Csh.Lib.InForce
import Csh.FileTransfer
import Csh.DownloadResume
import Csh.RdpFrames
import Csh.RdpSession
import Csh.Lib.RingBuffer
import Csh.StdbufClient
import Csh.Lib.Cells
import Csh.VictoriaMetrics
import Csh.Prometheus
import Csh.WalkdirTree
import Csh.WalkdirBuffer
import Csh.SlashApm
import Csh.ParamSniffer
import Csh.HkParamSniffer
import Csh.Lib.Transducer
import Csh.LokiStrip
import Csh.Loki
import Csh.LokiEntries
import Csh.Lib.Json
import Csh.LokiPayload
import Csh.WalkdirStores
import Csh.WalkdirSites
import Csh.VersionOperators
import Csh.OffsetItems
import Csh.TargetElement
import Csh.ValueReads
import Csh.PullNodes
import Csh.ImageReads
import Csh.SizeTest
import Csh.ParseVersion
import Csh.ConstraintCleaning
import Csh.Lib.Checked
import Csh.Lib.FirstOccurrences
import Csh.Lib.Linked
import Csh.Lib.Strcmp
import Csh.ConstraintArrays
import Csh.ConstraintForms
import Csh.SnifferLog
import Csh.LokiWrites
import Csh.ApmSearch
import Csh.ApmQueue
import Csh.PathList
import Csh.Lib.RingWalk
import Csh.ResbufDump
import Csh.PromptNode
import Csh.LengthArguments
import Csh.SuggestedOffsets
import Csh.BootParams
import Csh.Lib.CommonPrefix
import Csh.VariableCompletion
import Csh.HostCompletion
import Csh.HkCalls
import Csh.Base16
import Csh.OneShot
import Csh.ExpandMemory
import Csh.Lib.InPlace
import Csh.StripInPlace
import Csh.Lib.Steps
import Csh.Lock
import Csh.ZmqProxy
import Csh.CspScan
import Csh.Lib.Overlay
import Csh.CmpIdent
import Csh.StdbufLog
import Csh.ApmLoad
import Csh.CspInit
import Csh.VarCommands
import Csh.CaptureLog
import Csh.ParamCompletion
import Csh.StdbufMon
import Csh.PyApmLoad
import Csh.LokiThreads
import Csh.MetricLines
import Csh.Lib.Batches
import Csh.Lib.Pointers
import Csh.VmArgs
import Csh.PrometheusSteps
import Csh.SnifferThreads
