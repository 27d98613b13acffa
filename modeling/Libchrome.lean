import Libchrome.Bpf.PolicyCorrect
import Libchrome.Base.IdMapRefinement
import Libchrome.Base.ObserverListNotification
import Libchrome.Base.Containers.MruCache
import Libchrome.Base.Containers.SmallMapRefinement
import Libchrome.Base.MessageLoop.WakeUp
import Libchrome.Base.MessageLoop.TaskOrder
import Libchrome.Base.Threading.ShutdownAccounting
import Libchrome.Base.Threading.StartOrder
import Libchrome.Bpf.VerifierFaithful
import Libchrome.Base.Hash.SecureHashAlgorithm
import Libchrome.Base.Task.Cancellation
import Libchrome.Base.Synchronization.WaitableEventInvariant
import Libchrome.Base.PickleTracking
import Libchrome.Base.Posix.ShuffleTable
import Libchrome.Base.Posix.ShuffleClosing
import Libchrome.Base.IdMapIteration
import Libchrome.Base.CallbackListNotification
import Libchrome.Base.Values.PathLaws
import Libchrome.Base.Values.Merging
import Libchrome.Base.Values.LeafPaths
import Libchrome.Base.Json.StringEscape
import Libchrome.Base.Json.ParserEscapes
import Libchrome.Base.Json.ParserErrors
import Libchrome.Base.Strings.ReplaceExactly
import Libchrome.Base.Strings.PatternEncodings
import Libchrome.SeccompBpf.Trap
import Libchrome.Base.Base64Url
import Libchrome.Base.CommandLineReparse
import Libchrome.Base.MessageLoop.OnceInOrder
import Libchrome.Base.Threading.TokenTracking
import Libchrome.Base.TimeArithmetic
import Libchrome.Base.Metrics.FieldTrialGrammar
import Libchrome.Base.Metrics.FieldTrialGroups
import Libchrome.Base.Metrics.SampleSerialization
import Libchrome.Base.Files.FilePathExtensions
import Libchrome.Base.Timer
import Libchrome.Base.Vlog
import Libchrome.Base.RandUtil
import Libchrome.Base.TraceEvent.TraceBuffer
import Libchrome.Base.TraceEvent.TraceConfig
import Libchrome.Base.TraceEvent.StackFrameDeduplicator
import Libchrome.Base.Process.ProcStat
import Libchrome.Dbus.ObjectManager
import Libchrome.Crypto.PrivateKeyBounds
import Libchrome.Base.TraceEvent.TracedValueTree
import Libchrome.Crypto.P224.Packing
import Libchrome.Bpf.SyscallIteration
import Libchrome.Base.Files.ImportantFileWriter
import Libchrome.Base.TimeExplode
import Libchrome.Dbus.PropertyValidity
import Libchrome.Dbus.MessageText
import Libchrome.SyscallBroker.RemoteCalls
import Libchrome.Crypto.P224Spake
import Libchrome.Base.Strings.KeyValuePairs
