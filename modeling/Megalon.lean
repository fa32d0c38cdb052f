import Megalon.Common.CacheFlush
import Megalon.Common.ReplicaPlacement
import Megalon.Nr.StuckReports
import Megalon.Core.SeqlockWord
import Megalon.Core.SlotBitmap
import Megalon.Core.DirtyBitmap
import Megalon.Core.PoolScans
import Megalon.Core.LruPolicy
import Megalon.Core.LocalPages
import Megalon.Index.LocalExclusivity
import Megalon.Index.ResultCodes
import Megalon.Index.AccessDecisions
import Megalon.Index.DirectorySwaps
import Megalon.Nr.LogReset
import Megalon.Nr.ReplicatedDirectory
import Megalon.Protocol.LockDiscipline
import Megalon.Protocol.Reclamation
import Megalon.Protocol.WrapAround
import Megalon.Protocol.RetryLoops
import Megalon.Protocol.SequentialMap
import Megalon.Protocol.AcknowledgedWrites
import Megalon.File.EndOfFile
import Megalon.File.FileLock
import Megalon.Protocol.IndexRanges
import Megalon.Manager.CleanPages
