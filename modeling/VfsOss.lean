import VfsOss.CLib.Proofs.TextProofs
import VfsOss.CLib.Proofs.DecimalProofs
import VfsOss.CLib.Proofs.FileSystemProofs
import VfsOss.CLib.Run
import VfsOss.CLib.Proofs.PathProofs
import VfsOss.Task.Proofs.PlacementProofs
import VfsOss.Net.Proofs.MybuffProofs
import VfsOss.Proto.Proofs.HeaderProofs
import VfsOss.Sm.Machine
import VfsOss.Sm.Proofs.PassProofs
import VfsOss.Sm.Proofs.LogProofs
import VfsOss.Sm.Proofs.AnyOrderProofs
import VfsOss.Sm.Proofs.IsolationProofs
import VfsOss.Sm.Proofs.ConservationProofs
import VfsOss.Sm.Proofs.StabilityProofs
import VfsOss.Sm.Proofs.PathsProofs
import VfsOss.Net.Proofs.SendProofs
import VfsOss.Sm.Proofs.HandoverProofs
import VfsOss.Sm.Proofs.RetriesProofs
import VfsOss.Uc.DirSync
import VfsOss.Uc.Proofs.SplitProofs
import VfsOss.Uc.CrashSafe
import VfsOss.Uc.Proofs.DirSyncProofs
import VfsOss.Uc.Proofs.CrashSafeProofs
import VfsOss.Uc.Inotify
import VfsOss.Uc.Proofs.InotifyProofs
import VfsOss.CLib.Endian
import VfsOss.Proto.Voss
import VfsOss.Voss.Types
import VfsOss.Voss.Recv
import VfsOss.Voss.Stream
import VfsOss.Voss.Proofs.StreamProofs
import VfsOss.CLib.ListHead
import VfsOss.CLib.Proofs.ListHeadProofs
import VfsOss.Task.Links
import VfsOss.Task.Fifo
import VfsOss.Task.Proofs.FifoProofs
import VfsOss.Task.Proofs.FifoRunProofs
import VfsOss.Task.Proofs.StoreOfProofs
import VfsOss.Task.Timeout
import VfsOss.Task.Proofs.TimeoutProofs
import VfsOss.Sm.Clock
import VfsOss.Uc.Clock
import VfsOss.Sm.Proofs.ClockProofs
import VfsOss.Uc.Proofs.ClockProofs
import VfsOss.Sm.Merge
import VfsOss.Sm.Proofs.MergeRecordsProofs
import VfsOss.Sm.Proofs.CompletenessProofs
import VfsOss.Sm.Proofs.MergeFilesProofs
import VfsOss.Sm.Copy
import VfsOss.Sm.Proofs.CopyProofs
import VfsOss.CLib.Tiling
import VfsOss.Uc.Lack
import VfsOss.Sm.Request
import VfsOss.Uc.Partition
import VfsOss.Uc.Proofs.PartitionProofs
import VfsOss.Sm.Descriptor
import VfsOss.Sm.Proofs.DescriptorProofs
import VfsOss.Voss.Robust
import VfsOss.Voss.Proofs.RobustProofs
import VfsOss.Net.Pend
import VfsOss.Net.Proofs.PendProofs
import VfsOss.Sm.Detection
import VfsOss.Sm.Proofs.DetectionProofs
import VfsOss.Sm.Stale
import VfsOss.Sm.Proofs.StaleProofs
import VfsOss.Sm.RoundTrip
import VfsOss.Sm.Proofs.RoundTripProofs
import VfsOss.Sm.Segments
import VfsOss.Sm.Proofs.SegmentsProofs
import VfsOss.Uc.LackReply
import VfsOss.Uc.Proofs.LackReplyProofs
import VfsOss.CLib.ForLoop
import VfsOss.Sm.BlockLoops
import VfsOss.Sm.Proofs.BlockLoopsProofs
import VfsOss.Task.Walk
import VfsOss.Task.Proofs.WalkProofs
import VfsOss.Uc.Dispatch
import VfsOss.Uc.Proofs.DispatchProofs
import VfsOss.Sm.Query
import VfsOss.Sm.Proofs.QueryProofs
import VfsOss.Sm.Again
import VfsOss.Sm.Proofs.AgainProofs
import VfsOss.Net.Received
import VfsOss.Net.Proofs.ReceivedProofs
import VfsOss.Net.Truncated
import VfsOss.Net.Proofs.TruncatedProofs
import VfsOss.Sm.Idle
import VfsOss.Sm.Proofs.IdleProofs
import VfsOss.Uc.OpenFiles
import VfsOss.Uc.Proofs.OpenFilesProofs
import VfsOss.CLib.Rings
import VfsOss.Net.Scan
import VfsOss.Net.Proofs.ScanProofs
import VfsOss.Net.Moni
import VfsOss.Net.Proofs.MoniProofs
import VfsOss.CLib.Memory
import VfsOss.Net.MybuffMem
import VfsOss.Net.Proofs.MybuffMemProofs
import VfsOss.Net.BuffFiles
import VfsOss.Net.Proofs.BuffFilesProofs
import VfsOss.Net.FileFilter
import VfsOss.Net.Proofs.FileFilterProofs
import VfsOss.Sm.PathBuffers
import VfsOss.Sm.Proofs.PathBuffersProofs
import VfsOss.Sm.Arrays
import VfsOss.Sm.Proofs.ArraysProofs
import VfsOss.Sm.HandedOver
import VfsOss.Sm.Proofs.HandedOverProofs
import VfsOss.Sm.Confined
import VfsOss.Sm.Proofs.FilesProofs
import VfsOss.Sm.Proofs.ConfinedProofs
import VfsOss.Uc.WatchBounds
import VfsOss.Uc.Proofs.WatchBoundsProofs
import VfsOss.Conf.Store
import VfsOss.Conf.Law
import VfsOss.Conf.Proofs.LawProofs
import VfsOss.Conf.Proofs.UpdateProofs
import VfsOss.Task.Alltask
import VfsOss.Task.Proofs.AlltaskProofs
import VfsOss.Net.Timer
import VfsOss.Net.Proofs.TimerProofs
import VfsOss.Task.Proofs.ChainsProofs
import VfsOss.Util.Proofs.IpProofs
import VfsOss.Para.Proofs.ParserProofs
import VfsOss.Para.Proofs.CodecProofs
import VfsOss.Net.Proofs.MaintainProofs
import VfsOss.Net.Proofs.ReportsProofs
import VfsOss.Conf.Proofs.EntriesProofs
import VfsOss.Conf.Proofs.DumpProofs
import VfsOss.Md5.Proofs.FileProofs
import VfsOss.Dst.Proofs.TransferProofs
import VfsOss.Uc.Delivery
import VfsOss.Uc.Proofs.DeliveryProofs
import VfsOss.Net.Wakeup
import VfsOss.Net.Proofs.WakeupProofs
