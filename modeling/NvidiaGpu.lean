import NvidiaGpu.Library.SearchTree
import NvidiaGpu.Library.LinkedList
import NvidiaGpu.Library.Align
import NvidiaGpu.Status
import NvidiaGpu.Uvm.RangeTree
import NvidiaGpu.Uvm.RangeTreeRuns
import NvidiaGpu.Uvm.RangeTreeIter
import NvidiaGpu.Uvm.RangeAllocator
import NvidiaGpu.Uvm.RangeAllocatorRuns
import NvidiaGpu.Library.Window
import NvidiaGpu.Library.BoundedFifo
import NvidiaGpu.Containers.Queue
import NvidiaGpu.Containers.QueueRuns
import NvidiaGpu.Containers.RingBuf
import NvidiaGpu.Containers.RingBufRuns
import NvidiaGpu.Library.Blocks
import NvidiaGpu.Containers.Vector
import NvidiaGpu.Containers.VectorRuns
import NvidiaGpu.Library.RedBlack
import NvidiaGpu.Library.RedBlackFixup
import NvidiaGpu.Library.LinkedTree
import NvidiaGpu.Library.Bitmap
import NvidiaGpu.Pma.Regmap
import NvidiaGpu.Pma.RegmapStats
import NvidiaGpu.Pma.RegmapScan
import NvidiaGpu.Library.Runs
import NvidiaGpu.Pma.RegmapLargestFree
import NvidiaGpu.DisplayPort.BitStream
import NvidiaGpu.Library.BitField
import NvidiaGpu.DisplayPort.BitStreamRuns
import NvidiaGpu.Library.Gf2
import NvidiaGpu.DisplayPort.Crc
import NvidiaGpu.DisplayPort.Transaction
import NvidiaGpu.Library.ListOrder
import NvidiaGpu.Containers.Btree
import NvidiaGpu.Containers.Map
import NvidiaGpu.Containers.Multimap
import NvidiaGpu.Uvm.Channel
import NvidiaGpu.Uvm.ChannelRuns
import NvidiaGpu.Msgq.Queue
import NvidiaGpu.Msgq.Protocol
import NvidiaGpu.Library.ByteMemory
import NvidiaGpu.Gsp.MessageQueue
import NvidiaGpu.Gsp.RoundTrip
import NvidiaGpu.Library.Search
import NvidiaGpu.Uvm.Nanos
import NvidiaGpu.Uvm.PageMask
import NvidiaGpu.Msgq.Remote
import NvidiaGpu.Uvm.TrackingSemaphore
import NvidiaGpu.Library.PopCount
import NvidiaGpu.Utils.BitVector
import NvidiaGpu.Utils.BitVectorSpec
import NvidiaGpu.Utils.BitVectorQueries
import NvidiaGpu.Utils.BitVectorRuns
import NvidiaGpu.Library.LinkedTreeUpdate
import NvidiaGpu.Library.LinkedTreeFixup
import NvidiaGpu.Containers.BtreeInsert
import NvidiaGpu.Containers.BtreeUnlink
import NvidiaGpu.Containers.BtreeRuns
import NvidiaGpu.Containers.Eheap
import NvidiaGpu.Library.TreeWalk
import NvidiaGpu.Library.LinkedTreeRemove
import NvidiaGpu.Containers.MapTree
import NvidiaGpu.Containers.MapTreeUpdate
import NvidiaGpu.Containers.MapTreeIter
import NvidiaGpu.Containers.MapCalls
import NvidiaGpu.DisplayPort.Sideband
import NvidiaGpu.Library.Intervals
import NvidiaGpu.Uvm.Pushbuffer
import NvidiaGpu.Uvm.PushbufferRuns
