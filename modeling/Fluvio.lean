import Fluvio.Lib.BigEndian
import Fluvio.Lib.Bits
import Fluvio.Lib.Checksum
import Fluvio.Lib.Cursor
import Fluvio.Protocol.Core
import Fluvio.Protocol.Varint
import Fluvio.Protocol.Record
import Fluvio.Protocol.Batch
import Fluvio.Protocol.RoundTrip
import Fluvio.Protocol.Sizes
import Fluvio.Protocol.Malformed
import Fluvio.Protocol.Compression
import Fluvio.Protocol.Containers
import Fluvio.Lib.Framed
import Fluvio.Protocol.Frame
import Fluvio.Lib.Trace
import Fluvio.Storage.Segment
import Fluvio.Storage.Replica
import Fluvio.Storage.Cleaner
import Fluvio.Storage.Validator
import Fluvio.Storage.Recovery
import Fluvio.Storage.Lookup
import Fluvio.Lib.TopK
import Fluvio.Replication.Leader
import Fluvio.Lib.Search
import Fluvio.Storage.Index
import Fluvio.Storage.OffsetLookup
import Fluvio.Lib.DeltaSync
import Fluvio.Metadata.EpochMap
import Fluvio.Metadata.Store
import Fluvio.Metadata.SpuSync
import Fluvio.Lib.FirstMin
import Fluvio.Sc.Partition
import Fluvio.Sc.Scheduler
import Fluvio.Lib.Sorted
import Fluvio.Sc.Topic
import Fluvio.Sc.TopicController
import Fluvio.Producer.MemoryBatch
import Fluvio.Producer.Accumulator
import Fluvio.Kv.Storage
import Fluvio.Replication.KvLog
import Fluvio.Storage.Retention
import Fluvio.Socket.Multiplexer
import Fluvio.Protocol.ErrorCode
import Fluvio.Spu.StreamFetch
import Fluvio.Spu.Produce
import Fluvio.Producer.Flush
import Fluvio.Producer.Partition
import Fluvio.Spu.Mirror
import Fluvio.Replication.Follower
import Fluvio.Replication.HighWatermark
import Fluvio.Consumer.Stream
import Fluvio.Protocol.Versioned
import Fluvio.Spu.Schema
import Fluvio.Spu.Session
