import GooseFS.IO.ReadRanges
import GooseFS.IO.EndOfFile
import GooseFS.IO.FailedSeek
import GooseFS.IO.MachineReads
import GooseFS.IO.BlockReplicas
import GooseFS.IO.ChunkShape
import GooseFS.IO.UfsBlacklist
import GooseFS.IO.Completion
import GooseFS.IO.Rejections
import GooseFS.Cache.Expiry
import GooseFS.Cache.Restart
import GooseFS.Cache.Restore
import GooseFS.IO.PageSize
import GooseFS.Metadata.Fetches
import GooseFS.Metadata.OwnWrites
import GooseFS.Block.FailedCounter
import GooseFS.Block.RingStability
import GooseFS.Block.Locations
import GooseFS.Block.UfsLength
import GooseFS.Client.SingleFlight
import GooseFS.Client.MasterClient
import GooseFS.Client.Reconnect
import GooseFS.IO.StreamingReader
import GooseFS.Metrics.Reports
import GooseFS.Cache.StaleWrites
import GooseFS.IO.BlockNumbers
import GooseFS.IO.ReadAcks
import GooseFS.IO.RangeAccounting
import GooseFS.Metadata.PathKeys
import GooseFS.Properties
import GooseFS.Client.ListStatus
import GooseFS.IO.StreamGauges
