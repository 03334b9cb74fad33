import WzxServer.Lib.Prog
import WzxServer.Lib.Literal
import WzxServer.Lib.Stream
import WzxServer.Bytes
import WzxServer.Cmd
import WzxServer.RecvData
import WzxServer.Unpack
import WzxServer.Frames
import WzxServer.Db
import WzxServer.Overrun
import WzxServer.Models
import WzxServer.Events
import WzxServer.Tables
import WzxServer.World
import WzxServer.Specs
import WzxServer.Injection
import WzxServer.FaceLogin
import WzxServer.AddFace
import WzxServer.RegisterAtomic
import WzxServer.RegisterOnce
import WzxServer.Directory
import WzxServer.Relations
import WzxServer.Chat
import WzxServer.Lib.Polling
import WzxServer.Polls
import WzxServer.Progress
import WzxServer.CoWrite
import WzxServer.Lib.Drain
import WzxServer.Lib.Places
import WzxServer.Lib.Turns
import WzxServer.TimeWheel
import WzxServer.WheelTurns
import WzxServer.Timers
import WzxServer.Pool
import WzxServer.Replies
import WzxServer.Isolation
import WzxServer.Conversations
import WzxServer.Fields
import WzxServer.HistoryWrites
import WzxServer.Sessions
import WzxServer.Changes
import WzxServer.Strangers
import WzxServer.Geometry
import WzxServer.StoredImages
import WzxServer.Nulls
import WzxServer.Lib.Paging
import WzxServer.RecentSessions
import WzxServer.SessionPages
import WzxServer.Copies
import WzxServer.Overlaps
import WzxServer.PoolCount
import WzxServer.WheelEnds
import WzxServer.WheelHistory
import WzxServer.WheelClears
import WzxServer.Lib.Moves
import WzxServer.WheelClock
import WzxServer.WheelSteps
import WzxServer.WheelLock
import WzxServer.WheelMemory
import WzxServer.Buffers
import WzxServer.Brackets
import WzxServer.Lib.Crew
import WzxServer.Coroutines
import WzxServer.Deadlocks
import WzxServer.AckReads
import WzxServer.Presence
import WzxServer.CoLinks
import WzxServer.CoLoop
import WzxServer.CoSteps
import WzxServer.CoTimes
import WzxServer.Lib.Mirror
import WzxServer.Texts
import WzxServer.Secrets
import WzxServer.CoPoll
