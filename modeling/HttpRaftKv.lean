import HttpRaftKv.Lib.ReplicationSteps
import HttpRaftKv.Storage.Registers
import HttpRaftKv.Gomoku.RoomIndex
import HttpRaftKv.Gomoku.ShownStates
import HttpRaftKv.Gomoku.RaftGameStateStore
import HttpRaftKv.Gomoku.StoredGame
import HttpRaftKv.Gomoku.Waiting
import HttpRaftKv.Gomoku.Sockets
import HttpRaftKv.Raft.Terms
import HttpRaftKv.Raft.CommitRule
import HttpRaftKv.Raft.MatchIndex
import HttpRaftKv.Raft.Persisted
import HttpRaftKv.Kv.Replicas
import HttpRaftKv.Kv.ApplyOrder
import HttpRaftKv.Kv.Acknowledged
import HttpRaftKv.Rpc.Framing
import HttpRaftKv.Rpc.Correlation
import HttpRaftKv.Http.Pipelining
import HttpRaftKv.Http.Upgraded
import HttpRaftKv.Kv.WaitChannels
import HttpRaftKv.Kv.CallsOnce
import HttpRaftKv.Kv.Specification
import HttpRaftKv.Gomoku.Lockout
import HttpRaftKv.WebSocket.WebSocketContext
import HttpRaftKv.WebSocket.Reads
import HttpRaftKv.Raft.Compaction
import HttpRaftKv.Raft.Progress
import HttpRaftKv.Gomoku.Game
import HttpRaftKv.Storage.SkipListCalls
import HttpRaftKv.Http.RateLimiter
import HttpRaftKv.Http.RouteLimits
import HttpRaftKv.Fiber.IOManager
import HttpRaftKv.Fiber.Bookkeeping
import HttpRaftKv.Fiber.Dispatch
import HttpRaftKv.Http.ContentLength
import HttpRaftKv.Http.Cookies
import HttpRaftKv.Fiber.TimerManager
import HttpRaftKv.Fiber.TimerRuns
import HttpRaftKv.Fiber.FdTable
import HttpRaftKv.Gomoku.AiWins
import HttpRaftKv.Gomoku.Recovery
import HttpRaftKv.Gomoku.Logout
import HttpRaftKv.Gomoku.Injection
import HttpRaftKv.Gomoku.WinDetection
import HttpRaftKv.Http.SlidingWindow
import HttpRaftKv.Storage.StateSize
import HttpRaftKv.Raft.Completeness
import HttpRaftKv.Raft.Streams
import HttpRaftKv.Kv.Linearizable
import HttpRaftKv.Database.DbConnectionPool
import HttpRaftKv.Kv.LockQueue
import HttpRaftKv.Gomoku.Routing
import HttpRaftKv.Rpc.Messages
import HttpRaftKv.Fiber.DoIo
import HttpRaftKv.Gomoku.SignedIn
