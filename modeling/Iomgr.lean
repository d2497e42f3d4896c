import Iomgr.TransitionSystem
import Iomgr.BinaryHeap
import Iomgr.AveragedStats
import Iomgr.TimerHeapInvariant
import Iomgr.TimerManager
import Iomgr.TimerManagerOperations
import Iomgr.ShardQueue
import Iomgr.TimerManagerInterleaving
import Iomgr.TimerCheck
import Iomgr.Task
import Iomgr.IODispatchStop
import Iomgr.IODispatchOverlap
import Iomgr.IOManagerTable
import Iomgr.Status
import Iomgr.TCPClientImpl
import Iomgr.TCPConnect
import Iomgr.TCPConnectRace
import Iomgr.TCPReadWrite
import Iomgr.HTTPParser
import Iomgr.HTTPParserChunks
import Iomgr.HTTPParserLines
import Iomgr.HTTPContentLength
import Iomgr.HTTPServer
import Iomgr.HTTPServerReads
import Iomgr.TimerHeapRuns
import Iomgr.TimerExecution
import Iomgr.HTTPResponse
import Iomgr.HTTPChunking
import Iomgr.HTTPFirstLine
import Iomgr.HTTPFirstLineGrammar
import Iomgr.HTTPHeaderLine
import Iomgr.HTTPRoundTrip
import Iomgr.HTTPBufferIndependence
import Iomgr.HTTPLineEnds
import Iomgr.URI
import Iomgr.URIGrammar
import Iomgr.URIRoundTrip
import Iomgr.HTTPClientWrites
import Iomgr.HTTPServerConnection
import Iomgr.TCPArming
import Iomgr.TCPWriteMemory
import Iomgr.TCPDestroy
import Iomgr.TCPDisconnect
import Iomgr.TaskRunner
import Iomgr.TimerRearm
import Iomgr.HTTPHeaderLength
import Iomgr.IOManagerFailure
import Iomgr.IOPoll
import Iomgr.ShardPartition
import Iomgr.TaskHistory
import Iomgr.TaskRunnerShutdown
import Iomgr.TimerDeadline
import Iomgr.AveragedStatsMean
import Iomgr.HTTPParserBuffer
import Iomgr.IPv6Contraction
import Iomgr.InetAddressText
import Iomgr.RefCounted
import Iomgr.RefCountedOwners
import Iomgr.StatusOrSlots
import Iomgr.WallTime
import Iomgr.DeadlineTable
import Iomgr.HTTPClientRequest
import Iomgr.HTTPExchange
import Iomgr.HTTPRequestComplete
import Iomgr.Ownership
import Iomgr.PollThread
import Iomgr.StatusState
import Iomgr.TaskRunnerJoin
import Iomgr.TimerTable
import Iomgr.DescriptorOwnership
import Iomgr.HTTPServerAccept
import Iomgr.SockaddrObjects
import Iomgr.URICreate
import Iomgr.IOBufferRuns
