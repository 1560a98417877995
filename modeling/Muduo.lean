import Muduo.Net.BufferRuns
import Muduo.Net.OutputStream
import Muduo.Net.Closing
import Muduo.Examples.IdOwnership
import Muduo.Examples.Relay
import Muduo.Net.TimerHistory
import Muduo.Net.TimerArming
import Muduo.Net.TimerCancel
import Muduo.Net.Wakeup
import Muduo.Examples.ChatCodec
import Muduo.Net.ProtobufCodec
import Muduo.Examples.IdleTimeout
import Muduo.Base.LoggedBytes
import Muduo.Base.LoggingStop
import Muduo.Net.PollersAgree
import Muduo.Net.Attempts
import Muduo.Examples.TransparentPipe
import Muduo.Examples.SocksRequest
import Muduo.Examples.SocksReply
import Muduo.Examples.RelayPeers
import Muduo.Examples.OutputLevels
import Muduo.Examples.BackPressure
import Muduo.Net.HalfClose
import Muduo.Net.HttpParsing
import Muduo.Net.Pipelining
import Muduo.Net.RpcRuns
import Muduo.Net.ServerRuns
import Muduo.Net.StateRace
import Muduo.Lib.ExactCover
import Muduo.Examples.SudokuGrid
import Muduo.Examples.Codec
import Muduo.Examples.PacketSafety
import Muduo.Examples.SudokuPipelining
import Muduo.Net.ProtobufFrames
import Muduo.Base.LocalTime
import Muduo.Base.ThreadPoolStop
import Muduo.Examples.DownloadSound
import Muduo.Net.RpcLifetime
import Muduo.Examples.ChatBroadcast
import Muduo.Examples.CodecGrammar
import Muduo.Net.HttpHeaderEnd
import Muduo.Net.TimerExpiry
import Muduo.Net.EpollOperations
import Muduo.Net.PollSlots
import Muduo.Base.ZoneFile
import Muduo.Base.UtcTime
import Muduo.Net.TeardownRuns
import Muduo.Net.Inspector
import Muduo.Examples.CircularIndex
import Muduo.Examples.Chargen
import Muduo.Base.LogStreamRuns
import Muduo.Base.LoggedTime
import Muduo.Examples.Backtracking
import Muduo.Net.NetworkInts
import Muduo.Net.ZlibRuns
import Muduo.Base.BlockingQueueWaits
import Muduo.Base.Thread
import Muduo.Net.EventLoopThreadEnd
import Muduo.Base.LogFileRuns
import Muduo.Net.AcceptorSound
import Muduo.Net.Delivery
import Muduo.Net.ClientEnd
import Muduo.Net.LoopTurns
import Muduo.Net.InspectorCommands
import Muduo.Net.HttpAnswers
