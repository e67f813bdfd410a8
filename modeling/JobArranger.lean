import JobArranger.Core.LTS
import JobArranger.Core.Table
import JobArranger.Core.Bytes
import JobArranger.Core.Conn
import JobArranger.Core.Decimal
import JobArranger.Core.Gregorian
import JobArranger.Core.Json
import JobArranger.Core.JsonText
import JobArranger.Core.Locks
import JobArranger.Core.Tokens
import JobArranger.Core.Prog
import JobArranger.Core.Propagate
import JobArranger.Core.Sql
import JobArranger.Core.Replay
import JobArranger.L1Data.Tables
import JobArranger.L1Data.Value
import JobArranger.L2Status.Status
import JobArranger.L2Status.Flow
import JobArranger.L2Status.Statements
import JobArranger.L3Loader.Define
import JobArranger.L3Loader.Index
import JobArranger.L3Loader.Level
import JobArranger.L3Loader.Unfold
import JobArranger.L3Loader.Load
import JobArranger.L3Loader.Once
import JobArranger.L3Loader.Path
import JobArranger.L3Loader.Dates
import JobArranger.L3Loader.Calendar
import JobArranger.L3Loader.Filter
import JobArranger.L3Loader.Rule
import JobArranger.L3Loader.Preview
import JobArranger.L4Flow.Join
import JobArranger.L4Flow.Progress
import JobArranger.L4Flow.Race
import JobArranger.L4Flow.Reject
import JobArranger.L5Server.Boot
import JobArranger.L5Server.MultiStart
import JobArranger.L5Server.Jobnet
import JobArranger.L5Server.IconOnce
import JobArranger.L5Server.RowOrder
import JobArranger.L5Server.Server
import JobArranger.L5Server.Wired
import JobArranger.L5Server.Kill
import JobArranger.L5Server.Settled
import JobArranger.L5Server.Finish
import JobArranger.L5Server.Start
import JobArranger.L5Server.Hold
import JobArranger.L5Server.HostLock
import JobArranger.L5Server.Monitor
import JobArranger.L5Server.Result
import JobArranger.L5Server.Answer
import JobArranger.L5Server.Deterrence
import JobArranger.L5Server.Release
import JobArranger.L5Server.Session
import JobArranger.L5Server.Service
import JobArranger.L6Agent.Send
import JobArranger.L6Agent.Telegram
import JobArranger.L6Agent.Dispatch
import JobArranger.L6Agent.FileCopy
import JobArranger.L6Agent.KillTree
import JobArranger.L6Agent.Wakeup
import JobArranger.L6Agent.Executive
import JobArranger.L6Agent.JobDb
import JobArranger.L6Agent.JobFile
import JobArranger.L6Agent.Journal
import JobArranger.L6Agent.Agree
import JobArranger.L6Agent.Comms
import JobArranger.Core.Double
import JobArranger.Core.Utf8
import JobArranger.L7Input.StopCode
import JobArranger.L7Input.ExitCode
import JobArranger.L7Input.Timestamp
import JobArranger.L7Input.Password
import JobArranger.L7Input.ZbxJson
import JobArranger.L7Input.ZbxJsonWrite
import JobArranger.L5Server.ExecRequest
import JobArranger.L5Server.Extjob
import JobArranger.L5Server.ExecClient
import JobArranger.L1Data.Output
import JobArranger.L1Data.Replace
import JobArranger.L5Server.Variables
import JobArranger.Core.Ere
import JobArranger.L1Data.Match
import JobArranger.Core.Shell
import JobArranger.L1Data.Format
import JobArranger.L5Server.Notice
import JobArranger.L5Server.NoticeQueue
import JobArranger.L5Server.Terminal
