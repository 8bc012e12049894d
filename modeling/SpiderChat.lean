import SpiderChat.RegistryRefine
import SpiderChat.TaskQueue
import SpiderChat.Workers
import SpiderChat.ChatPayload
import SpiderChat.Offline
import SpiderChat.Reassembly
import SpiderChat.LiveTasks
import SpiderChat.Crossing
import SpiderChat.Boundaries
import SpiderChat.Watched
import SpiderChat.Readtask
import SpiderChat.Replies
import SpiderChat.Outgoing
import SpiderChat.Identities
import SpiderChat.OneSession
import SpiderChat.Stranded
import SpiderChat.Twice
import SpiderChat.Wakeup
import SpiderChat.ClientStream
import SpiderChat.LastLogin
import SpiderChat.SuccessCode
import SpiderChat.IdleSweep
import SpiderChat.ClientLogin
import SpiderChat.Mailbox
import SpiderChat.ClientMutex
import SpiderChat.Answers
import SpiderChat.ChatFormat
import SpiderChat.LoginFormat
import SpiderChat.FriendList
import SpiderChat.Uids
import SpiderChat.HeadReaders
import SpiderChat.FailedStart
import SpiderChat.Destory
import SpiderChat.Config
import SpiderChat.JsonFree
import SpiderChat.JsonPayload
import SpiderChat.LogLines
