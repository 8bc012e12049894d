import SpiderChat.ModChat
import SpiderChat.ModFriend
import SpiderChat.ModLogin

/-!
# SpiderChat.Handle

`handle.c`: what a worker does with a task it has taken from the queue.
`handleData` returns 0 when the worker is not to unlock the client's mutex.
-/

namespace SpiderChat

open Lib Handler

/-- `HEARTBEAT_POLICY`. -/
def HEARTBEAT_POLICY : Bytes := ascii "<heartbeat_event>spider_tcp</heartbeat_event>"

/-- `{"ret":%d}` -/
def retPayload (retcode : Int32) : Bytes :=
  ascii "\x7b\"ret\":" ++ decInt retcode.toInt ++ ascii "\x7d"

section

variable (parse : Bytes → Option Json) (task : Task)

/-- `handle_login`. -/
def handleLogin : Handler Unit := do
  let retcode ← modLogin parse task.client task.data
  let ret := snprintf 100 (retPayload retcode)
  let client ← ask (.readClient task.client)
  handleSend task.fd task.cmd client.gameid ret
  if retcode = _HANDLE_SUCCESSFUL then do
    let client ← ask (.readClient task.client)
    modChatSendOfflineMsg task.fd client.uid client.gameid
  else pure ()

/-- `handle_heartbeat`. -/
def handleHeartbeat : Handler Unit := do
  if cstr task.data = HEARTBEAT_POLICY then do
    let mytimestamp ← ask .time
    ask (.setKeepalive task.client mytimestamp.toInt32)
    let ret := ascii "\x7b\"ret\":1\x7d"
    let client ← ask (.readClient task.client)
    handleSend task.fd task.cmd client.gameid ret
  else do
    -- the arguments `client->uid` and so on are read and only logged
    let _ ← ask (.readClient task.client)
    ask (.closeClient task.fd)

/-- `handle_loginout`. -/
def handleLoginout : Handler Unit := do
  let _ ← ask (.readClient task.client)
  ask (.closeClient task.fd)

/-- `handle_send_message`. The return code is passed to `strncpy` as its count. -/
def handleSendMessage : Handler Unit := do
  let client ← ask (.readClient task.client)
  let retcode ← modChatSendMessage parse client.uid task.data
  let ret ← ofOption (strncpy (List.replicate 100 0) 0 (ascii "\x7b\"ret\":%d\x7d")
    retcode.toInt64.toUInt64.toNat)
  let client ← ask (.readClient task.client)
  handleSend task.fd task.cmd client.gameid ret

/-- `handle_get_friend_list`. -/
def handleGetFriendList : Handler Unit := do
  let friend ← ask (.stackArray 512)
  let client ← ask (.readClient task.client)
  let (retcode, friend) ← modFriendGetFriendList client.uid friend.1
  let ret :=
    if retcode ≠ _HANDLE_SUCCESSFUL then snprintf 600 (retPayload retcode)
    else
      snprintf 600 (ascii "\x7b\"ret\":" ++ decInt retcode.toInt ++ ascii ",\"list\":" ++
        cstr friend ++ ascii "\x7d")
  let client ← ask (.readClient task.client)
  handleSend task.fd task.cmd client.gameid ret

/-- `handle_data`; `handle_catch_error` does nothing. -/
def handleData : Handler Int32 := do
  if task.cmd = HANDLE_LOGIN then do
    handleLogin parse task
    pure 1
  else if task.cmd = HANDLE_LOGINOUT then do
    handleLoginout task
    pure 0
  else if task.cmd = HANDLE_HEARTBEAT then do
    handleHeartbeat task
    pure 1
  else if task.cmd = HANDLE_SEND_MESSAGE then do
    handleSendMessage parse task
    pure 1
  else if task.cmd = HANDLE_GET_FRIEND_LIST then do
    handleGetFriendList task
    pure 1
  else pure 1

end

/-! ### The handler of a command -/

variable {parse : Bytes → Option Json} {task : Task}

theorem handleData_login (hcmd : task.cmd = HANDLE_LOGIN) :
    handleData parse task = (handleLogin parse task >>= fun _ => pure 1) :=
  if_pos hcmd

theorem handleData_loginout (hcmd : task.cmd = HANDLE_LOGINOUT) :
    handleData parse task = (handleLoginout task >>= fun _ => pure 0) := by
  rw [handleData, hcmd, if_neg (by decide), if_pos rfl]

theorem handleData_heartbeat (hcmd : task.cmd = HANDLE_HEARTBEAT) :
    handleData parse task = (handleHeartbeat task >>= fun _ => pure 1) := by
  rw [handleData, hcmd, if_neg (by decide), if_neg (by decide), if_pos rfl]

theorem handleData_sendMessage (hcmd : task.cmd = HANDLE_SEND_MESSAGE) :
    handleData parse task = (handleSendMessage parse task >>= fun _ => pure 1) := by
  rw [handleData, hcmd, if_neg (by decide), if_neg (by decide), if_neg (by decide), if_pos rfl]

theorem handleData_getFriendList (hcmd : task.cmd = HANDLE_GET_FRIEND_LIST) :
    handleData parse task = (handleGetFriendList task >>= fun _ => pure 1) := by
  rw [handleData, hcmd, if_neg (by decide), if_neg (by decide), if_neg (by decide),
    if_neg (by decide), if_pos rfl]

end SpiderChat
