import SpiderChat.Lib.CHeap

/-!
# SpiderChat.Types

The constants and structures of `spider_tcp_server.h`, `global.h` and `db.h`
that the modelled functions use. `int` is `Int32` and `long` is `Int64` where a
value is received from outside or printed; descriptors (`socket_id`) are `Int`, and pointers
are `Lib.Ptr` (`none` is `NULL`).
-/

namespace SpiderChat

open Lib (Addr Ptr)

/-- A text in the server's memory: its bytes. -/
abbrev Bytes := List UInt8

/-! ### `spider_tcp_server.h` -/

def SUCCESSFUL : Int32 := 1
def FAIL : Int32 := 0

def MAX_BUFFER_LENGTH : Nat := 2046
def PACKET_MAX_LEN : Int32 := 1024

/-- `PACKET_HEAD_CODE`, the character `&`. -/
def PACKET_HEAD_CODE : UInt8 := 38

def HANDLE_LOGIN : Int32 := 0x100
def HANDLE_LOGINOUT : Int32 := 0x101
def HANDLE_HEARTBEAT : Int32 := 0x102
def HANDLE_SEND_MESSAGE : Int32 := 0x103
def HANDLE_GET_FRIEND_LIST : Int32 := 0x104

/-! ### `global.h` -/

def OFFLINE_MSG_TABLE_LEVEL : Nat := 0
def FRIENDS_TABLE_LEVEL : Nat := 2

def _HANDLE_SUCCESSFUL : Int32 := 1
def _ERROR_HANDLE_LOGIN_DATA_PARSE_ERROR : Int32 := -1000
def _ERROR_MOD_CHAT_PARSE_DATA_ERROR : Int32 := -1010
def _ERROR_MOD_CHAT_SEND_MSG_SQL_FAIL : Int32 := -1011
def _ERROR_MOD_FRIEND_MYSQL_ERROR : Int32 := -1020

/-! ### `db.h` -/

def MAX_MYSQL_CONNECT : Int := 1000
def NORMARL_MYSQL_CONNECT : Nat := 15

/-! ### Structures -/

/-- `struct spider_client`. -/
structure SpiderClient where
  fd : Int
  uid : Int64
  gmid : Int64
  gameid : Int32
  /-- `char app_version[10]` -/
  app_version : Bytes
  keepalivetime : Int32
  deriving Repr, DecidableEq

/-- `struct packet_head`, packed: 15 bytes on the wire. -/
structure PacketHead where
  length : Int32
  flag : Bytes
  cVersion : Int16
  cmd : Int32
  gameid : Int16
  code : UInt8
  deriving Repr, DecidableEq

/-- `struct fd2client`, a node of the client registry. -/
structure Fd2client where
  fd : Int
  client : Ptr
  next : Ptr
  prev : Ptr
  tail : Ptr
  deriving Repr, DecidableEq

/-- What a `struct task` carries. `client` is the address of a `spider_client`. -/
structure Task where
  fd : Int
  client : Addr
  cmd : Int32
  data : Bytes
  deriving Repr, DecidableEq

/-- `struct task`, a node of the task queue. -/
structure TaskNode where
  task : Task
  next : Ptr
  deriving Repr, DecidableEq

end SpiderChat
