import SpiderChat.Types

/-!
# SpiderChat.Pool

The MySQL connection pool of `db.c`: a linked list of 15 connections that
`initMysql` opens, lent out under `mysql_normal_mutex`, and overflow connections
opened and closed on demand, counted under `mysql_courrent_mutex`.

`getConnect` and `destoryConnect` are given as their critical sections, which is
what one thread does without another one in between: `getConnect` leaves the
first section before it enters the second, and `destoryConnect` frees an overflow
connection before it enters the section that counts it. As elsewhere `none` is
undefined behaviour, and what `malloc`, `mysql_init` and `mysql_real_connect`
return is an argument.
-/

namespace SpiderChat

open Lib

/-- `struct DBConn`; `conn` is the MySQL handle. -/
structure DBConn where
  conn : Addr
  is_use : Int
  seq : Int
  normal_flag : Bool
  next : Ptr
  prev : Ptr
  deriving Repr, DecidableEq

namespace DBConn

/-- `p->is_use = ..` -/
def setUse (n : DBConn) (u : Int) : DBConn := { n with is_use := u }
/-- `p->next = ..` -/
def setNext (n : DBConn) (p : Ptr) : DBConn := { n with next := p }

@[simp] theorem setUse_is_use (n : DBConn) (u : Int) : (n.setUse u).is_use = u := rfl
@[simp] theorem setUse_normal_flag (n : DBConn) (u : Int) :
    (n.setUse u).normal_flag = n.normal_flag := rfl
@[simp] theorem setUse_next (n : DBConn) (u : Int) : (n.setUse u).next = n.next := rfl
@[simp] theorem setNext_is_use (n : DBConn) (p : Ptr) : (n.setNext p).is_use = n.is_use := rfl
@[simp] theorem setNext_normal_flag (n : DBConn) (p : Ptr) :
    (n.setNext p).normal_flag = n.normal_flag := rfl

end DBConn

/-- The heap of connections, `*sql_conn` and `mysql_courrent_connet_sum`.
`db = none` is the field as `malloc` returned it, never written. -/
structure Pool where
  heap : Heap DBConn
  db : Option Ptr
  conn_sum : Int
  mysql_courrent_connet_sum : Int
  deriving Repr, DecidableEq

/-- What one `malloc(sizeof(DBConn))`, `mysql_init` and `mysql_real_connect` yield. -/
structure NewNode where
  addr : Addr
  handle : Addr
  connected : Bool
  deriving Repr, DecidableEq

/-- The loop of `initMysql` with `connect_num` rounds to go, behind node `conn`.
A node whose connection fails is allocated but never linked; it is left out. -/
def initMysqlLoop (mem : Nat → NewNode) : Nat → Heap DBConn → Addr → Option (Heap DBConn × Bool)
  | 0, heap, _ => some (heap, true)
  | connect_num + 1, heap, conn =>
      let m := mem connect_num
      if m.connected then do
        let heap := heap.set m.addr
          { conn := m.handle, is_use := 0, seq := NORMARL_MYSQL_CONNECT - connect_num,
            normal_flag := true, next := none, prev := some conn }
        let heap ← heap.update conn (·.setNext (some m.addr))
        initMysqlLoop mem connect_num heap m.addr
      else some (heap, false)

/-- `initMysql`; the `k`-th argument serves the round with `connect_num = k`, and
the last one the connection opened before the loop. -/
def initMysql (mem : Nat → NewNode) : Option (Pool × Bool) :=
  let m := mem (NORMARL_MYSQL_CONNECT - 1)
  if m.connected then do
    let (heap, ok) ← initMysqlLoop mem (NORMARL_MYSQL_CONNECT - 1)
      (Heap.set [] m.addr
        { conn := m.handle, is_use := 0, seq := 0, normal_flag := true, next := none,
          prev := none }) m.addr
    some (⟨heap, some (some m.addr), NORMARL_MYSQL_CONNECT, NORMARL_MYSQL_CONNECT⟩, ok)
  else some (⟨[], none, NORMARL_MYSQL_CONNECT, NORMARL_MYSQL_CONNECT⟩, false)

namespace Pool

/-- `getConnect` under `mysql_normal_mutex`: a pooled connection, or `none` when
`conn_sum` is 0 and the second section is to be entered. The loop may find no
free node, and then `temp->is_use = 1` goes through `NULL`. -/
def getConnectNormal (p : Pool) : Option (Option Addr × Pool) :=
  if p.conn_sum = 0 then some (none, p)
  else do
    let db ← p.db
    let found ← search DBConn.next (fun n => some (decide (n.is_use = 0))) p.heap
      (p.heap.length + 1) db
    let temp ← found
    let heap ← p.heap.update temp (·.setUse 1)
    some (some temp, { p with heap, conn_sum := p.conn_sum - 1 })

/-- What `getConnect` meets in its second section. -/
inductive Overflow
  | mallocFail
  | connectFail
  | connected (addr handle : Addr)
  deriving Repr, DecidableEq

/-- The address `malloc` returned, when the node is used. -/
def Overflow.addr : Overflow → Ptr
  | .connected addr _ => some addr
  | _ => none

/-- `getConnect` under `mysql_courrent_mutex`: an overflow connection or `NULL`.
A `DBConn` whose connection fails is not freed; it is never returned either. -/
def getConnectCourrent (p : Pool) (r : Overflow) : Ptr × Pool :=
  if p.mysql_courrent_connet_sum < MAX_MYSQL_CONNECT then
    match r with
    | .mallocFail => (none, p)
    | .connectFail => (none, p)
    | .connected addr handle =>
        (some addr,
          { p with
            heap := p.heap.set addr
              { conn := handle, is_use := 0, seq := p.mysql_courrent_connet_sum,
                normal_flag := false, next := none, prev := none }
            mysql_courrent_connet_sum := p.mysql_courrent_connet_sum + 1 })
  else (none, p)

/-- The second section yields `NULL` and changes nothing, or a new connection. -/
theorem getConnectCourrent_cases (p : Pool) (r : Overflow) :
    p.getConnectCourrent r = (none, p) ∨
      ∃ addr handle, r = .connected addr handle ∧ p.mysql_courrent_connet_sum < MAX_MYSQL_CONNECT ∧
        p.getConnectCourrent r = (some addr,
          { p with
            heap := p.heap.set addr ⟨handle, 0, p.mysql_courrent_connet_sum, false, none, none⟩
            mysql_courrent_connet_sum := p.mysql_courrent_connet_sum + 1 }) := by
  unfold getConnectCourrent
  split
  · rename_i hlt
    cases r with
    | mallocFail => exact Or.inl rfl
    | connectFail => exact Or.inl rfl
    | connected addr handle => exact Or.inr ⟨addr, handle, rfl, hlt, rfl⟩
  · exact Or.inl rfl

/-- `destoryConnect` of a pooled connection, under `mysql_normal_mutex`. -/
def destoryNormal (p : Pool) (sql_connect : Addr) : Option Pool := do
  let heap ← p.heap.update sql_connect (·.setUse 0)
  some { p with heap, conn_sum := p.conn_sum + 1 }

/-- `destoryConnect` of an overflow connection, before it takes the mutex. -/
def destoryOverflow (p : Pool) (sql_connect : Addr) : Option Pool := do
  let heap ← p.heap.free sql_connect
  some { p with heap }

/-- `destoryConnect` of an overflow connection, under `mysql_courrent_mutex`. -/
def destoryCount (p : Pool) : Pool :=
  { p with mysql_courrent_connet_sum := p.mysql_courrent_connet_sum - 1 }

/-- The pooled connections, read off the list; `none` when a freed node or a
field never written is reached. -/
def pooled (p : Pool) : Option (List (Addr × DBConn)) := do
  let db ← p.db
  collect DBConn.next p.heap (p.heap.length + 1) db

end Pool

end SpiderChat
