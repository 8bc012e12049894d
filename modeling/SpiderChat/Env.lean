import SpiderChat.Lib.Prog
import SpiderChat.Shard

/-!
# SpiderChat.Env

What the request handlers call outside their own code: the clients and the
registry, the clock, the connection pool, MySQL, and the sockets. A handler is a
program over these calls (`Handler`), and what they answer is left open.
-/

namespace SpiderChat

open Lib

/-- A column of a `MYSQL_ROW`: its address and its text. -/
structure Column where
  addr : Int64
  text : Bytes
  deriving Repr, DecidableEq

/-- A `MYSQL_ROW`; a column that is `NULL` is `none`. -/
abbrev MysqlRow := List (Option Column)

/-- `row[i]` -/
def MysqlRow.col (row : MysqlRow) (i : Nat) : Option Column := row.getD i none

/-- `%s` of a column; the C library prints `NULL` as `(null)`. -/
def fmtColumn : Option Column → Bytes
  | none => ascii "(null)"
  | some c => cstr c.text

theorem ne_zero_of_mem_fmtColumn {c : Option Column} {b : UInt8} (h : b ∈ fmtColumn c) :
    b ≠ 0 := by
  cases c with
  | none => exact (by decide : ∀ b ∈ ascii "(null)", b ≠ 0) b h
  | some c => exact ne_zero_of_mem_cstr h

/-- `%d` of a column: the low 32 bits of the pointer. -/
def fmtPointer : Option Column → Bytes
  | none => fmtD 0
  | some c => fmtD c.addr

/-- The calls of the handlers. -/
inductive Call
  /-- the fields of `*client` -/
  | readClient (client : Addr)
  /-- `client->app_version = ..` -/
  | setVersion (client : Addr) (app_version : Bytes)
  /-- `client->uid = ..`, `client->gmid = ..`, `client->gameid = ..` -/
  | setLogin (client : Addr) (uid gmid : Int64) (gameid : Int32)
  /-- `client->keepalivetime = ..` -/
  | setKeepalive (client : Addr) (keepalivetime : Int32)
  | findClientByUid (uid : Int64)
  | time
  | getConnect
  | destoryConnect (conn : Addr)
  | querySql (conn : Addr) (sql : Bytes)
  | getRows (conn : Addr) (sql : Bytes)
  | send (fd : Int) (bytes : Bytes)
  | closeClient (fd : Int)
  /-- the contents of a local array of the given size that is not initialised -/
  | stackArray (size : Nat)
  /-- undefined behaviour -/
  | undefined
  deriving Repr, DecidableEq

/-- What a call answers. -/
abbrev Call.Answer : Call → Type
  | .readClient _ => SpiderClient
  | .setVersion _ _ => Unit
  | .setLogin _ _ _ _ => Unit
  | .setKeepalive _ _ => Unit
  | .findClientByUid _ => Ptr
  | .time => Int64
  | .getConnect => Ptr
  | .destoryConnect _ => Unit
  | .querySql _ _ => Bool
  | .getRows _ _ => Option (List MysqlRow)
  | .send _ _ => Int32
  | .closeClient _ => Unit
  | .stackArray size => { b : Bytes // b.length = size }
  | .undefined => Empty

/-- A call of `close_client`. -/
def Call.isClose : Call → Bool
  | .closeClient _ => true
  | _ => false

/-- A call that sets the uid of a client. -/
def Call.isLogin : Call → Bool
  | .setLogin _ _ _ _ => true
  | _ => false

/-- A call that sets the uid of the given client. -/
def Call.logsIn (client : Addr) : Call → Bool
  | .setLogin a _ _ _ => a == client
  | _ => false

theorem Call.logsIn_eq_false {c : Call} (h : c.isLogin = false) (client : Addr) :
    c.logsIn client = false := by
  cases c with
  | setLogin a uid gmid gameid => cases h
  | _ => rfl

/-- A call that closes no connection and sets no uid. -/
def Call.Quiet (c : Call) : Prop := c.isClose = false ∧ c.isLogin = false

/-- A call that writes to a client, or frees one. -/
def Call.writes : Call → Bool
  | .setVersion _ _ | .setLogin _ _ _ _ | .setKeepalive _ _ | .closeClient _ => true
  | _ => false

theorem Call.quiet_of_writes {c : Call} (h : c.writes = false) : c.Quiet := by
  cases c with
  | closeClient fd => cases h
  | setLogin a uid gmid gameid => cases h
  | _ => exact ⟨rfl, rfl⟩

/-- A call that is not about the clients: the clock, the pool, MySQL and the sockets. -/
def Call.isOutside : Call → Bool
  | .time | .getConnect | .destoryConnect _ | .querySql _ _ | .getRows _ _ | .send _ _ => true
  | _ => false

theorem Call.writes_of_isOutside {c : Call} (h : c.isOutside = true) : c.writes = false := by
  cases c with
  | setVersion a app_version => cases h
  | setLogin a uid gmid gameid => cases h
  | setKeepalive a keepalivetime => cases h
  | closeClient fd => cases h
  | _ => rfl

/-- A call of `send`. -/
def Call.isSend : Call → Bool
  | .send _ _ => true
  | _ => false

/-- A call that is answered. -/
def Call.returns : Call → Bool
  | .undefined => false
  | _ => true

/-- A computation of a request handler. -/
abbrev Handler (α : Type) := Prog Call.Answer α

/-- A call of a handler and its answer. -/
abbrev HandlerEvent := Event Call.Answer

namespace Handler

/-- A call. -/
def ask (c : Call) : Handler c.Answer := Prog.op c

/-- Undefined behaviour: the handler does not return. -/
def undefined {α : Type} : Handler α := .call .undefined nofun

/-- A computation on the handler's own memory. -/
def ofOption {α : Type} : Option α → Handler α
  | none => undefined
  | some a => pure a

@[simp] theorem ask_bind {α : Type} (c : Call) (k : c.Answer → Handler α) :
    (ask c >>= k) = .call c k := rfl

theorem runs_ask_bind {α : Type} {c : Call} {k : c.Answer → Handler α} {es : List HandlerEvent}
    {a : α} : (ask c >>= k).Runs es a ↔ ∃ r es', es = ⟨c, r⟩ :: es' ∧ (k r).Runs es' a :=
  Prog.runs_call

@[simp] theorem ofOption_some {α : Type} (a : α) : (ofOption (some a)) = pure a := rfl

@[simp] theorem ofOption_none {α : Type} : (ofOption (none : Option α)) = undefined := rfl

@[simp] theorem runs_undefined {α : Type} {es : List HandlerEvent} {a : α} :
    ¬ Prog.Runs undefined es a := by
  intro h
  cases h with
  | call r _ => exact nomatch r

theorem nonempty_answer {c : Call} (hc : c.returns = true) : Nonempty c.Answer := by
  cases c with
  | readClient a => exact ⟨(⟨0, 0, 0, 0, [], 0⟩ : SpiderClient)⟩
  | stackArray size => exact ⟨⟨List.replicate size 0, List.length_replicate⟩⟩
  | undefined => cases hc
  | time => exact ⟨(0 : Int64)⟩
  | send fd bytes => exact ⟨(0 : Int32)⟩
  | querySql conn sql => exact ⟨true⟩
  | findClientByUid uid => exact ⟨(none : Ptr)⟩
  | getConnect => exact ⟨(none : Ptr)⟩
  | getRows conn sql => exact ⟨(none : Option (List MysqlRow))⟩
  | _ => exact ⟨()⟩

theorem ends_ask_bind {α : Type} {c : Call} (hc : c.returns = true) {k : c.Answer → Handler α}
    {es : List HandlerEvent} {x : Option α} :
    (ask c >>= k).Ends es x ↔ ∃ r es', es = ⟨c, r⟩ :: es' ∧ (k r).Ends es' x := by
  rw [ask_bind, Prog.ends_call]
  refine or_iff_right fun h => ?_
  exact h.1.elim (nonempty_answer hc).some

theorem ends_undefined {α : Type} {es : List HandlerEvent} {x : Option α} :
    Prog.Ends (undefined : Handler α) es x ↔ es = [] ∧ x = none := by
  rw [undefined, Prog.ends_call]
  constructor
  · intro h
    rcases h with ⟨-, h⟩ | ⟨r, -⟩
    · exact h
    · cases r
  · intro h
    exact .inl ⟨⟨Empty.elim⟩, h⟩

theorem defined_ask_bind {α : Type} {c : Call} (hc : c.returns = true) {k : c.Answer → Handler α}
    (hk : ∀ r, (k r).Defined) : (ask c >>= k).Defined := by
  have := nonempty_answer hc
  exact Prog.defined_call hk

theorem defined_ask {c : Call} (hc : c.returns = true) : (ask c).Defined := by
  have := nonempty_answer hc
  exact Prog.defined_call Prog.defined_pure

theorem undefined_bind {α β : Type} (f : α → Handler β) :
    ((undefined : Handler α) >>= f) = undefined := by
  rw [undefined, Prog.call_bind, undefined]
  congr 1
  funext r
  cases r

@[simp] theorem runs_undefined_bind {α β : Type} {f : α → Handler β} {es : List HandlerEvent}
    {b : β} : ¬ Prog.Runs (undefined >>= f) es b := by
  rw [Prog.runs_bind]
  intro h
  obtain ⟨_, _, _, _, h, _⟩ := h
  exact runs_undefined h

variable {α : Type} {P : Call → Prop}

theorem calls_ask_bind {c : Call} {k : c.Answer → Handler α} (hc : P c)
    (hk : ∀ r, (k r).Calls P) : (ask c >>= k).Calls P :=
  Prog.calls_call hc hk

theorem calls_ask {c : Call} (hc : P c) : (ask c).Calls P :=
  Prog.calls_call hc Prog.calls_pure

theorem callsAt_ask_bind {Q : List HandlerEvent → HandlerEvent → Prop} {c : Call}
    {k : c.Answer → Handler α} (hc : ∀ r, Q [] ⟨c, r⟩)
    (hk : ∀ r, (k r).CallsAt fun pre => Q (⟨c, r⟩ :: pre)) : (ask c >>= k).CallsAt Q :=
  Prog.callsAt_call hc hk

theorem calls_undefined : (undefined : Handler α).Calls P :=
  fun _ _ h => absurd h runs_undefined

theorem calls_ofOption (o : Option α) : (ofOption o).Calls P := by
  cases o with
  | none => exact calls_undefined
  | some a => exact Prog.calls_pure a

end Handler

end SpiderChat
