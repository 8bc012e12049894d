import SpiderChat.Types

/-!
# SpiderChat.Registry

The client registry of `spider_function.c`: the doubly linked list of
`fd2client` nodes behind the global `fd2clients`. `init_fd2client` puts an empty
placeholder node (`fd == 0`) there, `add_fd2client` fills the placeholder or
appends a node, and `del_fd2client` unlinks one.

Every function is translated statement by statement over `Lib.Heap`. The result
`none` is undefined behaviour: a `NULL` or freed node is read, written or freed,
or a loop over the list does not end. What `malloc` returns is an argument
(`mem`), `none` being `NULL`.
-/

namespace SpiderChat

open Lib

namespace Fd2client

/-- `p->next = ..` -/
def setNext (n : Fd2client) (p : Ptr) : Fd2client := { n with next := p }
/-- `p->prev = ..` -/
def setPrev (n : Fd2client) (p : Ptr) : Fd2client := { n with prev := p }
/-- `p->tail = ..` -/
def setTail (n : Fd2client) (p : Ptr) : Fd2client := { n with tail := p }

@[simp] theorem setNext_fd (n : Fd2client) (p : Ptr) : (n.setNext p).fd = n.fd := rfl
@[simp] theorem setNext_client (n : Fd2client) (p : Ptr) : (n.setNext p).client = n.client := rfl
@[simp] theorem setPrev_fd (n : Fd2client) (p : Ptr) : (n.setPrev p).fd = n.fd := rfl
@[simp] theorem setPrev_client (n : Fd2client) (p : Ptr) : (n.setPrev p).client = n.client := rfl
@[simp] theorem setTail_fd (n : Fd2client) (p : Ptr) : (n.setTail p).fd = n.fd := rfl
@[simp] theorem setTail_client (n : Fd2client) (p : Ptr) : (n.setTail p).client = n.client := rfl

end Fd2client

/-- The memory of the registry: its nodes and the global `fd2clients`. -/
structure Registry where
  heap : Heap Fd2client
  fd2clients : Ptr
  deriving Repr, DecidableEq

namespace Registry

/-- The state at the start of `main`: `fd2clients = NULL` and no node. -/
def empty : Registry := ⟨[], none⟩

/-- The empty placeholder that `init_fd2client` allocates. -/
def placeholder : Fd2client := ⟨0, none, none, none, none⟩

/-- `init_fd2client`. -/
def initFd2client (r : Registry) (mem : Ptr) : Registry × Ptr :=
  match r.fd2clients with
  | some a => (r, some a)
  | none =>
      match mem with
      | none => (r, none)
      | some a => (⟨r.heap.set a placeholder, some a⟩, some a)

/-- `add_fd2client`. -/
def addFd2client (r : Registry) (fd : Int) (client : Ptr) (mem : Ptr) :
    Option (Registry × Int32) :=
  match r.fd2clients with
  | none => some (r, FAIL)
  | some head => do
      let first ← r.heap.get head
      if first.prev = none ∧ first.fd = 0 then
        let heap ← r.heap.update head fun _ =>
          { fd, client, next := none, prev := none, tail := some head }
        some ({ r with heap }, SUCCESSFUL)
      else
        -- `while (tmp->next != NULL) tmp = tmp->next`
        let last ← search Fd2client.next (fun n => some n.next.isNone) r.heap
          (r.heap.length + 1) (some head)
        let tmp ← last
        let node ← r.heap.get tmp
        match mem with
        | none => some (r, FAIL)
        | some new_fd2 =>
            let heap := r.heap.set new_fd2
              { fd, client, next := none, prev := some tmp, tail := node.tail }
            let heap ← heap.update tmp (·.setNext (some new_fd2))
            some ({ r with heap }, SUCCESSFUL)

/-- `del_fd2client` on a node that is not `NULL`. Where the C function ends
without a `return`, its value is not used by any caller and is left out. -/
def delFd2client (r : Registry) (fd2 : Addr) : Option Registry := do
  let node ← r.heap.get fd2
  match node.prev with
  | none =>
      let tmp ← r.fd2clients
      let first ← r.heap.get tmp
      match first.next with
      | some second =>
          let heap ← r.heap.update second (·.setTail (some second))
          -- the new first node becomes its own `prev`
          let heap ← heap.update second (·.setPrev (some second))
          let heap ← heap.free tmp
          some ⟨heap, some second⟩
      | none =>
          let heap ← r.heap.update fd2 fun _ => placeholder
          some { r with heap }
  | some prev =>
      match node.next with
      | some next =>
          let heap ← r.heap.update prev (·.setNext (some next))
          -- `fd2 = fd2->next`, read again after the write above
          let node ← heap.get fd2
          let next ← node.next
          let heap ← heap.update next (·.setPrev node.prev)
          let heap ← heap.free fd2
          some { r with heap }
      | none =>
          let heap ← r.heap.update prev (·.setNext none)
          let heap ← heap.free fd2
          some { r with heap }

/-- `find_fd2client`: the node of a descriptor, `NULL` when there is none. -/
def findFd2client (r : Registry) (fd : Int) : Option Ptr :=
  search Fd2client.next (fun n => some (decide (fd = n.fd))) r.heap (r.heap.length + 1)
    r.fd2clients

/-- `is_exists_fd`: the client of a descriptor, `NULL` when there is none. -/
def isExistsFd (r : Registry) (fd : Int) : Option Ptr := do
  match ← r.findFd2client fd with
  | none => some none
  | some a => (r.heap.get a).map Fd2client.client

/-- `findClientByUid`: the first client of the list with this uid. `uidOf` reads
`client->uid`; it fails on `NULL` (the placeholder's client) and on freed memory. -/
def findClientByUid (r : Registry) (uidOf : Ptr → Option Int64) (uid : Int64) : Option Ptr := do
  match ← search Fd2client.next (fun n => (uidOf n.client).map fun u => decide (uid = u)) r.heap
      (r.heap.length + 1) r.fd2clients with
  | none => some none
  | some a => (r.heap.get a).map Fd2client.client

/-- The nodes reached from `fd2clients` by `next`; `none` when a freed node is
reached. -/
def nodes (r : Registry) : Option (List (Addr × Fd2client)) :=
  collect Fd2client.next r.heap (r.heap.length + 1) r.fd2clients

/-- The registered connections, read off the list: the placeholder is ignored. -/
def entries (r : Registry) : Option (List (Int × Ptr)) :=
  r.nodes.map fun cells =>
    (cells.filter fun c => c.2.fd ≠ 0).map fun c => (c.2.fd, c.2.client)

/-- `fd2clients` points to a node that has been freed. -/
def Dangling (r : Registry) : Prop := ∃ a, r.fd2clients = some a ∧ r.heap.get a = none

/-- No walk of a dangling registry is defined. -/
theorem Dangling.entries {r : Registry} (h : r.Dangling) : r.entries = none := by
  obtain ⟨a, ha, hget⟩ := h
  rw [Registry.entries, nodes, ha, collect_dangling hget]
  rfl

end Registry

end SpiderChat
