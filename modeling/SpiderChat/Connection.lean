import SpiderChat.Lib.Run
import SpiderChat.ReadPath

/-!
# SpiderChat.Connection

**One connection**: the bytes its peer sends, the socket's receive buffer, the
edge-triggered events that epoll reports for it, and `serv_epoll`, which handles one
event after the other. Bytes arrive at any time, also between two calls of `recv` of
one event. An arrival is reported by an event of its own or, when one is reported and
not handled yet, together with that one.
-/

namespace SpiderChat

open Lib

/-- A connection and what `serv_epoll` has done for it. -/
structure Conn where
  /-- What the peer is still to send. -/
  sent : Bytes
  /-- The peer closes its end after that. -/
  closes : Bool
  /-- What has arrived and is not read. -/
  avail : Bytes
  /-- The end of the stream has arrived. -/
  fin : Bool
  /-- The number of events that are reported and not handled. -/
  events : Nat
  /-- The number of events handled so far, the current one included. -/
  handled : Nat
  /-- The handling of the current event. -/
  reader : Option (Reader ReadOutcome)
  /-- The commands and bodies of the tasks enqueued so far. -/
  tasks : List (Int32 × Bytes)
  /-- `close_client` has been called. -/
  closed : Bool

namespace Conn

/-- A new connection. -/
def start (sent : Bytes) (closes : Bool) : Conn :=
  { sent, closes, avail := [], fin := false, events := 0, handled := 0, reader := none,
    tasks := [], closed := false }

/-- A step of the peer, of the network or of `serv_epoll`. -/
inductive Label
  /-- The next `n` bytes arrive. -/
  | arrive (n : Nat) (coalesce : Bool)
  /-- The end of the stream arrives. -/
  | eof (coalesce : Bool)
  /-- `serv_epoll` takes up an event. -/
  | event
  /-- `serv_epoll` goes on with it. -/
  | turn
  deriving Repr, DecidableEq

/-- An arrival is reported. -/
def report (s : Conn) (coalesce : Bool) : Option Conn :=
  if coalesce then if 0 < s.events then some s else none
  else some { s with events := s.events + 1 }

/-- How many bytes the read path asks for next. -/
def demand (s : Conn) : Nat :=
  match s.reader with
  | some (.call c _) => c.demand
  | _ => 0

/-- What the read path is answered; there is memory for a task. -/
def answer (s : Conn) : (c : ReadCall) → c.Answer
  | .recv n => recvAnswer n s.avail s.fin
  | .mallocTask => true

/-- The event has been handled. -/
def finish (s : Conn) : ReadOutcome → Conn
  | .close => { s with reader := none, closed := true }
  | .skip => { s with reader := none }
  | .task cmd data => { s with reader := none, tasks := s.tasks ++ [(cmd, data)] }

/-- The step relation. A closed descriptor is no longer in the epoll set. -/
def step (s : Conn) : Label → Option Conn
  | .arrive n coalesce =>
      if 0 < n ∧ n ≤ s.sent.length then
        report { s with sent := s.sent.drop n, avail := s.avail ++ s.sent.take n } coalesce
      else none
  | .eof coalesce =>
      if s.sent = [] ∧ s.closes = true ∧ s.fin = false then report { s with fin := true } coalesce
      else none
  | .event =>
      if 0 < s.events ∧ s.closed = false ∧ s.reader.isNone then
        some { s with events := s.events - 1, handled := s.handled + 1, reader := some readPacket }
      else none
  | .turn =>
      match s.reader with
      | none => none
      | some (.pure outcome) => some (s.finish outcome)
      | some (.call c k) =>
          some { s with avail := s.avail.drop c.demand, reader := some (k (s.answer c)) }

/-- Everything has arrived, and every event reported has been handled. -/
structure Complete (s : Conn) : Prop where
  sent_nil : s.sent = []
  fin_eq : s.fin = s.closes
  reader_none : s.reader = none
  no_events : s.closed = false → s.events = 0

instance (s : Conn) : Decidable s.Complete :=
  decidable_of_iff (s.sent = [] ∧ s.fin = s.closes ∧ s.reader.isNone = true ∧
      (s.closed = false → s.events = 0))
    ⟨fun ⟨h₁, h₂, h₃, h₄⟩ => ⟨h₁, h₂, Option.isNone_iff_eq_none.mp h₃, h₄⟩,
      fun ⟨h₁, h₂, h₃, h₄⟩ => ⟨h₁, h₂, Option.isNone_iff_eq_none.mpr h₃, h₄⟩⟩

/-! ### What a step does -/

/-- What is not read yet, arrived or not. -/
def unread (s : Conn) : Bytes := s.avail ++ s.sent

/-- Nothing but the socket and the reported events has changed. -/
structure SameProgress (s s' : Conn) : Prop where
  unread : s'.unread = s.unread
  handled : s'.handled = s.handled
  reader : s'.reader = s.reader
  tasks : s'.tasks = s.tasks
  closed : s'.closed = s.closed
  closes : s'.closes = s.closes

theorem report_inv {s s' : Conn} {coalesce : Bool} (h : s.report coalesce = some s') :
    ∃ n, s' = { s with events := n } := by
  unfold report at h
  split at h
  · split at h
    · exact ⟨s.events, (Option.some.inj h).symm⟩
    · cases h
  · exact ⟨_, (Option.some.inj h).symm⟩

theorem arrive_inv {s s' : Conn} {n : Nat} {coalesce : Bool}
    (h : s.step (.arrive n coalesce) = some s') : SameProgress s s' ∧ s'.fin = s.fin := by
  rw [step] at h
  split at h
  · obtain ⟨m, rfl⟩ := report_inv h
    exact ⟨⟨by simp [Conn.unread], rfl, rfl, rfl, rfl, rfl⟩, rfl⟩
  · cases h

theorem eof_inv {s s' : Conn} {coalesce : Bool} (h : s.step (.eof coalesce) = some s') :
    SameProgress s s' ∧ s.closes = true := by
  rw [step] at h
  split at h
  · rename_i hcond
    obtain ⟨m, rfl⟩ := report_inv h
    exact ⟨⟨rfl, rfl, rfl, rfl, rfl, rfl⟩, hcond.2.1⟩
  · cases h

theorem event_inv {s s' : Conn} (h : s.step .event = some s') :
    s.closed = false ∧ s.reader = none ∧
      s' = { s with
        events := s.events - 1
        handled := s.handled + 1
        reader := some readPacket } := by
  rw [step] at h
  split at h
  · rename_i hcond
    exact ⟨hcond.2.1, Option.isNone_iff_eq_none.mp hcond.2.2, (Option.some.inj h).symm⟩
  · cases h

theorem turn_inv {s s' : Conn} (h : s.step .turn = some s') :
    (∃ outcome, s.reader = some (.pure outcome) ∧ s' = s.finish outcome) ∨
      ∃ c k, s.reader = some (.call c k) ∧
        s' = { s with avail := s.avail.drop c.demand, reader := some (k (s.answer c)) } := by
  rw [step] at h
  split at h
  · cases h
  · rename_i outcome heq
    exact .inl ⟨outcome, heq, (Option.some.inj h).symm⟩
  · rename_i c k heq
    exact .inr ⟨c, k, heq, (Option.some.inj h).symm⟩

/-- A call takes the bytes from the socket that it asks for, as far as they are there. -/
theorem data_answer (s : Conn) (c : ReadCall) :
    ReadEvent.data ⟨c, s.answer c⟩ = s.avail.take c.demand := by
  cases c with
  | mallocTask => simp [ReadEvent.data, ReadCall.demand]
  | recv n =>
      show (recvAnswer n s.avail s.fin).data = s.avail.take n
      unfold recvAnswer
      split
      · rfl
      · rename_i hnil
        rw [not_not.mp hnil]
        split <;> rfl

theorem full_answer_iff (s : Conn) (c : ReadCall) :
    ReadEvent.Full ⟨c, s.answer c⟩ ↔ c.demand ≤ s.avail.length := by
  cases c with
  | mallocTask => exact ⟨fun _ => Nat.zero_le _, fun _ => rfl⟩
  | recv n =>
      have hdata : (s.answer (.recv n)).data = s.avail.take n := data_answer s (.recv n)
      simp only [ReadEvent.Full, hdata, List.length_take, ReadCall.demand]
      omega

/-- After a call, the bytes that the event has taken and those not read yet are the
same as before. -/
theorem consumed_turn (s : Conn) (c : ReadCall) (es : List ReadEvent)
    (r : Option (Reader ReadOutcome)) :
    consumed (es ++ [⟨c, s.answer c⟩]) ++
      Conn.unread { s with avail := s.avail.drop c.demand, reader := r } =
        consumed es ++ s.unread := by
  have hone : consumed [⟨c, s.answer c⟩] = s.avail.take c.demand := by
    rw [← data_answer]
    exact List.append_nil _
  rw [consumed_append, hone, Conn.unread, Conn.unread]
  simp only [List.append_assoc, ← List.append_assoc (s.avail.take _), List.take_append_drop]

end Conn

end SpiderChat
