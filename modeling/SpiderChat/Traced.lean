import SpiderChat.Connection

/-!
# SpiderChat.Traced

**Where a packet is read.** `Traced` runs a connection side by side with the places in
the stream at which `serv_epoll` starts to read: a place is given by what is unread
there. `reads` are the tasks, each with the place of its event, and `FindsByte` is the
condition under which `read_head` finds something when it calls `recv` for the first
time.
-/

namespace SpiderChat

open Lib Conn

/-- A connection, and where its tasks were read. -/
structure Traced where
  conn : Conn
  /-- What was unread when the current event was taken up. -/
  began : Bytes
  /-- The tasks, each with what was unread when its event was taken up. -/
  reads : List (Bytes × (Int32 × Bytes))

/-- The task that an event ends with, if there is one. -/
def ReadOutcome.tasks : ReadOutcome → List (Int32 × Bytes)
  | .task cmd data => [(cmd, data)]
  | _ => []

namespace Traced

/-- A new connection. -/
def start (sent : Bytes) (closes : Bool) : Traced := ⟨Conn.start sent closes, [], []⟩

/-- A step of the connection. -/
def step (s : Traced) (i : Label) : Option Traced :=
  (s.conn.step i).map fun conn =>
    { conn
      began := if i = .event then conn.unread else s.began
      reads := s.reads ++ (conn.tasks.drop s.conn.tasks.length).map fun t => (s.began, t) }

/-- The event that is handled has taken nothing yet, and calls `recv` next. -/
def AtHead (s : Traced) : Prop := s.conn.unread = s.began ∧ 0 < s.conn.demand

instance (s : Traced) : Decidable s.AtHead := inferInstanceAs (Decidable (_ ∧ _))

/-- The first `recv` of an event finds a byte. -/
def FindsByte (s : Traced) (i : Label) : Prop :=
  i = .turn → s.AtHead → s.conn.avail ≠ []

instance (s : Traced) (i : Label) : Decidable (s.FindsByte i) :=
  inferInstanceAs (Decidable (_ → _ → _))

/-! ### What a step does -/

theorem tasks_finish (c : Conn) (outcome : ReadOutcome) :
    (c.finish outcome).tasks = c.tasks ++ outcome.tasks := by
  cases outcome <;> simp [finish, ReadOutcome.tasks]

/-- The four things a step can be. -/
theorem step_cases {s s' : Traced} {i : Label} (h : s.step i = some s') :
    (i ≠ .event ∧ i ≠ .turn ∧ SameProgress s.conn s'.conn ∧ s'.began = s.began ∧
      s'.reads = s.reads) ∨
    (i = .event ∧ s.conn.closed = false ∧ s.conn.reader = none ∧ s' =
      { conn := { s.conn with
          events := s.conn.events - 1, handled := s.conn.handled + 1, reader := some readPacket }
        began := s.conn.unread
        reads := s.reads }) ∨
    (∃ outcome, i = .turn ∧ s.conn.reader = some (.pure outcome) ∧
      s' = ⟨s.conn.finish outcome, s.began,
        s.reads ++ outcome.tasks.map fun t => (s.began, t)⟩) ∨
    ∃ c k, i = .turn ∧ s.conn.reader = some (.call c k) ∧ s' =
      { s with
        conn := { s.conn with
          avail := s.conn.avail.drop c.demand, reader := some (k (s.conn.answer c)) } } := by
  obtain ⟨conn, hconn, rfl⟩ := Option.map_eq_some_iff.mp h
  cases i with
  | arrive n coalesce =>
      have hsame := (arrive_inv hconn).1
      exact .inl ⟨nofun, nofun, hsame, rfl, by simp [hsame.tasks]⟩
  | eof coalesce =>
      have hsame := (eof_inv hconn).1
      exact .inl ⟨nofun, nofun, hsame, rfl, by simp [hsame.tasks]⟩
  | event =>
      obtain ⟨hopen, hnone, rfl⟩ := event_inv hconn
      exact .inr (.inl ⟨rfl, hopen, hnone, by simp [Conn.unread]⟩)
  | turn =>
      obtain ⟨outcome, hreader, rfl⟩ | ⟨c, k, hreader, rfl⟩ := turn_inv hconn
      · refine .inr (.inr (.inl ⟨outcome, rfl, hreader, ?_⟩))
        simp [tasks_finish]
      · exact .inr (.inr (.inr ⟨c, k, rfl, hreader, by simp⟩))

/-- The connection runs as it does on its own. -/
theorem exec_conn {s t : Traced} {l : List Label} (h : exec step s l = some t) :
    exec Conn.step s.conn l = some t.conn := by
  refine exec_map conn (fun s i s' hs => ?_) h
  obtain ⟨conn, hconn, rfl⟩ := Option.map_eq_some_iff.mp hs
  exact hconn

/-- The tasks of the connection are the ones that were read. -/
theorem map_snd_reads {sent : Bytes} {closes : Bool} {l : List Label} {t : Traced}
    (h : exec step (start sent closes) l = some t) : t.reads.map Prod.snd = t.conn.tasks := by
  have hstep : ∀ (s : Traced) i s', s.reads.map Prod.snd = s.conn.tasks → s.step i = some s' →
      s'.reads.map Prod.snd = s'.conn.tasks := by
    intro s i s' hs hstep
    rcases step_cases hstep with ⟨-, -, hsame, -, hreads⟩ | ⟨-, -, -, rfl⟩ | ⟨outcome, -, -, rfl⟩ |
      ⟨c, k, -, -, rfl⟩
    · rw [hreads, hs, hsame.tasks]
    · exact hs
    · simp [tasks_finish, hs]
    · exact hs
  exact exec_invariant hstep rfl h

end Traced

end SpiderChat
