import SpiderChat.Reassembly
import SpiderChat.Traced

/-!
# SpiderChat.Closing

**When a connection is closed by the read path.** `read_head` tells the end of a
connection by its first `recv` alone, and takes `EAGAIN` for it as well. So
`serv_epoll` closes a connection exactly when an event finds the buffer empty, whether
the peer has closed its end or the bytes of the event have been taken by an earlier
one (`closed_iff`): a client that keeps its end open can be closed (`never_closed_iff`),
and one that has closed it can stay (`SpiderChat.Watched`).
-/

namespace SpiderChat

open Lib Conn

namespace Traced

/-- The connection is open, and the event that is handled will not close it unless its
first `recv` finds nothing. -/
inductive Open (s : Traced) : Prop
  | idle (hclosed : s.conn.closed = false) (hreader : s.conn.reader = none)
  | fresh (hclosed : s.conn.closed = false) (hreader : s.conn.reader = some readPacket)
      (hunread : s.conn.unread = s.began)
  | inside (r : Reader ReadOutcome) (es : List ReadEvent) (hclosed : s.conn.closed = false)
      (hreader : s.conn.reader = some r) (hafter : readPacket.After es r)
      (hbytes : consumed es ++ s.conn.unread = s.began) (hne : consumed es ≠ [])
      (hmalloc : ⟨.mallocTask, false⟩ ∉ es)

/-- `close_client` has been called, or is called next. -/
inductive Ending (s : Traced) : Prop
  | closing (hreader : s.conn.reader = some (.pure .close))
  | closed (hclosed : s.conn.closed = true) (hreader : s.conn.reader = none)

theorem Open.not_closed {s : Traced} (h : s.Open) : s.conn.closed = false := by
  cases h with
  | idle hc _ => exact hc
  | fresh hc _ _ => exact hc
  | inside _ _ hc _ _ _ _ _ => exact hc

/-- An arrival changes nothing. -/
theorem Open.of_same {s s' : Traced} (h : s.Open) (hsame : SameProgress s.conn s'.conn)
    (hbegan : s'.began = s.began) : s'.Open := by
  obtain ⟨hunread, -, hreader, -, hclosed, -⟩ := hsame
  cases h with
  | idle hc hr => exact .idle (hclosed.trans hc) (hreader.trans hr)
  | fresh hc hr hu =>
      exact .fresh (hclosed.trans hc) (hreader.trans hr) (by rw [hunread, hbegan, hu])
  | inside r es hc hr ha hb hne hm =>
      exact .inside r es (hclosed.trans hc) (hreader.trans hr) ha (by rw [hunread, hbegan, hb]) hne
        hm

/-- The first call of an event that finds a byte. -/
theorem Open.first {s : Traced} {c : ReadCall} {k : c.Answer → Reader ReadOutcome}
    (hclosed : s.conn.closed = false) (hreader : readPacket = .call c k)
    (hunread : s.conn.unread = s.began) (havail : s.conn.avail ≠ []) :
    Open { s with
      conn := { s.conn with
        avail := s.conn.avail.drop c.demand, reader := some (k (s.conn.answer c)) } } := by
  have hafter : readPacket.After [⟨c, s.conn.answer c⟩] (k (s.conn.answer c)) := by
    have hstart : readPacket.After [] (.call c k) := hreader ▸ Prog.After.start
    exact hstart.call _
  obtain ⟨rfl, -⟩ : c = .recv 4 ∧ True := by
    cases hreader
    exact ⟨rfl, trivial⟩
  have hdata : consumed [⟨.recv 4, s.conn.answer (.recv 4)⟩] = s.conn.avail.take 4 := by
    rw [consumed, List.flatMap_singleton, data_answer]
    rfl
  refine .inside _ _ hclosed rfl hafter ?_ ?_ (by simp)
  · rw [← hunread]
    exact consumed_turn s.conn _ [] _
  · rw [hdata]
    simpa using havail

/-- **The step lemma.** -/
theorem Open.step (s : Traced) (i : Label) (s' : Traced) (h : s.Open) (hok : s.FindsByte i)
    (hstep : s.step i = some s') : s'.Open := by
  rcases step_cases hstep with ⟨-, -, hsame, hbegan, -⟩ | ⟨rfl, hopen, hnone, rfl⟩ |
    ⟨outcome, rfl, hr', rfl⟩ | ⟨c, k, rfl, hr', rfl⟩
  · exact h.of_same hsame hbegan
  · exact .fresh hopen rfl rfl
  · cases h with
    | idle _ hr => rw [hr'] at hr; cases hr
    | fresh _ hr _ => rw [hr'] at hr; cases hr
    | inside r es hc hr ha hb hne hm =>
        obtain rfl := Option.some.inj (hr.symm.trans hr')
        cases outcome with
        | close =>
            rcases runs_readPacket_close ha.runs_pure with hnil | hmem
            · exact absurd hnil hne
            · exact absurd hmem hm
        | skip => exact .idle hc rfl
        | task cmd data => exact .idle hc rfl
  · cases h with
    | idle _ hr => rw [hr'] at hr; cases hr
    | fresh hc hr hu =>
        have heq := Option.some.inj (hr.symm.trans hr')
        have hdemand : 0 < s.conn.demand := by
          simp only [demand, hr]
          exact Nat.succ_pos 3
        exact .first hc heq hu (hok rfl ⟨hu, hdemand⟩)
    | inside r es hc hr ha hb hne hm =>
        obtain rfl := Option.some.inj (hr.symm.trans hr')
        refine .inside _ _ hc rfl (ha.call (s.conn.answer c)) ?_ ?_ ?_
        · exact (consumed_turn s.conn c es _).trans hb
        · simp [hne]
        · intro hmem
          rcases List.mem_append.mp hmem with hmem | hmem
          · exact hm hmem
          · cases List.mem_singleton.mp hmem

/-- An event that finds nothing closes the connection. -/
theorem Open.ending (s : Traced) (i : Label) (s' : Traced) (h : s.Open) (hbad : ¬ s.FindsByte i)
    (hstep : s.step i = some s') : s'.Ending := by
  simp only [FindsByte, not_forall, not_not] at hbad
  obtain ⟨rfl, ⟨hunread, hdemand⟩, havail⟩ := hbad
  rcases step_cases hstep with ⟨-, hturn, -⟩ | ⟨heq, -⟩ | ⟨outcome, -, hr', -⟩ |
    ⟨c, k, -, hr', rfl⟩
  · exact absurd rfl hturn
  · cases heq
  · simp only [demand, hr'] at hdemand
    exact absurd hdemand (Nat.lt_irrefl 0)
  · cases h with
    | idle _ hr => rw [hr'] at hr; cases hr
    | inside r es hc hr ha hb hne hm =>
        rw [← hunread] at hb
        exact absurd (List.append_left_eq_self.mp hb) hne
    | fresh hc hr hu =>
        have heq := Option.some.inj (hr.symm.trans hr')
        refine .closing ?_
        cases heq
        have hanswer : s.conn.answer (.recv 4) = if s.conn.fin then .eof else .fail .EAGAIN := by
          simp [answer, recvAnswer, havail]
        rw [hanswer]
        cases s.conn.fin <;> rfl

/-- A call of `close_client` is not taken back. -/
theorem Ending.step (s : Traced) (i : Label) (s' : Traced) (h : s.Ending)
    (hstep : s.step i = some s') : s'.Ending := by
  rcases step_cases hstep with ⟨-, -, hsame, -⟩ | ⟨rfl, hopen, hnone, -⟩ |
    ⟨outcome, rfl, hr', rfl⟩ | ⟨c, k, rfl, hr', -⟩
  · cases h with
    | closing hr => exact .closing (hsame.reader.trans hr)
    | closed hc hr => exact .closed (hsame.closed.trans hc) (hsame.reader.trans hr)
  · cases h with
    | closing hr => rw [hnone] at hr; cases hr
    | closed hc _ => rw [hopen] at hc; cases hc
  · cases h with
    | closing hr =>
        cases hr.symm.trans hr'
        exact .closed rfl rfl
    | closed _ hr => rw [hr'] at hr; cases hr
  · cases h with
    | closing hr => cases hr.symm.trans hr'
    | closed _ hr => rw [hr'] at hr; cases hr

/-- **What closes a connection**: when no event is being handled, `close_client` has been
called if and only if an event has found the buffer empty. -/
theorem closed_iff {sent : Bytes} {closes : Bool} {l : List Label} {t : Traced}
    (hrun : exec step (start sent closes) l = some t) (hidle : t.conn.reader = none) :
    t.conn.closed = true ↔ ¬ AllSteps step FindsByte (start sent closes) l := by
  have hstart : (start sent closes).Open := .idle rfl rfl
  constructor
  · intro hclosed hsteps
    have hopen := (hsteps.last Open.step hstart hrun).not_closed
    rw [hclosed] at hopen
    cases hopen
  · intro hsteps
    by_contra hclosed
    refine hsteps (allSteps_of_last Open.step Open.ending Ending.step hstart hrun ?_)
    intro hending
    cases hending with
    | closing hr => rw [hidle] at hr; cases hr
    | closed hc _ => exact hclosed hc

/-- **A client that keeps its end open stays connected** in a run if and only if every
event finds a byte with its first `recv`. -/
theorem never_closed_iff (sent : Bytes) (l : List Label) (t : Traced)
    (hrun : exec step (start sent false) l = some t) (hidle : t.conn.reader = none) :
    Along step (fun s => s.conn.closed = false) (start sent false) l ↔
      AllSteps step FindsByte (start sent false) l := by
  constructor
  · intro hopen
    by_contra hsteps
    have hclosed := (closed_iff hrun hidle).mpr hsteps
    rw [hopen.last hrun] at hclosed
    cases hclosed
  · exact along_of_allSteps (fun _ h => h.not_closed) Open.step (.idle rfl rfl)

/-- A packet that is read whole. -/
theorem never_closed_iff_whole :
    ∃ t, exec step (start hiPacket.bytes false) (.arrive 17 false :: wholeEvent) = some t ∧
      t.conn.tasks = [hiPacket.task] ∧
      Along step (fun s => s.conn.closed = false) (start hiPacket.bytes false)
        (.arrive 17 false :: wholeEvent) := by
  have hend : (exec step (start hiPacket.bytes false) (.arrive 17 false :: wholeEvent)).map
      (fun t => (t.conn.reader.isNone, t.conn.tasks)) = some (true, [hiPacket.task]) := by
    decide
  obtain ⟨t, hrun, hend⟩ := Option.map_eq_some_iff.mp hend
  obtain ⟨hidle, htasks⟩ := Prod.mk.inj hend
  exact ⟨t, hrun, htasks, (never_closed_iff hiPacket.bytes _ t hrun
    (Option.isNone_iff_eq_none.mp hidle)).mpr (by decide)⟩

/-- A packet arrives in two pieces, the second while the event of the first is handled,
which then reads the packet whole. The event of the second piece finds nothing, and the
client is disconnected. -/
theorem late_piece_disconnects :
    ∃ t, exec step (start hiPacket.bytes false)
        ([.arrive 4 false, .event, .turn, .arrive 13 false] ++ List.replicate 8 .turn ++
          [.event, .turn, .turn]) = some t ∧
      t.conn.tasks = [hiPacket.task] ∧ t.conn.closes = false ∧ t.conn.closed = true := by
  have hend : (exec step (start hiPacket.bytes false)
      ([.arrive 4 false, .event, .turn, .arrive 13 false] ++ List.replicate 8 .turn ++
        [.event, .turn, .turn])).map
      (fun t => (t.conn.tasks, t.conn.closes, t.conn.closed)) =
      some ([hiPacket.task], false, true) := by decide
  obtain ⟨t, hrun, hend⟩ := Option.map_eq_some_iff.mp hend
  simp only [Prod.mk.injEq] at hend
  exact ⟨t, hrun, hend⟩

end Traced

end SpiderChat
