import SpiderChat.Reassembly
import SpiderChat.Traced

/-!
# SpiderChat.Boundaries

**Where frames are read.** A stream is a sequence of whole packets up to the first place
where none starts. `serv_epoll` goes on behind a head that it has rejected or a `recv`
that was short with whatever comes next in the stream, so what it makes tasks of depends
on how the bytes arrive: some cutting of the stream makes a task of every text in it
that reads as one (`Waiting.read`). All tasks are packets of the sequence, however the
stream is cut, exactly when no such text stands anywhere else (`boundaries_iff`).
-/

namespace SpiderChat

open Lib Conn

/-- The place where `rest` is unread is behind a number of whole packets. -/
def Boundary (sent rest : Bytes) : Prop := ∃ ps, sent = stream ps ++ rest

/-- The task is the packet that starts there, and that place is a boundary. -/
def PacketAt (sent rest : Bytes) (task : Int32 × Bytes) : Prop :=
  Boundary sent rest ∧ ∃ p rest', rest = Packet.bytes p ++ rest' ∧ p.task = task

/-- A text that reads as a task stands in the stream only where a packet starts, and
with all four bytes of its length. -/
def NoStrayTask (sent : Bytes) : Prop :=
  ∀ a l text u cmd data, sent = a ++ (l ++ text ++ u) → l ≠ [] → l.length ≤ 4 →
    TaskText l text cmd data → Boundary sent (l ++ text ++ u) ∧ l.length = 4

/-! ### A packet read back -/

/-- A task whose length was read whole is a packet. -/
theorem TaskText.packet {l text : Bytes} {cmd : Int32} {data : Bytes} (h : TaskText l text cmd data)
    (hl : l.length = 4) : ∃ p : Packet, p.bytes = l ++ text ∧ p.task = (cmd, data) := by
  obtain ⟨⟨cVersion, c, gameid, hv, hc, hg, rfl, hgameid, rfl⟩, hpos, hmax, hlen⟩ := h
  refine ⟨⟨int16Of cVersion, int32Of c, int16Of gameid, data, hgameid, hpos, hmax⟩, ?_, rfl⟩
  have hlength : Int32.ofNat data.length = int32Of l := by
    apply Int32.toInt_inj.mp
    rw [Int32.toInt_ofNat_of_lt (by omega), hlen]
  simp only [Packet.bytes, Packet.head, PacketHead.encode, hlength, le_int32Of hl, le_int16Of hv,
    le_int32Of hc, le_int16Of hg, List.append_assoc, List.cons_append, List.nil_append]

namespace Traced

/-! ### Every task was read from a text -/

/-- The task was read from a text that reads as it, at its place in the stream. -/
def ReadAt (sent : Bytes) (r : Bytes × (Int32 × Bytes)) : Prop :=
  ∃ a l text u, sent = a ++ r.1 ∧ r.1 = l ++ text ++ u ∧ l ≠ [] ∧ l.length ≤ 4 ∧
    TaskText l text r.2.1 r.2.2

/-- The event that is handled has read from its place on. -/
structure Placed (sent : Bytes) (s : Traced) : Prop where
  reads : ∀ r ∈ s.reads, ReadAt sent r
  unread : s.conn.unread <:+ sent
  reader : ∀ r, s.conn.reader = some r → s.began <:+ sent ∧
    ∃ es, readPacket.After es r ∧ consumed es ++ s.conn.unread = s.began

/-- **The step lemma.** -/
theorem Placed.step {sent : Bytes} (s : Traced) (i : Label) (s' : Traced) (h : s.Placed sent)
    (hstep : s.step i = some s') : s'.Placed sent := by
  obtain ⟨hreads, hsuffix, hreader⟩ := h
  rcases step_cases hstep with ⟨-, -, hsame, hbegan, hreads'⟩ | ⟨rfl, -, -, rfl⟩ |
    ⟨outcome, rfl, hr, rfl⟩ | ⟨c, k, rfl, hr, rfl⟩
  · refine ⟨hreads' ▸ hreads, hsame.unread ▸ hsuffix, fun r hr => ?_⟩
    rw [hbegan, hsame.unread]
    exact hreader r (hsame.reader ▸ hr)
  · refine ⟨hreads, hsuffix, fun r hr => ⟨hsuffix, [], ?_, rfl⟩⟩
    obtain rfl := Option.some.inj hr
    exact .start
  · obtain ⟨⟨a, ha⟩, es, hafter, hbytes⟩ := hreader _ hr
    refine ⟨fun r hmem => ?_, ?_, ?_⟩
    · rcases List.mem_append.mp hmem with hmem | hmem
      · exact hreads r hmem
      obtain ⟨task, htask, rfl⟩ := List.mem_map.mp hmem
      cases outcome with
      | close => cases htask
      | skip => cases htask
      | task cmd data =>
          obtain rfl := List.mem_singleton.mp htask
          obtain ⟨l, text, hl, hl4, heq, htext, -⟩ := runs_readPacket_task hafter.runs_pure
          rw [heq] at hbytes
          exact ⟨a, l, text, _, ha.symm, hbytes.symm, hl, hl4, htext⟩
    · cases outcome <;> exact hsuffix
    · intro r hr'
      cases outcome <;> cases hr'
  · obtain ⟨hbegan, es, hafter, hbytes⟩ := hreader _ hr
    have hturn := (consumed_turn s.conn c es (some (k (s.conn.answer c)))).trans hbytes
    refine ⟨hreads, ?_, fun r hr' => ⟨hbegan, _, ?_, hturn⟩⟩
    · exact (List.suffix_append _ _).trans (hturn ▸ hbegan)
    · obtain rfl := Option.some.inj hr'
      exact hafter.call (s.conn.answer c)

theorem placed_start (sent : Bytes) (closes : Bool) : (start sent closes).Placed sent :=
  ⟨by simp [start], List.suffix_refl _, fun _ hr => by cases hr⟩

/-! ### Every text that reads as a task can be read -/

/-- What a reader ends with, and what it leaves, when nothing arrives meanwhile. -/
def settle : Reader ReadOutcome → Bytes → ReadOutcome × Bytes
  | .pure outcome, avail => (outcome, avail)
  | .call (.recv n) k, avail => settle (k (recvAnswer n avail false)) (avail.drop n)
  | .call .mallocTask k, avail => settle (k true) avail

/-- An event that is handled while nothing arrives. -/
theorem exec_settle (r : Reader ReadOutcome) : ∀ s : Traced, s.conn.reader = some r →
    s.conn.fin = false → ∃ n, exec step s (List.replicate n .turn) = some
      ⟨Conn.finish { s.conn with avail := (settle r s.conn.avail).2 } (settle r s.conn.avail).1,
        s.began, s.reads ++ (settle r s.conn.avail).1.tasks.map fun t => (s.began, t)⟩ := by
  induction r with
  | pure outcome =>
      intro s hr _
      refine ⟨1, exec_cons.mpr ⟨_, ?_, rfl⟩⟩
      have hstep : s.conn.step .turn = some (s.conn.finish outcome) := by rw [Conn.step, hr]
      rw [step, hstep, Option.map_some]
      simp [tasks_finish, settle]
  | call c k ih =>
      intro s hr hfin
      have hstep : s.step .turn = some { s with
          conn := { s.conn with
            avail := s.conn.avail.drop c.demand, reader := some (k (s.conn.answer c)) } } := by
        have hconn : s.conn.step .turn = some { s.conn with
            avail := s.conn.avail.drop c.demand, reader := some (k (s.conn.answer c)) } := by
          rw [Conn.step, hr]
        rw [step, hconn]
        simp
      obtain ⟨n, hn⟩ := ih (s.conn.answer c) { s with
        conn := { s.conn with
          avail := s.conn.avail.drop c.demand, reader := some (k (s.conn.answer c)) } } rfl hfin
      refine ⟨n + 1, exec_cons.mpr ⟨_, hstep, ?_⟩⟩
      rw [hn]
      cases c with
      | recv n => simp only [settle, answer, hfin, ReadCall.demand]; rfl
      | mallocTask => simp only [settle, answer, ReadCall.demand, List.drop_zero]; rfl

/-- Nothing is being handled, and `rest` is still to arrive. -/
structure Waiting (s : Traced) (rest : Bytes) : Prop where
  reader : s.conn.reader = none
  avail : s.conn.avail = []
  fin : s.conn.fin = false
  closed : s.conn.closed = false
  sent : s.conn.sent = rest

/-- A `recv` that finds all it asks for. -/
theorem recvAnswer_append {n : Nat} {x : Bytes} (hx : x ≠ [] ∧ x.length = n) (y : Bytes) :
    recvAnswer n (x ++ y) false = .bytes x ⟨hx.1, hx.2.le⟩ := by
  have htake : (x ++ y).take n = x := by rw [← hx.2, List.take_left]
  rw [recvAnswer, dif_pos (by rw [htake]; exact hx.1)]
  simp only [htake]

/-- What has settled is a run that takes its bytes from `avail`. -/
theorem settle_runs (r : Reader ReadOutcome) : ∀ avail, ∃ es,
    r.Runs es (settle r avail).1 ∧ consumed es ++ (settle r avail).2 = avail ∧
      ⟨.mallocTask, false⟩ ∉ es := by
  induction r with
  | pure outcome => exact fun avail => ⟨[], .pure _, rfl, by simp⟩
  | call c k ih =>
      intro avail
      cases c with
      | recv n =>
          obtain ⟨es, hruns, hbytes, hmalloc⟩ := ih (recvAnswer n avail false) (avail.drop n)
          refine ⟨⟨.recv n, recvAnswer n avail false⟩ :: es, .call _ hruns, ?_, by simp [hmalloc]⟩
          rw [consumed_recv, List.append_assoc, settle, hbytes, recvAnswer]
          split
          · exact List.take_append_drop n avail
          · rename_i hnil
            have hnil := not_not.mp hnil
            exact (congrArg (· ++ avail.drop n) hnil).symm.trans (List.take_append_drop n avail)
      | mallocTask =>
          obtain ⟨es, hruns, hbytes, hmalloc⟩ := ih true avail
          exact ⟨⟨.mallocTask, true⟩ :: es, .call _ hruns, hbytes, by simp [hmalloc]⟩

/-- An event that finds a single byte ends without a task. -/
theorem settle_byte (b : UInt8) : settle readPacket [b] = (.skip, []) := by
  obtain ⟨k, hk⟩ : ∃ k, readPacket = .call (.recv 4) k := ⟨_, rfl⟩
  have hstart : settle readPacket [b] = settle (k (recvAnswer 4 [b] false)) [] := by
    rw [hk]
    rfl
  obtain ⟨es, hruns, hbytes, hmalloc⟩ := settle_runs (k (recvAnswer 4 [b] false)) []
  obtain ⟨hconsumed, hleft⟩ := List.append_eq_nil_iff.mp hbytes
  have hrun : readPacket.Runs (⟨.recv 4, recvAnswer 4 [b] false⟩ :: es)
      (settle (k (recvAnswer 4 [b] false)) []).1 := by
    rw [hk]
    exact .call _ hruns
  have htaken : consumed (⟨.recv 4, recvAnswer 4 [b] false⟩ :: es) = [b] := by
    rw [consumed_recv, hconsumed]
    rfl
  rw [hstart]
  refine Prod.ext ?_ hleft
  cases houtcome : (settle (k (recvAnswer 4 [b] false)) []).1 with
  | skip => rfl
  | close =>
      rw [houtcome] at hrun
      rcases runs_readPacket_close hrun with hnil | hmem
      · rw [htaken] at hnil
        cases hnil
      · exact absurd ((List.mem_cons.mp hmem).resolve_left nofun) hmalloc
  | task cmd data =>
      rw [houtcome] at hrun
      obtain ⟨l, text, -, -, heq, htext, -⟩ := runs_readPacket_task hrun
      have hlen := congrArg List.length (htaken.symm.trans heq)
      rw [List.length_append, htext.length_text] at hlen
      simp only [List.length_singleton] at hlen
      omega

theorem settle_recv {n : Nat} {k : RecvAnswer n → Reader ReadOutcome} {x : Bytes}
    (hx : x ≠ [] ∧ x.length = n) (y : Bytes) :
    settle (.call (.recv n) k) (x ++ y) = settle (k (.bytes x ⟨hx.1, hx.2.le⟩)) y := by
  obtain ⟨hne, rfl⟩ := hx
  rw [settle, recvAnswer_append ⟨hne, rfl⟩, List.drop_left]

/-- What follows the length of a task is read to its end. -/
theorem settle_text : ∃ k, readPacket = .call (.recv 4) k ∧
    ∀ (l text : Bytes) (hl : l ≠ [] ∧ l.length ≤ 4) (cmd : Int32) (data : Bytes),
      TaskText l text cmd data → settle (k (.bytes l hl)) text = (.task cmd data, []) := by
  refine ⟨_, rfl, ?_⟩
  intro l text hl cmd data htext
  obtain ⟨⟨cVersion, c, gameid, hv, hc, hg, rfl, hgameid, rfl⟩, hpos, hmax, hlen⟩ := htext
  show settle (ite _ _ _ >>= _) _ = _
  have hne : ∀ {m : Nat} {x : Bytes}, x.length = m + 1 → x ≠ [] ∧ x.length = m + 1 := fun h =>
    ⟨List.ne_nil_of_length_pos (by omega), h⟩
  have hbody : data.length = (int32Of l).toInt.toNat := by omega
  rw [if_neg (length_ok_iff.mpr (by omega))]
  refine (settle_recv (hne (m := 1) rfl) _).trans ?_
  refine (settle_recv (hne (m := 1) hv) _).trans ?_
  show settle (ite _ _ _ >>= _) _ = _
  rw [if_neg (by simp [hv])]
  refine (settle_recv (hne (m := 3) hc) _).trans ?_
  show settle (ite _ _ _ >>= _) _ = _
  rw [if_neg (by simp [hc])]
  refine (settle_recv (hne (m := 1) hg) _).trans ?_
  show settle (ite _ _ _ >>= _) _ = _
  rw [if_neg (by simp [hg, hgameid])]
  refine (settle_recv (x := [PACKET_HEAD_CODE]) (hne (m := 0) rfl) _).trans ?_
  have hlast := settle_recv (k := fun body : RecvAnswer (int32Of l).toInt.toNat =>
      if body.len ≠ (int32Of l).toInt then pure .skip else do
      let new_task ← Prog.op .mallocTask
      pure (if new_task then .task (int32Of c) body.data else .close))
    ⟨List.ne_nil_of_length_pos hpos, hbody⟩ []
  rw [List.append_nil] at hlast
  refine hlast.trans ?_
  rw [if_neg (by simp [hlen])]
  rfl

/-- Some bytes arrive and an event is taken up. -/
theorem Waiting.take_up {s : Traced} {x rest : Bytes} (h : s.Waiting (x ++ rest)) (hx : x ≠ []) :
    exec step s [.arrive x.length false, .event] = some
      { conn := { s.conn with
          sent := rest, avail := x, handled := s.conn.handled + 1, reader := some readPacket }
        began := x ++ rest
        reads := s.reads } := by
  obtain ⟨hreader, havail, hfin, hclosed, hsent⟩ := h
  have hpos := List.length_pos_of_ne_nil hx
  simp [exec, step, Conn.step, hreader, havail, hclosed, hsent, hpos, report, Conn.unread]

/-- A byte can be taken from the stream without a task. -/
theorem Waiting.skip {s : Traced} {b : UInt8} {rest : Bytes} (h : s.Waiting (b :: rest)) :
    ∃ l s', exec step s l = some s' ∧ s'.Waiting rest := by
  have htake := h.take_up (x := [b]) (by simp)
  obtain ⟨n, hn⟩ := exec_settle readPacket { s with
    conn := { s.conn with
      sent := rest, avail := [b], handled := s.conn.handled + 1, reader := some readPacket }
    began := [b] ++ rest } rfl h.fin
  simp only [settle_byte] at hn
  exact ⟨_, _, exec_append.mpr ⟨_, htake, hn⟩, rfl, rfl, h.fin, h.closed, rfl⟩

theorem Waiting.skip_all (a : Bytes) {rest : Bytes} :
    ∀ {s : Traced}, s.Waiting (a ++ rest) → ∃ l s', exec step s l = some s' ∧ s'.Waiting rest := by
  induction a with
  | nil => exact fun {s} h => ⟨[], s, rfl, h⟩
  | cons b a ih =>
      intro s h
      obtain ⟨l, s', hs', h'⟩ := h.skip
      obtain ⟨l', s'', hs'', h''⟩ := ih h'
      exact ⟨l ++ l', s'', exec_append.mpr ⟨s', hs', hs''⟩, h''⟩

/-- **Any text that reads as a task can be read as one**: its length arrives first. -/
theorem Waiting.read {s : Traced} {l text u : Bytes} {cmd : Int32} {data : Bytes}
    (h : s.Waiting (l ++ (text ++ u))) (hl : l ≠ [] ∧ l.length ≤ 4)
    (htext : TaskText l text cmd data) :
    ∃ labels t, exec step s labels = some t ∧ (l ++ (text ++ u), (cmd, data)) ∈ t.reads := by
  have htake := h.take_up hl.1
  obtain ⟨k, hk, hsettle⟩ := settle_text
  have hpos : 0 < text.length := by
    have := htext.length_text
    omega
  have hlength : exec step { s with
      conn := { s.conn with
        sent := text ++ u, avail := l, handled := s.conn.handled + 1, reader := some readPacket }
      began := l ++ (text ++ u) } [.turn, .arrive text.length false] = some { s with
      conn := { s.conn with
        sent := u, avail := text, events := s.conn.events + 1, handled := s.conn.handled + 1,
        reader := some (k (.bytes l hl)) }
      began := l ++ (text ++ u) } := by
    have hanswer : recvAnswer 4 l s.conn.fin = .bytes l hl := by
      simp only [recvAnswer, List.take_of_length_le hl.2, ne_eq, hl.1, not_false_eq_true, dif_pos]
    simp [exec, step, Conn.step, hk, answer, hanswer, hpos, report, ReadCall.demand, hl.2]
  obtain ⟨n, hn⟩ := exec_settle (k (.bytes l hl)) { s with
      conn := { s.conn with
        sent := u, avail := text, events := s.conn.events + 1, handled := s.conn.handled + 1,
        reader := some (k (.bytes l hl)) }
      began := l ++ (text ++ u) } rfl h.fin
  simp only [hsettle l text hl cmd data htext] at hn
  refine ⟨_, _, exec_append.mpr ⟨_, htake, exec_append.mpr ⟨_, hlength, hn⟩⟩, ?_⟩
  simp [ReadOutcome.tasks]

/-! ### Boundaries -/

/-- **Only frame boundaries are parsed**, however the stream is cut, if and only if a
text that reads as a task stands nowhere else in it. -/
theorem boundaries_iff (sent : Bytes) (closes : Bool) :
    (∀ l t, exec step (start sent closes) l = some t →
      ∀ r ∈ t.reads, PacketAt sent r.1 r.2) ↔ NoStrayTask sent := by
  constructor
  · intro h a l text u cmd data hsent hl hl4 htext
    have hstart : (start sent closes).Waiting (a ++ (l ++ (text ++ u))) :=
      ⟨rfl, rfl, rfl, rfl, by rw [← List.append_assoc l, ← hsent]; rfl⟩
    obtain ⟨l₁, s, hs, hwait⟩ := hstart.skip_all a
    obtain ⟨l₂, t, ht, hmem⟩ := hwait.read ⟨hl, hl4⟩ htext
    obtain ⟨hboundary, p, rest', hrest, -⟩ := h _ t (exec_append.mpr ⟨s, hs, ht⟩) _ hmem
    rw [List.append_assoc]
    refine ⟨hboundary, ?_⟩
    have hfour := htext.length_add (a := []) hl (by simpa using hl4)
      (by rw [List.nil_append, List.append_assoc]; exact hrest)
    simpa using hfour
  · intro h l t hrun r hr
    have hplaced := exec_invariant Placed.step (placed_start sent closes) hrun
    obtain ⟨a, l₁, text, u, hsent, hrest, hl, hl4, htext⟩ := hplaced.reads r hr
    obtain ⟨hboundary, hfour⟩ := h a l₁ text u _ _ (hrest ▸ hsent) hl hl4 htext
    obtain ⟨p, hp, htask⟩ := htext.packet hfour
    exact ⟨hrest ▸ hboundary, p, u, by rw [hp, hrest], htask⟩

/-- A head with a wrong flag, and a packet behind it. -/
def badFlag : Bytes := le 4 1 ++ ascii "XX" ++ hiPacket.bytes

/-- `read_head` rejects a head with a wrong flag, and the next event makes a task of what
is behind it. -/
theorem rejected_head_resumed :
    ∃ t, exec step (start badFlag false)
        ([.arrive 6 false, .event, .turn, .turn, .turn, .arrive 17 false] ++ wholeEvent) = some t ∧
      t.reads = [(hiPacket.bytes, hiPacket.task)] ∧
      ¬ ∀ r ∈ t.reads, PacketAt badFlag r.1 r.2 := by
  have hend : (exec step (start badFlag false)
      ([.arrive 6 false, .event, .turn, .turn, .turn, .arrive 17 false] ++ wholeEvent)).map
      Traced.reads = some [(hiPacket.bytes, hiPacket.task)] := by decide
  obtain ⟨t, hrun, hreads⟩ := Option.map_eq_some_iff.mp hend
  refine ⟨t, hrun, hreads, fun hall => ?_⟩
  obtain ⟨⟨ps, hps⟩, -⟩ := hall (hiPacket.bytes, hiPacket.task) (by simp [hreads])
  -- six bytes are no number of packets
  have hsix : (stream ps).length = 6 := by
    have hlen := congrArg List.length (List.append_cancel_right hps)
    exact hlen.symm
  cases ps with
  | nil => cases hsix
  | cons p ps =>
      rw [stream_cons, List.length_append, p.length_bytes] at hsix
      omega

end Traced

end SpiderChat
