import SpiderChat.Connection

/-!
# SpiderChat.Reassembly

**Stream reassembly.** A run of `serv_epoll` for one event reads one packet or gives
up: a `recv` that returns less than it was asked for is taken for a broken packet, and
a second packet that has arrived with the first is left in the buffer until the next
event. So the tasks of a connection are the packets sent on it exactly when there are
as many events as packets, and each `recv` of these events finds all the bytes it asks
for.

`Aligned` is the invariant of such a run: so far, the events have read one packet
each. In a `Lost` state a packet has been given up, and no later event makes up for
it: what is not read yet starts behind the first byte of that packet, and a packet
cannot be read from there (`TaskText.aligned`), whatever its body is made of.
-/

namespace SpiderChat

open Lib Conn

/-- A well-formed packet. -/
structure Packet where
  cVersion : Int16
  cmd : Int32
  gameid : Int16
  body : Bytes
  gameid_le : 1000 ≤ gameid
  body_pos : 1 ≤ body.length
  body_le : body.length ≤ 1024

namespace Packet

/-- The head of a packet. -/
def head (p : Packet) : PacketHead :=
  { length := .ofNat p.body.length
    flag := ascii "BY"
    cVersion := p.cVersion
    cmd := p.cmd
    gameid := p.gameid
    code := PACKET_HEAD_CODE }

/-- A packet on the wire. -/
def bytes (p : Packet) : Bytes := p.head.encode ++ p.body

/-- The task made of a packet. -/
def task (p : Packet) : Int32 × Bytes := (p.cmd, p.body)

theorem length_head (p : Packet) : p.head.length.toInt = p.body.length :=
  Int32.toInt_ofNat_of_lt (by have := p.body_le; omega)

theorem valid_head (p : Packet) : p.head.Valid where
  flag_eq := rfl
  gameid_le := p.gameid_le
  code_eq := rfl
  pos := by
    rw [length_head]
    exact_mod_cast p.body_pos
  le_max := by
    rw [length_head]
    exact_mod_cast p.body_le

theorem length_bytes (p : Packet) : p.bytes.length = 15 + p.body.length := by
  rw [bytes, List.length_append, PacketHead.length_encode rfl, HEAD_SIZE]

theorem toNat_length (p : Packet) : p.head.length.toUInt32.toNat = p.body.length := by
  have hle := p.body_le
  show (Int32.ofNat p.body.length).toUInt32.toNat = p.body.length
  simp only [Int32.toUInt32_ofNat', UInt32.toNat_ofNat']
  omega

/-- A packet starts with its length. -/
theorem bytes_eq (p : Packet) : ∃ l, p.bytes = le 4 p.body.length ++ l := by
  refine ⟨ascii "BY" ++ (le 2 p.head.cVersion.toUInt16.toNat ++ (le 4 p.head.cmd.toUInt32.toNat ++
    (le 2 p.head.gameid.toUInt16.toNat ++ ([p.head.code] ++ p.body)))), ?_⟩
  simp only [bytes, PacketHead.encode, toNat_length, List.append_assoc]
  rfl

/-- There is no `B` in the length behind its first byte. -/
theorem length_ne_flag (p : Packet) {i : Nat} (hpos : 1 ≤ i) (hlt : i < 4) :
    (le 4 p.body.length)[i]? ≠ some 66 := by
  have hle := p.body_le
  have hsecond : UInt8.ofNat (p.body.length / 256) ≠ 66 := by
    intro h
    have hnat := congrArg UInt8.toNat h
    rw [UInt8.toNat_ofNat'] at hnat
    have hB : (66 : UInt8).toNat = 66 := rfl
    omega
  have hthird : p.body.length / 256 / 256 = 0 := by omega
  interval_cases i
  · simpa [le] using hsecond
  · simp [le, hthird]
  · simp [le, hthird]

end Packet

/-- The packets as the peer sends them. -/
def stream (ps : List Packet) : Bytes := ps.flatMap Packet.bytes

@[simp] theorem stream_nil : stream [] = [] := rfl

@[simp] theorem stream_cons (p : Packet) (ps : List Packet) :
    stream (p :: ps) = p.bytes ++ stream ps := List.flatMap_cons

/-! ### A task read from the wrong place -/

/-- The rest of a task's text starts with `B`. -/
theorem TaskText.eq_cons {l text : Bytes} {cmd : Int32} {data : Bytes}
    (h : TaskText l text cmd data) : ∃ text', text = 66 :: text' := by
  obtain ⟨cVersion, c, gameid, -, -, -, -, -, rfl⟩ := h.split
  exact ⟨_, rfl⟩

theorem TaskText.length_text {l text : Bytes} {cmd : Int32} {data : Bytes}
    (h : TaskText l text cmd data) : text.length = 11 + data.length := by
  obtain ⟨cVersion, c, gameid, hv, hc, hg, -, -, rfl⟩ := h.split
  simp only [List.length_append, List.length_cons, hv, hc, hg]
  show 2 + (2 + (4 + (2 + (data.length + 1)))) = _
  omega

/-- The flag of a task that is read within a packet is the packet's flag, when it starts
in the packet's head. -/
theorem TaskText.length_add {p : Packet} {l text a u rest : Bytes} {cmd : Int32} {data : Bytes}
    (h : TaskText l text cmd data) (hl : l ≠ []) (hhead : a.length + l.length ≤ 4)
    (heq : a ++ (l ++ text ++ u) = p.bytes ++ rest) : a.length + l.length = 4 := by
  by_contra hne
  have hpos := List.length_pos_of_ne_nil hl
  obtain ⟨text', rfl⟩ := h.eq_cons
  obtain ⟨r, hr⟩ := p.bytes_eq
  have hleft : (a ++ (l ++ 66 :: text' ++ u))[a.length + l.length]? = some 66 := by
    rw [List.getElem?_append_right (by omega), List.append_assoc,
      List.getElem?_append_right (by omega)]
    simp
  have hright : (p.bytes ++ rest)[a.length + l.length]? =
      (le 4 p.body.length)[a.length + l.length]? := by
    rw [hr, List.append_assoc, List.getElem?_append_left (by rw [length_le]; omega)]
  refine p.length_ne_flag (i := a.length + l.length) (by omega) (by omega) ?_
  rw [← hright, ← heq, hleft]

/-- **A packet is read from its first byte or not at all.** -/
theorem TaskText.aligned {p : Packet} {l text a u rest : Bytes} (h : TaskText l text p.cmd p.body)
    (hl : l ≠ []) (hinside : a.length + (l ++ text).length ≤ p.bytes.length)
    (heq : a ++ (l ++ text ++ u) = p.bytes ++ rest) : a = [] := by
  rw [List.length_append, h.length_text, p.length_bytes] at hinside
  have hfour := h.length_add hl (by omega) heq
  obtain ⟨r, hr⟩ := p.bytes_eq
  have hsplit : a ++ l = le 4 p.body.length := by
    rw [hr, List.append_assoc, List.append_assoc, ← List.append_assoc a] at heq
    exact (List.append_inj heq (by simp only [List.length_append, length_le]; omega)).1
  -- `l` reads as the whole length, which is less than what `a` and `l` denote together
  have hsum : p.body.length = unle a + 256 ^ a.length * unle l := by
    have hle := p.body_le
    rw [← unle_append, hsplit, unle_le (by omega)]
  have hpos := p.body_pos
  have hle := p.body_le
  have hunle : unle l ≤ 1024 := by
    have : 1 * unle l ≤ 256 ^ a.length * unle l :=
      Nat.mul_le_mul_right _ (Nat.one_le_pow _ _ (by omega))
    omega
  have hlen : (unle l : Int) = p.body.length := by
    rw [h.length_eq, int32Of, UInt32.toInt32_ofNat', Int32.toInt_ofNat_of_lt (by omega)]
  by_contra hne
  have ha := List.length_pos_of_ne_nil hne
  have hpow : 256 * unle l ≤ 256 ^ a.length * unle l :=
    Nat.mul_le_mul_right _ (Nat.le_self_pow (by omega) 256)
  omega

/-! ### Runs in which every packet is read whole -/

/-- While one of the first `n` events is handled, a call finds all the bytes that it
asks for. -/
def Whole (n : Nat) (s : Conn) (i : Label) : Prop :=
  i = .turn → s.handled ≤ n → s.demand ≤ s.avail.length

instance (n : Nat) (s : Conn) (i : Label) : Decidable (Whole n s i) :=
  inferInstanceAs (Decidable (_ → _ → _))

/-- The packets have been read one by one, an event each. -/
inductive Aligned (ps : List Packet) (s : Conn) : Prop
  | idle (hreader : s.reader = none)
      (htasks : s.tasks = (ps.take s.handled).map Packet.task)
      (hunread : s.unread = stream (ps.drop s.handled))
  | reading (k : Nat) (r : Reader ReadOutcome) (es : List ReadEvent) (hreader : s.reader = some r)
      (hhandled : s.handled = k + 1)
      (htasks : s.tasks = (ps.take k).map Packet.task) (hafter : readPacket.After es r)
      (hbytes : consumed es ++ s.unread = stream (ps.drop k))
      (hfull : k < ps.length → ∀ e ∈ es, e.Full)

theorem aligned_start (ps : List Packet) (closes : Bool) :
    Aligned ps (start (stream ps) closes) :=
  .idle rfl rfl rfl

/-- Arrivals change nothing. -/
theorem Aligned.of_same {ps : List Packet} {s s' : Conn} (h : Aligned ps s)
    (hsame : SameProgress s s') : Aligned ps s' := by
  obtain ⟨hunread, hhandled, hreader, htasks, -, -⟩ := hsame
  cases h with
  | idle hr ht hu =>
      exact .idle (hreader.trans hr) (by rw [htasks, hhandled, ht]) (by rw [hunread, hhandled, hu])
  | reading k r es hr hk ht ha hb hf =>
      exact .reading k r es (hreader.trans hr) (hhandled.trans hk) (htasks.trans ht) ha
        (by rw [hunread, hb]) hf

/-- An event that read whole packets is over. -/
theorem Aligned.finish {ps : List Packet} {s : Conn} {k : Nat} {es : List ReadEvent}
    {outcome : ReadOutcome} (hhandled : s.handled = k + 1)
    (htasks : s.tasks = (ps.take k).map Packet.task) (hruns : readPacket.Runs es outcome)
    (hbytes : consumed es ++ s.unread = stream (ps.drop k))
    (hfull : k < ps.length → ∀ e ∈ es, e.Full) : Aligned ps (s.finish outcome) := by
  by_cases hk : k < ps.length
  · rw [List.drop_eq_getElem_cons hk, stream_cons, Packet.bytes, List.append_assoc] at hbytes
    obtain ⟨rfl, hunread⟩ := runs_readPacket_full hruns (hfull hk) ps[k].valid_head
      ps[k].length_head hbytes
    refine .idle rfl ?_ ?_
    · show s.tasks ++ [ps[k].task] = (ps.take s.handled).map Packet.task
      rw [hhandled, List.take_succ_eq_append_getElem hk, List.map_append, htasks]
      rfl
    · show s.unread = stream (ps.drop s.handled)
      rw [hhandled, hunread]
  · -- there is nothing left to read, so there is no task
    have hnil : ps.drop k = [] := List.drop_eq_nil_iff.mpr (by omega)
    have htake : ∀ m, k ≤ m → ps.take m = ps := fun m hm => List.take_of_length_le (by omega)
    rw [hnil, stream_nil, List.append_eq_nil_iff] at hbytes
    have hidle : ∀ s' : Conn, s'.reader = none → s'.tasks = s.tasks → s'.handled = s.handled →
        s'.unread = s.unread → Aligned ps s' := by
      intro s' hr ht hh hu
      refine .idle hr ?_ ?_
      · rw [ht, hh, htasks, hhandled, htake k (by omega), htake (k + 1) (by omega)]
      · rw [hu, hbytes.2, hh, hhandled, List.drop_of_length_le (by omega), stream_nil]
    cases outcome with
    | close => exact hidle _ rfl rfl rfl rfl
    | skip => exact hidle _ rfl rfl rfl rfl
    | task cmd data =>
        obtain ⟨l, text, hl, -, heq, -, -⟩ := runs_readPacket_task hruns
        rw [hbytes.1] at heq
        exact absurd (List.append_eq_nil_iff.mp heq.symm).1 hl

/-- **The step lemma.** -/
theorem Aligned.step {ps : List Packet} (s : Conn) (i : Label) (s' : Conn) (h : Aligned ps s)
    (hok : Whole ps.length s i) (hstep : s.step i = some s') : Aligned ps s' := by
  cases i with
  | arrive n coalesce => exact h.of_same (arrive_inv hstep).1
  | eof coalesce => exact h.of_same (eof_inv hstep).1
  | event =>
      obtain ⟨-, hnone, rfl⟩ := event_inv hstep
      cases h with
      | idle hr ht hu =>
          exact .reading s.handled readPacket [] rfl rfl ht .start hu (fun _ => by simp)
      | reading k r es hr => rw [hnone] at hr; cases hr
  | turn =>
      obtain ⟨outcome, hr', rfl⟩ | ⟨c, k', hr', rfl⟩ := turn_inv hstep
      · cases h with
        | idle hr => rw [hr'] at hr; cases hr
        | reading k r es hr hk ht ha hb hf =>
            obtain rfl := Option.some.inj (hr.symm.trans hr')
            exact .finish hk ht ha.runs_pure hb hf
      · cases h with
        | idle hr => rw [hr'] at hr; cases hr
        | reading k r es hr hk ht ha hb hf =>
            obtain rfl := Option.some.inj (hr.symm.trans hr')
            refine .reading k _ _ rfl hk ht (ha.call (s.answer c))
              ((consumed_turn s c _ _).trans hb) fun hlt e he => ?_
            rcases List.mem_append.mp he with he | he
            · exact hf hlt e he
            · obtain rfl := List.mem_singleton.mp he
              have hdemand : s.demand = c.demand := by simp only [demand, hr']
              exact (full_answer_iff s c).mpr (hdemand ▸ hok rfl (by omega))

/-! ### Runs in which a packet has been given up -/

/-- A packet has been given up. -/
inductive Lost (ps : List Packet) (s : Conn) : Prop
  | wrong (h : ¬ s.tasks <+: ps.map Packet.task)
  | closed (hreader : s.reader = none) (hclosed : s.closed = true)
      (hlt : s.tasks.length < ps.length)
  | behind (rest : List Packet) (hreader : s.reader = none)
      (htasks : ps.map Packet.task = s.tasks ++ rest.map Packet.task)
      (hunread : s.unread <:+ stream rest) (hlt : s.unread.length < (stream rest).length)
  | reading (rest : List Packet) (r : Reader ReadOutcome) (es : List ReadEvent)
      (hreader : s.reader = some r) (hafter : readPacket.After es r)
      (htasks : ps.map Packet.task = s.tasks ++ rest.map Packet.task)
      (hunread : consumed es ++ s.unread <:+ stream rest) (hrest : rest ≠ [])
      (hlost : (consumed es ++ s.unread).length < (stream rest).length ∨ ∃ e ∈ es, ¬ e.Full)

theorem Lost.of_same {ps : List Packet} {s s' : Conn} (h : Lost ps s) (hsame : SameProgress s s') :
    Lost ps s' := by
  obtain ⟨hunread, -, hreader, htasks, hclosed, -⟩ := hsame
  cases h with
  | wrong h => exact .wrong (htasks ▸ h)
  | closed hr hc hlt => exact .closed (hreader.trans hr) (hclosed.trans hc) (htasks ▸ hlt)
  | behind rest hr ht hu hlt =>
      exact .behind rest (hreader.trans hr) (htasks ▸ ht) (hunread ▸ hu) (hunread ▸ hlt)
  | reading rest r es hr ha ht hu hne hl =>
      exact .reading rest r es (hreader.trans hr) ha (htasks ▸ ht) (hunread ▸ hu) hne (hunread ▸ hl)

/-- An event that ends without closing the connection has read something. -/
theorem consumed_ne_nil_of_skip {es : List ReadEvent} (h : readPacket.Runs es .skip) :
    consumed es ≠ [] := by
  obtain ⟨es₁, es₂, status, rfl, h₁, h₂⟩ := Prog.runs_bind.mp h
  obtain ⟨r, es₃, rfl, h₃⟩ := runs_recv_bind.mp h₁
  have hclose : ∀ code : Int, code ≤ -7 → status ≠ .error code := by
    intro code hcode heq
    subst heq
    obtain ⟨-, heq⟩ := Prog.runs_pure.mp h₂
    rw [if_pos hcode] at heq
    cases heq
  cases r with
  | bytes l hl => simp [hl.1]
  | eof => exact absurd (Prog.runs_pure.mp h₃).2 (hclose _ (by decide))
  | fail errno =>
      cases errno with
      | EAGAIN => exact absurd (Prog.runs_pure.mp h₃).2 (hclose _ (by decide))
      | ECONNRESET => exact absurd (Prog.runs_pure.mp h₃).2 (hclose _ (by decide))
      | other => exact absurd (Prog.runs_pure.mp h₃).2 (hclose _ (by decide))

/-- A task that is read after a packet was given up is not the next one, or the event
that read it started and ended behind that packet's first byte. -/
theorem Lost.finish_task {ps rest : List Packet} {s : Conn} {es : List ReadEvent} {cmd : Int32}
    {data : Bytes} (hruns : readPacket.Runs es (.task cmd data))
    (htasks : ps.map Packet.task = s.tasks ++ rest.map Packet.task)
    (hunread : consumed es ++ s.unread <:+ stream rest) (hrest : rest ≠ [])
    (hlost : (consumed es ++ s.unread).length < (stream rest).length ∨ ∃ e ∈ es, ¬ e.Full) :
    Lost ps (s.finish (.task cmd data)) := by
  obtain ⟨p, rest, rfl⟩ := List.exists_cons_of_ne_nil hrest
  by_cases hsame : p.task = (cmd, data)
  swap
  · refine .wrong fun hpre => hsame ?_
    rw [htasks, Conn.finish, List.prefix_append_right_inj] at hpre
    exact (List.cons_prefix_cons.mp hpre).1.symm
  obtain ⟨rfl, rfl⟩ := Prod.mk.inj hsame
  obtain ⟨l, text, hl, hl4, heq, htext, hfull⟩ := runs_readPacket_task hruns
  obtain ⟨a, ha⟩ := hunread
  have hlen : s.unread.length < (stream rest).length := by
    by_contra hge
    rw [heq, stream_cons] at ha
    have htotal := congrArg List.length ha
    simp only [List.length_append] at htotal
    obtain rfl := htext.aligned hl (by rw [List.length_append]; omega) ha
    rcases hlost with hlt | ⟨e, he, hshort⟩
    · rw [heq, stream_cons, ← ha] at hlt
      exact absurd hlt (lt_irrefl _)
    · have hfour := htext.length_add hl (by simpa using hl4) ha
      exact hshort (hfull (by simpa using hfour) e he)
  refine .behind rest rfl ?_ ?_ hlen
  · rw [htasks, List.map_cons, Conn.finish, List.append_assoc]
    rfl
  · have hsub : s.unread <:+ p.bytes ++ stream rest := by
      rw [← stream_cons, ← ha, ← List.append_assoc]
      exact List.suffix_append _ _
    exact List.suffix_of_suffix_length_le hsub (List.suffix_append _ _) hlen.le

/-- **The step lemma.** No step makes up for a packet that was given up. -/
theorem Lost.step {ps : List Packet} (s : Conn) (i : Label) (s' : Conn) (h : Lost ps s)
    (hstep : s.step i = some s') : Lost ps s' := by
  cases i with
  | arrive n coalesce => exact h.of_same (arrive_inv hstep).1
  | eof coalesce => exact h.of_same (eof_inv hstep).1
  | event =>
      obtain ⟨hopen, hnone, rfl⟩ := event_inv hstep
      cases h with
      | wrong h => exact .wrong h
      | closed hr hc => rw [hopen] at hc; cases hc
      | behind rest hr ht hu hlt =>
          refine .reading rest readPacket [] rfl .start ht hu ?_ (.inl hlt)
          intro heq
          subst heq
          exact absurd hlt (Nat.not_lt_zero _)
      | reading rest r es hr => rw [hnone] at hr; cases hr
  | turn =>
      obtain ⟨outcome, hr', rfl⟩ | ⟨c, k', hr', rfl⟩ := turn_inv hstep
      · cases h with
        | closed hr => rw [hr'] at hr; cases hr
        | behind rest hr => rw [hr'] at hr; cases hr
        | wrong h =>
            cases outcome with
            | close => exact .wrong h
            | skip => exact .wrong h
            | task cmd data => exact .wrong fun hpre => h ((List.prefix_append _ _).trans hpre)
        | reading rest r es hr ha ht hu hne hl =>
            obtain rfl := Option.some.inj (hr.symm.trans hr')
            have hruns := ha.runs_pure
            cases outcome with
            | close =>
                refine .closed rfl rfl ?_
                have hlen := congrArg List.length ht
                have hpos := List.length_pos_of_ne_nil hne
                simp only [List.length_map, List.length_append] at hlen
                show s.tasks.length < ps.length
                omega
            | skip =>
                have hpos := List.length_pos_of_ne_nil (consumed_ne_nil_of_skip hruns)
                have hle := hu.length_le
                rw [List.length_append] at hle
                refine .behind rest rfl ht ((List.suffix_append _ _).trans hu) ?_
                show s.unread.length < _
                omega
            | task cmd data => exact .finish_task hruns ht hu hne hl
      · cases h with
        | closed hr => rw [hr'] at hr; cases hr
        | behind rest hr => rw [hr'] at hr; cases hr
        | wrong h => exact .wrong h
        | reading rest r es hr ha ht hu hne hl =>
            obtain rfl := Option.some.inj (hr.symm.trans hr')
            have hbytes := consumed_turn s c es (some (k' (s.answer c)))
            refine .reading rest _ _ rfl (ha.call (s.answer c)) ht (hbytes ▸ hu) hne ?_
            rcases hl with hlt | ⟨e, he, hshort⟩
            · exact .inl (hbytes ▸ hlt)
            · exact .inr ⟨e, List.mem_append_left _ he, hshort⟩

/-- A short read while a packet is due gives the packet up. -/
theorem Aligned.lost {ps : List Packet} (s : Conn) (i : Label) (s' : Conn) (h : Aligned ps s)
    (hbad : ¬ Whole ps.length s i) (hstep : s.step i = some s') : Lost ps s' := by
  unfold Whole at hbad
  push Not at hbad
  obtain ⟨rfl, hdue, hshort⟩ := hbad
  obtain ⟨outcome, hr', -⟩ | ⟨c, k', hr', rfl⟩ := turn_inv hstep
  · simp only [demand, hr'] at hshort
    exact absurd hshort (Nat.not_lt_zero _)
  · have hdemand : s.demand = c.demand := by simp only [demand, hr']
    cases h with
    | idle hr => rw [hr'] at hr; cases hr
    | reading k r es hr hk ht ha hb hf =>
        obtain rfl := Option.some.inj (hr.symm.trans hr')
        refine .reading (ps.drop k) _ _ rfl (ha.call (s.answer c)) ?_ ?_ ?_ (.inr ⟨_,
          List.mem_append_right _ List.mem_cons_self, ?_⟩)
        · show ps.map Packet.task = s.tasks ++ _
          rw [ht, ← List.map_append, List.take_append_drop]
        · rw [consumed_turn, hb]
        · intro hnil
          have := List.drop_eq_nil_iff.mp hnil
          omega
        · intro hfull
          have := (full_answer_iff s c).mp hfull
          omega

/-! ### Reassembly -/

/-- Every task takes an event. -/
def EventPerTask (s : Conn) : Prop := s.tasks.length + s.reader.toList.length ≤ s.handled

theorem EventPerTask.step (s : Conn) (i : Label) (s' : Conn) (h : EventPerTask s)
    (hstep : s.step i = some s') : EventPerTask s' := by
  unfold EventPerTask at h ⊢
  cases i with
  | arrive n coalesce =>
      obtain ⟨⟨-, hh, hr, ht, -, -⟩, -⟩ := arrive_inv hstep
      rw [hh, hr, ht]
      exact h
  | eof coalesce =>
      obtain ⟨⟨-, hh, hr, ht, -, -⟩, -⟩ := eof_inv hstep
      rw [hh, hr, ht]
      exact h
  | event =>
      obtain ⟨-, hnone, rfl⟩ := event_inv hstep
      rw [hnone] at h
      simpa using h
  | turn =>
      obtain ⟨outcome, hr, rfl⟩ | ⟨c, k, hr, rfl⟩ := turn_inv hstep
      · rw [hr] at h
        cases outcome <;> simp [Conn.finish] at h ⊢ <;> omega
      · rw [hr] at h
        exact h

/-- **The tasks of a connection are the packets sent on it** if and only if at least
as many events as packets are handled, and while one of these is handled, every call of
`recv` finds all the bytes that it asks for. -/
theorem reassembly_iff (ps : List Packet) (closes : Bool) (l : List Label) (t : Conn)
    (hrun : exec Conn.step (start (stream ps) closes) l = some t) (hdone : t.Complete) :
    t.tasks = ps.map Packet.task ↔
      AllSteps Conn.step (Whole ps.length) (start (stream ps) closes) l ∧
        ps.length ≤ t.handled := by
  have hstart := aligned_start ps closes
  constructor
  · intro htasks
    refine ⟨allSteps_of_last Aligned.step Aligned.lost Lost.step hstart hrun ?_, ?_⟩
    · intro hlost
      cases hlost with
      | wrong h => exact h (htasks ▸ List.prefix_refl _)
      | closed _ _ hlt => simp [htasks] at hlt
      | behind rest _ ht _ hlt =>
          rw [htasks] at ht
          obtain rfl : rest = [] := by simpa using ht
          exact absurd hlt (Nat.not_lt_zero _)
      | reading rest r es hr => rw [hdone.reader_none] at hr; cases hr
    · have hzero : EventPerTask (start (stream ps) closes) := Nat.le_refl 0
      have hle := exec_invariant EventPerTask.step hzero hrun
      rw [EventPerTask, htasks, List.length_map] at hle
      omega
  · intro h
    obtain ⟨hsteps, hevents⟩ := h
    cases hsteps.last Aligned.step hstart hrun with
    | idle _ ht _ => rw [ht, List.take_of_length_le hevents]
    | reading k r es hr => rw [hdone.reader_none] at hr; cases hr

/-- A request of 17 bytes. -/
def hiPacket : Packet where
  cVersion := 1
  cmd := HANDLE_SEND_MESSAGE
  gameid := 1000
  body := ascii "hi"
  gameid_le := by decide
  body_pos := by decide
  body_le := by decide

/-- An event that reads a packet: eight calls, and its end. -/
def wholeEvent : List Label := .event :: List.replicate 9 .turn

/-- Two packets that arrive one after the other, with an event each. -/
theorem reassembly_iff_two :
    ∃ t, exec Conn.step (start (stream [hiPacket, hiPacket]) false)
        (.arrive 17 false :: .arrive 17 false :: wholeEvent ++ wholeEvent) = some t ∧
      t.Complete ∧ t.tasks = [hiPacket.task, hiPacket.task] := by
  have hend : (exec Conn.step (start (stream [hiPacket, hiPacket]) false)
      (.arrive 17 false :: .arrive 17 false :: wholeEvent ++ wholeEvent)).map
        (fun t => (decide t.Complete, t.handled)) = some (true, 2) := by decide
  obtain ⟨t, hrun, hend⟩ := Option.map_eq_some_iff.mp hend
  obtain ⟨hdone, hhandled⟩ := Prod.mk.inj hend
  have hdone := of_decide_eq_true hdone
  exact ⟨t, hrun, hdone, (reassembly_iff [hiPacket, hiPacket] false _ t hrun hdone).mpr
    ⟨by decide, hhandled.ge⟩⟩

/-- Two packets that arrive together are reported by one event, and the second stays in
the buffer. -/
theorem reassembly_coalesced :
    ∃ t, exec Conn.step (start (stream [hiPacket, hiPacket]) false)
        (.arrive 34 false :: wholeEvent) = some t ∧
      t.Complete ∧ t.tasks ≠ [hiPacket, hiPacket].map Packet.task ∧
      t.tasks = [hiPacket.task] ∧ t.unread = hiPacket.bytes := by
  have hend : (exec Conn.step (start (stream [hiPacket, hiPacket]) false)
      (.arrive 34 false :: wholeEvent)).map (fun t => (decide t.Complete, t.tasks, t.unread)) =
      some (true, [hiPacket.task], hiPacket.bytes) := by decide
  obtain ⟨t, hrun, hend⟩ := Option.map_eq_some_iff.mp hend
  obtain ⟨hdone, hend⟩ := Prod.mk.inj hend
  obtain ⟨htasks, hunread⟩ := Prod.mk.inj hend
  exact ⟨t, hrun, of_decide_eq_true hdone, by rw [htasks]; decide, htasks, hunread⟩

end SpiderChat
