import SpiderChat.Frame

/-!
# SpiderChat.ReadPath

**The read path**: `read_head` of `spider_function.c` and the part of `serv_epoll`
that reads one packet and makes a task of it, as a program over the results of
`recv`. One run of `readPacket` is what `serv_epoll` does for one `EPOLLIN` event of
a registered descriptor.

`recv` on the non-blocking socket returns some of the bytes asked for, 0 at the end
of the stream, or -1 with an `errno`. A field of the head that is read short keeps
the zeros it was initialised with.
-/

namespace SpiderChat

open Lib

/-! ### The socket -/

/-- The values of `errno` that `read_head` tells apart. -/
inductive Errno
  | EAGAIN
  | ECONNRESET
  | other
  deriving Repr, DecidableEq

/-- The result of `recv(fd, buf, n, 0)`. -/
inductive RecvAnswer (n : Nat)
  | bytes (l : Bytes) (h : l ≠ [] ∧ l.length ≤ n)
  | eof
  | fail (errno : Errno)

namespace RecvAnswer

variable {n : Nat}

/-- What `recv` returns. -/
def len : RecvAnswer n → Int
  | .bytes l _ => l.length
  | .eof => 0
  | .fail _ => -1

/-- What `recv` writes into the buffer. -/
def data : RecvAnswer n → Bytes
  | .bytes l _ => l
  | .eof => []
  | .fail _ => []

@[simp] theorem len_bytes (l : Bytes) (h : l ≠ [] ∧ l.length ≤ n) :
    (RecvAnswer.bytes l h).len = l.length := rfl

@[simp] theorem data_bytes (l : Bytes) (h : l ≠ [] ∧ l.length ≤ n) :
    (RecvAnswer.bytes l h).data = l := rfl

theorem length_data_of_len {r : RecvAnswer n} {k : Nat} (h : r.len = k) : r.data.length = k := by
  cases r with
  | bytes l hl => simpa using h
  | eof =>
      rw [len] at h
      rw [data, List.length_nil]
      omega
  | fail errno =>
      rw [len] at h
      omega

end RecvAnswer

/-- What the read path asks the system for. -/
inductive ReadCall
  | recv (n : Nat)
  /-- `malloc(sizeof(task))` -/
  | mallocTask
  deriving Repr, DecidableEq

/-- How many bytes a call asks for. -/
def ReadCall.demand : ReadCall → Nat
  | .recv n => n
  | .mallocTask => 0

/-- What a call answers. -/
abbrev ReadCall.Answer : ReadCall → Type
  | .recv n => RecvAnswer n
  | .mallocTask => Bool

/-- A computation that reads from the socket. -/
abbrev Reader (α : Type) := Prog ReadCall.Answer α

/-- A call of the read path and its answer. -/
abbrev ReadEvent := Event ReadCall.Answer

/-- `recv(fd, buf, n, 0)`. -/
def recv (n : Nat) : Reader (RecvAnswer n) := Prog.op (ReadCall.recv n)

/-- What `recv` returns when `avail` is in the socket's buffer; `fin` says that nothing
comes after it. -/
def recvAnswer (n : Nat) (avail : Bytes) (fin : Bool) : RecvAnswer n :=
  if h : avail.take n ≠ [] then .bytes (avail.take n) ⟨h, List.length_take_le n avail⟩
  else if fin then .eof
  else .fail .EAGAIN

/-- The calls of a computation when `avail` is in the buffer and nothing arrives
meanwhile. -/
def whole {α : Type} : Reader α → Bytes → List ReadEvent
  | .pure _, _ => []
  | .call (.recv n) k, avail =>
      let r := recvAnswer n avail false
      ⟨.recv n, r⟩ :: whole (k r) (avail.drop n)
  | .call .mallocTask k, avail => ⟨.mallocTask, true⟩ :: whole (k true) avail

/-! ### Reading a packet -/

/-- `read_head`: the head, or the `return_value` of a `packet_status` with status 0. -/
def readHead : Reader (Except Int PacketHead) := do
  match ← recv 4 with
  | .fail .EAGAIN => pure (.error (-7))
  | .fail .ECONNRESET => pure (.error (-7))
  | .fail .other => pure (.error (-8))
  | .eof => pure (.error (-9))
  | .bytes l _ => do
      let length := int32Of l
      if length > PACKET_MAX_LEN ∨ length ≤ 0 then pure (.error (-1)) else do
      let flag ← recv 2
      if flag.len ≠ 2 ∨ flag.data ≠ ascii "BY" then pure (.error (-2)) else do
      let cVersion ← recv 2
      if cVersion.len ≠ 2 then pure (.error (-3)) else do
      let cmd ← recv 4
      if cmd.len ≠ 4 then pure (.error (-4)) else do
      let gameid ← recv 2
      if gameid.len ≠ 2 ∨ int16Of gameid.data < 1000 then pure (.error (-5)) else do
      let code ← recv 1
      if code.len ≠ 1 ∨ code.data.headD 0 ≠ PACKET_HEAD_CODE then pure (.error (-6)) else
      pure (.ok
        { length
          flag := flag.data
          cVersion := int16Of cVersion.data
          cmd := int32Of cmd.data
          gameid := int16Of gameid.data
          code := code.data.headD 0 })

/-- How `serv_epoll` ends the handling of an event. -/
inductive ReadOutcome
  /-- It has called `close_client`. -/
  | close
  /-- It goes on with the next event. -/
  | skip
  /-- It has a new task. -/
  | task (cmd : Int32) (data : Bytes)
  deriving Repr, DecidableEq

/-- The part of `serv_epoll` from `read_head` to the new task. -/
def readPacket : Reader ReadOutcome := do
  match ← readHead with
  | .error return_value => pure (if return_value ≤ -7 then .close else .skip)
  | .ok packet => do
      let body ← recv packet.length.toInt.toNat
      if body.len ≠ packet.length.toInt then pure .skip else do
      let new_task ← Prog.op .mallocTask
      pure (if new_task then .task packet.cmd body.data else .close)

/-! ### What a run has read -/

namespace ReadEvent

/-- The bytes that a call has taken from the stream. -/
def data : ReadEvent → Bytes
  | ⟨.recv _, r⟩ => r.data
  | ⟨.mallocTask, _⟩ => []

/-- The call got what it asked for. -/
def Full : ReadEvent → Prop
  | ⟨.recv n, r⟩ => r.data.length = n
  | ⟨.mallocTask, ok⟩ => ok = true

end ReadEvent

/-- The bytes that the calls have taken from the stream. -/
def consumed (es : List ReadEvent) : Bytes := es.flatMap ReadEvent.data

@[simp] theorem consumed_nil : consumed [] = [] := rfl

@[simp] theorem consumed_recv {n : Nat} (r : RecvAnswer n) (es : List ReadEvent) :
    consumed (⟨.recv n, r⟩ :: es) = r.data ++ consumed es := rfl

@[simp] theorem consumed_mallocTask (ok : Bool) (es : List ReadEvent) :
    consumed (⟨.mallocTask, ok⟩ :: es) = consumed es := rfl

@[simp] theorem consumed_append (es es' : List ReadEvent) :
    consumed (es ++ es') = consumed es ++ consumed es' := List.flatMap_append

theorem runs_recv_bind {α : Type} {n : Nat} {k : RecvAnswer n → Reader α} {es : List ReadEvent}
    {a : α} : (recv n >>= k).Runs es a ↔ ∃ r es', es = ⟨.recv n, r⟩ :: es' ∧ (k r).Runs es' a :=
  Prog.runs_call

/-- The check of `head->length`. -/
theorem length_ok_iff {n : Int32} :
    ¬ (n > PACKET_MAX_LEN ∨ n ≤ 0) ↔ 1 ≤ n.toInt ∧ n.toInt ≤ 1024 := by
  have hzero : (0 : Int32).toInt = 0 := rfl
  have hbound : PACKET_MAX_LEN.toInt = 1024 := rfl
  rw [not_or, gt_iff_lt, Int32.not_lt, Int32.not_le, Int32.le_iff_toInt_le, Int32.lt_iff_toInt_lt]
  omega

/-- **What a head was read from.** Only the first `recv` may return less than it was
asked for. -/
theorem runs_readHead_ok {es : List ReadEvent} {head : PacketHead}
    (h : readHead.Runs es (.ok head)) :
    ∃ (l : Bytes) (hl : l ≠ [] ∧ l.length ≤ 4) (flag cVersion : RecvAnswer 2) (cmd : RecvAnswer 4)
      (gameid : RecvAnswer 2) (code : RecvAnswer 1),
      es = [⟨.recv 4, .bytes l hl⟩, ⟨.recv 2, flag⟩, ⟨.recv 2, cVersion⟩, ⟨.recv 4, cmd⟩,
        ⟨.recv 2, gameid⟩, ⟨.recv 1, code⟩] ∧
      (∀ e ∈ es.tail, e.Full) ∧ 1 ≤ (int32Of l).toInt ∧ (int32Of l).toInt ≤ 1024 ∧
      flag.data = ascii "BY" ∧ 1000 ≤ int16Of gameid.data ∧ code.data = [PACKET_HEAD_CODE] ∧
      head = ⟨int32Of l, ascii "BY", int16Of cVersion.data, int32Of cmd.data, int16Of gameid.data,
        PACKET_HEAD_CODE⟩ := by
  obtain ⟨r, es₁, rfl, h₁⟩ := runs_recv_bind.mp h
  cases r with
  | eof => cases h₁
  | fail errno => cases errno <;> cases h₁
  | bytes l hl =>
      change Prog.Runs (ite _ _ _) _ _ at h₁
      split at h₁
      · cases h₁
      rename_i hlength
      obtain ⟨flag, es₂, rfl, h₂⟩ := runs_recv_bind.mp h₁
      split at h₂
      · cases h₂
      rename_i hflag
      obtain ⟨cVersion, es₃, rfl, h₃⟩ := runs_recv_bind.mp h₂
      split at h₃
      · cases h₃
      rename_i hcVersion
      obtain ⟨cmd, es₄, rfl, h₄⟩ := runs_recv_bind.mp h₃
      split at h₄
      · cases h₄
      rename_i hcmd
      obtain ⟨gameid, es₅, rfl, h₅⟩ := runs_recv_bind.mp h₄
      split at h₅
      · cases h₅
      rename_i hgameid
      obtain ⟨code, es₆, rfl, h₆⟩ := runs_recv_bind.mp h₅
      split at h₆
      · cases h₆
      rename_i hcode
      obtain ⟨rfl, hhead⟩ := Prog.runs_pure.mp h₆
      obtain ⟨hpos, hmax⟩ := length_ok_iff.mp hlength
      simp only [not_or, not_not] at hflag hcVersion hcmd hgameid hcode
      have hcode' : code.data = [PACKET_HEAD_CODE] := by
        obtain ⟨b, hb⟩ := List.length_eq_one_iff.mp (RecvAnswer.length_data_of_len hcode.1)
        rw [hb] at hcode ⊢
        exact congrArg (fun b => [b]) hcode.2
      refine ⟨l, hl, flag, cVersion, cmd, gameid, code, rfl, ?_, hpos, hmax, hflag.2,
        Int16.not_lt.mp hgameid.2, hcode', ?_⟩
      · simp only [List.tail_cons, List.forall_mem_cons]
        exact ⟨RecvAnswer.length_data_of_len hflag.1, RecvAnswer.length_data_of_len hcVersion,
          RecvAnswer.length_data_of_len hcmd, RecvAnswer.length_data_of_len hgameid.1,
          RecvAnswer.length_data_of_len hcode.1, by simp⟩
      · rw [← hflag.2, ← hcode.2]
        exact Except.ok.inj hhead

theorem ne_nil_of_length_eq {n : Nat} {l : Bytes} (h : l.length = n + 1) :
    l ≠ [] ∧ l.length ≤ n + 1 :=
  ⟨List.ne_nil_of_length_eq_add_one h, Nat.le_of_eq h⟩

/-- **What a head can be read from**, with any first part of the length. -/
theorem runs_readHead_of_fields {l cVersion cmd gameid : Bytes} (hl : l ≠ [] ∧ l.length ≤ 4)
    (hlength : 1 ≤ (int32Of l).toInt ∧ (int32Of l).toInt ≤ 1024) (hcVersion : cVersion.length = 2)
    (hcmd : cmd.length = 4) (hgameid : gameid.length = 2) (hmin : 1000 ≤ int16Of gameid) :
    readHead.Runs [⟨.recv 4, .bytes l hl⟩,
      ⟨.recv 2, .bytes (ascii "BY") (ne_nil_of_length_eq rfl)⟩,
      ⟨.recv 2, .bytes cVersion (ne_nil_of_length_eq hcVersion)⟩,
      ⟨.recv 4, .bytes cmd (ne_nil_of_length_eq hcmd)⟩,
      ⟨.recv 2, .bytes gameid (ne_nil_of_length_eq hgameid)⟩,
      ⟨.recv 1, .bytes [PACKET_HEAD_CODE] (ne_nil_of_length_eq rfl)⟩]
      (.ok ⟨int32Of l, ascii "BY", int16Of cVersion, int32Of cmd, int16Of gameid,
        PACKET_HEAD_CODE⟩) := by
  refine runs_recv_bind.mpr ⟨_, _, rfl, ?_⟩
  change Prog.Runs (ite _ _ _) _ _
  rw [if_neg (length_ok_iff.mpr hlength)]
  refine runs_recv_bind.mpr ⟨_, _, rfl, ?_⟩
  rw [if_neg (by decide)]
  refine runs_recv_bind.mpr ⟨_, _, rfl, ?_⟩
  rw [if_neg (by simp [hcVersion])]
  refine runs_recv_bind.mpr ⟨_, _, rfl, ?_⟩
  rw [if_neg (by simp [hcmd])]
  refine runs_recv_bind.mpr ⟨_, _, rfl, ?_⟩
  rw [if_neg (by simpa [hgameid] using hmin)]
  refine runs_recv_bind.mpr ⟨_, _, rfl, ?_⟩
  rw [if_neg (by simp)]
  exact .pure _

/-- The bytes of a task, where the length was read as the number `l` denotes: the rest
of the head, and the body. -/
structure TaskText (l text : Bytes) (cmd : Int32) (data : Bytes) : Prop where
  split : ∃ cVersion c gameid : Bytes, cVersion.length = 2 ∧ c.length = 4 ∧ gameid.length = 2 ∧
    cmd = int32Of c ∧ 1000 ≤ int16Of gameid ∧
    text = ascii "BY" ++ (cVersion ++ (c ++ (gameid ++ (PACKET_HEAD_CODE :: data))))
  pos : 1 ≤ data.length
  le_max : data.length ≤ 1024
  length_eq : (data.length : Int) = (int32Of l).toInt

/-- **What a task was read from.** All calls but the first got what they asked for. -/
theorem runs_readPacket_task {es : List ReadEvent} {cmd : Int32} {data : Bytes}
    (h : readPacket.Runs es (.task cmd data)) :
    ∃ l text, l ≠ [] ∧ l.length ≤ 4 ∧ consumed es = l ++ text ∧ TaskText l text cmd data ∧
      (l.length = 4 → ∀ e ∈ es, e.Full) := by
  obtain ⟨es₁, es₂, status, rfl, h₁, h₂⟩ := Prog.runs_bind.mp h
  cases status with
  | error return_value =>
      obtain ⟨rfl, heq⟩ := Prog.runs_pure.mp h₂
      split at heq <;> cases heq
  | ok packet =>
      obtain ⟨l, hl, flag, cVersion, c, gameid, code, rfl, hfull, hpos, hmax, hflag, hgameid, hcode,
        rfl⟩ := runs_readHead_ok h₁
      obtain ⟨body, es₃, rfl, h₃⟩ := runs_recv_bind.mp h₂
      dsimp only at h₃
      split at h₃
      · obtain ⟨-, heq⟩ := Prog.runs_pure.mp h₃
        cases heq
      rename_i hbody
      obtain ⟨ok, es₄, rfl, h₄⟩ := Prog.runs_call.mp h₃
      obtain ⟨rfl, heq⟩ := Prog.runs_pure.mp h₄
      cases ok with
      | false => cases heq
      | true =>
          obtain ⟨rfl, rfl⟩ := ReadOutcome.task.inj heq
          rw [not_not] at hbody
          simp only [List.tail_cons, List.forall_mem_cons] at hfull
          obtain ⟨hf, hv, hc, hg, hb, -⟩ := hfull
          have hlen : body.data.length = (int32Of l).toInt.toNat :=
            RecvAnswer.length_data_of_len (by omega)
          refine ⟨l, _, hl.1, hl.2, ?_, ⟨⟨cVersion.data, c.data, gameid.data, hv, hc, hg, rfl,
            hgameid, rfl⟩, ?_, ?_, ?_⟩, ?_⟩
          · simp [hflag, hcode]
          · omega
          · omega
          · omega
          · intro hfour
            simp only [List.cons_append, List.nil_append, List.forall_mem_cons]
            exact ⟨hfour, hf, hv, hc, hg, hb, hlen, rfl, by simp⟩

/-- `read_head` only reports the end of a connection when its first `recv` has brought
nothing. -/
theorem runs_readHead_close {es : List ReadEvent} {code : Int}
    (h : readHead.Runs es (.error code)) (hcode : code ≤ -7) : consumed es = [] := by
  obtain ⟨r, es₁, rfl, h₁⟩ := runs_recv_bind.mp h
  have hreject : ∀ n : Int, -7 < n → ∀ es' : List ReadEvent,
      ¬ Prog.Runs (Pure.pure (.error n) : Reader (Except Int PacketHead)) es' (.error code) := by
    intro n hn es' hrun
    obtain ⟨-, heq⟩ := Prog.runs_pure.mp hrun
    obtain rfl := Except.error.inj heq
    omega
  cases r with
  | eof =>
      obtain ⟨rfl, -⟩ := Prog.runs_pure.mp h₁
      rfl
  | fail errno => cases errno <;> obtain ⟨rfl, -⟩ := Prog.runs_pure.mp h₁ <;> rfl
  | bytes l hl =>
      change Prog.Runs (ite _ _ _) _ _ at h₁
      split at h₁
      · exact absurd h₁ (hreject _ (by decide) _)
      obtain ⟨flag, es₂, rfl, h₂⟩ := runs_recv_bind.mp h₁
      split at h₂
      · exact absurd h₂ (hreject _ (by decide) _)
      obtain ⟨cVersion, es₃, rfl, h₃⟩ := runs_recv_bind.mp h₂
      split at h₃
      · exact absurd h₃ (hreject _ (by decide) _)
      obtain ⟨cmd, es₄, rfl, h₄⟩ := runs_recv_bind.mp h₃
      split at h₄
      · exact absurd h₄ (hreject _ (by decide) _)
      obtain ⟨gameid, es₅, rfl, h₅⟩ := runs_recv_bind.mp h₄
      split at h₅
      · exact absurd h₅ (hreject _ (by decide) _)
      obtain ⟨code', es₆, rfl, h₆⟩ := runs_recv_bind.mp h₅
      split at h₆
      · exact absurd h₆ (hreject _ (by decide) _)
      · cases (Prog.runs_pure.mp h₆).2

/-- An event closes the connection when its first `recv` has brought nothing, or when
there is no memory for a task. -/
theorem runs_readPacket_close {es : List ReadEvent} (h : readPacket.Runs es .close) :
    consumed es = [] ∨ ⟨.mallocTask, false⟩ ∈ es := by
  obtain ⟨es₁, es₂, status, rfl, h₁, h₂⟩ := Prog.runs_bind.mp h
  cases status with
  | error code =>
      obtain ⟨rfl, heq⟩ := Prog.runs_pure.mp h₂
      split at heq
      · rename_i hcode
        exact .inl (by rw [List.append_nil, runs_readHead_close h₁ hcode])
      · cases heq
  | ok packet =>
      obtain ⟨body, es₃, rfl, h₃⟩ := runs_recv_bind.mp h₂
      split at h₃
      · cases (Prog.runs_pure.mp h₃).2
      obtain ⟨ok, es₄, rfl, h₄⟩ := Prog.runs_call.mp h₃
      obtain ⟨-, heq⟩ := Prog.runs_pure.mp h₄
      cases ok with
      | true => cases heq
      | false => exact .inr (by simp)

/-- A call that gets what it asks for gets the next bytes of the stream. -/
theorem runs_recv_full {α : Type} {n : Nat} {k : RecvAnswer n → Reader α} {es : List ReadEvent}
    {a : α} (h : (recv n >>= k).Runs es a) (hfull : ∀ e ∈ es, e.Full) {x y u : Bytes}
    (hbytes : consumed es ++ u = x ++ y) (hx : x ≠ [] ∧ x.length = n) :
    ∃ hx' es', es = ⟨.recv n, .bytes x hx'⟩ :: es' ∧ (k (.bytes x hx')).Runs es' a ∧
      (∀ e ∈ es', e.Full) ∧ consumed es' ++ u = y := by
  obtain ⟨r, es', rfl, h'⟩ := runs_recv_bind.mp h
  obtain ⟨hlen, hfull'⟩ := List.forall_mem_cons.mp hfull
  rw [consumed_recv, List.append_assoc] at hbytes
  obtain ⟨rfl, hrest⟩ := List.append_inj hbytes (hlen.trans hx.2.symm)
  cases r with
  | bytes l hl => exact ⟨hl, es', rfl, h', hfull', hrest⟩
  | eof => exact absurd rfl hx.1
  | fail errno => exact absurd rfl hx.1

/-- A head that `read_head` accepts. -/
structure PacketHead.Valid (head : PacketHead) : Prop where
  flag_eq : head.flag = ascii "BY"
  gameid_le : 1000 ≤ head.gameid
  code_eq : head.code = PACKET_HEAD_CODE
  pos : 1 ≤ head.length.toInt
  le_max : head.length.toInt ≤ 1024

/-- A valid head is read when all its bytes are there in time. -/
theorem runs_readHead_full {es : List ReadEvent} {status : Except Int PacketHead}
    (h : readHead.Runs es status) (hfull : ∀ e ∈ es, e.Full) {head : PacketHead}
    (hvalid : head.Valid) {u rest : Bytes} (hbytes : consumed es ++ u = head.encode ++ rest) :
    status = .ok head ∧ u = rest := by
  obtain ⟨length, flag, cVersion, cmd, gameid, code⟩ := head
  obtain ⟨rfl, hgameid, rfl, hpos, hmax⟩ := hvalid
  simp only at hgameid hpos hmax
  simp only [PacketHead.encode, List.append_assoc] at hbytes
  have hne : ∀ k n, le (k + 1) n ≠ [] ∧ (le (k + 1) n).length = k + 1 := fun k n =>
    ⟨List.cons_ne_nil _ _, length_le _ _⟩
  obtain ⟨hl, es₁, rfl, h₁, hfull₁, hbytes₁⟩ := runs_recv_full h hfull hbytes (hne 3 _)
  change Prog.Runs (ite _ _ _) _ _ at h₁
  rw [if_neg (by rw [int32Of_le]; exact length_ok_iff.mpr ⟨hpos, hmax⟩)] at h₁
  obtain ⟨hf, es₂, rfl, h₂, hfull₂, hbytes₂⟩ :=
    runs_recv_full h₁ hfull₁ hbytes₁ ⟨List.cons_ne_nil _ _, rfl⟩
  rw [if_neg (by simp [ascii])] at h₂
  obtain ⟨hv, es₃, rfl, h₃, hfull₃, hbytes₃⟩ := runs_recv_full h₂ hfull₂ hbytes₂ (hne 1 _)
  rw [if_neg (by simp)] at h₃
  obtain ⟨hc, es₄, rfl, h₄, hfull₄, hbytes₄⟩ := runs_recv_full h₃ hfull₃ hbytes₃ (hne 3 _)
  rw [if_neg (by simp)] at h₄
  obtain ⟨hg, es₅, rfl, h₅, hfull₅, hbytes₅⟩ := runs_recv_full h₄ hfull₄ hbytes₄ (hne 1 _)
  rw [if_neg (by simpa using hgameid)] at h₅
  obtain ⟨hb, es₆, rfl, h₆, hfull₆, hbytes₆⟩ :=
    runs_recv_full (x := [PACKET_HEAD_CODE]) h₅ hfull₅ hbytes₅ ⟨List.cons_ne_nil _ _, rfl⟩
  rw [if_neg (by simp)] at h₆
  obtain ⟨rfl, hstatus⟩ := Prog.runs_pure.mp h₆
  simp only [RecvAnswer.data_bytes, int32Of_le, int16Of_le, List.headD_cons] at hstatus
  exact ⟨hstatus, hbytes₆⟩

/-- A packet is read when all its bytes are there in time. -/
theorem runs_readPacket_full {es : List ReadEvent} {outcome : ReadOutcome}
    (h : readPacket.Runs es outcome) (hfull : ∀ e ∈ es, e.Full) {head : PacketHead}
    (hvalid : head.Valid) {data u rest : Bytes} (hlen : head.length.toInt = data.length)
    (hbytes : consumed es ++ u = head.encode ++ (data ++ rest)) :
    outcome = .task head.cmd data ∧ u = rest := by
  obtain ⟨es₁, es₂, status, rfl, h₁, h₂⟩ := Prog.runs_bind.mp h
  rw [consumed_append, List.append_assoc] at hbytes
  obtain ⟨rfl, hrest⟩ := runs_readHead_full h₁
    (fun e he => hfull e (List.mem_append_left _ he)) hvalid hbytes
  have hpos := hvalid.pos
  obtain ⟨hd, es₃, rfl, h₃, hfull₃, hbytes₃⟩ := runs_recv_full h₂
    (fun e he => hfull e (List.mem_append_right _ he)) hrest
    ⟨List.ne_nil_of_length_pos (by omega), by omega⟩
  rw [if_neg (by simp [hlen])] at h₃
  obtain ⟨ok, es₄, rfl, h₄⟩ := Prog.runs_call.mp h₃
  obtain ⟨rfl, houtcome⟩ := Prog.runs_pure.mp h₄
  obtain rfl : ok = true := hfull₃ _ List.mem_cons_self
  exact ⟨houtcome, hbytes₃⟩

/-- The calls that read a packet when all its bytes are there. -/
theorem exists_runs_readPacket {head : PacketHead} (hvalid : head.Valid) {data : Bytes}
    (hlen : head.length.toInt = data.length) :
    ∃ es, readPacket.Runs es (.task head.cmd data) ∧ (∀ e ∈ es, ReadEvent.Full e) ∧
      consumed es = head.encode ++ data := by
  obtain ⟨length, flag, cVersion, cmd, gameid, code⟩ := head
  obtain ⟨rfl, hgameid, rfl, hpos, hmax⟩ := hvalid
  simp only at hgameid hpos hmax hlen
  have hne : ∀ k n, le (k + 1) n ≠ [] ∧ (le (k + 1) n).length ≤ k + 1 := fun k n =>
    ⟨List.cons_ne_nil _ _, Nat.le_of_eq (length_le _ _)⟩
  have hdata : data ≠ [] ∧ data.length ≤ length.toInt.toNat :=
    ⟨List.ne_nil_of_length_pos (by omega), by omega⟩
  have hhead := runs_readHead_of_fields (l := le 4 length.toUInt32.toNat) (hne 3 _)
    (by rw [int32Of_le]; exact ⟨hpos, hmax⟩) (length_le 2 cVersion.toUInt16.toNat)
    (length_le 4 cmd.toUInt32.toNat) (length_le 2 gameid.toUInt16.toNat)
    (by rw [int16Of_le]; exact hgameid)
  simp only [int32Of_le, int16Of_le] at hhead
  refine ⟨_, Prog.runs_bind.mpr ⟨_, [⟨.recv length.toInt.toNat, .bytes data hdata⟩,
    ⟨.mallocTask, true⟩], _, rfl, hhead, ?_⟩, ?_, ?_⟩
  · refine runs_recv_bind.mpr ⟨_, _, rfl, ?_⟩
    rw [if_neg (by simp [hlen])]
    exact Prog.runs_call.mpr ⟨true, _, rfl, .pure _⟩
  · simp only [List.cons_append, List.nil_append, List.forall_mem_cons]
    exact ⟨length_le _ _, rfl, length_le _ _, length_le _ _, length_le _ _, rfl,
      show data.length = length.toInt.toNat by omega, rfl, by simp⟩
  · simp [PacketHead.encode]

end SpiderChat
