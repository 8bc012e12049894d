import SpiderChat.ClientHead
import SpiderChat.ReadPath

/-!
# SpiderChat.HeadReaders

**The two readers of a head**, `read_head` of the server and `read_head` of the client, on a
socket that gives some of the bytes asked for. They make the same calls and take the same
heads (`readers_agree`). A head is read from exactly its 15 bytes, unless the first `recv`
has brought one to three of the length's four bytes (`head_exact_iff`).
-/

namespace SpiderChat

open Lib

/-! ### The reader of the client -/

namespace Client

/-- `read_head` of `spider_client.c`, on a socket; `none` is `NULL`. -/
def readHeadFd : Reader (Option PacketHead) := do
  let length ← recv 4
  if length.len ≤ 0 ∨ int32Of length.data > 1024 ∨ int32Of length.data ≤ 0 then pure none else do
  let flag ← recv 2
  if flag.len ≠ 2 ∨ flag.data ≠ ascii "BY" then pure none else do
  let cVersion ← recv 2
  if cVersion.len ≠ 2 then pure none else do
  let cmd ← recv 4
  if cmd.len ≠ 4 then pure none else do
  let gameid ← recv 2
  if gameid.len ≠ 2 ∨ int16Of gameid.data < 1000 then pure none else do
  let code ← recv 1
  if code.len ≠ 1 ∨ code.data.headD 0 ≠ PACKET_HEAD_CODE then pure none else
  pure (some
    { length := int32Of length.data
      flag := flag.data
      cVersion := int16Of cVersion.data
      cmd := int32Of cmd.data
      gameid := int16Of gameid.data
      code := code.data.headD 0 })

/-- A check that both readers make. -/
theorem ite_error_bind {c : Prop} [Decidable c] {code : Int} {p : Reader (Except Int PacketHead)}
    {q : Reader (Option PacketHead)} (h : q = p >>= fun status => pure status.toOption) :
    (if c then pure none else q) =
      (if c then pure (.error code) else p) >>= fun status => pure status.toOption := by
  split
  · rfl
  · exact h

/-- A read that both readers make. -/
theorem recv_error_bind {n : Nat} {k : RecvAnswer n → Reader (Except Int PacketHead)}
    {k' : RecvAnswer n → Reader (Option PacketHead)}
    (h : ∀ r, k' r = k r >>= fun status => pure status.toOption) :
    (recv n >>= k') = (recv n >>= k) >>= fun status => pure status.toOption :=
  congrArg (Prog.call (ReadCall.recv n)) (funext h)

/-- The client's reader is the server's, without the error codes. -/
theorem readHeadFd_eq :
    readHeadFd = SpiderChat.readHead >>= fun status => pure status.toOption := by
  refine recv_error_bind fun length => ?_
  cases length with
  | eof => rfl
  | fail errno => cases errno <;> rfl
  | bytes l hl =>
      have hlength : (RecvAnswer.bytes l hl).len ≤ 0 ∨ int32Of l > 1024 ∨ int32Of l ≤ 0 ↔
          int32Of l > PACKET_MAX_LEN ∨ int32Of l ≤ 0 := by
        refine or_iff_right ?_
        have hpos := List.length_pos_iff.mpr hl.1
        rw [RecvAnswer.len_bytes]
        omega
      refine (if_congr hlength rfl rfl).trans ?_
      refine ite_error_bind (recv_error_bind fun flag => ?_)
      refine ite_error_bind (recv_error_bind fun cVersion => ?_)
      refine ite_error_bind (recv_error_bind fun cmd => ?_)
      refine ite_error_bind (recv_error_bind fun gameid => ?_)
      exact ite_error_bind (recv_error_bind fun code => ite_error_bind rfl)

end Client

/-- **The two readers agree**: whatever the socket answers to one read after the other, they
make the same reads, which bring the same bytes, and the client takes a head exactly when the
server does, and the same one. -/
theorem readers_agree (answer : Nat → (c : ReadCall) → c.Answer) :
    (∀ head, (Prog.feed answer 0 readHead).2 = .ok head ↔
      (Prog.feed answer 0 Client.readHeadFd).2 = some head) ∧
    (Prog.feed answer 0 Client.readHeadFd).1 = (Prog.feed answer 0 readHead).1 := by
  rw [Client.readHeadFd_eq, Prog.feed_bind_pure]
  refine ⟨fun head => ?_, rfl⟩
  cases (Prog.feed answer 0 readHead).2 with
  | error code => exact iff_of_false nofun nofun
  | ok head' => simp [Except.toOption]

/-! ### Bytes that arrive between the reads -/

/-- What arrives before each of the calls of `recv`, and whether the peer has closed by then. -/
structure Schedule where
  arrivals : Nat → Bytes
  closed : Nat → Bool

namespace Schedule

variable (σ : Schedule)

/-- The calls and the result of a reader, from the `i`-th call on, with `avail` left in the
socket's buffer. -/
def on {α : Type} : Nat → Bytes → Reader α → List ReadEvent × α
  | _, _, .pure a => ([], a)
  | i, avail, .call (.recv n) k =>
      let avail := avail ++ σ.arrivals i
      let r := recvAnswer n avail (σ.closed i)
      let p := on (i + 1) (avail.drop n) (k r)
      (⟨.recv n, r⟩ :: p.1, p.2)
  | i, avail, .call .mallocTask k =>
      let p := on i avail (k true)
      (⟨.mallocTask, true⟩ :: p.1, p.2)

/-- The pieces stand one behind the other in what arrives, each in time for its call. -/
def Brings : Nat → Bytes → List Bytes → Prop
  | _, _, [] => True
  | i, avail, x :: xs => ∃ rest, avail ++ σ.arrivals i = x ++ rest ∧ Brings (i + 1) rest xs

/-- A head that `read_head` reports was read from exactly its 15 bytes, and a head that has
arrived before the call is reported. -/
def HeadExact : Prop :=
  (∀ head, (σ.on 0 [] readHead).2 = .ok head →
    (consumed (σ.on 0 [] readHead).1).length = 15 ∧
      consumed (σ.on 0 [] readHead).1 = head.encode ∧ head.Valid) ∧
  ∀ head rest, PacketHead.Valid head → σ.arrivals 0 = head.encode ++ rest →
    (σ.on 0 [] readHead).2 = .ok head

/-- The first `recv` brings one to three bytes, which are a length from 1 to 1024, and the
other fields of a head arrive in time behind them. -/
def ShortLength : Prop :=
  σ.arrivals 0 ≠ [] ∧ (σ.arrivals 0).length < 4 ∧
  1 ≤ (int32Of (σ.arrivals 0)).toInt ∧ (int32Of (σ.arrivals 0)).toInt ≤ 1024 ∧
  ∃ cVersion cmd gameid : Bytes, cVersion.length = 2 ∧ cmd.length = 4 ∧ gameid.length = 2 ∧
    1000 ≤ int16Of gameid ∧ σ.Brings 1 [] [ascii "BY", cVersion, cmd, gameid, [PACKET_HEAD_CODE]]

/-- The calls are answered as the schedule has it. -/
def Follows : Nat → Bytes → List ReadEvent → Prop
  | _, _, [] => True
  | i, avail, ⟨.recv n, r⟩ :: es =>
      recvAnswer n (avail ++ σ.arrivals i) (σ.closed i) = r ∧
        Follows (i + 1) ((avail ++ σ.arrivals i).drop n) es
  | i, avail, ⟨.mallocTask, ok⟩ :: es => true = ok ∧ Follows i avail es

variable {σ} {i : Nat} {avail : Bytes} {es : List ReadEvent}

/-- A reader makes the one run that follows the schedule. -/
theorem on_eq_iff {α : Type} {p : Reader α} {a : α} :
    σ.on i avail p = (es, a) ↔ p.Runs es a ∧ σ.Follows i avail es := by
  induction p generalizing i avail es with
  | pure b =>
      rw [on, Prog.runs_pure', Prod.mk.injEq]
      constructor
      · intro h
        obtain ⟨rfl, rfl⟩ := h
        exact ⟨⟨rfl, rfl⟩, trivial⟩
      · intro h
        obtain ⟨⟨rfl, rfl⟩, -⟩ := h
        exact ⟨rfl, rfl⟩
  | call c k ih =>
      rw [Prog.runs_call]
      cases c with
      | recv n =>
          rw [on, Prod.mk.injEq]
          constructor
          · intro h
            obtain ⟨rfl, rfl⟩ := h
            obtain ⟨hruns, hfollows⟩ := (ih _).mp rfl
            exact ⟨⟨_, _, rfl, hruns⟩, rfl, hfollows⟩
          · intro h
            obtain ⟨⟨r, es', rfl, hruns⟩, rfl, hfollows⟩ := h
            have hrest := (ih _).mpr ⟨hruns, hfollows⟩
            rw [hrest]
            exact ⟨rfl, rfl⟩
      | mallocTask =>
          rw [on, Prod.mk.injEq]
          constructor
          · intro h
            obtain ⟨rfl, rfl⟩ := h
            obtain ⟨hruns, hfollows⟩ := (ih _).mp rfl
            exact ⟨⟨true, _, rfl, hruns⟩, rfl, hfollows⟩
          · intro h
            obtain ⟨⟨ok, es', rfl, hruns⟩, rfl, hfollows⟩ := h
            have hrest := (ih _).mpr ⟨hruns, hfollows⟩
            rw [hrest]
            exact ⟨rfl, rfl⟩

/-- A call that gets some bytes gets the first ones. -/
theorem recvAnswer_eq_bytes_iff {n : Nat} {fin : Bool} {x : Bytes} (hx : x ≠ [] ∧ x.length ≤ n) :
    recvAnswer n avail fin = .bytes x hx ↔ avail.take n = x := by
  unfold recvAnswer
  split
  · exact ⟨fun h => RecvAnswer.bytes.inj h, fun h => by subst h; rfl⟩
  · rename_i hnil
    have hne : avail.take n ≠ x := fun h => hx.1 (h ▸ not_not.mp hnil)
    refine iff_of_false ?_ hne
    split <;> exact fun h => by cases h

/-- A call that gets all it asks for. -/
theorem follows_full {n : Nat} {x : Bytes} (hx : x ≠ [] ∧ x.length ≤ n) (hlen : x.length = n) :
    σ.Follows i avail (⟨.recv n, .bytes x hx⟩ :: es) ↔
      ∃ rest, avail ++ σ.arrivals i = x ++ rest ∧ σ.Follows (i + 1) rest es := by
  rw [Follows, recvAnswer_eq_bytes_iff]
  subst hlen
  constructor
  · intro h
    obtain ⟨htake, hfollows⟩ := h
    obtain ⟨rest, heq⟩ : x <+: avail ++ σ.arrivals i := List.prefix_iff_eq_take.mpr htake.symm
    rw [← heq, List.drop_left] at hfollows
    exact ⟨rest, heq.symm, hfollows⟩
  · intro h
    obtain ⟨rest, heq, hfollows⟩ := h
    rw [heq, List.take_left, List.drop_left]
    exact ⟨rfl, hfollows⟩

/-- A full answer holds bytes. -/
theorem eq_bytes_of_full {n : Nat} {r : RecvAnswer (n + 1)} (h : r.data.length = n + 1) :
    ∃ x hx, r = .bytes x hx ∧ x.length = n + 1 := by
  cases r with
  | bytes x hx => exact ⟨x, hx, rfl, h⟩
  | eof => cases h
  | fail errno => cases h

/-- The fields of a head, as the calls of `read_head` get them. -/
structure HeadFields (σ : Schedule) (l cVersion cmd gameid : Bytes) : Prop where
  first : (σ.arrivals 0).take 4 = l
  ne_nil : l ≠ []
  pos : 1 ≤ (int32Of l).toInt
  le_max : (int32Of l).toInt ≤ 1024
  cVersion_length : cVersion.length = 2
  cmd_length : cmd.length = 4
  gameid_length : gameid.length = 2
  gameid_min : 1000 ≤ int16Of gameid
  brings : σ.Brings 1 ((σ.arrivals 0).drop 4)
    [ascii "BY", cVersion, cmd, gameid, [PACKET_HEAD_CODE]]

/-- The head with these fields. -/
def headOf (l cVersion cmd gameid : Bytes) : PacketHead :=
  ⟨int32Of l, ascii "BY", int16Of cVersion, int32Of cmd, int16Of gameid, PACKET_HEAD_CODE⟩

/-- Full answers follow a schedule when it brings their bytes. -/
theorem follows_fields_iff {cVersion cmd gameid : Bytes} (hcVersion : cVersion.length = 2)
    (hcmd : cmd.length = 4) (hgameid : gameid.length = 2) :
    σ.Follows i avail [⟨.recv 2, .bytes (ascii "BY") (ne_nil_of_length_eq rfl)⟩,
        ⟨.recv 2, .bytes cVersion (ne_nil_of_length_eq hcVersion)⟩,
        ⟨.recv 4, .bytes cmd (ne_nil_of_length_eq hcmd)⟩,
        ⟨.recv 2, .bytes gameid (ne_nil_of_length_eq hgameid)⟩,
        ⟨.recv 1, .bytes [PACKET_HEAD_CODE] (ne_nil_of_length_eq rfl)⟩] ↔
      σ.Brings i avail [ascii "BY", cVersion, cmd, gameid, [PACKET_HEAD_CODE]] := by
  have hby : (ascii "BY").length = 2 := rfl
  have hnil : ∀ i avail, σ.Follows i avail [] := fun _ _ => trivial
  simp only [follows_full _ hby, follows_full _ hcVersion, follows_full _ hcmd,
    follows_full _ hgameid, follows_full _ List.length_singleton, hnil, Brings]

/-- When a head is reported, its fields were brought. -/
theorem fields_of_on {head : PacketHead} (h : (σ.on 0 [] readHead).2 = .ok head) :
    ∃ l cVersion cmd gameid, HeadFields σ l cVersion cmd gameid ∧
      head = headOf l cVersion cmd gameid ∧
      consumed (σ.on 0 [] readHead).1 =
        l ++ (ascii "BY" ++ (cVersion ++ (cmd ++ (gameid ++ [PACKET_HEAD_CODE])))) := by
  obtain ⟨es, hes⟩ : ∃ es, σ.on 0 [] readHead = (es, .ok head) := ⟨_, Prod.ext rfl h⟩
  obtain ⟨hruns, hfollows⟩ := on_eq_iff.mp hes
  obtain ⟨l, hl, flag, cVersion, cmd, gameid, code, rfl, hfull, hpos, hmax, hflag, hmin, hcode,
    rfl⟩ := runs_readHead_ok hruns
  simp only [List.tail_cons, List.forall_mem_cons] at hfull
  obtain ⟨hf, hv, hc, hg, hb, -⟩ := hfull
  obtain ⟨flag, hf', rfl, -⟩ := eq_bytes_of_full hf
  obtain ⟨cVersion, hv', rfl, hv⟩ := eq_bytes_of_full hv
  obtain ⟨cmd, hc', rfl, hc⟩ := eq_bytes_of_full hc
  obtain ⟨gameid, hg', rfl, hg⟩ := eq_bytes_of_full hg
  obtain ⟨code, hb', rfl, -⟩ := eq_bytes_of_full hb
  simp only [RecvAnswer.data_bytes] at hflag hmin hcode
  subst hflag hcode
  obtain ⟨hfirst, hrest⟩ := hfollows
  rw [List.nil_append] at hrest
  refine ⟨l, cVersion, cmd, gameid,
    ⟨(recvAnswer_eq_bytes_iff hl).mp hfirst, hl.1, hpos, hmax, hv, hc, hg, hmin, ?_⟩, rfl, ?_⟩
  · exact (follows_fields_iff hv hc hg).mp hrest
  · rw [hes]
    simp

/-- When the fields are brought, the head is reported. -/
theorem on_of_fields {l cVersion cmd gameid : Bytes} (h : HeadFields σ l cVersion cmd gameid) :
    ∃ es, σ.on 0 [] readHead = (es, .ok (headOf l cVersion cmd gameid)) ∧
      consumed es = l ++ (ascii "BY" ++ (cVersion ++ (cmd ++ (gameid ++ [PACKET_HEAD_CODE])))) := by
  have hl : l ≠ [] ∧ l.length ≤ 4 := ⟨h.ne_nil, h.first ▸ List.length_take_le _ _⟩
  refine ⟨_, on_eq_iff.mpr ⟨runs_readHead_of_fields hl ⟨h.pos, h.le_max⟩ h.cVersion_length
    h.cmd_length h.gameid_length h.gameid_min, ?_, ?_⟩, by simp⟩
  · exact (recvAnswer_eq_bytes_iff hl).mpr h.first
  · exact (follows_fields_iff h.cVersion_length h.cmd_length h.gameid_length).mpr h.brings

/-- A first part of the length that is too short for a head. -/
theorem shortLength_iff : σ.ShortLength ↔
    ∃ l cVersion cmd gameid, HeadFields σ l cVersion cmd gameid ∧ l.length < 4 := by
  constructor
  · intro h
    obtain ⟨hne, hlt, hpos, hmax, cVersion, cmd, gameid, hv, hc, hg, hmin, hbrings⟩ := h
    refine ⟨σ.arrivals 0, cVersion, cmd, gameid,
      ⟨List.take_of_length_le (by omega), hne, hpos, hmax, hv, hc, hg, hmin, ?_⟩, hlt⟩
    rw [List.drop_eq_nil_of_le (by omega)]
    exact hbrings
  · intro h
    obtain ⟨l, cVersion, cmd, gameid, hfields, hlt⟩ := h
    have hshort : (σ.arrivals 0).length < 4 := by
      have hlen := congrArg List.length hfields.first
      rw [List.length_take] at hlen
      omega
    obtain rfl : σ.arrivals 0 = l :=
      (List.take_of_length_le (by omega)).symm.trans hfields.first
    have hbrings := hfields.brings
    rw [List.drop_eq_nil_of_le (by omega)] at hbrings
    exact ⟨hfields.ne_nil, hshort, hfields.pos, hfields.le_max, cVersion, cmd, gameid,
      hfields.cVersion_length, hfields.cmd_length, hfields.gameid_length, hfields.gameid_min,
      hbrings⟩

/-- The whole length was read: the bytes are those of the head. -/
theorem encode_headOf {l cVersion cmd gameid : Bytes} (h : HeadFields σ l cVersion cmd gameid)
    (hl : l.length = 4) : (headOf l cVersion cmd gameid).encode =
      l ++ (ascii "BY" ++ (cVersion ++ (cmd ++ (gameid ++ [PACKET_HEAD_CODE])))) := by
  simp only [headOf, PacketHead.encode, le_int32Of hl, le_int16Of h.cVersion_length,
    le_int32Of h.cmd_length, le_int16Of h.gameid_length, List.append_assoc]

/-- A piece that is there already. -/
theorem brings_append {x y : Bytes} {xs : List Bytes}
    (h : σ.Brings (i + 1) (y ++ σ.arrivals i) xs) : σ.Brings i (x ++ y) (x :: xs) :=
  ⟨_, List.append_assoc x y _, h⟩

/-- A head that has arrived before the call brings its fields. -/
theorem fields_of_arrived {head : PacketHead} (hvalid : head.Valid) {rest : Bytes}
    (h : σ.arrivals 0 = head.encode ++ rest) :
    ∃ l cVersion cmd gameid, HeadFields σ l cVersion cmd gameid ∧
      head = headOf l cVersion cmd gameid := by
  obtain ⟨length, flag, cVersion, cmd, gameid, code⟩ := head
  obtain ⟨rfl, hgameid, rfl, hpos, hmax⟩ := hvalid
  simp only at hgameid hpos hmax
  simp only [PacketHead.encode, List.append_assoc] at h
  have hfirst : (σ.arrivals 0).take 4 = le 4 length.toUInt32.toNat := by
    rw [h, List.take_left' (length_le _ _)]
  have hdrop : (σ.arrivals 0).drop 4 = ascii "BY" ++ (le 2 cVersion.toUInt16.toNat ++
      (le 4 cmd.toUInt32.toNat ++ (le 2 gameid.toUInt16.toNat ++
        ([PACKET_HEAD_CODE] ++ rest)))) := by
    rw [h, List.drop_left' (length_le _ _)]
  refine ⟨le 4 length.toUInt32.toNat, le 2 cVersion.toUInt16.toNat, le 4 cmd.toUInt32.toNat,
    le 2 gameid.toUInt16.toNat, ⟨hfirst, List.cons_ne_nil _ _, ?_, ?_, length_le _ _,
      length_le _ _, length_le _ _, ?_, ?_⟩, ?_⟩
  · rw [int32Of_le]
    exact hpos
  · rw [int32Of_le]
    exact hmax
  · rw [int16Of_le]
    exact hgameid
  · -- what arrives later stands behind the whole head
    rw [hdrop]
    refine brings_append ?_
    rw [List.append_assoc]
    refine brings_append ?_
    rw [List.append_assoc, List.append_assoc]
    refine brings_append ?_
    rw [List.append_assoc, List.append_assoc, List.append_assoc]
    refine brings_append ?_
    simp only [List.append_assoc]
    exact brings_append trivial
  · simp only [headOf, int32Of_le, int16Of_le]

/-- **When the parsing of a head is exact**: unless the first `recv` has brought a part of the
length that is taken for the whole. -/
theorem head_exact_iff (σ : Schedule) : σ.HeadExact ↔ ¬ σ.ShortLength := by
  rw [shortLength_iff]
  constructor
  · intro h hshort
    obtain ⟨l, cVersion, cmd, gameid, hfields, hlt⟩ := hshort
    obtain ⟨es, hes, hconsumed⟩ := on_of_fields hfields
    obtain ⟨hlen, -⟩ := h.1 (headOf l cVersion cmd gameid) (by rw [hes])
    have hby : (ascii "BY").length = 2 := rfl
    rw [hes, hconsumed] at hlen
    simp only [List.length_append, hby, hfields.cVersion_length, hfields.cmd_length,
      hfields.gameid_length, List.length_singleton] at hlen
    omega
  · intro h
    constructor
    · intro head hok
      obtain ⟨l, cVersion, cmd, gameid, hfields, rfl, hconsumed⟩ := fields_of_on hok
      have hfour : l.length = 4 := by
        have hle : l.length ≤ 4 := hfields.first ▸ List.length_take_le _ _
        by_contra hne
        exact h ⟨l, cVersion, cmd, gameid, hfields, by omega⟩
      have hencode := encode_headOf hfields hfour
      refine ⟨?_, hconsumed.trans hencode.symm,
        ⟨rfl, hfields.gameid_min, rfl, hfields.pos, hfields.le_max⟩⟩
      rw [hconsumed, ← hencode]
      exact PacketHead.length_encode rfl
    · intro head rest hvalid harrived
      obtain ⟨l, cVersion, cmd, gameid, hfields, rfl⟩ := fields_of_arrived hvalid harrived
      obtain ⟨es, hes, -⟩ := on_of_fields hfields
      rw [hes]

/-- One byte, and behind it what would be the rest of a head. -/
def oneByte : Schedule where
  arrivals i :=
    if i = 0 then [5]
    else if i = 1 then ascii "BY" ++ le 2 1 ++ le 4 258 ++ le 2 1000 ++ [PACKET_HEAD_CODE]
    else []
  closed _ := false

/-- A head is reported after twelve bytes. -/
theorem one_byte_taken_for_length :
    (oneByte.on 0 [] readHead).2 = .ok ⟨5, ascii "BY", 1, 258, 1000, PACKET_HEAD_CODE⟩ ∧
      ¬ oneByte.HeadExact := by
  have hok : (oneByte.on 0 [] readHead).2 =
      .ok ⟨5, ascii "BY", 1, 258, 1000, PACKET_HEAD_CODE⟩ := rfl
  have htwelve : (consumed (oneByte.on 0 [] readHead).1).length = 12 := rfl
  refine ⟨hok, fun h => ?_⟩
  have hlen := (h.1 _ hok).1
  rw [htwelve] at hlen
  cases hlen

end Schedule

/-! ### The client's decoder -/

theorem data_recvAnswer (n : Nat) (avail : Bytes) (fin : Bool) :
    (recvAnswer n avail fin).data = avail.take n := by
  unfold recvAnswer
  split
  · rfl
  · rename_i hnil
    rw [not_not.mp hnil]
    split <;> rfl

theorem len_recvAnswer (n : Nat) (avail : Bytes) (fin : Bool) :
    (recvAnswer n avail fin).len ≤ 0 ↔ avail.take n = [] := by
  unfold recvAnswer
  split
  · rename_i hne
    have hpos := List.length_pos_iff.mpr hne
    rw [RecvAnswer.len_bytes]
    exact iff_of_false (by omega) hne
  · rename_i hnil
    refine iff_of_true ?_ (not_not.mp hnil)
    split
    · exact Int.le_refl 0
    · exact Int.negSucc_lt_zero 0 |>.le

theorem len_recvAnswer_ne (n : Nat) (avail : Bytes) (fin : Bool) :
    (recvAnswer (n + 1) avail fin).len ≠ ((n + 1 : Nat) : Int) ↔
      (avail.take (n + 1)).length ≠ n + 1 := by
  rw [← data_recvAnswer (n + 1) avail fin]
  cases recvAnswer (n + 1) avail fin with
  | bytes l hl =>
      simp only [RecvAnswer.len_bytes, RecvAnswer.data_bytes]
      omega
  | eof => exact iff_of_true (by simp [RecvAnswer.len]; omega) (by simp [RecvAnswer.data])
  | fail errno => exact iff_of_true (by simp [RecvAnswer.len]; omega) (by simp [RecvAnswer.data])

theorem code_recvAnswer_ne_iff (avail : Bytes) (fin : Bool) :
    ((recvAnswer 1 avail fin).len ≠ 1 ∨ (recvAnswer 1 avail fin).data.headD 0 ≠ PACKET_HEAD_CODE) ↔
      avail.take 1 ≠ [PACKET_HEAD_CODE] := by
  refine (or_congr_left (len_recvAnswer_ne 0 avail fin)).trans ?_
  rw [data_recvAnswer]
  cases avail with
  | nil => exact iff_of_true (Or.inl (Nat.zero_ne_one)) (List.cons_ne_nil _ _).symm
  | cons b rest => simp

theorem Schedule.on_recv_snd {σ : Schedule} {α : Type} (n i : Nat) (avail : Bytes)
    (k : RecvAnswer n → Reader α) : (σ.on i avail (recv n >>= k)).2 =
      (σ.on (i + 1) ((avail ++ σ.arrivals i).drop n)
        (k (recvAnswer n (avail ++ σ.arrivals i) (σ.closed i)))).2 := rfl

theorem Schedule.on_ite_snd {σ : Schedule} {α : Type} {c c' : Prop} [Decidable c] [Decidable c']
    {i : Nat} {avail : Bytes} {a b : α} {p : Reader α} (hc : c ↔ c')
    (hp : (σ.on i avail p).2 = b) :
    (σ.on i avail (if c then pure a else p)).2 = if c' then a else b := by
  rw [← hp, ← if_congr hc rfl rfl]
  split <;> rfl

/-- All the bytes have arrived before the first call. -/
def Schedule.whole (l : Bytes) (closed : Nat → Bool) : Schedule :=
  ⟨fun i => if i = 0 then l else [], closed⟩

theorem Schedule.on_recv_whole {α : Type} {l : Bytes} {closed : Nat → Bool} (n i : Nat)
    (avail : Bytes) (k : RecvAnswer n → Reader α) :
    ((whole l closed).on (i + 1) avail (recv n >>= k)).2 =
      ((whole l closed).on (i + 2) (avail.drop n)
        (k (recvAnswer n avail (closed (i + 1))))).2 := by
  have hlater : avail ++ (whole l closed).arrivals (i + 1) = avail := List.append_nil avail
  rw [on_recv_snd, hlater]
  rfl

/-- On a socket that holds all the bytes, the client's reader is the decoder. -/
theorem Client.on_readHeadFd_whole (l : Bytes) (closed : Nat → Bool) :
    ((Schedule.whole l closed).on 0 [] Client.readHeadFd).2 = Client.readHead l := by
  have hfirst : [] ++ (Schedule.whole l closed).arrivals 0 = l := rfl
  simp only [Client.readHeadFd, Client.readHead]
  rw [Schedule.on_recv_snd, hfirst]
  refine Schedule.on_ite_snd ?_ ?_
  · rw [len_recvAnswer, data_recvAnswer]
  rw [Schedule.on_recv_whole]
  refine Schedule.on_ite_snd ?_ ?_
  · rw [data_recvAnswer]
    exact or_congr (len_recvAnswer_ne 1 _ _) Iff.rfl
  rw [Schedule.on_recv_whole]
  refine Schedule.on_ite_snd (len_recvAnswer_ne 1 _ _) ?_
  rw [Schedule.on_recv_whole]
  refine Schedule.on_ite_snd (len_recvAnswer_ne 3 _ _) ?_
  rw [Schedule.on_recv_whole]
  refine Schedule.on_ite_snd ?_ ?_
  · rw [data_recvAnswer]
    exact or_congr (len_recvAnswer_ne 1 _ _) Iff.rfl
  rw [Schedule.on_recv_whole]
  by_cases hcode : List.take 1 (l.drop 4 |>.drop 2 |>.drop 2 |>.drop 4 |>.drop 2) =
      [PACKET_HEAD_CODE]
  · rw [if_neg fun h => (code_recvAnswer_ne_iff _ _).mp h hcode, if_neg (not_not.mpr hcode)]
    simp only [data_recvAnswer, hcode, List.headD_cons]
    rfl
  · rw [if_pos ((code_recvAnswer_ne_iff _ _).mpr hcode), if_pos hcode]
    rfl

end SpiderChat
