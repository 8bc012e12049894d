import SpiderChat.ClientHead

/-!
# SpiderChat.ClientStream

**What the client receives.** `main` of `spider_client.c` reads frames until the peer has
closed the connection and no byte is left: `read_head` takes the 15 bytes of a head, and
`read` the bytes of the text. `receive_frames` says that it takes the texts back out of
the frames that `handle_send` has built for them, one frame after another.
-/

namespace SpiderChat

open Lib

/-- The arguments of `handle_send`, and what the client has read of a frame. -/
structure SendArgs where
  cmd : Int32
  gameid : Int32
  ret : Bytes
  deriving Repr, DecidableEq

namespace SendArgs

/-- The bytes that `handle_send` passes to `send`. -/
def frame (m : SendArgs) : Option Bytes := SpiderChat.frame m.cmd m.gameid m.ret

/-- The gameid is one that a head can carry, and the text is a string of 1 to 1024 bytes. -/
structure Fits (m : SendArgs) : Prop where
  gameid : GameidFits m.gameid
  nul_free : ∀ b ∈ m.ret, b ≠ 0
  pos : 1 ≤ m.ret.length
  le : m.ret.length ≤ 1024

end SendArgs

namespace Client

/-- The loop `while (recv(fd, head_str, 16, MSG_PEEK))` of `main`, on the bytes that have
been sent; `none` is `exit(-1)`. -/
def receive (l : Bytes) : Option (List SendArgs) :=
  if _h : l = [] then some []
  else
    match readHead l with
    | none => none
    | some recv_pack =>
        let length := recv_pack.length.toInt.toNat
        let body := l.drop HEAD_SIZE
        (receive (body.drop length)).map
          (⟨recv_pack.cmd, recv_pack.gameid.toInt32, body.take length⟩ :: ·)
termination_by l.length
decreasing_by
  have hpos := List.length_pos_iff.mpr _h
  rw [List.length_drop, List.length_drop, HEAD_SIZE]
  omega

/-- One round of the loop, on a whole frame with more bytes behind it. -/
theorem receive_append {head : PacketHead} {ret : Bytes} (hflag : head.flag = ascii "BY")
    (hlength : head.length.toInt = ret.length)
    (hread : ∀ body, readHead (head.encode ++ body) = some head) (rest : Bytes) :
    receive (head.encode ++ ret ++ rest) =
      (receive rest).map (⟨head.cmd, head.gameid.toInt32, ret⟩ :: ·) := by
  have hsize : head.encode.length = HEAD_SIZE :=
    PacketHead.length_encode (by rw [hflag]; rfl)
  have hne : head.encode ++ (ret ++ rest) ≠ [] := by
    refine List.ne_nil_of_length_pos ?_
    rw [List.length_append, hsize, HEAD_SIZE]
    omega
  rw [List.append_assoc, receive, dif_neg hne, hread]
  show (receive (((head.encode ++ (ret ++ rest)).drop HEAD_SIZE).drop head.length.toInt.toNat)).map
    (⟨head.cmd, head.gameid.toInt32,
      ((head.encode ++ (ret ++ rest)).drop HEAD_SIZE).take head.length.toInt.toNat⟩ :: ·) = _
  rw [← hsize, List.drop_left, hlength, Int.toNat_natCast, List.drop_left, List.take_left]

end Client

/-- The frame of a message that fits: its head is one that the client takes, whatever
comes behind it. -/
theorem SendArgs.Fits.frame_eq {m : SendArgs} (h : m.Fits) :
    ∃ head : PacketHead, m.frame = some (head.encode ++ m.ret) ∧ head.flag = ascii "BY" ∧
      head.length.toInt = m.ret.length ∧ head.cmd = m.cmd ∧ head.gameid.toInt32 = m.gameid ∧
      ∀ body, Client.readHead (head.encode ++ body) = some head := by
  obtain ⟨hgameid, hzero, hpos, hle⟩ := h
  obtain ⟨hmin, heq⟩ := (gameidFits_iff m.gameid).mp hgameid
  have hret : cstr m.ret = m.ret := cstr_of_forall hzero
  have hlen : m.ret.length ≤ 2031 := by omega
  refine ⟨frameHead m.cmd m.gameid m.ret, ?_, rfl, toInt_length_frameHead _ _ hlen, rfl, ?_,
    fun body => ?_⟩
  · exact frame_eq_some_iff.mpr ⟨by rw [hret]; exact hlen, by rw [hret]⟩
  · show m.gameid.toInt16.toInt32 = m.gameid
    rw [← Int32.toInt_inj, Int16.toInt_toInt32, heq]
  · rw [Client.readHead_frameHead _ _ hlen, if_pos ⟨hpos, hle, hmin⟩]

/-- **The client receives what the server has sent**: the loop of the client takes the
messages back out of the frames that `handle_send` has built for them, each of which fits
its buffer, and leaves no byte. -/
theorem Client.receive_frames (ms : List SendArgs) (h : ∀ m ∈ ms, m.Fits) :
    ∃ frames, ms.mapM SendArgs.frame = some frames ∧
      (∀ bytes ∈ frames, bytes.length ≤ MAX_BUFFER_LENGTH) ∧
      Client.receive frames.flatten = some ms := by
  induction ms with
  | nil =>
      refine ⟨[], rfl, by simp, ?_⟩
      rw [List.flatten_nil, receive, dif_pos rfl]
  | cons m ms ih =>
      obtain ⟨hm, hms⟩ := List.forall_mem_cons.mp h
      obtain ⟨frames, hframes, hfit, hreceive⟩ := ih hms
      obtain ⟨head, hframe, hflag, hlength, hcmd, hgameid, hread⟩ := hm.frame_eq
      have hsize : head.encode.length = HEAD_SIZE :=
        PacketHead.length_encode (by rw [hflag]; rfl)
      refine ⟨(head.encode ++ m.ret) :: frames, ?_, ?_, ?_⟩
      · rw [List.mapM_cons, hframe, hframes]
        rfl
      · refine List.forall_mem_cons.mpr ⟨?_, hfit⟩
        have hle := hm.le
        rw [List.length_append, hsize, HEAD_SIZE, MAX_BUFFER_LENGTH]
        omega
      · rw [List.flatten_cons, receive_append hflag hlength hread, hreceive, hcmd, hgameid]
        rfl

/-- Two replies, of which the second is the smallest one with the largest gameid. -/
theorem Client.receive_frames_two :
    ∃ frames, [⟨HANDLE_LOGIN, 1000, ascii "\x7b\"ret\":1\x7d"⟩, ⟨-1, 32767, [65]⟩].mapM
        SendArgs.frame = some frames ∧
      (∀ bytes ∈ frames, bytes.length ≤ MAX_BUFFER_LENGTH) ∧
      Client.receive frames.flatten =
        some [⟨HANDLE_LOGIN, 1000, ascii "\x7b\"ret\":1\x7d"⟩, ⟨-1, 32767, [65]⟩] := by
  refine Client.receive_frames _ ?_
  simp only [List.forall_mem_cons]
  exact ⟨⟨by decide, by decide, by decide, by decide⟩,
    ⟨by decide, by decide, by decide, by decide⟩, by simp⟩

end SpiderChat
