import SpiderChat.Frame
import SpiderChat.Lib.Frames
import SpiderChat.Lib.Run

/-!
# SpiderChat.Outgoing

**The bytes a connection is sent.** `handle_send` calls `send` once, on a non-blocking
socket, and only logs what it returns: a `send` that takes the frame in part leaves a
part of a frame in the stream. So the stream is a concatenation of whole frames exactly
as long as `send` takes every frame whole or fails (`whole_frames_iff`).
-/

namespace SpiderChat

open Lib

/-- A frame: a head of 15 bytes and a body of the length that the head states. -/
def IsFrame (f : Bytes) : Prop :=
  ∃ head body, PacketHead.flag head = ascii "BY" ∧ head.length.toInt = List.length body ∧
    f = head.encode ++ body

/-- The length of the frame that a stream starts with, read from its head. -/
def frameLength (l : Bytes) : Nat :=
  HEAD_SIZE + (PacketHead.decode (l.take HEAD_SIZE)).length.toInt.toNat

/-- A frame at the front of a stream is as long as its head says. -/
theorem IsFrame.frameLength_append {f : Bytes} (h : IsFrame f) (x : Bytes) :
    frameLength (f ++ x) = f.length := by
  obtain ⟨head, body, hby, hlen, rfl⟩ := h
  have hflag : head.flag.length = 2 := by rw [hby]; rfl
  have hsize := PacketHead.length_encode hflag
  have htake : (head.encode ++ body ++ x).take HEAD_SIZE = head.encode := by
    rw [← hsize, List.append_assoc, List.take_left]
  rw [frameLength, htake, PacketHead.decode_encode hflag, hlen, List.length_append, hsize]
  rfl

theorem selfDelimiting_isFrame : SelfDelimiting IsFrame := by
  intro f g x y hf hg heq
  have hlen : f.length = g.length := by
    rw [← hf.frameLength_append x, heq, hg.frameLength_append y]
  exact (List.append_inj heq hlen).1

/-- A framed stream that is not empty has the whole of its first frame. -/
theorem frameLength_le {out : Bytes} (h : Framed IsFrame out) (hne : out ≠ []) :
    frameLength out ≤ out.length ∧ Framed IsFrame (out.drop (frameLength out)) := by
  obtain ⟨f, rest, hf, hrest, rfl⟩ := h.front hne
  rw [hf.frameLength_append, List.drop_left]
  exact ⟨by simp, hrest⟩

/-- `handle_send` builds a frame. -/
theorem isFrame_frame {cmd gameid : Int32} {ret bytes : Bytes}
    (h : frame cmd gameid ret = some bytes) : IsFrame bytes := by
  obtain ⟨hlen, rfl⟩ := frame_eq_some_iff.mp h
  exact ⟨_, cstr ret, rfl, toInt_length_frameHead cmd gameid hlen, rfl⟩

/-! ### The stream of a connection -/

/-- A call of `handle_send`, with the calls it makes itself and their answers. -/
structure SendCall where
  fd : Int
  cmd : Int32
  gameid : Int32
  ret : Bytes
  es : List HandlerEvent

namespace Outgoing

/-- What a call puts on the connection `fd`. `send` returns -1 or the number of bytes it
has taken, at least one. -/
def put (fd : Int) (out : Bytes) : HandlerEvent → Option Bytes
  | ⟨.send fd' bytes, code⟩ =>
      if code = -1 then some out
      else if 0 < code.toInt ∧ code.toInt ≤ bytes.length then
        some (if fd' = fd then out ++ bytes.take code.toInt.toNat else out)
      else none
  | _ => some out

/-- A call of `handle_send` by some worker. -/
def step (fd : Int) (out : Bytes) (c : SendCall) : Option Bytes :=
  if (handleSend c.fd c.cmd c.gameid c.ret).replay c.es = some () then exec (put fd) out c.es
  else none

/-- A `send` on the connection takes all bytes or fails. -/
def Whole (fd : Int) : HandlerEvent → Prop
  | ⟨.send fd' bytes, code⟩ => fd' = fd → code = -1 ∨ code.toInt = bytes.length
  | _ => True

instance (fd : Int) : ∀ e : HandlerEvent, Decidable (Whole fd e)
  | ⟨.send _ _, _⟩ => inferInstanceAs (Decidable (_ → _))
  | ⟨.readClient _, _⟩ | ⟨.setVersion _ _, _⟩ | ⟨.setLogin _ _ _ _, _⟩ | ⟨.setKeepalive _ _, _⟩
  | ⟨.findClientByUid _, _⟩ | ⟨.time, _⟩ | ⟨.getConnect, _⟩ | ⟨.destoryConnect _, _⟩
  | ⟨.querySql _ _, _⟩ | ⟨.getRows _ _, _⟩ | ⟨.closeClient _, _⟩ | ⟨.stackArray _, _⟩ =>
      .isTrue trivial

/-- The calls of `send` on the connection `fd` in a call of `handle_send` take all bytes
or fail. -/
def SentWhole (fd : Int) (_ : Bytes) (c : SendCall) : Prop := ∀ e ∈ c.es, Whole fd e

instance (fd : Int) (out : Bytes) (c : SendCall) : Decidable (SentWhole fd out c) :=
  inferInstanceAs (Decidable (∀ e ∈ c.es, _))

variable {fd : Int} {out out' : Bytes} {c : SendCall}

/-- What a call of `handle_send` does to the stream. -/
theorem step_cases (h : step fd out c = some out') :
    ∃ bytes code, frame c.cmd c.gameid c.ret = some bytes ∧ c.es = [⟨.send c.fd bytes, code⟩] ∧
      ((code = -1 ∧ out' = out) ∨
        (0 < code.toInt ∧ code.toInt ≤ bytes.length ∧
          out' = if c.fd = fd then out ++ bytes.take code.toInt.toNat else out)) := by
  unfold step at h
  split at h
  · rename_i hreplay
    obtain ⟨bytes, code, hframe, hes⟩ := runs_handleSend.mp (Prog.replay_eq_some.mp hreplay)
    refine ⟨bytes, code, hframe, hes, ?_⟩
    rw [hes] at h
    obtain ⟨m, hput, hm⟩ := exec_cons.mp h
    obtain rfl := Option.some.inj hm
    simp only [put] at hput
    split at hput
    · exact .inl ⟨‹_›, (Option.some.inj hput).symm⟩
    split at hput
    · rename_i hcode
      exact .inr ⟨hcode.1, hcode.2, (Option.some.inj hput).symm⟩
    · cases hput
  · cases h

/-- A frame that is sent whole keeps the stream framed. -/
theorem framed_step (out : Bytes) (c : SendCall) (out' : Bytes) (h : Framed IsFrame out)
    (hwhole : SentWhole fd out c) (hstep : step fd out c = some out') : Framed IsFrame out' := by
  obtain ⟨bytes, code, hframe, hes, ⟨-, rfl⟩ | ⟨hpos, hle, rfl⟩⟩ := step_cases hstep
  · exact h
  · split
    · rename_i hfd
      have hall : code = -1 ∨ code.toInt = bytes.length :=
        hwhole ⟨.send c.fd bytes, code⟩ (by rw [hes]; exact List.mem_cons_self) hfd
      rcases hall with rfl | hall
      · have hneg : (-1 : Int32).toInt = -1 := by decide
        omega
      · rw [hall, Int.toNat_natCast, List.take_length]
        exact h.append (isFrame_frame hframe)
    · exact h

/-- A frame that is sent in part does not. -/
theorem not_framed_step (out : Bytes) (c : SendCall) (out' : Bytes) (h : Framed IsFrame out)
    (hpart : ¬ SentWhole fd out c) (hstep : step fd out c = some out') :
    ¬ Framed IsFrame out' := by
  obtain ⟨bytes, code, hframe, hes, hcases⟩ := step_cases hstep
  simp only [SentWhole, hes, List.mem_singleton, forall_eq, Whole, not_forall, not_or] at hpart
  obtain ⟨hfd, hfail, hshort⟩ := hpart
  rcases hcases with ⟨rfl, -⟩ | ⟨hpos, hle, rfl⟩
  · exact absurd rfl hfail
  rw [if_pos hfd]
  have hbytes : IsFrame (bytes.take code.toInt.toNat ++ bytes.drop code.toInt.toNat) := by
    rw [List.take_append_drop]
    exact isFrame_frame hframe
  refine h.not_append selfDelimiting_isFrame hbytes ?_ ?_
  · refine List.ne_nil_of_length_pos ?_
    rw [List.length_take]
    omega
  · refine List.ne_nil_of_length_pos ?_
    rw [List.length_drop]
    omega

/-- **The stream of a connection is a concatenation of whole frames** after every call of
`handle_send` if and only if every `send` on it has taken its frame whole or failed. -/
theorem whole_frames_iff (fd : Int) (l : List SendCall) (out : Bytes)
    (hrun : exec (step fd) [] l = some out) :
    Along (step fd) (Framed IsFrame) [] l ↔ AllSteps (step fd) (SentWhole fd) [] l :=
  along_iff_allSteps (fun _ h => h) framed_step not_framed_step framed_nil hrun

/-- A reply to a heartbeat on descriptor 5, of which `send` takes `code` bytes. -/
def heartbeatReply (code : Int32) : SendCall :=
  ⟨5, HANDLE_HEARTBEAT, 1000, ascii "\x7b\"ret\":1\x7d",
    [⟨.send 5 ((frame HANDLE_HEARTBEAT 1000 (ascii "\x7b\"ret\":1\x7d")).getD []), code⟩]⟩

/-- Two replies, the second of which fails. -/
theorem whole_frames_iff_replies :
    Along (step 5) (Framed IsFrame) [] [heartbeatReply 24, heartbeatReply (-1)] := by
  have hend : (exec (step 5) [] [heartbeatReply 24, heartbeatReply (-1)]).isSome = true := by
    decide
  obtain ⟨out, hrun⟩ := Option.isSome_iff_exists.mp hend
  exact (whole_frames_iff 5 _ out hrun).mpr (by decide)

/-- A reply of which `send` takes 20 bytes, and a whole one: the receiver takes the first
bytes of the second reply for the rest of the first one, and the bytes behind them for a
head. -/
theorem partial_send_corrupts :
    ∃ out, exec (step 5) [] [heartbeatReply 20, heartbeatReply 24] = some out ∧
      ¬ Framed IsFrame out := by
  have hend : (exec (step 5) [] [heartbeatReply 20, heartbeatReply 24]).map
      (fun out => (frameLength out, out.length, frameLength (out.drop (frameLength out)))) =
      some (24, 44, 88401) := by decide
  obtain ⟨out, hrun, hend⟩ := Option.map_eq_some_iff.mp hend
  simp only [Prod.mk.injEq] at hend
  obtain ⟨hfirst, hlen, hsecond⟩ := hend
  refine ⟨out, hrun, fun h => ?_⟩
  have hne : out ≠ [] := by
    intro heq
    rw [heq] at hlen
    cases hlen
  obtain ⟨-, hrest⟩ := frameLength_le h hne
  rw [hfirst] at hrest hsecond
  have hdrop : (out.drop 24).length = 20 := by rw [List.length_drop, hlen]
  obtain ⟨hle, -⟩ := frameLength_le hrest (List.ne_nil_of_length_pos (by omega))
  omega

end Outgoing

end SpiderChat
