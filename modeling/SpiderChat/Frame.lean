import SpiderChat.Lib.LittleEndian
import SpiderChat.Env

/-!
# SpiderChat.Frame

The packets: a `packet_head` of 15 bytes and a body. `handleSend` builds the frame
that `handle_send` of `handle.c` passes to `send`; `readFrame` is how a receiver
takes it apart.
-/

namespace SpiderChat

open Lib

/-- `sizeof(packet_head)`, packed. -/
def HEAD_SIZE : Nat := 15

/-- The `int` that starts out as 0 and is overwritten by `l`, at most four bytes. -/
def int32Of (l : Bytes) : Int32 := (UInt32.ofNat (unle l)).toInt32

/-- The `short` that starts out as 0 and is overwritten by `l`, at most two bytes. -/
def int16Of (l : Bytes) : Int16 := (UInt16.ofNat (unle l)).toInt16

@[simp] theorem int32Of_le (n : Int32) : int32Of (le 4 n.toUInt32.toNat) = n := by
  rw [int32Of, unle_le (by have := n.toUInt32.toNat_lt; omega)]
  simp

@[simp] theorem int16Of_le (n : Int16) : int16Of (le 2 n.toUInt16.toNat) = n := by
  rw [int16Of, unle_le (by have := n.toUInt16.toNat_lt; omega)]
  simp

theorem le_int32Of {l : Bytes} (h : l.length = 4) : le 4 (int32Of l).toUInt32.toNat = l := by
  have hlt := unle_lt l
  have heq := le_unle l
  rw [h] at hlt heq
  have hnat : (int32Of l).toUInt32.toNat = unle l := by
    simp only [int32Of, UInt32.toUInt32_toInt32, UInt32.toNat_ofNat']
    omega
  rw [hnat, heq]

theorem le_int16Of {l : Bytes} (h : l.length = 2) : le 2 (int16Of l).toUInt16.toNat = l := by
  have hlt := unle_lt l
  have heq := le_unle l
  rw [h] at hlt heq
  have hnat : (int16Of l).toUInt16.toNat = unle l := by
    simp only [int16Of, UInt16.toUInt16_toInt16, UInt16.toNat_ofNat']
    omega
  rw [hnat, heq]

namespace PacketHead

/-- The bytes of a `packet_head` in memory. -/
def encode (h : PacketHead) : Bytes :=
  le 4 h.length.toUInt32.toNat ++ h.flag ++ le 2 h.cVersion.toUInt16.toNat ++
    le 4 h.cmd.toUInt32.toNat ++ le 2 h.gameid.toUInt16.toNat ++ [h.code]

/-- The `packet_head` that 15 bytes are. -/
def decode (l : Bytes) : PacketHead where
  length := int32Of (l.take 4)
  flag := (l.drop 4).take 2
  cVersion := int16Of ((l.drop 6).take 2)
  cmd := int32Of ((l.drop 8).take 4)
  gameid := int16Of ((l.drop 12).take 2)
  code := (l.drop 14).headD 0

theorem length_encode {h : PacketHead} (hflag : h.flag.length = 2) :
    h.encode.length = HEAD_SIZE := by
  simp [encode, hflag, HEAD_SIZE]

theorem decode_encode {h : PacketHead} (hflag : h.flag.length = 2) : decode h.encode = h := by
  have h32 := int32Of_le
  have h16 := int16Of_le
  obtain ⟨a, b, hab⟩ : ∃ a b, h.flag = [a, b] := List.length_eq_two.mp hflag
  obtain ⟨length, flag, cVersion, cmd, gameid, code⟩ := h
  simp only at hab
  subst hab
  -- every field is a list of known length, so `decode` can be evaluated
  simp only [le] at h32 h16
  simp only [decode, encode, le, List.cons_append, List.nil_append, List.take_succ_cons,
    List.take_zero, List.drop_succ_cons, List.drop_zero, List.headD_cons, h32, h16]

end PacketHead

/-- The frame `handle_send` builds in `maxBuff`; `none` when it does not fit. -/
def frame (cmd gameid : Int32) (ret : Bytes) : Option Bytes :=
  let body := cstr ret
  let head : PacketHead :=
    { length := .ofNat body.length
      flag := ascii "BY"
      cVersion := 1
      cmd
      gameid := gameid.toInt16
      code := PACKET_HEAD_CODE }
  if HEAD_SIZE + body.length ≤ MAX_BUFFER_LENGTH then some (head.encode ++ body) else none

/-- `handle_send`; the code that `send` returns is only logged. -/
def handleSend (fd : Int) (cmd gameid : Int32) (ret : Bytes) : Handler Unit := do
  let bytes ← Handler.ofOption (frame cmd gameid ret)
  let _ ← Handler.ask (.send fd bytes)
  pure ()

/-- The head that is put in front of a text. -/
def frameHead (cmd gameid : Int32) (body : Bytes) : PacketHead where
  length := .ofNat body.length
  flag := ascii "BY"
  cVersion := 1
  cmd
  gameid := gameid.toInt16
  code := PACKET_HEAD_CODE

theorem toInt_length_frameHead (cmd gameid : Int32) {body : Bytes} (h : body.length ≤ 2031) :
    (frameHead cmd gameid body).length.toInt = body.length :=
  Int32.toInt_ofNat_of_lt (by omega)

theorem frame_eq_some_iff {cmd gameid : Int32} {ret bytes : Bytes} :
    frame cmd gameid ret = some bytes ↔
      (cstr ret).length ≤ 2031 ∧ bytes = (frameHead cmd gameid (cstr ret)).encode ++ cstr ret := by
  have hfit : HEAD_SIZE + (cstr ret).length ≤ MAX_BUFFER_LENGTH ↔ (cstr ret).length ≤ 2031 := by
    unfold HEAD_SIZE MAX_BUFFER_LENGTH
    omega
  simp only [frame, hfit, Option.ite_none_right_eq_some, Option.some.injEq]
  exact and_congr_right fun _ => eq_comm

/-- A text of at most 2031 bytes fits a frame. -/
theorem exists_frame (cmd gameid : Int32) {ret : Bytes} (h : ret.length ≤ 2031) :
    ∃ bytes, frame cmd gameid ret = some bytes := by
  have hle := (cstr_isPrefix ret).length_le
  exact ⟨_, frame_eq_some_iff.mpr ⟨by omega, rfl⟩⟩

/-- `handle_send` stays inside its buffer for a text of at most 2031 bytes. -/
theorem defined_handleSend (fd : Int) (cmd gameid : Int32) {ret : Bytes}
    (h : ret.length ≤ 2031) : (handleSend fd cmd gameid ret).Defined := by
  obtain ⟨bytes, hframe⟩ := exists_frame cmd gameid h
  unfold handleSend
  rw [hframe, Handler.ofOption_some, Prog.pure_bind]
  exact Handler.defined_ask_bind rfl fun _ => Prog.defined_pure _

theorem runs_handleSend {fd : Int} {cmd gameid : Int32} {ret : Bytes} {es : List HandlerEvent} :
    (handleSend fd cmd gameid ret).Runs es () ↔
      ∃ bytes code, frame cmd gameid ret = some bytes ∧ es = [⟨.send fd bytes, code⟩] := by
  unfold handleSend
  cases hframe : frame cmd gameid ret with
  | none => simp
  | some bytes =>
      constructor
      · intro h
        obtain ⟨code, es', rfl, h'⟩ := Prog.runs_call.mp h
        obtain ⟨rfl, -⟩ := Prog.runs_pure.mp h'
        exact ⟨bytes, code, rfl, rfl⟩
      · intro h
        obtain ⟨bytes', code, heq, rfl⟩ := h
        obtain rfl := Option.some.inj heq
        exact .call code (.pure ())

theorem calls_handleSend {P : Call → Prop} {fd : Int} (hsend : ∀ bytes, P (.send fd bytes))
    (cmd gameid : Int32) (ret : Bytes) : (handleSend fd cmd gameid ret).Calls P :=
  (Handler.calls_ofOption _).bind fun bytes =>
    Handler.calls_ask_bind (hsend bytes) fun _ => Prog.calls_pure ()

theorem callsAt_handleSend {Q : List HandlerEvent → HandlerEvent → Prop} {fd : Int}
    {cmd gameid : Int32} {ret : Bytes}
    (hsend : ∀ bytes code, frame cmd gameid ret = some bytes → Q [] ⟨.send fd bytes, code⟩) :
    (handleSend fd cmd gameid ret).CallsAt Q := by
  intro es a h pre e post heq
  obtain ⟨bytes, code, hframe, rfl⟩ := runs_handleSend.mp h
  cases pre with
  | nil =>
      obtain ⟨rfl, -⟩ := List.cons.inj heq
      exact hsend bytes code hframe
  | cons e' pre => simp at heq

/-- The head and the body of a whole frame. -/
def readFrame (l : Bytes) : Option (PacketHead × Bytes) :=
  let head := PacketHead.decode (l.take HEAD_SIZE)
  if HEAD_SIZE + head.length.toInt.toNat = l.length then some (head, l.drop HEAD_SIZE) else none

theorem readFrame_encode {head : PacketHead} {body : Bytes} (hflag : head.flag.length = 2)
    (hlength : head.length.toInt = body.length) :
    readFrame (head.encode ++ body) = some (head, body) := by
  have hsize := PacketHead.length_encode hflag
  have htake : (head.encode ++ body).take HEAD_SIZE = head.encode := by
    rw [← hsize, List.take_left]
  have hdrop : (head.encode ++ body).drop HEAD_SIZE = body := by
    rw [← hsize, List.drop_left]
  simp only [readFrame, htake, PacketHead.decode_encode hflag, hdrop, hlength, Int.toNat_natCast,
    List.length_append, hsize, if_pos]

/-- The body of a frame is the text. -/
theorem readFrame_frame {cmd gameid : Int32} {ret bytes : Bytes}
    (h : frame cmd gameid ret = some bytes) :
    readFrame bytes = some (frameHead cmd gameid (cstr ret), cstr ret) := by
  obtain ⟨hlen, rfl⟩ := frame_eq_some_iff.mp h
  exact readFrame_encode rfl (toInt_length_frameHead cmd gameid hlen)

/-- A text that fits a frame is its body. -/
theorem frame_eq (cmd gameid : Int32) (ret : Bytes) (hzero : ∀ b ∈ ret, b ≠ 0)
    (hlen : ret.length ≤ 2031) :
    ∃ bytes head, frame cmd gameid ret = some bytes ∧ readFrame bytes = some (head, ret) ∧
      head.cmd = cmd := by
  obtain ⟨bytes, hframe⟩ := exists_frame cmd gameid hlen
  have hread := readFrame_frame hframe
  rw [cstr_of_forall hzero] at hread
  exact ⟨bytes, _, hframe, hread, rfl⟩

end SpiderChat
