import SpiderChat.Frame

/-!
# SpiderChat.ClientHead

`read_head` of `spider_client.c`, the decoder of the client: it reads the head of a
frame field by field, and takes a head whose length is from 1 to 1024 and whose gameid
is at least 1000. `acceptable_iff` says for which arguments of `handle_send` the frame
is one that the client takes, with the text that is meant.
-/

namespace SpiderChat

open Lib

namespace Client

/-- `read_head`, on the bytes that have been sent. -/
def readHead (l : Bytes) : Option PacketHead :=
  let length := int32Of (l.take 4)
  if l.take 4 = [] ∨ 1024 < length ∨ length ≤ 0 then none
  else
    let l := l.drop 4
    let flag := l.take 2
    if flag.length ≠ 2 ∨ flag ≠ ascii "BY" then none
    else
      let l := l.drop 2
      let cVersion := int16Of (l.take 2)
      if (l.take 2).length ≠ 2 then none
      else
        let l := l.drop 2
        let cmd := int32Of (l.take 4)
        if (l.take 4).length ≠ 4 then none
        else
          let l := l.drop 4
          let gameid := int16Of (l.take 2)
          if (l.take 2).length ≠ 2 ∨ gameid < 1000 then none
          else
            let l := l.drop 2
            if l.take 1 ≠ [PACKET_HEAD_CODE] then none
            else some { length, flag, cVersion, cmd, gameid, code := PACKET_HEAD_CODE }

/-- What the client does with a head that `handle_send` has built. -/
theorem readHead_encode {h : PacketHead} (hflag : h.flag = ascii "BY")
    (hcode : h.code = PACKET_HEAD_CODE) (body : Bytes) :
    readHead (h.encode ++ body) =
      if 1024 < h.length ∨ h.length ≤ 0 ∨ h.gameid < 1000 then none else some h := by
  have h32 := int32Of_le
  have h16 := int16Of_le
  obtain ⟨length, flag, cVersion, cmd, gameid, code⟩ := h
  simp only at hflag hcode
  subst hflag hcode
  -- every field is a list of known length, so the reads can be evaluated
  have hby : ascii "BY" = [66, 89] := rfl
  simp only [le] at h32 h16
  simp only [readHead, PacketHead.encode, le, hby, List.cons_append, List.nil_append,
    List.take_succ_cons, List.take_zero, List.drop_succ_cons, List.drop_zero, h32, h16]
  by_cases hlength : 1024 < length ∨ length ≤ 0
  · simp [hlength, ← or_assoc]
  · by_cases hgameid : gameid < 1000
    · simp [hlength, hgameid]
    · simp [hlength, hgameid]

/-- The client takes the head of a text of 1 to 1024 bytes and of a gameid from 1000 on. -/
theorem readHead_frameHead (cmd gameid : Int32) {text : Bytes} (hlen : text.length ≤ 2031)
    (rest : Bytes) :
    readHead ((frameHead cmd gameid text).encode ++ rest) =
      if 1 ≤ text.length ∧ text.length ≤ 1024 ∧ 1000 ≤ gameid.toInt16.toInt then
        some (frameHead cmd gameid text)
      else none := by
  set head := frameHead cmd gameid text with hhead
  have hlength : head.length.toInt = text.length := toInt_length_frameHead cmd gameid hlen
  have hlong : 1024 < head.length ↔ 1024 < text.length := by
    rw [Int32.lt_iff_toInt_lt, hlength, (by decide : (1024 : Int32).toInt = 1024)]
    omega
  have hempty : head.length ≤ 0 ↔ text.length = 0 := by
    rw [Int32.le_iff_toInt_le, hlength, (by decide : (0 : Int32).toInt = 0)]
    omega
  have hgameid : head.gameid < 1000 ↔ gameid.toInt16.toInt < 1000 := by
    rw [Int16.lt_iff_toInt_lt, (by decide : (1000 : Int16).toInt = 1000)]
    rfl
  rw [readHead_encode rfl rfl]
  simp only [hlong, hempty, hgameid]
  split
  · rw [if_neg (by omega)]
  · rw [if_pos (by omega)]

end Client

/-- The client takes the frame, which carries its gameid and the whole text. -/
def Acceptable (gameid : Int32) (text bytes : Bytes) : Prop :=
  ∃ head, Client.readHead bytes = some head ∧ 1 ≤ head.length.toInt ∧ head.length.toInt ≤ 1024 ∧
    1000 ≤ head.gameid.toInt ∧ head.gameid.toInt = gameid.toInt ∧ bytes = head.encode ++ text

/-- The gameids that a head can carry and the client takes. -/
def GameidFits (gameid : Int32) : Prop := 1000 ≤ gameid.toInt ∧ gameid.toInt ≤ 32767

instance (gameid : Int32) : Decidable (GameidFits gameid) :=
  inferInstanceAs (Decidable (_ ∧ _))

theorem gameidFits_iff (gameid : Int32) :
    GameidFits gameid ↔
      1000 ≤ gameid.toInt16.toInt ∧ gameid.toInt16.toInt = gameid.toInt := by
  have hlt := gameid.toInt16.toInt_lt
  rw [Int32.toInt_toInt16] at hlt ⊢
  constructor
  · intro h
    obtain ⟨hmin, hmax⟩ := h
    have hbmod : gameid.toInt.bmod (2 ^ 16) = gameid.toInt :=
      Int.bmod_eq_of_le (by simp; omega) (by simp; omega)
    rw [hbmod]
    exact ⟨hmin, rfl⟩
  · intro h
    obtain ⟨hmin, heq⟩ := h
    rw [heq] at hmin hlt
    exact ⟨hmin, by omega⟩

/-- **When the client takes a frame** of `handle_send` with the text that is meant. -/
theorem acceptable_iff {cmd gameid : Int32} {ret bytes : Bytes}
    (h : frame cmd gameid ret = some bytes) (text : Bytes) :
    Acceptable gameid text bytes ↔
      GameidFits gameid ∧ text.length ≤ 1024 ∧ text ≠ [] ∧ cstr ret = text := by
  obtain ⟨hlen, rfl⟩ := frame_eq_some_iff.mp h
  have hlength := toInt_length_frameHead cmd gameid hlen
  rw [gameidFits_iff]
  constructor
  · intro hacc
    obtain ⟨head, hhead, hpos, hle, hmin, heq, hbytes⟩ := hacc
    rw [Client.readHead_frameHead cmd gameid hlen, Option.ite_none_right_eq_some] at hhead
    obtain ⟨⟨hpos', hle', -⟩, hsome⟩ := hhead
    obtain rfl := Option.some.inj hsome
    have htext : cstr ret = text := List.append_cancel_left hbytes
    rw [htext] at hpos' hle'
    exact ⟨⟨hmin, heq⟩, hle', List.ne_nil_of_length_pos hpos', htext⟩
  · intro hcond
    obtain ⟨⟨hmin, heq⟩, hle, hne, rfl⟩ := hcond
    have hpos := List.length_pos_iff.mpr hne
    refine ⟨frameHead cmd gameid (cstr ret), ?_, by omega, by omega, hmin, heq, rfl⟩
    rw [Client.readHead_frameHead cmd gameid hlen, if_pos ⟨hpos, hle, hmin⟩]

end SpiderChat
