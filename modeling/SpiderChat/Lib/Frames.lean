import Mathlib.Data.List.Basic

/-!
# SpiderChat.Lib.Frames

**Streams of frames.** A stream is framed when it is a concatenation of whole frames.
If no frame is the beginning of another one, the frames of a stream can be told apart,
and a stream is not framed any more once a part of a frame has been put behind it.
-/

namespace Lib

variable {α : Type*} {frame : List α → Prop}

/-- The stream is a concatenation of whole frames. -/
def Framed (frame : List α → Prop) (out : List α) : Prop :=
  ∃ fs : List (List α), (∀ f ∈ fs, frame f) ∧ out = fs.flatten

/-- At most one beginning of a stream is a frame. -/
def SelfDelimiting (frame : List α → Prop) : Prop :=
  ∀ f g x y, frame f → frame g → f ++ x = g ++ y → f = g

theorem framed_nil : Framed frame [] := ⟨[], nofun, rfl⟩

theorem Framed.append {out f : List α} (h : Framed frame out) (hf : frame f) :
    Framed frame (out ++ f) := by
  obtain ⟨fs, hfs, rfl⟩ := h
  refine ⟨fs ++ [f], ?_, by simp⟩
  exact List.forall_mem_append.mpr ⟨hfs, by simpa using hf⟩

/-- A framed stream starts with a frame, and what follows is framed. -/
theorem Framed.front {out : List α} (h : Framed frame out) (hne : out ≠ []) :
    ∃ f rest, frame f ∧ Framed frame rest ∧ out = f ++ rest := by
  obtain ⟨fs, hfs, rfl⟩ := h
  cases fs with
  | nil => exact absurd rfl hne
  | cons f fs =>
      obtain ⟨hf, hfs'⟩ := List.forall_mem_cons.mp hfs
      exact ⟨f, fs.flatten, hf, ⟨fs, hfs', rfl⟩, rfl⟩

/-- **A part of a frame** at the end of a framed stream. -/
theorem Framed.not_append (hself : SelfDelimiting frame) {out p q : List α}
    (h : Framed frame out) (hf : frame (p ++ q)) (hp : p ≠ []) (hq : q ≠ []) :
    ¬ Framed frame (out ++ p) := by
  obtain ⟨fs, hfs, rfl⟩ := h
  induction fs with
  | nil =>
      intro hframed
      obtain ⟨g, rest, hg, -, heq⟩ := hframed.front hp
      -- the frame that `p` starts is shorter than `p` itself
      have hwhole : p ++ q = g :=
        hself (p ++ q) g [] (rest ++ q) hf hg
          (by rw [List.append_nil, ← List.append_assoc, ← heq]; rfl)
      have hlen := congrArg List.length heq
      have hlen' := congrArg List.length hwhole
      have hpos := List.length_pos_iff.mpr hq
      simp only [List.flatten_nil, List.nil_append, List.length_append] at hlen hlen'
      omega
  | cons f fs ih =>
      obtain ⟨hff, hfs'⟩ := List.forall_mem_cons.mp hfs
      intro hframed
      rw [List.flatten_cons, List.append_assoc] at hframed
      have hne : f ++ (fs.flatten ++ p) ≠ [] := by simp [hp]
      obtain ⟨g, rest, hg, hrest, heq⟩ := hframed.front hne
      obtain rfl := hself f g _ rest hff hg heq
      exact ih hfs' (List.append_cancel_left heq ▸ hrest)

end Lib
