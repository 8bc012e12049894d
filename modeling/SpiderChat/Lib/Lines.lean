import SpiderChat.Lib.Text

/-!
# SpiderChat.Lib.Lines

A file as C programs read it: the lines, each with its newline, and `fgets`, which reads a line
that is shorter than the buffer in one call (`fgets_of_linesOf`). `Until` says that a search
along a list comes to an element.
-/

namespace Lib

/-- The lines of a file, each with its newline; the last one may have none. -/
def linesOf : List UInt8 → List (List UInt8)
  | [] => []
  | b :: l =>
      if b = 10 then [b] :: linesOf l
      else
        match linesOf l with
        | [] => [[b]]
        | line :: rest => (b :: line) :: rest

/-- The first `n` bytes of a file, up to the first newline. -/
def readLine : Nat → List UInt8 → List UInt8
  | 0, _ => []
  | _ + 1, [] => []
  | n + 1, b :: l => if b = 10 then [b] else b :: readLine n l

/-- `fgets(buf, size, fd)`: the bytes that it reads, and the rest of the file. -/
def fgets (size : Nat) (fd : List UInt8) : Option (List UInt8 × List UInt8) :=
  if fd = [] then none
  else some (readLine (size - 1) fd, fd.drop (readLine (size - 1) fd).length)

theorem linesOf_eq_nil_iff {fd : List UInt8} : linesOf fd = [] ↔ fd = [] := by
  refine ⟨fun h => ?_, fun h => h ▸ rfl⟩
  cases fd with
  | nil => rfl
  | cons b l =>
      rw [linesOf] at h
      split at h
      · cases h
      · split at h <;> cases h

/-- A line that is not longer than what is read at once. -/
theorem readLine_of_linesOf {line : List UInt8} {rest : List (List UInt8)} :
    ∀ {n : Nat} {fd : List UInt8}, linesOf fd = line :: rest → line.length ≤ n →
      readLine n fd = line ∧ linesOf (fd.drop line.length) = rest ∧ line ≠ [] := by
  intro n fd h hlen
  induction fd generalizing line rest n with
  | nil => cases h
  | cons b l ih =>
      rw [linesOf] at h
      split at h
      · rename_i hb
        obtain ⟨rfl, rfl⟩ := List.cons.inj h
        obtain ⟨n, rfl⟩ : ∃ k, n = k + 1 := ⟨n - 1, by simp at hlen; omega⟩
        exact ⟨by rw [readLine, if_pos hb], rfl, List.cons_ne_nil _ _⟩
      · rename_i hb
        split at h
        · rename_i hnil
          obtain ⟨rfl, rfl⟩ := List.cons.inj h
          obtain ⟨n, rfl⟩ : ∃ k, n = k + 1 := ⟨n - 1, by simp at hlen; omega⟩
          obtain rfl := linesOf_eq_nil_iff.mp hnil
          refine ⟨?_, rfl, List.cons_ne_nil _ _⟩
          rw [readLine, if_neg hb]
          cases n <;> rfl
        · rename_i line' rest' heq
          obtain ⟨rfl, rfl⟩ := List.cons.inj h
          obtain ⟨n, rfl⟩ : ∃ k, n = k + 1 := ⟨n - 1, by simp at hlen; omega⟩
          obtain ⟨hread, hrest, -⟩ := ih heq (by simpa using hlen)
          exact ⟨by rw [readLine, if_neg hb, hread], hrest, List.cons_ne_nil _ _⟩

theorem fgets_of_linesOf {size : Nat} {fd line : List UInt8} {rest : List (List UInt8)}
    (h : linesOf fd = line :: rest) (hlen : line.length < size) :
    fgets size fd = some (line, fd.drop line.length) ∧ linesOf (fd.drop line.length) = rest ∧
      (fd.drop line.length).length < fd.length := by
  obtain ⟨hread, hrest, hne⟩ := readLine_of_linesOf h (Nat.le_sub_one_of_lt hlen)
  have hfd : fd ≠ [] := by
    rintro rfl
    cases h
  refine ⟨by rw [fgets, if_neg hfd, hread], hrest, ?_⟩
  have hpos := List.length_pos_iff.mpr hne
  have hpos' := List.length_pos_iff.mpr hfd
  rw [List.length_drop]
  omega

/-- An element with `P`, behind elements with `Q`. -/
def Until {α : Type} (Q P : α → Prop) (l : List α) : Prop :=
  ∃ pre x post, l = pre ++ x :: post ∧ P x ∧ ∀ y ∈ pre, Q y

theorem not_until_nil {α : Type} {Q P : α → Prop} : ¬ Until Q P [] := by
  intro h
  obtain ⟨pre, x, post, heq, -⟩ := h
  cases pre <;> cases heq

theorem until_cons {α : Type} {Q P : α → Prop} {a : α} {l : List α} :
    Until Q P (a :: l) ↔ P a ∨ Q a ∧ Until Q P l := by
  constructor
  · intro h
    obtain ⟨pre, x, post, heq, hx, hpre⟩ := h
    cases pre with
    | nil =>
        obtain ⟨rfl, -⟩ := List.cons.inj heq
        exact .inl hx
    | cons y pre =>
        obtain ⟨rfl, rfl⟩ := List.cons.inj heq
        exact .inr ⟨hpre a List.mem_cons_self,
          pre, x, post, rfl, hx, fun y hy => hpre y (List.mem_cons_of_mem _ hy)⟩
  · intro h
    rcases h with ha | ⟨ha, pre, x, post, rfl, hx, hpre⟩
    · exact ⟨[], a, l, rfl, ha, nofun⟩
    · exact ⟨a :: pre, x, post, rfl, hx, List.forall_mem_cons.mpr ⟨ha, hpre⟩⟩

end Lib
