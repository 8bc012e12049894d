import Mathlib.Logic.Function.Basic
import SpiderChat.Lib.Prog
import SpiderChat.Lib.Run

/-!
# SpiderChat.Lib.Threads

**Programs that share a state.** Every thread runs a program (`Lib.Prog`), and a step is
the next call of one of them, which the shared state answers. A run is the list of the
calls in their order, each with its thread.

`exec_parts` takes a run apart: the shared state goes through all of its calls, and the
calls of one thread are calls of that thread's program. So a statement about every
interleaving is one about every list of calls whose parts are runs, and `callsOf_split`
finds the place of one call in it. `Precede` speaks about the order of the calls.
-/

namespace Lib

/-! ### The order of calls -/

/-- Every `P` comes before every `Q`. -/
def Precede {β : Type} (P Q : β → Prop) (l : List β) : Prop := l.Pairwise fun c c' => Q c → ¬ P c'

instance {β : Type} (P Q : β → Prop) [DecidablePred P] [DecidablePred Q] (l : List β) :
    Decidable (Precede P Q l) :=
  inferInstanceAs (Decidable (List.Pairwise _ l))

/-- Behind the only `Q` of a list there is no `P`. -/
theorem precede_iff {β : Type} {P Q : β → Prop} {l l' : List β} {c : β} (hc : Q c)
    (hl : ∀ a ∈ l, ¬ Q a) (hl' : ∀ a ∈ l', ¬ Q a) :
    Precede P Q (l ++ c :: l') ↔ ∀ b ∈ l', ¬ P b := by
  rw [Precede, List.pairwise_append, List.pairwise_cons]
  constructor
  · intro h b hb
    exact h.2.1.1 b hb hc
  · intro h
    refine ⟨List.pairwise_of_forall_mem_list fun a ha b _ hq => absurd hq (hl a ha),
      ⟨fun b hb _ => h b hb, List.pairwise_of_forall_mem_list fun a ha b _ hq =>
        absurd hq (hl' a ha)⟩, fun a ha b _ hq => absurd hq (hl a ha)⟩

/-- Two places in a list. -/
theorem append_cons_eq_append_cons {β : Type} {l₁ l₂ l₁' l₂' : List β} {a b : β}
    (h : l₁ ++ a :: l₂ = l₁' ++ b :: l₂') :
    (∃ mid, l₁' = l₁ ++ a :: mid ∧ l₂ = mid ++ b :: l₂') ∨ (l₁ = l₁' ∧ a = b ∧ l₂ = l₂') ∨
      ∃ mid, l₁ = l₁' ++ b :: mid ∧ l₂' = mid ++ a :: l₂ := by
  rcases List.append_eq_append_iff.mp h with ⟨mid, hmid, heq⟩ | ⟨mid, hmid, heq⟩
  · cases mid with
    | nil =>
        obtain ⟨rfl, rfl⟩ := List.cons.inj heq
        exact .inr (.inl ⟨by rw [hmid, List.append_nil], rfl, rfl⟩)
    | cons x mid =>
        obtain ⟨rfl, rfl⟩ := List.cons.inj heq
        exact .inl ⟨mid, hmid, rfl⟩
  · cases mid with
    | nil =>
        obtain ⟨rfl, rfl⟩ := List.cons.inj heq
        exact .inr (.inl ⟨by rw [hmid, List.append_nil], rfl, rfl⟩)
    | cons x mid =>
        obtain ⟨rfl, rfl⟩ := List.cons.inj heq
        exact .inr (.inr ⟨mid, hmid, rfl⟩)

variable {Op : Type} {Resp : Op → Type} {ι σ α : Type}

/-- The threads, and the state that they share. -/
structure Threads (Resp : Op → Type) (ι σ α : Type) where
  shared : σ
  prog : ι → Prog Resp α

namespace Threads

variable [DecidableEq ι]

/-- The calls of a thread. -/
def callsOf (i : ι) (l : List (ι × Event Resp)) : List (Event Resp) :=
  l.filterMap fun c => if c.1 = i then some c.2 else none

@[simp] theorem callsOf_nil (i : ι) : callsOf i ([] : List (ι × Event Resp)) = [] := rfl

@[simp] theorem callsOf_cons_self (i : ι) (e : Event Resp) (l : List (ι × Event Resp)) :
    callsOf i ((i, e) :: l) = e :: callsOf i l := by
  rw [callsOf, List.filterMap_cons, if_pos rfl, callsOf]

theorem callsOf_cons_ne {i j : ι} (h : j ≠ i) (e : Event Resp) (l : List (ι × Event Resp)) :
    callsOf i ((j, e) :: l) = callsOf i l := by
  rw [callsOf, List.filterMap_cons, if_neg h, callsOf]

@[simp] theorem callsOf_append (i : ι) (l l' : List (ι × Event Resp)) :
    callsOf i (l ++ l') = callsOf i l ++ callsOf i l' :=
  List.filterMap_append

theorem mem_callsOf {i : ι} {e : Event Resp} {l : List (ι × Event Resp)} :
    e ∈ callsOf i l ↔ (i, e) ∈ l := by
  rw [callsOf, List.mem_filterMap]
  constructor
  · intro h
    obtain ⟨⟨j, e'⟩, hmem, heq⟩ := h
    split at heq
    · rename_i hj
      obtain rfl : j = i := hj
      exact Option.some.inj heq ▸ hmem
    · cases heq
  · intro h
    exact ⟨(i, e), h, if_pos rfl⟩

/-- The place of one call of a thread among the calls of all of them. -/
theorem callsOf_split {i : ι} {e : Event Resp} {l : List (ι × Event Resp)}
    {pre post : List (Event Resp)} (h : callsOf i l = pre ++ e :: post) :
    ∃ la lb, l = la ++ (i, e) :: lb ∧ callsOf i la = pre ∧ callsOf i lb = post := by
  obtain ⟨la, lb, rfl, hla, hlb⟩ := List.filterMap_eq_append_iff.mp h
  obtain ⟨lb₁, ⟨j, e'⟩, lb₂, rfl, hnone, heq, hlb₂⟩ := List.filterMap_eq_cons_iff.mp hlb
  split at heq
  · rename_i hj
    obtain rfl : j = i := hj
    obtain rfl := Option.some.inj heq
    have hnil : callsOf j lb₁ = [] := List.filterMap_eq_nil_iff.mpr hnone
    refine ⟨la ++ lb₁, lb₂, by rw [List.append_assoc], ?_, hlb₂⟩
    rw [callsOf_append, hnil, List.append_nil]
    exact hla
  · cases heq

variable [DecidableEq Op]

/-- The next call of a thread. -/
def step (respond : σ → Event Resp → Option σ) (s : Threads Resp ι σ α)
    (c : ι × Event Resp) : Option (Threads Resp ι σ α) := do
  let p ← (s.prog c.1).advance c.2
  let shared ← respond s.shared c.2
  some { shared, prog := Function.update s.prog c.1 p }

/-- **A run, taken apart.** -/
theorem exec_parts {respond : σ → Event Resp → Option σ} {l : List (ι × Event Resp)} :
    ∀ {s t : Threads Resp ι σ α}, exec (step respond) s l = some t →
      exec respond s.shared (l.map Prod.snd) = some t.shared ∧
        ∀ i, (s.prog i).After (callsOf i l) (t.prog i) := by
  induction l with
  | nil =>
      intro s t h
      obtain rfl := Option.some.inj h
      exact ⟨rfl, fun i => .start⟩
  | cons c l ih =>
      intro s t h
      obtain ⟨s', hs, ht⟩ := exec_cons.mp h
      simp only [step, Option.bind_eq_bind, Option.bind_eq_some_iff] at hs
      obtain ⟨p, hp, shared, hshared, hs⟩ := hs
      obtain rfl := Option.some.inj hs
      obtain ⟨hexec, hafter⟩ := ih ht
      refine ⟨exec_cons.mpr ⟨shared, hshared, hexec⟩, fun i => ?_⟩
      obtain ⟨j, e⟩ := c
      have hi : (Function.update s.prog j p i).After (callsOf i l) (t.prog i) := hafter i
      by_cases hj : j = i
      · subst hj
        rw [callsOf_cons_self]
        rw [Function.update_self] at hi
        exact Prog.After.cons hp hi
      · rw [callsOf_cons_ne hj]
        rwa [Function.update_of_ne (Ne.symm hj)] at hi

/-- The calls of a thread that has returned are a run of its program. -/
theorem runs_of_exec {respond : σ → Event Resp → Option σ} {l : List (ι × Event Resp)}
    {s t : Threads Resp ι σ α} (h : exec (step respond) s l = some t) {i : ι} {a : α}
    (hdone : t.prog i = .pure a) : (s.prog i).Runs (callsOf i l) a := by
  have hafter := (exec_parts h).2 i
  rw [hdone] at hafter
  exact hafter.runs_pure

end Threads

end Lib
