import Mathlib.Data.List.Basic

/-!
# SpiderChat.Lib.Loop

**Loops whose body decides whether there is another round.** `body s` is the state
of the next round (`inl`) or the result (`inr`), and `loop body fuel` runs at most
`fuel` rounds.

`Leads body φ s e`: the loop comes from `s` to a round whose outcome is `e`, and
the rounds up to there are paid for by the potential `φ`, which what is left at
`e` still has to hold. `Leads.trans` puts two stretches of a run together without
counting rounds, and `loop_of_leads` turns a stretch up to the end into a value of
`loop`, with the potential of the first state as fuel.
-/

namespace Lib

variable {σ ρ : Type*} {body : σ → σ ⊕ ρ} {φ : σ → Nat}

/-- At most the given number of rounds. -/
def loop (body : σ → σ ⊕ ρ) : Nat → σ → Option ρ
  | 0, _ => none
  | fuel + 1, s =>
      match body s with
      | .inl t => loop body fuel t
      | .inr r => some r

theorem loop_succ_inl {fuel : Nat} {s t : σ} (h : body s = .inl t) :
    loop body (fuel + 1) s = loop body fuel t := by
  rw [loop, h]

theorem loop_succ_inr {fuel : Nat} {s : σ} {r : ρ} (h : body s = .inr r) :
    loop body (fuel + 1) s = some r := by
  rw [loop, h]

/-- The outcome of the last of `n` rounds. -/
inductive Rounds (body : σ → σ ⊕ ρ) : Nat → σ → σ ⊕ ρ → Prop
  | one (s : σ) : Rounds body 1 s (body s)
  | more {n : Nat} {s t : σ} {e : σ ⊕ ρ} : body s = .inl t → Rounds body n t e →
      Rounds body (n + 1) s e

theorem Rounds.trans {m n : Nat} {s t : σ} {e : σ ⊕ ρ} (h : Rounds body m s (.inl t))
    (h' : Rounds body n t e) : Rounds body (m + n) s e := by
  generalize he : (Sum.inl t : σ ⊕ ρ) = e₁ at h
  induction h with
  | one s =>
      rw [Nat.add_comm]
      exact .more he.symm h'
  | more hs _ ih =>
      rw [Nat.add_right_comm]
      exact .more hs (ih he)

theorem loop_of_rounds {n fuel : Nat} {s : σ} {r : ρ} (h : Rounds body n s (.inr r))
    (hfuel : n ≤ fuel) : loop body fuel s = some r := by
  generalize he : (Sum.inr r : σ ⊕ ρ) = e at h
  induction h generalizing fuel with
  | one s =>
      obtain ⟨k, rfl⟩ : ∃ k, fuel = k + 1 := ⟨fuel - 1, by omega⟩
      exact loop_succ_inr he.symm
  | more hs _ ih =>
      obtain ⟨k, rfl⟩ : ∃ k, fuel = k + 1 := ⟨fuel - 1, by omega⟩
      rw [loop_succ_inl hs]
      exact ih (by omega) he

/-- The potential that is left behind a round. -/
def left (φ : σ → Nat) : σ ⊕ ρ → Nat
  | .inl t => φ t
  | .inr _ => 0

@[simp] theorem left_inl (t : σ) : left φ (.inl t : σ ⊕ ρ) = φ t := rfl
@[simp] theorem left_inr (r : ρ) : left φ (.inr r : σ ⊕ ρ) = 0 := rfl

/-- The loop comes from `s` to a round with outcome `e`, within its potential. -/
def Leads (body : σ → σ ⊕ ρ) (φ : σ → Nat) (s : σ) (e : σ ⊕ ρ) : Prop :=
  ∃ n, Rounds body n s e ∧ n + left φ e ≤ φ s

/-- A round that its potential pays for. -/
theorem Leads.round {s : σ} {e : σ ⊕ ρ} (h : body s = e) (hφ : left φ e < φ s) :
    Leads body φ s e :=
  ⟨1, h ▸ .one s, by omega⟩

theorem Leads.trans {s t : σ} {e : σ ⊕ ρ} (h : Leads body φ s (.inl t))
    (h' : Leads body φ t e) : Leads body φ s e := by
  obtain ⟨m, hm, hφ⟩ := h
  obtain ⟨n, hn, hφ'⟩ := h'
  refine ⟨m + n, hm.trans hn, ?_⟩
  rw [left_inl] at hφ
  omega

/-- Whatever the loop comes to from `t`, it comes to from `s`. -/
def Reaches (body : σ → σ ⊕ ρ) (φ : σ → Nat) (s t : σ) : Prop :=
  ∀ e, Leads body φ t e → Leads body φ s e

theorem Reaches.refl (s : σ) : Reaches body φ s s := fun _ h => h

theorem Reaches.trans {s t u : σ} (h : Reaches body φ s t) (h' : Reaches body φ t u) :
    Reaches body φ s u :=
  fun e he => h e (h' e he)

theorem Leads.reaches {s t : σ} (h : Leads body φ s (.inl t)) : Reaches body φ s t :=
  fun _ => h.trans

/-- A round that its potential pays for, before others. -/
theorem Reaches.round {s t : σ} (h : body s = .inl t) (hφ : φ t < φ s) : Reaches body φ s t :=
  (Leads.round h hφ).reaches

/-- `n` rounds take the loop from `s` to `t`. -/
def After (body : σ → σ ⊕ ρ) (n : Nat) (s t : σ) : Prop :=
  ∀ k e, Rounds body k t e → Rounds body (n + k) s e

theorem After.refl (s : σ) : After body 0 s s := fun k _ h => (Nat.zero_add k).symm ▸ h

theorem After.round {n : Nat} {s t u : σ} (h : body s = .inl t) (h' : After body n t u) :
    After body (n + 1) s u :=
  fun k e he => Nat.add_right_comm n k 1 ▸ .more h (h' k e he)

theorem After.trans {m n : Nat} {s t u : σ} (h : After body m s t) (h' : After body n t u) :
    After body (m + n) s u :=
  fun k e he => Nat.add_assoc m n k ▸ h (n + k) e (h' k e he)

/-- Rounds that the potential pays for together. -/
theorem After.leads {n : Nat} {s t : σ} {e : σ ⊕ ρ} (h : After body n s t) (ht : body t = e)
    (hφ : n + 1 + left φ e ≤ φ s) : Leads body φ s e :=
  ⟨n + 1, h 1 e (ht ▸ .one t), hφ⟩

theorem loop_of_leads {fuel : Nat} {s : σ} {r : ρ} (h : Leads body φ s (.inr r))
    (hfuel : φ s ≤ fuel) : loop body fuel s = some r := by
  obtain ⟨n, hn, hφ⟩ := h
  exact loop_of_rounds hn (by omega)

end Lib
