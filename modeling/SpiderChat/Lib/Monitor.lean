import SpiderChat.Lib.Prog
import SpiderChat.Lib.Run

/-!
# SpiderChat.Lib.Monitor

**Pre- and postconditions for programs with calls.** A monitor is a step function
`watch : σ → Event → Option σ` that is fed the calls of a program and keeps a
state of its own; it stops at a call it does not accept. `Triple watch pre p post`
says that the monitor, started where `pre` holds, accepts every complete run of
`p` and then satisfies `post`. The rules follow the program: `Triple.pure`,
`Triple.call` and `Triple.bind`.
-/

namespace Lib

variable {Op : Type} {Resp : Op → Type} {σ α β : Type}

/-- The monitor accepts the complete runs of `p` and ends in `post`. -/
def Triple (watch : σ → Event Resp → Option σ) (pre : σ → Prop) (p : Prog Resp α)
    (post : α → σ → Prop) : Prop :=
  ∀ s, pre s → ∀ es a, p.Runs es a → ∃ s', exec watch s es = some s' ∧ post a s'

namespace Triple

variable {watch : σ → Event Resp → Option σ} {pre : σ → Prop} {post : α → σ → Prop}

theorem pure {a : α} (h : ∀ s, pre s → post a s) :
    Triple watch pre (Pure.pure a : Prog Resp α) post := by
  intro s hs es b hrun
  obtain ⟨rfl, rfl⟩ := Prog.runs_pure.mp hrun
  exact ⟨s, exec_nil s, h s hs⟩

theorem call {o : Op} {k : Resp o → Prog Resp α} (mid : Resp o → σ → Prop)
    (hcall : ∀ r s, pre s → ∃ s', watch s ⟨o, r⟩ = some s' ∧ mid r s')
    (hk : ∀ r, Triple watch (mid r) (k r) post) : Triple watch pre (.call o k) post := by
  intro s hs es a hrun
  obtain ⟨r, es', rfl, hrun'⟩ := Prog.runs_call.mp hrun
  obtain ⟨s', hs', hmid⟩ := hcall r s hs
  obtain ⟨s'', hs'', hpost⟩ := hk r s' hmid es' a hrun'
  exact ⟨s'', exec_cons.mpr ⟨s', hs', hs''⟩, hpost⟩

/-- A call that the monitor lets pass. -/
theorem pass {o : Op} {k : Resp o → Prog Resp α} (hcall : ∀ r s, watch s ⟨o, r⟩ = some s)
    (hk : ∀ r, Triple watch pre (k r) post) : Triple watch pre (.call o k) post :=
  call (fun _ => pre) (fun r s hs => ⟨s, hcall r s, hs⟩) hk

theorem bind {p : Prog Resp α} {f : α → Prog Resp β} {mid : α → σ → Prop} {post : β → σ → Prop}
    (hp : Triple watch pre p mid) (hf : ∀ a, Triple watch (mid a) (f a) post) :
    Triple watch pre (p >>= f) post := by
  intro s hs es b hrun
  obtain ⟨es₁, es₂, a, rfl, h₁, h₂⟩ := Prog.runs_bind.mp hrun
  obtain ⟨s₁, hs₁, hmid⟩ := hp s hs es₁ a h₁
  obtain ⟨s₂, hs₂, hpost⟩ := hf a s₁ hmid es₂ b h₂
  exact ⟨s₂, exec_append.mpr ⟨s₁, hs₁, hs₂⟩, hpost⟩

end Triple

end Lib
