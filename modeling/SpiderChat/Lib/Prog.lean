import Mathlib.Data.List.Basic

/-!
# SpiderChat.Lib.Prog

**Programs that call an environment.** `Prog Resp α` is a computation that ends
with a value of `α` and on its way makes calls `o : Op`, each answered by a value
of `Resp o`. What the environment answers is left open, so a theorem about every
complete run of a program (`Runs`) is a theorem about every environment.

* `Runs p es a`: `p` can make the calls and receive the answers `es`, in this
  order, and end with `a`;
* `runs_pure`, `runs_call` and `runs_bind` take a run apart along the program;
* `Ends p es x` also has the executions that do not return;
* `After p es p'`: `p` has made the calls `es` and goes on as `p'`, which is how a
  program is put next to others that run at the same time.

A call with an empty answer type never returns: it stands for undefined behaviour.
-/

namespace Lib

/-- A computation with calls to an environment. -/
inductive Prog {Op : Type} (Resp : Op → Type) (α : Type) : Type
  | pure (a : α)
  | call (o : Op) (k : Resp o → Prog Resp α)

/-- A call with its answer. -/
abbrev Event {Op : Type} (Resp : Op → Type) := Σ o : Op, Resp o

namespace Prog

variable {Op : Type} {Resp : Op → Type} {α β : Type}

/-- Sequential composition. -/
def bind : Prog Resp α → (α → Prog Resp β) → Prog Resp β
  | .pure a, f => f a
  | .call o k, f => .call o fun r => (k r).bind f

instance : Monad (Prog Resp) where
  pure := .pure
  bind := bind

/-- A single call. -/
def op (o : Op) : Prog Resp (Resp o) := .call o .pure

@[simp] theorem pure_bind (a : α) (f : α → Prog Resp β) :
    ((Pure.pure a : Prog Resp α) >>= f) = f a := rfl

@[simp] theorem op_bind (o : Op) (f : Resp o → Prog Resp β) :
    ((op o : Prog Resp (Resp o)) >>= f) = .call o f := rfl

@[simp] theorem call_bind (o : Op) (k : Resp o → Prog Resp α) (f : α → Prog Resp β) :
    ((Prog.call o k) >>= f) = .call o fun r => k r >>= f := rfl

/-! ### Complete runs -/

/-- The complete runs of a program: the calls with their answers, and the result. -/
inductive Runs : Prog Resp α → List (Event Resp) → α → Prop
  | pure (a : α) : Runs (.pure a) [] a
  | call {o : Op} {k : Resp o → Prog Resp α} (r : Resp o) {es : List (Event Resp)} {a : α} :
      Runs (k r) es a → Runs (.call o k) (⟨o, r⟩ :: es) a

@[simp] theorem runs_pure {a b : α} {es : List (Event Resp)} :
    Runs (Pure.pure a : Prog Resp α) es b ↔ es = [] ∧ b = a := by
  constructor
  · intro h
    cases h
    exact ⟨rfl, rfl⟩
  · intro h
    obtain ⟨rfl, rfl⟩ := h
    exact .pure b

@[simp] theorem runs_pure' {a b : α} {es : List (Event Resp)} :
    Runs (.pure a : Prog Resp α) es b ↔ es = [] ∧ b = a :=
  runs_pure

@[simp] theorem runs_call {o : Op} {k : Resp o → Prog Resp α} {es : List (Event Resp)} {a : α} :
    Runs (.call o k) es a ↔ ∃ r es', es = ⟨o, r⟩ :: es' ∧ Runs (k r) es' a := by
  constructor
  · intro h
    cases h with
    | call r h => exact ⟨r, _, rfl, h⟩
  · intro h
    obtain ⟨r, es', rfl, h⟩ := h
    exact .call r h

theorem runs_op {o : Op} {es : List (Event Resp)} {a : Resp o} :
    Runs (op o : Prog Resp (Resp o)) es a ↔ es = [⟨o, a⟩] := by
  simp only [op, runs_call, runs_pure']
  constructor
  · intro h
    obtain ⟨r, es', rfl, rfl, rfl⟩ := h
    rfl
  · intro heq
    subst heq
    exact ⟨a, [], rfl, rfl, rfl⟩

/-- A run of a sequence is a run of its first part and a run of its second. -/
theorem runs_bind {p : Prog Resp α} {f : α → Prog Resp β} {es : List (Event Resp)} {b : β} :
    Runs (p >>= f) es b ↔
      ∃ es₁ es₂ a, es = es₁ ++ es₂ ∧ Runs p es₁ a ∧ Runs (f a) es₂ b := by
  induction p generalizing es with
  | pure a =>
      show Runs (f a) es b ↔ _
      constructor
      · intro h
        exact ⟨[], es, a, rfl, .pure a, h⟩
      · intro h
        obtain ⟨es₁, es₂, a', rfl, h₁, h₂⟩ := h
        obtain ⟨rfl, rfl⟩ := runs_pure'.mp h₁
        exact h₂
  | call o k ih =>
      rw [call_bind, runs_call]
      constructor
      · intro h
        obtain ⟨r, es', rfl, h⟩ := h
        obtain ⟨es₁, es₂, a, rfl, h₁, h₂⟩ := (ih r).mp h
        exact ⟨⟨o, r⟩ :: es₁, es₂, a, rfl, .call r h₁, h₂⟩
      · intro h
        obtain ⟨es₁, es₂, a, rfl, h₁, h₂⟩ := h
        obtain ⟨r, es', rfl, h₁'⟩ := runs_call.mp h₁
        exact ⟨r, es' ++ es₂, rfl, (ih r).mpr ⟨es', es₂, a, rfl, h₁', h₂⟩⟩

/-- A sequence that ends with a value known in advance. -/
theorem runs_bind_pure {p : Prog Resp α} {b c : β} {es : List (Event Resp)} :
    Runs (p >>= fun _ => Pure.pure b) es c ↔ (∃ a, Runs p es a) ∧ c = b := by
  rw [runs_bind]
  constructor
  · intro h
    obtain ⟨es₁, es₂, a, rfl, h₁, h₂⟩ := h
    obtain ⟨rfl, rfl⟩ := runs_pure.mp h₂
    rw [List.append_nil]
    exact ⟨⟨a, h₁⟩, rfl⟩
  · intro h
    obtain ⟨⟨a, h⟩, rfl⟩ := h
    exact ⟨es, [], a, (List.append_nil es).symm, h, .pure c⟩

/-! ### Executions -/

/-- The executions of a program: it returns, or it is stuck at a call that has no answer
(`none`). -/
inductive Ends : Prog Resp α → List (Event Resp) → Option α → Prop
  | pure (a : α) : Ends (.pure a) [] (some a)
  | stuck {o : Op} {k : Resp o → Prog Resp α} : IsEmpty (Resp o) → Ends (.call o k) [] none
  | call {o : Op} {k : Resp o → Prog Resp α} (r : Resp o) {es : List (Event Resp)}
      {x : Option α} : Ends (k r) es x → Ends (.call o k) (⟨o, r⟩ :: es) x

/-- The executions that return are the complete runs. -/
@[simp] theorem ends_some {p : Prog Resp α} {es : List (Event Resp)} {a : α} :
    Ends p es (some a) ↔ Runs p es a := by
  constructor
  · intro h
    generalize hx : some a = x at h
    induction h with
    | pure b =>
        obtain rfl := Option.some.inj hx
        exact .pure a
    | stuck _ => cases hx
    | call r _ ih => exact .call r (ih hx)
  · intro h
    induction h with
    | pure a => exact .pure a
    | call r _ ih => exact .call r ih

theorem ends_pure {a : α} {es : List (Event Resp)} {x : Option α} :
    Ends (Pure.pure a : Prog Resp α) es x ↔ es = [] ∧ x = some a := by
  constructor
  · intro h
    cases h
    exact ⟨rfl, rfl⟩
  · intro h
    obtain ⟨rfl, rfl⟩ := h
    exact .pure a

theorem ends_call {o : Op} {k : Resp o → Prog Resp α} {es : List (Event Resp)} {x : Option α} :
    Ends (.call o k) es x ↔ (IsEmpty (Resp o) ∧ es = [] ∧ x = none) ∨
      ∃ r es', es = ⟨o, r⟩ :: es' ∧ Ends (k r) es' x := by
  constructor
  · intro h
    cases h with
    | stuck h => exact .inl ⟨h, rfl, rfl⟩
    | call r h => exact .inr ⟨r, _, rfl, h⟩
  · intro h
    rcases h with ⟨h, rfl, rfl⟩ | ⟨r, es', rfl, h⟩
    · exact .stuck h
    · exact .call r h

/-- A sequence is stuck in its first part, or it goes on to the second. -/
theorem ends_bind {p : Prog Resp α} {f : α → Prog Resp β} {es : List (Event Resp)}
    {x : Option β} :
    Ends (p >>= f) es x ↔ (Ends p es none ∧ x = none) ∨
      ∃ es₁ es₂ a, es = es₁ ++ es₂ ∧ Runs p es₁ a ∧ Ends (f a) es₂ x := by
  induction p generalizing es with
  | pure a =>
      show Ends (f a) es x ↔ _
      constructor
      · intro h
        exact .inr ⟨[], es, a, rfl, .pure a, h⟩
      · intro h
        rcases h with ⟨h, -⟩ | ⟨es₁, es₂, a', rfl, h₁, h₂⟩
        · cases h
        · obtain ⟨rfl, rfl⟩ := runs_pure'.mp h₁
          exact h₂
  | call o k ih =>
      rw [call_bind, ends_call]
      constructor
      · intro h
        rcases h with ⟨hempty, rfl, rfl⟩ | ⟨r, es', rfl, h⟩
        · exact .inl ⟨.stuck hempty, rfl⟩
        · rcases (ih r).mp h with ⟨hstuck, rfl⟩ | ⟨es₁, es₂, a, rfl, h₁, h₂⟩
          · exact .inl ⟨.call r hstuck, rfl⟩
          · exact .inr ⟨⟨o, r⟩ :: es₁, es₂, a, rfl, .call r h₁, h₂⟩
      · intro h
        rcases h with ⟨h, rfl⟩ | ⟨es₁, es₂, a, rfl, h₁, h₂⟩
        · cases h with
          | stuck hempty => exact .inl ⟨hempty, rfl, rfl⟩
          | call r h => exact .inr ⟨r, _, rfl, (ih r).mpr (.inl ⟨h, rfl⟩)⟩
        · obtain ⟨r, es', rfl, h₁'⟩ := runs_call.mp h₁
          exact .inr ⟨r, es' ++ es₂, rfl, (ih r).mpr (.inr ⟨es', es₂, a, rfl, h₁', h₂⟩)⟩

theorem ends_bind_pure {p : Prog Resp α} {b : β} {es : List (Event Resp)} {x : Option β} :
    Ends (p >>= fun _ => Pure.pure b) es x ↔
      ∃ y : Option α, Ends p es y ∧ x = y.map fun _ => b := by
  rw [ends_bind]
  constructor
  · intro h
    rcases h with ⟨hstuck, rfl⟩ | ⟨es₁, es₂, a, rfl, hruns, hlast⟩
    · exact ⟨none, hstuck, rfl⟩
    · obtain ⟨rfl, rfl⟩ := ends_pure.mp hlast
      rw [List.append_nil]
      exact ⟨some a, ends_some.mpr hruns, rfl⟩
  · intro h
    obtain ⟨y, hy, rfl⟩ := h
    cases y with
    | none => exact .inl ⟨hy, rfl⟩
    | some a => exact .inr ⟨es, [], a, (List.append_nil es).symm, ends_some.mp hy, .pure b⟩

/-- The program is not stuck in any execution. -/
def Defined (p : Prog Resp α) : Prop := ∀ es, ¬ Ends p es none

theorem Defined.runs {p : Prog Resp α} (hp : Defined p) {es : List (Event Resp)} {x : Option α}
    (h : Ends p es x) : ∃ a, x = some a ∧ Runs p es a := by
  cases x with
  | none => exact absurd h (hp es)
  | some a => exact ⟨a, rfl, ends_some.mp h⟩

theorem defined_pure (a : α) : Defined (Pure.pure a : Prog Resp α) := by
  intro es h
  cases h

theorem defined_call {o : Op} [hr : Nonempty (Resp o)] {k : Resp o → Prog Resp α}
    (hk : ∀ r, Defined (k r)) : Defined (.call o k) := by
  intro es h
  rcases ends_call.mp h with ⟨hempty, -, -⟩ | ⟨r, es', -, h⟩
  · exact hempty.elim hr.some
  · exact hk r es' h

theorem Defined.bind {p : Prog Resp α} {f : α → Prog Resp β} (hp : Defined p)
    (hf : ∀ es a, Runs p es a → Defined (f a)) : Defined (p >>= f) := by
  intro es h
  rcases ends_bind.mp h with ⟨h, -⟩ | ⟨es₁, es₂, a, -, h₁, h₂⟩
  · exact hp es h
  · exact hf es₁ a h₁ es₂ h₂

/-! ### The calls a program can make -/

/-- In its complete runs, `p` only makes calls that satisfy `P`. -/
def Calls (P : Op → Prop) (p : Prog Resp α) : Prop := ∀ es a, Runs p es a → ∀ e ∈ es, P e.1

variable {P : Op → Prop}

theorem calls_pure (a : α) : Calls P (Pure.pure a : Prog Resp α) := by
  intro es b h
  obtain ⟨rfl, -⟩ := runs_pure.mp h
  simp

theorem calls_call {o : Op} {k : Resp o → Prog Resp α} (ho : P o) (hk : ∀ r, Calls P (k r)) :
    Calls P (.call o k) := by
  intro es a h
  obtain ⟨r, es', rfl, h'⟩ := runs_call.mp h
  exact List.forall_mem_cons.mpr ⟨ho, hk r es' a h'⟩

theorem Calls.bind {p : Prog Resp α} {f : α → Prog Resp β} (hp : Calls P p)
    (hf : ∀ a, Calls P (f a)) : Calls P (p >>= f) := by
  intro es b h
  obtain ⟨es₁, es₂, a, rfl, h₁, h₂⟩ := runs_bind.mp h
  exact List.forall_mem_append.mpr ⟨hp es₁ a h₁, hf a es₂ b h₂⟩

/-! ### Each call, given the ones before it -/

/-- In the complete runs of `p`, every call satisfies `Q` with the calls before it. -/
def CallsAt (Q : List (Event Resp) → Event Resp → Prop) (p : Prog Resp α) : Prop :=
  ∀ es a, Runs p es a → ∀ pre e post, es = pre ++ e :: post → Q pre e

variable {Q : List (Event Resp) → Event Resp → Prop}

theorem callsAt_pure (a : α) : CallsAt Q (Pure.pure a : Prog Resp α) := by
  intro es b h pre e post heq
  obtain ⟨rfl, -⟩ := runs_pure.mp h
  simp at heq

theorem callsAt_call {o : Op} {k : Resp o → Prog Resp α} (ho : ∀ r, Q [] ⟨o, r⟩)
    (hk : ∀ r, CallsAt (fun pre => Q (⟨o, r⟩ :: pre)) (k r)) : CallsAt Q (.call o k) := by
  intro es a h pre e post heq
  obtain ⟨r, es', rfl, h'⟩ := runs_call.mp h
  cases pre with
  | nil =>
      obtain ⟨rfl, -⟩ := List.cons.inj heq
      exact ho r
  | cons e' pre =>
      obtain ⟨rfl, heq'⟩ := List.cons.inj heq
      exact hk r es' a h' pre e post heq'

theorem CallsAt.bind {p : Prog Resp α} {f : α → Prog Resp β} (hp : CallsAt Q p)
    (hf : ∀ es a, Runs p es a → CallsAt (fun pre => Q (es ++ pre)) (f a)) :
    CallsAt Q (p >>= f) := by
  intro es b h pre e post heq
  obtain ⟨es₁, es₂, a, rfl, h₁, h₂⟩ := runs_bind.mp h
  rcases List.append_eq_append_iff.mp heq with ⟨pre', rfl, heq'⟩ | ⟨mid, rfl, heq'⟩
  · exact hf es₁ a h₁ es₂ b h₂ pre' e post heq'
  · cases mid with
    | nil =>
        have hlast := hf _ a h₁ es₂ b h₂ [] e post heq'.symm
        simpa using hlast
    | cons e' mid =>
        obtain ⟨rfl, rfl⟩ := List.cons.inj heq'
        exact hp _ a h₁ pre _ mid rfl

/-- A condition on every call is one that holds whatever the calls before it are. -/
theorem Calls.callsAt {p : Prog Resp α} (h : Calls P p) (hQ : ∀ pre e, P e.1 → Q pre e) :
    CallsAt Q p := by
  intro es a hruns pre e post heq
  refine hQ pre e (h es a hruns e ?_)
  rw [heq]
  simp

/-- An assertion about each call alone. -/
theorem CallsAt.calls {p : Prog Resp α} (h : CallsAt (fun _ e => P e.1) p) : Calls P p := by
  intro es a hrun e he
  obtain ⟨pre, post, heq⟩ := List.append_of_mem he
  exact h es a hrun pre e post heq

/-- Of two complete runs neither goes on where the other one ends. -/
theorem Runs.append_inj {p : Prog Resp α} {es es' x y : List (Event Resp)} {a b : α}
    (h : Runs p es a) (h' : Runs p es' b) (heq : es ++ x = es' ++ y) :
    es = es' ∧ a = b ∧ x = y := by
  induction h generalizing es' with
  | pure a =>
      obtain ⟨rfl, rfl⟩ := runs_pure'.mp h'
      exact ⟨rfl, rfl, heq⟩
  | call r _ ih =>
      obtain ⟨r', es'', rfl, h''⟩ := runs_call.mp h'
      obtain ⟨hevent, hrest⟩ := List.cons.inj heq
      cases hevent
      obtain ⟨rfl, rfl, rfl⟩ := ih h'' hrest
      exact ⟨rfl, rfl, rfl⟩

/-! ### Runs that are given -/

/-- The result of a program whose calls are answered as in `es`, `none` when it makes
other calls. -/
def replay [DecidableEq Op] : Prog Resp α → List (Event Resp) → Option α
  | .pure a, [] => some a
  | .pure _, _ :: _ => none
  | .call _ _, [] => none
  | .call o k, ⟨o', r⟩ :: es => if h : o' = o then replay (k (h ▸ r)) es else none

theorem replay_eq_some [DecidableEq Op] {p : Prog Resp α} {es : List (Event Resp)} {a : α} :
    p.replay es = some a ↔ Runs p es a := by
  induction p generalizing es with
  | pure b =>
      cases es with
      | nil => simp [replay, eq_comm]
      | cons e es => simp [replay]
  | call o k ih =>
      cases es with
      | nil => simp [replay]
      | cons e es =>
          obtain ⟨o', r⟩ := e
          rw [replay, runs_call]
          constructor
          · intro h
            split at h
            · rename_i ho
              subst ho
              exact ⟨r, es, rfl, (ih r).mp h⟩
            · cases h
          · intro h
            obtain ⟨r', es', heq, h⟩ := h
            cases heq
            rw [dif_pos rfl]
            exact (ih _).mpr h

/-! ### Answers given one after another -/

/-- The calls and the result of a program whose calls are answered by `answer`, the first
one by `answer i`. -/
def feed (answer : Nat → (o : Op) → Resp o) : Nat → Prog Resp α → List (Event Resp) × α
  | _, .pure a => ([], a)
  | i, .call o k =>
      let p := feed answer (i + 1) (k (answer i o))
      (⟨o, answer i o⟩ :: p.1, p.2)

/-- The result of a program is changed, its calls are not. -/
theorem feed_bind_pure (answer : Nat → (o : Op) → Resp o) (f : α → β) (p : Prog Resp α) :
    ∀ i, feed answer i (p >>= fun a => Pure.pure (f a)) =
      ((feed answer i p).1, f (feed answer i p).2) := by
  induction p with
  | pure a => exact fun _ => rfl
  | call o k ih =>
      intro i
      rw [call_bind, feed, feed, ih (answer i o) (i + 1)]

/-! ### One call at a time -/

/-- The program after its next call, `none` when that is another call. -/
def advance [DecidableEq Op] : Prog Resp α → Event Resp → Option (Prog Resp α)
  | .pure _, _ => none
  | .call o k, ⟨o', r⟩ => if h : o' = o then some (k (h ▸ r)) else none

theorem advance_inv [DecidableEq Op] {p p' : Prog Resp α} {e : Event Resp}
    (h : p.advance e = some p') : ∃ k r, p = .call e.1 k ∧ e = ⟨e.1, r⟩ ∧ p' = k r := by
  cases p with
  | pure a => cases h
  | call o k =>
      obtain ⟨o', r⟩ := e
      rw [advance] at h
      split at h
      · rename_i ho
        subst ho
        exact ⟨k, r, rfl, rfl, (Option.some.inj h).symm⟩
      · cases h

/-- `p` has made the calls `es` and goes on as `p'`. -/
inductive After (p : Prog Resp α) : List (Event Resp) → Prog Resp α → Prop
  | start : After p [] p
  | call {es : List (Event Resp)} {o : Op} {k : Resp o → Prog Resp α} (r : Resp o) :
      After p es (.call o k) → After p (es ++ [⟨o, r⟩]) (k r)

/-- What follows the calls made so far completes them to a run. -/
theorem After.runs {p p' : Prog Resp α} {es es' : List (Event Resp)} {a : α} (h : After p es p')
    (h' : Runs p' es' a) : Runs p (es ++ es') a := by
  induction h generalizing es' with
  | start => exact h'
  | call r _ ih =>
      rw [List.append_assoc]
      exact ih (.call r h')

/-- A call in front of the others. -/
theorem After.cons [DecidableEq Op] {p p' q : Prog Resp α} {e : Event Resp}
    {es : List (Event Resp)} (h : p.advance e = some p') (h' : After p' es q) :
    After p (e :: es) q := by
  induction h' with
  | start =>
      obtain ⟨o, r⟩ := e
      obtain ⟨k, r', rfl, heq, rfl⟩ := advance_inv h
      cases heq
      exact After.start.call r
  | call r _ ih => exact ih.call r

/-- A program that has returned has made a complete run. -/
theorem After.runs_pure {p : Prog Resp α} {es : List (Event Resp)} {a : α}
    (h : After p es (.pure a)) : Runs p es a := by
  simpa using h.runs (.pure a)

/-- The value with which a program has returned. -/
def result : Prog Resp α → Option α
  | .pure a => some a
  | .call _ _ => none

theorem result_eq_some {p : Prog Resp α} {a : α} : p.result = some a ↔ p = .pure a := by
  cases p with
  | pure b => simp [result]
  | call o k => simp [result]

end Prog

end Lib
