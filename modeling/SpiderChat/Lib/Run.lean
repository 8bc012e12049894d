import Mathlib.Data.List.Basic

/-!
# SpiderChat.Lib.Run

**Runs of an executable labelled system.** A system is a step function
`step : σ → ι → Option σ`: the label `ι` carries every choice of the
environment, and `none` says that the label is not enabled. A run is then a list
of labels, and it can be evaluated.

Two ways to speak about a run are connected here:

* `exec` computes the state a run ends in, and `exec_invariant` is the usual
  induction for facts about reachable states;
* `Along P` says that `P` holds in *every* state a run passes through, and
  `AllSteps ok` that *every* step is taken from a state where `ok` allows it.
  `along_of_allSteps` derives the first from the second, and
  `along_iff_allSteps` makes the condition exact when one forbidden step is
  enough to break `P`.

`Simulates` is a part of a system that runs on its own, under an invariant of the whole; a
condition on its steps can be asked in the whole system as well.
-/

namespace Lib

variable {σ ι : Type*}

/-- The state in which a run ends, `none` when some label is not enabled. -/
def exec (step : σ → ι → Option σ) : σ → List ι → Option σ
  | s, [] => some s
  | s, i :: l => (step s i).bind fun s' => exec step s' l

/-- `P` holds in every state the run passes through, the first one included. -/
def Along (step : σ → ι → Option σ) (P : σ → Prop) : σ → List ι → Prop
  | s, [] => P s
  | s, i :: l => P s ∧ ∀ s', step s i = some s' → Along step P s' l

/-- Every step of the run is taken from a state in which `ok` allows it. -/
def AllSteps (step : σ → ι → Option σ) (ok : σ → ι → Prop) : σ → List ι → Prop
  | _, [] => True
  | s, i :: l => ok s i ∧ ∀ s', step s i = some s' → AllSteps step ok s' l

variable {step : σ → ι → Option σ} {P Inv : σ → Prop} {ok : σ → ι → Prop}

instance AllSteps.decidable [∀ s i, Decidable (ok s i)] :
    ∀ (s : σ) (l : List ι), Decidable (AllSteps step ok s l)
  | _, [] => .isTrue trivial
  | s, i :: l =>
      match h : step s i with
      | none => decidable_of_iff (ok s i) ⟨fun hok => ⟨hok, fun _ h' => by simp [h] at h'⟩, (·.1)⟩
      | some s' =>
          haveI := AllSteps.decidable s' l
          decidable_of_iff (ok s i ∧ AllSteps step ok s' l)
            ⟨fun ⟨hok, hl⟩ => ⟨hok, fun _ h' => Option.some.inj (h.symm.trans h') ▸ hl⟩,
              fun ⟨hok, hl⟩ => ⟨hok, hl s' h⟩⟩

@[simp] theorem exec_nil (s : σ) : exec step s [] = some s := rfl

theorem exec_cons {s t : σ} {i : ι} {l : List ι} :
    exec step s (i :: l) = some t ↔
      ∃ s', step s i = some s' ∧ exec step s' l = some t := by
  simp [exec, Option.bind_eq_some_iff]

theorem exec_append {s t : σ} {l l' : List ι} :
    exec step s (l ++ l') = some t ↔
      ∃ m, exec step s l = some m ∧ exec step m l' = some t := by
  induction l generalizing s with
  | nil => simp
  | cons i l ih =>
      rw [List.cons_append, exec_cons]
      constructor
      · intro h
        obtain ⟨s', hs, h⟩ := h
        obtain ⟨m, hm, ht⟩ := ih.mp h
        exact ⟨m, exec_cons.mpr ⟨s', hs, hm⟩, ht⟩
      · intro h
        obtain ⟨m, hm, ht⟩ := h
        obtain ⟨s', hs, hm'⟩ := exec_cons.mp hm
        exact ⟨s', hs, ih.mpr ⟨m, hm', ht⟩⟩

/-- An inductive invariant holds in the state a run ends in. -/
theorem exec_invariant (hstep : ∀ s i s', Inv s → step s i = some s' → Inv s') :
    ∀ {l : List ι} {s t : σ}, Inv s → exec step s l = some t → Inv t := by
  intro l
  induction l with
  | nil =>
      intro s t hs h
      rw [exec_nil, Option.some.injEq] at h
      exact h ▸ hs
  | cons i l ih =>
      intro s t hs h
      obtain ⟨s', hs', h'⟩ := exec_cons.mp h
      exact ih (hstep s i s' hs hs') h'

/-- **Projection.** The part `f` of a system runs as the system `step'` does on its own,
when its steps are steps of `step'`. -/
theorem exec_map {τ : Type*} {step' : τ → ι → Option τ} (f : σ → τ)
    (hstep : ∀ s i s', step s i = some s' → step' (f s) i = some (f s')) :
    ∀ {l : List ι} {s t : σ}, exec step s l = some t → exec step' (f s) l = some (f t) := by
  intro l
  induction l with
  | nil =>
      intro s t h
      exact congrArg (Option.map f) h
  | cons i l ih =>
      intro s t h
      obtain ⟨s', hs, h'⟩ := exec_cons.mp h
      exact exec_cons.mpr ⟨f s', hstep s i s' hs, ih h'⟩

/-- What holds along a run holds in the state it ends in. -/
theorem Along.last {l : List ι} {s t : σ} (h : Along step P s l)
    (ht : exec step s l = some t) : P t := by
  induction l generalizing s with
  | nil =>
      rw [exec_nil, Option.some.injEq] at ht
      exact ht ▸ h
  | cons i l ih =>
      obtain ⟨s', hs, ht'⟩ := exec_cons.mp ht
      exact ih (h.2 s' hs) ht'

/-- **The guarded invariant rule.** If the allowed steps keep `Inv` and `Inv`
gives `P`, then `P` holds along every run all of whose steps are allowed. -/
theorem along_of_allSteps (hP : ∀ s, Inv s → P s)
    (hstep : ∀ s i s', Inv s → ok s i → step s i = some s' → Inv s') :
    ∀ {l : List ι} {s : σ}, Inv s → AllSteps step ok s l → Along step P s l := by
  intro l
  induction l with
  | nil => intro s hs _; exact hP s hs
  | cons i l ih =>
      intro s hs h
      exact ⟨hP s hs, fun s' hs' => ih (hstep s i s' hs h.1 hs') (h.2 s' hs')⟩

/-- **The exact condition.** When moreover one step that is not allowed breaks
`P`, a run keeps `P` if and only if all its steps are allowed. -/
theorem along_iff_allSteps (hP : ∀ s, Inv s → P s)
    (hstep : ∀ s i s', Inv s → ok s i → step s i = some s' → Inv s')
    (hbad : ∀ s i s', Inv s → ¬ ok s i → step s i = some s' → ¬ P s')
    {l : List ι} {s t : σ} (hs : Inv s) (hrun : exec step s l = some t) :
    Along step P s l ↔ AllSteps step ok s l := by
  refine ⟨fun h => ?_, along_of_allSteps hP hstep hs⟩
  induction l generalizing s with
  | nil => trivial
  | cons i l ih =>
      obtain ⟨s', hs', hrun'⟩ := exec_cons.mp hrun
      have hnext := h.2 s' hs'
      have hok : ok s i := by
        by_contra hno
        refine hbad s i s' hs hno hs' ?_
        cases l with
        | nil => exact hnext
        | cons _ _ => exact hnext.1
      refine ⟨hok, fun s₁ hs₁ => ?_⟩
      obtain rfl : s' = s₁ := Option.some.inj (hs'.symm.trans hs₁)
      exact ih (hstep s i s' hs hok hs') hrun' hnext

/-- An invariant that allowed steps keep holds at the end of a run of allowed steps. -/
theorem AllSteps.last (hstep : ∀ s i s', Inv s → ok s i → step s i = some s' → Inv s')
    {l : List ι} {s t : σ} (hs : Inv s) (h : AllSteps step ok s l) (ht : exec step s l = some t) :
    Inv t :=
  (along_of_allSteps (fun _ h => h) hstep hs h).last ht

/-- What follows from the invariant and from a step being allowed holds of every step of
a run of allowed steps. -/
theorem AllSteps.imp {good : σ → ι → Prop}
    (hstep : ∀ s i s', Inv s → ok s i → step s i = some s' → Inv s')
    (hgood : ∀ s i, Inv s → ok s i → good s i) :
    ∀ {l : List ι} {s : σ}, Inv s → AllSteps step ok s l → AllSteps step good s l := by
  intro l
  induction l with
  | nil => intro s _ _; trivial
  | cons i l ih =>
      intro s hs h
      exact ⟨hgood s i hs h.1, fun s' hs' => ih (hstep s i s' hs h.1 hs') (h.2 s' hs')⟩

/-- Two conditions on a step that are the same in every state of a run. -/
theorem allSteps_congr {live good : σ → ι → Prop}
    (hstep : ∀ s i s', Inv s → step s i = some s' → Inv s')
    (hiff : ∀ s i s', Inv s → live s i → step s i = some s' → (good s i ↔ ok s i))
    {l : List ι} {s t : σ} (hs : Inv s) (hrun : exec step s l = some t)
    (hlive : AllSteps step live s l) : AllSteps step good s l ↔ AllSteps step ok s l := by
  induction l generalizing s with
  | nil => exact .rfl
  | cons i l ih =>
      obtain ⟨s', hs', hrun'⟩ := exec_cons.mp hrun
      have htail := ih (hstep s i s' hs hs') hrun' (hlive.2 s' hs')
      refine and_congr (hiff s i s' hs hlive.1 hs') ?_
      constructor
      · intro h s₁ hs₁
        obtain rfl := Option.some.inj (hs'.symm.trans hs₁)
        exact htail.mp (h s' hs')
      · intro h s₁ hs₁
        obtain rfl := Option.some.inj (hs'.symm.trans hs₁)
        exact htail.mpr (h s' hs')

/-- A run has a step that is not allowed if and only if it reaches a state in which the
next step is not. -/
theorem not_allSteps_iff {l : List ι} {s t : σ} (hrun : exec step s l = some t) :
    ¬ AllSteps step ok s l ↔
      ∃ l₁ i l₂ m, l = l₁ ++ i :: l₂ ∧ exec step s l₁ = some m ∧ ¬ ok m i := by
  induction l generalizing s with
  | nil => simp [AllSteps]
  | cons i l ih =>
      obtain ⟨s', hs, hrun'⟩ := exec_cons.mp hrun
      constructor
      · intro h
        by_cases hok : ok s i
        · have hrest : ¬ AllSteps step ok s' l := by
            intro hl
            refine h ⟨hok, fun s₁ hs₁ => ?_⟩
            obtain rfl : s' = s₁ := Option.some.inj (hs.symm.trans hs₁)
            exact hl
          obtain ⟨l₁, j, l₂, m, rfl, hm, hj⟩ := (ih hrun').mp hrest
          exact ⟨i :: l₁, j, l₂, m, rfl, exec_cons.mpr ⟨s', hs, hm⟩, hj⟩
        · exact ⟨[], i, l, s, rfl, rfl, hok⟩
      · intro h hall
        obtain ⟨l₁, j, l₂, m, heq, hm, hj⟩ := h
        cases l₁ with
        | nil =>
            obtain ⟨rfl, -⟩ := List.cons.inj heq
            obtain rfl := Option.some.inj hm
            exact hj hall.1
        | cons i' l₁ =>
            obtain ⟨rfl, rfl⟩ := List.cons.inj heq
            obtain ⟨s₁, hs₁, hm'⟩ := exec_cons.mp hm
            obtain rfl : s' = s₁ := Option.some.inj (hs.symm.trans hs₁)
            exact (ih hrun').mpr ⟨l₁, j, l₂, m, rfl, hm', hj⟩ (hall.2 s' hs)

/-- **The exact condition at the end of a run.** When one step that is not allowed
leads to a `Lost` state, and no step leads out of these, a run that does not end in one
took allowed steps only. -/
theorem allSteps_of_last {Lost : σ → Prop}
    (hstep : ∀ s i s', Inv s → ok s i → step s i = some s' → Inv s')
    (hbad : ∀ s i s', Inv s → ¬ ok s i → step s i = some s' → Lost s')
    (hlost : ∀ s i s', Lost s → step s i = some s' → Lost s')
    {l : List ι} {s t : σ} (hs : Inv s) (hrun : exec step s l = some t) (ht : ¬ Lost t) :
    AllSteps step ok s l := by
  induction l generalizing s with
  | nil => trivial
  | cons i l ih =>
      obtain ⟨s', hs', hrun'⟩ := exec_cons.mp hrun
      have hok : ok s i := by
        by_contra hno
        exact ht (exec_invariant hlost (hbad s i s' hs hno hs') hrun')
      refine ⟨hok, fun s₁ hs₁ => ?_⟩
      obtain rfl : s' = s₁ := Option.some.inj (hs'.symm.trans hs₁)
      exact ih (hstep s i s' hs hok hs') hrun'

/-! ### Simulations -/

/-- From the states of `Inv`, a step whose label `g` picks is a step of `step'` on the part `f`,
and the other steps leave that part as it is. -/
structure Simulates {τ κ : Type*} (Inv : σ → Prop) (step : σ → ι → Option σ)
    (step' : τ → κ → Option τ) (f : σ → τ) (g : ι → Option κ) : Prop where
  keeps : ∀ s i s', Inv s → step s i = some s' → Inv s'
  own : ∀ s i k s', Inv s → g i = some k → step s i = some s' → step' (f s) k = some (f s')
  other : ∀ s i s', Inv s → g i = none → step s i = some s' → f s' = f s

section

variable {τ κ : Type*} {step' : τ → κ → Option τ} {f : σ → τ} {g : ι → Option κ}

/-- The part runs as it does on its own. -/
theorem Simulates.exec (h : Simulates Inv step step' f g) :
    ∀ {l : List ι} {s t : σ}, Inv s → exec step s l = some t →
      Lib.exec step' (f s) (l.filterMap g) = some (f t) := by
  intro l
  induction l with
  | nil =>
      intro s t _ hrun
      exact congrArg (Option.map f) hrun
  | cons i l ih =>
      intro s t hs hrun
      obtain ⟨s', hs', hrun'⟩ := exec_cons.mp hrun
      have hrest := ih (h.keeps s i s' hs hs') hrun'
      cases hi : g i with
      | none =>
          rw [List.filterMap_cons_none hi, ← h.other s i s' hs hi hs']
          exact hrest
      | some k =>
          rw [List.filterMap_cons_some hi]
          exact exec_cons.mpr ⟨f s', h.own s i k s' hs hi hs', hrest⟩

/-- A condition on the steps of the part, in the whole system. -/
theorem Simulates.allSteps_iff (h : Simulates Inv step step' f g) {ok : τ → κ → Prop}
    {l : List ι} {s t : σ} (hs : Inv s) (hrun : Lib.exec step s l = some t) :
    AllSteps step (fun s i => ∀ k ∈ g i, ok (f s) k) s l ↔
      AllSteps step' ok (f s) (l.filterMap g) := by
  induction l generalizing s with
  | nil => exact .rfl
  | cons i l ih =>
      obtain ⟨s', hs', hrun'⟩ := exec_cons.mp hrun
      have hrest : (∀ s₁, step s i = some s₁ →
          AllSteps step (fun s i => ∀ k ∈ g i, ok (f s) k) s₁ l) ↔
          AllSteps step' ok (f s') (l.filterMap g) := by
        rw [← ih (h.keeps s i s' hs hs') hrun', hs']
        exact ⟨fun hall => hall s' rfl, fun hall s₁ hs₁ => Option.some.inj hs₁ ▸ hall⟩
      cases hi : g i with
      | none =>
          rw [List.filterMap_cons_none hi, ← h.other s i s' hs hi hs', ← hrest]
          exact ⟨fun hall => hall.2, fun hall => ⟨by simp [hi], hall⟩⟩
      | some k =>
          rw [List.filterMap_cons_some hi, AllSteps, AllSteps, hrest, h.own s i k s' hs hi hs']
          simp [hi]

end

end Lib
