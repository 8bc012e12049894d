import Mathlib.Data.List.Basic

/-!
# SpiderChat.Lib.Quoted

**Quoted literals**: a text between two quote bytes in which some sequences of
bytes (escapes) stand for others. A `Quoting` says how one piece of a literal is
read; `scan` reads a whole one, behind its opening quote.

The question asked here is what happens to a text `m` that is put between quotes
*as it is*. `Scans.cases` lists the three ways in which reading `m ++ quote ::
tail` can go: the literal ends inside `m`, it ends at the quote that was meant,
or the last byte of `m` escapes that quote and the literal goes on in `tail`.
`Scans.covers` concludes that the literal read denotes `m` (or even only starts
with it) exactly when every piece of `m` stands for itself (`Plain`).
-/

namespace Lib

/-- A quoting convention. `piece` reads one piece of a literal: the closing quote
(`none`), or some bytes (with what they denote). -/
structure Quoting where
  quote : UInt8
  isEsc : UInt8 → Bool
  piece : List UInt8 → Option (Option (List UInt8) × List UInt8)

namespace Quoting

/-- What a convention has to satisfy: a piece denotes no more bytes than it has,
and as many only when it stands for itself wherever it occurs; and a quote inside
a piece is its second and last byte, behind an escape byte. -/
structure Lawful (q : Quoting) : Prop where
  close : ∀ {l r}, q.piece l = some (none, r) → l = q.quote :: r
  read : ∀ {l d r}, q.piece l = some (some d, r) → ∃ raw, l = raw ++ r ∧ raw ≠ [] ∧
    d.length ≤ raw.length ∧
    (d.length = raw.length → d = raw ∧ ∀ X, q.piece (raw ++ X) = some (some raw, X)) ∧
    ∀ a b, raw = a ++ q.quote :: b → a ≠ [] →
      b = [] ∧ (∃ e, a = [e] ∧ q.isEsc e = true) ∧ d = [q.quote]

variable {q : Quoting}

/-- The literal at the front of `l` denotes `d`, and `r` is behind its quote. -/
inductive Scans (q : Quoting) : List UInt8 → List UInt8 → List UInt8 → Prop
  | close {l r} : q.piece l = some (none, r) → Scans q l [] r
  | read {l d l' ds r} : q.piece l = some (some d, l') → Scans q l' ds r → Scans q l (d ++ ds) r

/-- Reads the rest of a literal, behind its opening quote. -/
def scan (q : Quoting) : Nat → List UInt8 → Option (List UInt8 × List UInt8)
  | 0, _ => none
  | n + 1, l =>
      match q.piece l with
      | none => none
      | some (none, r) => some ([], r)
      | some (some d, l') =>
          match q.scan n l' with
          | none => none
          | some (ds, r) => some (d ++ ds, r)

/-- Every piece of the text stands for itself. -/
inductive Plain (q : Quoting) : List UInt8 → Prop
  | nil : Plain q []
  | cons {raw m} : raw ≠ [] → (∀ X, q.piece (raw ++ X) = some (some raw, X)) → Plain q m →
      Plain q (raw ++ m)

theorem scans_of_scan {n : Nat} {l d r : List UInt8} (h : q.scan n l = some (d, r)) :
    q.Scans l d r := by
  induction n generalizing l d with
  | zero => cases h
  | succ n ih =>
      rw [scan] at h
      split at h
      · cases h
      · rename_i hp
        simp only [Option.some.injEq, Prod.mk.injEq] at h
        obtain ⟨rfl, rfl⟩ := h
        exact .close hp
      · rename_i hp
        split at h
        · cases h
        · rename_i hs
          simp only [Option.some.injEq, Prod.mk.injEq] at h
          obtain ⟨rfl, rfl⟩ := h
          exact .read hp (ih hs)

/-- Fuel for every byte is enough. -/
theorem scan_of_scans (hq : q.Lawful) {n : Nat} {l d r : List UInt8} (h : q.Scans l d r)
    (hn : l.length < n) : q.scan n l = some (d, r) := by
  induction h generalizing n with
  | close hp =>
      obtain ⟨n, rfl⟩ : ∃ k, n = k + 1 := ⟨n - 1, by omega⟩
      rw [scan, hp]
  | read hp _ ih =>
      obtain ⟨n, rfl⟩ : ∃ k, n = k + 1 := ⟨n - 1, by omega⟩
      obtain ⟨raw, rfl, hraw, -⟩ := hq.read hp
      have hpos := List.length_pos_iff.mpr hraw
      rw [List.length_append] at hn
      rw [scan, hp]
      simp only [ih (n := n) (by omega)]

/-- A literal has at least as many bytes as it denotes. -/
theorem Scans.split (hq : q.Lawful) {l d r : List UInt8} (h : q.Scans l d r) :
    ∃ raw, l = raw ++ q.quote :: r ∧ d.length ≤ raw.length := by
  induction h with
  | close hp => exact ⟨[], hq.close hp, Nat.le_refl _⟩
  | read hp _ ih =>
      obtain ⟨raw, rfl, -, hle, -⟩ := hq.read hp
      obtain ⟨raw', rfl, hle'⟩ := ih
      refine ⟨raw ++ raw', by rw [List.append_assoc], ?_⟩
      simp only [List.length_append]
      omega

/-- A literal that ends inside `A ++ tail` ends in `A` when `tail` has no quote. -/
theorem Scans.suffix (hq : q.Lawful) {A tail d r : List UInt8} (h : q.Scans (A ++ tail) d r)
    (htail : q.quote ∉ tail) : ∃ B, r = B ++ tail ∧ d.length + 1 + B.length ≤ A.length := by
  obtain ⟨raw, heq, hle⟩ := h.split hq
  rcases List.append_eq_append_iff.mp heq with ⟨B, hB, htl⟩ | ⟨B, hA, hB⟩
  · refine absurd ?_ htail
    rw [htl]
    simp
  · cases B with
    | nil =>
        rw [List.nil_append] at hB
        refine absurd ?_ htail
        rw [← hB]
        simp
    | cons b B =>
        obtain ⟨rfl, rfl⟩ : b = q.quote ∧ r = B ++ tail := by
          simpa [eq_comm] using hB
        refine ⟨B, rfl, ?_⟩
        rw [hA]
        simp only [List.length_append, List.length_cons]
        omega

/-- Reading a text put between quotes as it is: the literal ends inside the text,
or at the quote behind it, or the last byte of the text escapes that quote. -/
theorem Scans.cases (hq : q.Lawful) {tail : List UInt8}
    (hclose : q.piece (q.quote :: tail) = some (none, tail)) {l d r : List UInt8}
    (h : q.Scans l d r) :
    ∀ m, l = m ++ q.quote :: tail →
      d.length < m.length ∨
      (r = tail ∧ d.length ≤ m.length ∧ (d.length = m.length → d = m ∧ q.Plain m)) ∨
      ∃ m₀ e d₁ d₂, m = m₀ ++ [e] ∧ q.isEsc e = true ∧ d = d₁ ++ q.quote :: d₂ ∧
        d₁.length ≤ m₀.length ∧ q.Scans tail d₂ r := by
  induction h with
  | close hp =>
      intro m hm
      rw [hq.close hp] at hm
      cases m with
      | nil =>
          obtain ⟨-, rfl⟩ := List.cons.inj hm
          exact Or.inr (Or.inl ⟨rfl, Nat.le_refl _, fun _ => ⟨rfl, .nil⟩⟩)
      | cons b m => exact Or.inl (Nat.succ_pos _)
  | @read l d l' ds r hp hs ih =>
      intro m hm
      obtain ⟨raw, rfl, hraw, hle, hself, hquote⟩ := hq.read hp
      rcases List.append_eq_append_iff.mp hm with ⟨m', rfl, hl'⟩ | ⟨b, hb, htl⟩
      · -- the piece lies inside the text
        rcases ih m' hl' with hlt | ⟨rfl, hle', hall⟩ | ⟨m₀, e, d₁, d₂, rfl, he, rfl, hlen, hs'⟩
        · refine Or.inl ?_
          simp only [List.length_append]
          omega
        · refine Or.inr (Or.inl ⟨rfl, by simp only [List.length_append]; omega, fun heq => ?_⟩)
          simp only [List.length_append] at heq
          obtain ⟨rfl, hplain⟩ := hself (by omega)
          obtain ⟨rfl, hm'⟩ := hall (by omega)
          exact ⟨rfl, .cons hraw hplain hm'⟩
        · refine Or.inr (Or.inr ⟨raw ++ m₀, e, d ++ d₁, d₂, ?_, he, ?_, ?_, hs'⟩)
          · rw [List.append_assoc]
          · rw [List.append_assoc]
          · simp only [List.length_append]
            omega
      · cases b with
        | nil =>
            -- the piece ends where the text does
            rw [List.append_nil] at hb
            subst hb
            rcases ih [] (by simpa using htl.symm) with hlt | ⟨rfl, hle', hall⟩ |
              ⟨m₀, e, d₁, d₂, hm₀, -⟩
            · exact absurd hlt (Nat.not_lt_zero _)
            · refine Or.inr (Or.inl ⟨rfl, ?_, fun heq => ?_⟩)
              · simp only [List.length_append, List.length_nil] at hle' ⊢
                omega
              · have hds : ds = [] := List.eq_nil_of_length_eq_zero (by simpa using hle')
                subst hds
                rw [List.append_nil] at heq ⊢
                obtain ⟨rfl, hplain⟩ := hself heq
                exact ⟨rfl, by simpa using Plain.cons hraw hplain .nil⟩
            · exact absurd hm₀.symm (by simp)
        | cons c b =>
            -- the piece reaches beyond the text: it is an escape byte and the quote
            obtain ⟨rfl, rfl⟩ : q.quote = c ∧ tail = b ++ l' := by simpa using htl
            cases hmnil : m with
            | nil =>
                subst hmnil
                rw [hb, List.nil_append, List.cons_append] at hp
                rw [hclose] at hp
                cases hp
            | cons x xs =>
                obtain ⟨rfl, ⟨e, he, hesc⟩, rfl⟩ := hquote m b hb (by simp [hmnil])
                rw [hmnil] at he
                refine Or.inr (Or.inr
                  ⟨[], e, [], ds, by simpa using he, hesc, rfl, Nat.le_refl _, ?_⟩)
                simpa using hs

/-- **When a text put between quotes as it is denotes itself.** If the literal
read starts with the text, every piece of the text stands for itself and the
literal ends where it was meant to. `htail` says that a literal that goes on
behind the text contains no escape byte. -/
theorem Scans.covers (hq : q.Lawful) {m tail d r : List UInt8}
    (hclose : q.piece (q.quote :: tail) = some (none, tail))
    (htail : ∀ d' r' e, q.Scans tail d' r' → q.isEsc e = true → e ∉ q.quote :: d')
    (h : q.Scans (m ++ q.quote :: tail) d r) (hpre : m <+: d) :
    d = m ∧ r = tail ∧ q.Plain m := by
  have hlen := hpre.length_le
  rcases h.cases hq hclose m rfl with hlt | ⟨hr, hle, hall⟩ | ⟨m₀, e, d₁, d₂, hm, he, hd, hd₁, hs⟩
  · omega
  · obtain ⟨hd, hplain⟩ := hall (by omega)
    exact ⟨hd, hr, hplain⟩
  · -- the escape byte `e` ends the text, so it stands in `d` at or behind the quote
    refine absurd ?_ (htail d₂ r e hs he)
    obtain ⟨u, hu⟩ := hpre
    have hmem : e ∈ d.drop d₁.length := by
      rw [← hu, hm, List.append_assoc, List.drop_append_of_le_length hd₁]
      simp
    rwa [hd, List.drop_left] at hmem

/-- A text whose pieces stand for themselves is read back. -/
theorem Plain.scans {m tail : List UInt8} (h : q.Plain m)
    (hclose : q.piece (q.quote :: tail) = some (none, tail)) :
    q.Scans (m ++ q.quote :: tail) m tail := by
  induction h with
  | nil => exact .close hclose
  | cons _ hplain _ ih =>
      rw [List.append_assoc]
      exact .read (hplain _) ih

end Quoting

end Lib
