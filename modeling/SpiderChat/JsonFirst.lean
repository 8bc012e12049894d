import SpiderChat.JsonValues

/-!
# SpiderChat.JsonFirst

The memory of the first pass. Every value of the text is allocated when it starts,
so the values lie in the order of the text, each with the next one in `next_alloc`;
the values that are open count what is in them. `Layout b shapes` says that these
are all the values there are, and `shapesOf` is what a text's value leaves.
-/

namespace SpiderChat.JsonC

open Lib

/-! ### Cells -/

/-- A value and what it owns. -/
abbrev Cell := JsonValue × Option Block

/-- The memory holds these values, the first of them at the address 0. -/
structure Image (m : Memory) (cells : List Cell) : Prop where
  values : ∀ k : Nat, m.values.get k = (cells[k]?).map Prod.fst
  blocks : ∀ k : Nat, m.blocks.get k = (cells[k]?).bind Prod.snd

/-- What the first pass keeps of a value: its parent and `u`. -/
abbrev Shape := Ptr × JsonU

/-- The value behind the one at `k`, when there are `total`. -/
def nextOf (total k : Nat) : Ptr := if k + 1 < total then some (k + 1) else none

/-- The values from the address `k` on, as the first pass leaves them. -/
def counted (total : Nat) : Nat → List Shape → List Cell
  | _, [] => []
  | k, c :: cs => (⟨c.1, c.2, .next_alloc (nextOf total k)⟩, none) :: counted total (k + 1) cs

variable {α : Type} {b b' : Builder} {total k : Nat} {settings : JsonSettings}
  {shapes pre post : List Shape} {u u' : JsonU} {p : Ptr}

theorem counted_append (xs ys : List Shape) :
    counted total k (xs ++ ys) = counted total k xs ++ counted total (k + xs.length) ys := by
  induction xs generalizing k with
  | nil => rfl
  | cons c xs ih =>
      rw [List.cons_append, counted, ih, counted, List.cons_append, List.length_cons]
      rw [Nat.add_assoc, Nat.add_comm 1]

@[simp] theorem length_counted (xs : List Shape) : (counted total k xs).length = xs.length := by
  induction xs generalizing k with
  | nil => rfl
  | cons c xs ih => rw [counted, List.length_cons, ih, List.length_cons]

theorem getElem?_counted (xs : List Shape) (i : Nat) :
    (counted total k xs)[i]? =
      (xs[i]?).map fun c => (⟨c.1, c.2, .next_alloc (nextOf total (k + i))⟩, none) := by
  induction xs generalizing k i with
  | nil => rfl
  | cons c xs ih =>
      cases i with
      | zero => rfl
      | succ i =>
          rw [counted, List.getElem?_cons_succ, ih, List.getElem?_cons_succ, Nat.add_right_comm,
            Nat.add_assoc]

theorem getElem?_replace (xs ys : List α) (c c' : α) (i : Nat) :
    (xs ++ c' :: ys)[i]? = if i = xs.length then some c' else (xs ++ c :: ys)[i]? := by
  split
  · rename_i hi
    rw [hi, List.getElem?_append_right (Nat.le_refl _), Nat.sub_self]
    rfl
  · rename_i hi
    rcases Nat.lt_or_ge i xs.length with hlt | hge
    · rw [List.getElem?_append_left hlt, List.getElem?_append_left hlt]
    · obtain ⟨j, hj⟩ : ∃ j, i - xs.length = j + 1 := ⟨i - xs.length - 1, by omega⟩
      rw [List.getElem?_append_right hge, List.getElem?_append_right hge, hj]
      rfl

@[simp] theorem getElem?_middle (xs ys : List α) (c : α) :
    (xs ++ c :: ys)[xs.length]? = some c := by
  rw [List.getElem?_append_right (Nat.le_refl _), Nat.sub_self]
  rfl

section
variable {xs ys : List Cell} {value : JsonValue} {block : Option Block}

/-- A value is overwritten. -/
theorem Image.setU (h : Image b.mem (xs ++ (value, block) :: ys)) {a : Addr} (ha : a = xs.length)
    (value' : JsonValue) (u : JsonU) :
    Image (b.setU a value' u).mem (xs ++ ({ value' with u }, block) :: ys) := by
  subst ha
  constructor
  · intro i
    rw [getElem?_replace xs ys (value, block)]
    refine (Heap.get_set _ _ _ _).trans ?_
    split
    · rfl
    · exact h.values i
  · intro i
    refine (h.blocks i).trans ?_
    rw [getElem?_replace xs ys (value, block) ({ value' with u }, block)]
    split
    · rename_i hi
      rw [hi, getElem?_middle]
      rfl
    · rfl

/-- What a value owns is overwritten. -/
theorem Image.setBlock (h : Image b.mem (xs ++ (value, block) :: ys)) {a : Addr}
    (ha : a = xs.length) (block' : Block) :
    Image (b.setBlock a block').mem (xs ++ (value, some block') :: ys) := by
  subst ha
  constructor
  · intro i
    refine (h.values i).trans ?_
    rw [getElem?_replace xs ys (value, block) (value, some block')]
    split
    · rename_i hi
      rw [hi, getElem?_middle]
      rfl
    · rfl
  · intro i
    rw [getElem?_replace xs ys (value, block)]
    refine (Heap.get_set _ _ _ _).trans ?_
    split
    · rfl
    · exact h.blocks i

theorem Image.read (h : Image b.mem (xs ++ (value, block) :: ys)) :
    b.read (some xs.length) = .ok (xs.length, value) :=
  Builder.read_eq_ok.mpr ⟨rfl, by rw [h.values, getElem?_middle]; rfl⟩

end

/-! ### The values so far -/

/-- The last of `n` addresses. -/
def lastOf : Nat → Ptr
  | 0 => none
  | n + 1 => some n

/-- The first of `n` addresses. -/
def firstOf : Nat → Ptr
  | 0 => none
  | _ + 1 => some 0

/-- These are the values that the first pass has made. -/
structure Layout (b : Builder) (shapes : List Shape) : Prop where
  image : Image b.mem (counted shapes.length 0 shapes)
  calls : b.mem.calls = shapes.length
  used : b.mem.used_memory = 0
  root : b.root = firstOf shapes.length
  alloc : b.alloc = lastOf shapes.length

theorem lastOf_pos {n : Nat} (h : 0 < n) : lastOf n = some (n - 1) := by
  cases n with
  | zero => cases h
  | succ n => rfl

theorem layout_before : Layout (before none Memory.empty) [] := ⟨⟨fun _ => rfl, fun _ => rfl⟩, rfl,
  rfl, rfl, rfl⟩

theorem Layout.read (h : Layout b (pre ++ (p, u) :: post)) :
    b.read (some pre.length) = .ok (pre.length,
      ⟨p, u, .next_alloc (nextOf (pre ++ (p, u) :: post).length pre.length)⟩) := by
  have himage := h.image
  rw [counted_append, counted, Nat.zero_add] at himage
  have hread := himage.read
  rwa [length_counted] at hread

theorem Layout.read_top (h : Layout b (pre ++ (p, u) :: post)) (htop : b.top = some pre.length) :
    b.read b.top = .ok (pre.length,
      ⟨p, u, .next_alloc (nextOf (pre ++ (p, u) :: post).length pre.length)⟩) := by
  rw [htop]
  exact h.read

theorem Layout.setU (h : Layout b (pre ++ (p, u) :: post)) {value : JsonValue}
    (hread : b.read (some pre.length) = .ok (pre.length, value)) (u' : JsonU) :
    Layout (b.setU pre.length value u') (pre ++ (p, u') :: post) := by
  have hlen : (pre ++ (p, u') :: post).length = (pre ++ (p, u) :: post).length := by simp
  obtain rfl := (Prod.mk.inj (Except.ok.inj (h.read.symm.trans hread))).2
  have himage := h.image
  rw [counted_append, counted, Nat.zero_add] at himage
  constructor
  · have hset := himage.setU (a := pre.length) (length_counted _).symm
      ⟨p, u, .next_alloc (nextOf (pre ++ (p, u) :: post).length pre.length)⟩ u'
    rw [hlen, counted_append, counted, Nat.zero_add]
    exact hset
  · exact h.calls.trans hlen.symm
  · exact h.used
  · rw [hlen]
    exact h.root
  · rw [hlen]
    exact h.alloc

/-! ### New values -/

/-- An allocation fails. -/
def Refused (settings : JsonSettings) : Prop :=
  ∃ calls size, settings.mem_alloc calls size = false

theorem jsonAlloc_eq {m : Memory} (size : Nat) (hmax : settings.max_memory = 0)
    (hused : m.used_memory = 0) (hsize : size ≤ ulong_max) :
    jsonAlloc settings m size = some { m with calls := m.calls + 1 } ∨
      jsonAlloc settings m size = none ∧ Refused settings := by
  unfold jsonAlloc
  rw [if_neg (by omega)]
  simp only [hmax, ne_eq, not_true_eq_false, if_false, false_and]
  cases halloc : settings.mem_alloc m.calls size with
  | true => exact .inl rfl
  | false => exact .inr ⟨rfl, _, _, halloc⟩

/-- The first pass stops because an allocation fails, with these values made. -/
def Kept (settings : JsonSettings) (f : Option Fault) : Prop :=
  Refused settings ∧ ∃ b shapes, f = some (.alloc b) ∧ Layout b shapes

theorem not_kept_none : ¬ Kept settings none := by
  rintro ⟨-, b, shapes, h, -⟩
  cases h

/-- What holds of an operation of the first pass. -/
abbrev First (settings : JsonSettings) (P : α → Prop) (x : Op α) : Prop :=
  Ensures P (fun f => Kept settings (some f)) x

theorem First.eff {P : α → Prop} {x : Op α} (h : First settings P x) :
    Ensures P (Kept settings) (eff x) := by
  cases x with
  | ok a => exact h
  | error f => exact h

theorem nextOf_succ {n k : Nat} (h : k + 1 < n) : nextOf (n + 1) k = nextOf n k := by
  simp [nextOf, h, Nat.lt_succ_of_lt h]

/-- The last value so far gets the new one as its next. -/
theorem linkAlloc_eq {values : Heap JsonValue} {c : Shape}
    (hvalues : ∀ i : Nat, values.get i = ((counted shapes.length 0 shapes)[i]?).map Prod.fst)
    (hcalls : k = shapes.length) :
    ∃ values', linkAlloc (values.set k ⟨c.1, c.2, .next_alloc none⟩) (lastOf k) k = .ok values' ∧
      ∀ i : Nat, values'.get i = ((counted (k + 1) 0 (shapes ++ [c]))[i]?).map Prod.fst := by
  subst hcalls
  have hlast : nextOf (shapes.length + 1) shapes.length = none := by simp [nextOf]
  have hnew : ∀ i : Nat, ((counted (shapes.length + 1) 0 (shapes ++ [c]))[i]?).map Prod.fst =
      if i = shapes.length then some ⟨c.1, c.2, .next_alloc none⟩
      else (shapes[i]?).map fun c =>
        ⟨c.1, c.2, .next_alloc (nextOf (shapes.length + 1) i)⟩ := by
    intro i
    rw [getElem?_counted, Nat.zero_add]
    split
    · rename_i hi
      rw [hi, getElem?_middle, hlast]
      rfl
    · rename_i hi
      rcases Nat.lt_or_ge i shapes.length with hlt | hge
      · rw [List.getElem?_append_left hlt, Option.map_map]
        rfl
      · rw [List.getElem?_eq_none (by simp; omega), List.getElem?_eq_none hge]
        rfl
  have hold : ∀ i : Nat, values.get i =
      (shapes[i]?).map fun c => ⟨c.1, c.2, .next_alloc (nextOf shapes.length i)⟩ := by
    intro i
    rw [hvalues, getElem?_counted, Nat.zero_add, Option.map_map]
    rfl
  -- only the value that was the last one is changed
  rcases Nat.eq_zero_or_pos shapes.length with hn | hn
  · obtain rfl : shapes = [] := List.eq_nil_of_length_eq_zero hn
    refine ⟨_, rfl, fun i => ?_⟩
    rw [hnew, Heap.get_set, hold]
    rfl
  · have hlt : shapes.length - 1 < shapes.length := by omega
    have hget : (values.set shapes.length ⟨c.1, c.2, .next_alloc none⟩).get (shapes.length - 1) =
        some ⟨shapes[shapes.length - 1].1, shapes[shapes.length - 1].2,
          .next_alloc (nextOf shapes.length (shapes.length - 1))⟩ := by
      rw [Heap.get_set_ne (Nat.ne_of_lt hlt), hold, List.getElem?_eq_getElem hlt]
      rfl
    refine ⟨_, by rw [lastOf_pos hn, linkAlloc]; simp only [hget]; rfl, fun i => ?_⟩
    rw [hnew, Heap.get_set]
    split
    · rename_i hi
      have hnext : nextOf (shapes.length + 1) (shapes.length - 1) = some shapes.length := by
        rw [nextOf, Nat.sub_add_cancel hn, if_pos (Nat.lt_succ_self _)]
      rw [hi, if_neg (by omega), List.getElem?_eq_getElem hlt, Option.map_some, hnext]
    · rename_i hi
      rw [Heap.get_set]
      split
      · rfl
      · rename_i hi'
        rw [hold]
        rcases Nat.lt_or_ge (i + 1) shapes.length with hlt | hge
        · rw [nextOf_succ hlt]
        · have hi₁ : i ≠ shapes.length - 1 := hi
          have hi₂ : i ≠ shapes.length := hi'
          have hnone : shapes[i]? = none := List.getElem?_eq_none (by omega)
          rw [hnone]
          rfl

theorem Layout.allocValue (h : Layout b shapes) (hmax : settings.max_memory = 0)
    (type : JsonType) :
    First settings (fun b' => Layout b' (shapes ++ [(b.top, type.zero)]) ∧
      b'.top = some shapes.length) (allocValue settings b type) := by
  unfold JsonC.allocValue
  rcases jsonAlloc_eq 40 hmax h.used (by decide) with halloc | ⟨halloc, hrefused⟩
  · rw [halloc]
    obtain ⟨values', hlink, hget⟩ := linkAlloc_eq (c := (b.top, type.zero)) h.image.values h.calls
    dsimp only
    rw [h.alloc, ← h.calls, hlink]
    refine ⟨⟨⟨?_, ?_⟩, ?_, h.used, ?_, ?_⟩, rfl⟩
    · intro i
      rw [List.length_append, ← h.calls]
      exact hget i
    · intro i
      refine (h.image.blocks i).trans ?_
      rw [getElem?_counted, getElem?_counted]
      cases shapes[i]? <;> cases (shapes ++ [(b.top, type.zero)])[i]? <;> rfl
    · rw [List.length_append, ← h.calls]
      rfl
    · rw [List.length_append, h.root]
      cases hn : shapes.length with
      | zero => rw [h.calls, hn]; rfl
      | succ n => rfl
    · rw [List.length_append, ← h.calls]
      rfl
  · rw [halloc]
    exact ⟨hrefused, b, shapes, rfl, h⟩

/-! ### The operations of the first pass -/

/-- Nothing but the string that is read has changed. -/
theorem Layout.string (h : Layout b shapes) (string : Option CharPtr) (string_length : Nat) :
    Layout { b with string, string_length } shapes :=
  ⟨h.image, h.calls, h.used, h.root, h.alloc⟩

theorem Layout.top (h : Layout b shapes) (top : Ptr) : Layout { b with top } shapes :=
  ⟨h.image, h.calls, h.used, h.root, h.alloc⟩

theorem Layout.openString (h : Layout b shapes) (hmax : settings.max_memory = 0) :
    First settings (fun b' => Layout b' (shapes ++ [(b.top, .string 0 none)]) ∧
      b'.top = some shapes.length ∧ b'.string_length = 0) (openString settings true b) := by
  unfold JsonC.openString
  refine (h.allocValue hmax .json_string).bind fun b₁ hb₁ => ?_
  obtain ⟨hlayout, htop⟩ := hb₁
  rw [hlayout.read_top htop]
  exact ⟨hlayout.string _ 0, htop, rfl⟩

theorem Layout.openName (h : Layout b (pre ++ (p, u) :: post)) (htop : b.top = some pre.length) :
    First settings (fun b' => Layout b' (pre ++ (p, u) :: post) ∧ b'.top = b.top ∧
      b'.string_length = 0) (openName b) := by
  unfold JsonC.openName
  rw [h.read_top htop]
  exact ⟨h.string _ 0, rfl, rfl⟩

theorem stringAdd_true (b : Builder) (x : Bytes) :
    stringAdd true b x = .ok { b with string_length := b.string_length + x.length } := by
  induction x generalizing b with
  | nil => rfl
  | cons c x ih =>
      rw [stringAdd, List.foldlM_cons, addChar, inSecond_true, pure_bind, pure_bind]
      refine (ih _).trans ?_
      rw [List.length_cons, Nat.add_assoc, Nat.add_comm 1]

/-- The closing quote of a string. -/
theorem Layout.closeString {n : Nat} {ptr : Ptr}
    (h : Layout b (pre ++ (p, .string n ptr) :: post)) (htop : b.top = some pre.length) :
    First settings (fun q => q.2 = true ∧
      Layout q.1 (pre ++ (p, .string b.string_length ptr) :: post) ∧ q.1.top = b.top)
      (closeQuote true b) := by
  have hclosed := h.string none b.string_length
  unfold closeQuote
  rw [inSecond_true, pure_bind]
  dsimp only
  rw [hclosed.read_top htop]
  exact ⟨rfl, hclosed.setU hclosed.read _, rfl⟩

/-- The closing quote of a name. -/
theorem Layout.closeName {n bytes : Nat}
    (h : Layout b (pre ++ (p, .object n (.size bytes)) :: post)) (htop : b.top = some pre.length) :
    First settings (fun q => q.2 = false ∧
      Layout q.1 (pre ++ (p, .object n (.size (bytes + (b.string_length + 1)))) :: post) ∧
      q.1.top = b.top) (closeQuote true b) := by
  have hclosed := h.string none b.string_length
  unfold closeQuote
  rw [inSecond_true, pure_bind]
  dsimp only
  rw [hclosed.read_top htop]
  exact ⟨rfl, hclosed.setU hclosed.read _, rfl⟩

theorem Layout.finish_root (h : Layout b (pre ++ (none, u) :: post))
    (htop : b.top = some pre.length) : finish true b = .ok (.done, b) := by
  unfold JsonC.finish leaveTop
  rw [h.read_top htop]
  rfl

/-- The end of a value in the one at `pre.length`. -/
theorem Layout.finish {n : Nat} {w : JsonU} {xs ys : List Shape}
    (h : Layout b (pre ++ (p, u) :: post))
    (hsplit : pre ++ (p, u) :: post = xs ++ (some pre.length, w) :: ys)
    (htop : b.top = some xs.length) (hgrow : u.grow = .ok (n, u')) (hn : n < uint_max) :
    First settings (fun q => q.1 = modeAfter (some u.type) ∧
      Layout q.2 (pre ++ (p, u') :: post) ∧ q.2.top = some pre.length) (finish true b) := by
  have hchild := (hsplit ▸ h).read_top htop
  unfold JsonC.finish leaveTop
  rw [hchild]
  simp only [ok_bind, h.read, leave, hgrow, inSecond_true, pure_bind]
  rw [if_neg (by omega)]
  exact ⟨rfl, (h.setU h.read u').top _, rfl⟩

/-! ### What a value leaves -/

/-- The name of a member with its zero byte, for all members. -/
def namesSize : List (Bytes × Value) → Nat
  | [] => 0
  | (k, _) :: ms => k.length + 1 + namesSize ms

mutual

/-- The values of a text's value `v` that starts at the address `k`, in a value `p`. -/
def shapesOf : Value → Ptr → Nat → List Shape
  | .object ms, p, k =>
      (p, .object ms.length (.size (namesSize ms))) :: shapesOfMembers ms k (k + 1)
  | .array xs, p, k => (p, .array xs.length none) :: shapesOfElems xs k (k + 1)
  | .integer n, p, _ => [(p, .integer n)]
  | .double d, p, _ => [(p, .double d)]
  | .string s, p, _ => [(p, .string s.length none)]
  | .boolean b, p, _ => [(p, .boolean b)]
  | .null, p, _ => [(p, .null)]

def shapesOfElems : List Value → Addr → Nat → List Shape
  | [], _, _ => []
  | x :: xs, p, k =>
      shapesOf x (some p) k ++ shapesOfElems xs p (k + (shapesOf x (some p) k).length)

def shapesOfMembers : List (Bytes × Value) → Addr → Nat → List Shape
  | [], _, _ => []
  | (_, x) :: ms, p, k =>
      shapesOf x (some p) k ++ shapesOfMembers ms p (k + (shapesOf x (some p) k).length)

end

theorem shapesOf_cons (v : Value) (p : Ptr) (k : Nat) :
    ∃ u rest, shapesOf v p k = (p, u) :: rest := by
  cases v <;> exact ⟨_, _, by rw [shapesOf]⟩

section
variable (hmax : settings.max_memory = 0)
include hmax

theorem Layout.buildNumber (h : Layout b shapes) (u : JsonU) :
    First settings (fun b' => Layout b' (shapes ++ [(b.top, u)]) ∧ b'.top = some shapes.length)
      (buildNumber settings true u b) := by
  unfold JsonC.buildNumber
  refine (h.allocValue hmax .json_integer).bind fun b₁ hb₁ => ?_
  obtain ⟨hlayout, htop⟩ := hb₁
  rw [if_pos rfl, hlayout.read_top htop]
  exact ⟨hlayout.setU hlayout.read u, htop⟩

theorem Layout.buildWord (h : Layout b shapes) (type : JsonType) (value : Option Bool) :
    First settings (fun b' => Layout b' (shapes ++ [(b.top, (value.map .boolean).getD type.zero)]) ∧
      b'.top = some shapes.length) (buildWord settings true type value b) := by
  unfold JsonC.buildWord
  refine (h.allocValue hmax type).bind fun b₁ hb₁ => ?_
  obtain ⟨hlayout, htop⟩ := hb₁
  cases value with
  | none => exact ⟨hlayout, htop⟩
  | some boolean =>
      dsimp only
      rw [hlayout.read_top htop]
      exact ⟨hlayout.setU hlayout.read _, htop⟩

theorem Layout.buildString (h : Layout b shapes) (s : Bytes) :
    Ensures (fun b' => Layout b' (shapes ++ [(b.top, .string s.length none)]) ∧
      b'.top = some shapes.length) (Kept settings) (build settings true (.string s) b) := by
  rw [build]
  refine (h.openString hmax).eff.bind fun b₁ hb₁ => ?_
  obtain ⟨hlayout, htop, hlen⟩ := hb₁
  rw [buildChars, stringAdd_true, eff_ok, ok_bind]
  have hadded := hlayout.string b₁.string (b₁.string_length + s.length)
  refine (hadded.closeString htop).eff.bind fun q hq => ?_
  obtain ⟨hstring, hlayout', htop'⟩ := hq
  dsimp only
  rw [if_pos hstring]
  rw [hlen, Nat.zero_add] at hlayout'
  exact ⟨hlayout', htop'.trans htop⟩

omit hmax in
theorem Layout.buildName {n bytes : Nat}
    (h : Layout b (pre ++ (p, .object n (.size bytes)) :: post))
    (htop : b.top = some pre.length) (k : Bytes) :
    Ensures (fun b' => Layout b' (pre ++ (p, .object n (.size (bytes + (k.length + 1)))) :: post) ∧
      b'.top = some pre.length) (Kept settings)
      (eff (JsonC.openName b) >>= buildChars true false k) := by
  refine (h.openName htop).eff.bind fun b₁ hb₁ => ?_
  obtain ⟨hlayout, htop', hlen⟩ := hb₁
  rw [buildChars, stringAdd_true, eff_ok, ok_bind]
  have hadded := hlayout.string b₁.string (b₁.string_length + k.length)
  refine (hadded.closeName (htop'.trans htop)).eff.bind fun q hq => ?_
  obtain ⟨hname, hlayout', htop''⟩ := hq
  dsimp only
  rw [if_pos hname]
  rw [hlen, Nat.zero_add] at hlayout'
  exact ⟨hlayout', htop''.trans (htop'.trans htop)⟩

end

/-! ### The first pass -/

theorem inType_of_read (type : JsonType) {a : Addr} {value : JsonValue}
    (h : b.read b.top = .ok (a, value)) (hu : value.u.type = type) : inType type b = .ok b := by
  rw [inType, h]
  exact if_pos hu

theorem length_le_weightElems (xs : List Value) : xs.length ≤ weightElems xs := by
  induction xs with
  | nil => exact Nat.le_refl _
  | cons x xs ih =>
      have hx : 0 < x.weight := weight_pos x
      rw [List.length_cons, weightElems]
      omega

theorem length_le_weightMembers (ms : List (Bytes × Value)) : ms.length ≤ weightMembers ms := by
  induction ms with
  | nil => exact Nat.le_refl _
  | cons m ms ih =>
      obtain ⟨k, x⟩ := m
      rw [List.length_cons, weightMembers]
      omega

/-- A value of the first pass is allocated behind the others. -/
def ValueCounts (settings : JsonSettings) (v : Value) : Prop :=
  v.weight ≤ uint_max → ∀ b shapes, Layout b shapes →
    Ensures (fun b' => Layout b' (shapes ++ shapesOf v b.top shapes.length) ∧
      b'.top = some shapes.length) (Kept settings) (build settings true v b)

def ElemsCount (settings : JsonSettings) (xs : List Value) : Prop :=
  weightElems xs ≤ uint_max → ∀ b pre p n post, n + xs.length ≤ uint_max →
    Layout b (pre ++ (p, .array n none) :: post) → b.top = some pre.length →
    Ensures (fun b' => Layout b' (pre ++ (p, .array (n + xs.length) none) :: (post ++
        shapesOfElems xs pre.length (pre.length + 1 + post.length))) ∧
      b'.top = some pre.length) (Kept settings) (buildElems settings true xs b)

def MembersCount (settings : JsonSettings) (ms : List (Bytes × Value)) : Prop :=
  weightMembers ms ≤ uint_max → ∀ b pre p n bytes post, n + ms.length ≤ uint_max →
    Layout b (pre ++ (p, .object n (.size bytes)) :: post) → b.top = some pre.length →
    Ensures (fun b' => Layout b' (pre ++ (p, .object (n + ms.length) (.size (bytes +
        namesSize ms))) :: (post ++ shapesOfMembers ms pre.length (pre.length + 1 + post.length))) ∧
      b'.top = some pre.length) (Kept settings) (buildMembers settings true ms b)

/-- The end of the value that was allocated last. -/
theorem Layout.finishIn (settings : JsonSettings) {n : Nat} {mode : Mode} {v : Value}
    (h : Layout b (pre ++ (p, u) :: (post ++ shapesOf v (some pre.length)
      (pre.length + 1 + post.length)))) (htop : b.top = some (pre.length + 1 + post.length))
    (hgrow : u.grow = .ok (n, u')) (hn : n < uint_max) (hmode : modeAfter (some u.type) = mode) :
    Ensures (fun b' => Layout b' (pre ++ (p, u') :: (post ++ shapesOf v (some pre.length)
      (pre.length + 1 + post.length))) ∧ b'.top = some pre.length) (Kept settings)
      (finishIn true mode b) := by
  obtain ⟨w, rest, hw⟩ := shapesOf_cons v (some pre.length) (pre.length + 1 + post.length)
  have hsplit : pre ++ (p, u) :: (post ++ shapesOf v (some pre.length)
      (pre.length + 1 + post.length)) =
      (pre ++ (p, u) :: post) ++ (some pre.length, w) :: rest := by
    rw [hw]
    simp
  have hlen : (pre ++ (p, u) :: post).length = pre.length + 1 + post.length := by
    simp only [List.length_append, List.length_cons]
    omega
  unfold JsonC.finishIn
  refine (h.finish hsplit (by rw [hlen]; exact htop) hgrow hn).eff.bind fun q hq => ?_
  obtain ⟨hq, hlayout, htop⟩ := hq
  dsimp only
  rw [if_pos (hq.trans hmode)]
  exact ⟨hlayout, htop⟩

theorem elemsCount_cons {x : Value} {xs : List Value} (hx : ValueCounts settings x)
    (hxs : ElemsCount settings xs) : ElemsCount settings (x :: xs) := by
  intro hweight b pre p n post hn h htop
  rw [weightElems] at hweight
  rw [List.length_cons] at hn
  rw [buildElems]
  refine (hx (by omega) b _ h).bind fun b₁ hb₁ => ?_
  obtain ⟨h₁, htop₁⟩ := hb₁
  have hlen : (pre ++ (p, JsonU.array n none) :: post).length = pre.length + 1 + post.length := by
    simp only [List.length_append, List.length_cons]
    omega
  rw [htop, hlen, List.append_assoc, List.cons_append] at h₁
  rw [hlen] at htop₁
  have hfinish := h₁.finishIn settings htop₁ (n := n) rfl (by omega) rfl
  refine hfinish.bind fun b₂ hb₂ => ?_
  obtain ⟨h₂, htop₂⟩ := hb₂
  refine (hxs (by omega) b₂ pre p (n + 1) _ (by omega) h₂ htop₂).mono fun b₃ hb₃ => ?_
  rw [shapesOfElems, List.length_cons]
  rw [List.append_assoc, List.length_append, Nat.add_right_comm n 1, ← Nat.add_assoc] at hb₃
  exact hb₃

theorem membersCount_cons {k : Bytes} {x : Value} {ms : List (Bytes × Value)}
    (hx : ValueCounts settings x) (hms : MembersCount settings ms) :
    MembersCount settings ((k, x) :: ms) := by
  intro hweight b pre p n bytes post hn h htop
  rw [weightMembers] at hweight
  rw [List.length_cons] at hn
  -- the name is counted before the value, and the member behind it
  have hbuild : buildMembers settings true ((k, x) :: ms) b =
      (eff (openName b) >>= buildChars true false k) >>= fun b =>
        build settings true x b >>= fun b => finishIn true (.inside true) b >>= fun b =>
          buildMembers settings true ms b := by
    rw [buildMembers, bind_assoc]
  rw [hbuild]
  refine (h.buildName htop k).bind fun b₀ hb₀ => ?_
  obtain ⟨h₀, htop₀⟩ := hb₀
  refine (hx (by omega) b₀ _ h₀).bind fun b₁ hb₁ => ?_
  obtain ⟨h₁, htop₁⟩ := hb₁
  -- the object stands where it stood, with the new values behind it
  have hlen : (pre ++ (p, JsonU.object n (.size (bytes + (k.length + 1)))) :: post).length =
      pre.length + 1 + post.length := by
    simp only [List.length_append, List.length_cons]
    omega
  rw [htop₀, hlen, List.append_assoc, List.cons_append] at h₁
  rw [hlen] at htop₁
  have hfinish := h₁.finishIn settings htop₁ (n := n) rfl (by omega) rfl
  refine hfinish.bind fun b₂ hb₂ => ?_
  obtain ⟨h₂, htop₂⟩ := hb₂
  refine (hms (by omega) b₂ pre p (n + 1) _ _ (by omega) h₂ htop₂).mono fun b₃ hb₃ => ?_
  rw [shapesOfMembers, List.length_cons, namesSize]
  rw [List.append_assoc, List.length_append, Nat.add_right_comm n 1, Nat.add_assoc n,
    Nat.add_assoc bytes, ← Nat.add_assoc (pre.length + 1)] at hb₃
  exact hb₃

mutual

/-- **The first pass** makes a value for every value of the text, in their order. -/
theorem valueCounts (hmax : settings.max_memory = 0) : (v : Value) → ValueCounts settings v
  | .object ms => by
      intro hweight b shapes h
      rw [Value.weight] at hweight
      have hlen := length_le_weightMembers ms
      rw [build]
      refine (h.allocValue hmax .json_object).eff.bind fun b₁ hb₁ => ?_
      obtain ⟨h₁, htop₁⟩ := hb₁
      -- the object is the newest value, and its members come behind it
      rw [inType_of_read .json_object (h₁.read_top htop₁) rfl, ok_bind]
      have hms := membersCount hmax ms (by omega) b₁ shapes b.top 0 0 [] (by omega) h₁ htop₁
      rw [shapesOf]
      simpa only [Nat.zero_add, Nat.add_zero, List.length_nil, List.nil_append] using hms
  | .array xs => by
      intro hweight b shapes h
      rw [Value.weight] at hweight
      have hlen := length_le_weightElems xs
      rw [build]
      refine (h.allocValue hmax .json_array).eff.bind fun b₁ hb₁ => ?_
      obtain ⟨h₁, htop₁⟩ := hb₁
      rw [inType_of_read .json_array (h₁.read_top htop₁) rfl, ok_bind]
      have hxs := elemsCount hmax xs (by omega) b₁ shapes b.top 0 [] (by omega) h₁ htop₁
      rw [shapesOf]
      simpa only [Nat.zero_add, Nat.add_zero, List.length_nil, List.nil_append] using hxs
  | .integer n => by
      intro hweight b shapes h
      rw [build, shapesOf]
      exact (h.buildNumber hmax _).eff
  | .double d => by
      intro hweight b shapes h
      rw [build, shapesOf]
      exact (h.buildNumber hmax _).eff
  | .string s => by
      intro hweight b shapes h
      rw [shapesOf]
      exact h.buildString hmax s
  | .boolean true => by
      intro hweight b shapes h
      rw [build, shapesOf]
      exact (h.buildWord hmax .json_boolean (some true)).eff
  | .boolean false => by
      intro hweight b shapes h
      rw [build, shapesOf]
      exact (h.buildWord hmax .json_boolean none).eff
  | .null => by
      intro hweight b shapes h
      rw [build, shapesOf]
      exact (h.buildWord hmax .json_null none).eff

theorem elemsCount (hmax : settings.max_memory = 0) :
    (xs : List Value) → ElemsCount settings xs
  | [] => by
      intro hweight b pre p n post hn h htop
      rw [buildElems, shapesOfElems, List.append_nil]
      exact ⟨h, htop⟩
  | x :: xs => elemsCount_cons (valueCounts hmax x) (elemsCount hmax xs)

theorem membersCount (hmax : settings.max_memory = 0) :
    (ms : List (Bytes × Value)) → MembersCount settings ms
  | [] => by
      intro hweight b pre p n bytes post hn h htop
      rw [buildMembers, shapesOfMembers, List.append_nil]
      exact ⟨h, htop⟩
  | (_, x) :: ms => membersCount_cons (valueCounts hmax x) (membersCount hmax ms)

end

variable (settings) in
/-- The first pass over a text that is read. -/
theorem firstPass_of_readText {l : Bytes} {v : Value} (hmax : settings.max_memory = 0)
    (hread : readText l = some v) (hlen : l.length ≤ uint_max) :
    (∃ s, runPass settings true (start l none Memory.empty) = some (.done s) ∧
        Layout s.build (shapesOf v none 0)) ∨
      ∃ e t, runPass settings true (start l none Memory.empty) = some (.failed e t) ∧
        Refused settings ∧ ∃ shapes, Layout t.build shapes := by
  have hweight := Nat.le_trans (weight_le_of_readText hread) hlen
  have hpass := runPass_of_readText settings true none Memory.empty hread hlen
    (P := fun b => Layout b (shapesOf v none 0)) not_kept_none (by
      refine (valueCounts hmax v hweight _ _ layout_before).bind fun b hb => ?_
      obtain ⟨hlayout, htop⟩ := hb
      obtain ⟨u, rest, hu⟩ := shapesOf_cons v none 0
      have hroot : Layout b ([] ++ (none, u) :: rest) := by
        rw [List.nil_append, ← hu]
        exact hlayout
      rw [hroot.finish_root htop]
      exact ⟨rfl, hlayout⟩)
  rcases hpass with hdone | ⟨f, t, hstop, hrefused, b, shapes, hf, hlayout⟩
  · exact .inl hdone
  · cases hf
    exact .inr ⟨_, _, hstop, hrefused, shapes, hlayout⟩

end SpiderChat.JsonC
