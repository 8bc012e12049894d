import SpiderChat.Types
import SpiderChat.Lib.Lines

/-!
# SpiderChat.Config

**The configuration file.** `config` looks a key up in a file of lines `key=value`: `strkv`
takes a line apart, and `config` compares the key. After a line with another key it clears the
key of its caller instead of the one that was read. So the key that is looked for has to be the
first one of the file (`config_iff`).

Undefined behaviour is `none` here as well; an `i` that was not assigned is read when no line
has the key. The caller's array for the value has room for it.
-/

namespace SpiderChat

open Lib

/-! ### The code -/

/-- `strkv`, on the text of a line and the arrays `key` and `value`. -/
def strkv (src key value : Bytes) : Option (Bool × Bytes × Bytes) :=
  if src.head? = some 35 then some (false, key, value)
  else
    match strchr src 61, (strchr src 13).or (strchr src 10) with
    | some p, some q => do
        let src := src.set q 0
        let key ← strncpy key 0 src p
        let value ← strcpy value (src.drop (p + 1))
        some (true, key, value)
    | _, _ => some (false, key, value)

/-- `memset(key, 0, strlen(key))` -/
def clearKey (key : Bytes) : Bytes :=
  List.replicate (cstr key).length 0 ++ key.drop (cstr key).length

/-- The loop of `config`: the caller's key behind it, and the value. -/
def configLoop : Nat → Bytes → Bytes → Bytes → Bytes → Option (Bytes × Bytes)
  | 0, _, _, _, _ => none
  | n + 1, fd, k, v, key =>
      match fgets 120 fd with
      | none => none
      | some (buf, fd) => do
          let (ret, k, v) ← strkv buf k v
          if ret then
            if 0 ∈ k then
              if cstr k = cstr key then some (key, cstr v)
              else configLoop n fd k v (clearKey key)
            else none
          else configLoop n fd k v key

/-- `config`, on the bytes of a file that can be opened. -/
def config (fd key : Bytes) : Option (Bytes × Bytes) :=
  configLoop (fd.length + 1) fd (List.replicate 50 0) (List.replicate 60 0) key

/-! ### The lines that are meant -/

/-- A line without LF or CRLF at its end. -/
def chomp (line : Bytes) : Bytes :=
  if line.getLast? = some 10 then
    if line.dropLast.getLast? = some 13 then line.dropLast.dropLast else line.dropLast
  else line

/-- What stands behind the first `=`. -/
def valueOf (line : Bytes) : Bytes := ((chomp line).dropWhile (· ≠ 61)).tail

/-- The key and the value of a line `key=value` that is no comment. -/
def keyValue (line : Bytes) : Option (Bytes × Bytes) :=
  if line.head? ≠ some 35 ∧ line.getLast? = some 10 ∧ 61 ∈ line then
    some (line.takeWhile (· ≠ 61), valueOf line)
  else none

/-- The value of the first line with this key. -/
def firstValue (fd key : Bytes) : Option Bytes :=
  (linesOf fd).findSome? fun line =>
    (keyValue line).bind fun kv => if kv.1 = key then some kv.2 else none

/-- A line is shorter than 120 bytes, its key shorter than 50 and its value than 60. -/
structure LineFits (line : Bytes) : Prop where
  short : line.length < 120
  key : line.head? ≠ some 35 → 61 ∈ line → (line.takeWhile (· ≠ 61)).length < 50
  value : line.head? ≠ some 35 → 61 ∈ line → (valueOf line).length < 60

instance (line : Bytes) : Decidable (LineFits line) :=
  decidable_of_iff (line.length < 120 ∧
      (line.head? ≠ some 35 → 61 ∈ line → (line.takeWhile (· ≠ 61)).length < 50) ∧
      (line.head? ≠ some 35 → 61 ∈ line → (valueOf line).length < 60))
    ⟨fun h => ⟨h.1, h.2.1, h.2.2⟩, fun h => ⟨h.short, h.key, h.value⟩⟩

/-! ### The lines that are taken -/

/-- The key and the value that `strkv` finds in a line. -/
def pairOf (line : Bytes) : Option (Bytes × Bytes) :=
  if line.head? = some 35 then none
  else do
    let p ← strchr line 61
    let q ← (strchr line 13).or (strchr line 10)
    some ((cstr (line.set q 0)).take p, cstr ((line.set q 0).drop (p + 1)))

/-- A line with the empty key that does not begin with `=`: it begins with CR. -/
def Resets (value line : Bytes) : Prop := pairOf line = some ([], value) ∧ line.head? ≠ some 61

/-- A line that can be read on the way to such a line. -/
def Passes (line : Bytes) : Prop :=
  ∀ k v, pairOf line = some (k, v) → v.length < 60 ∧ (k = [] → line.head? = some 61)

/-- The first line that `strkv` takes has a key that is not empty, and `Resets` holds of a
later line. -/
inductive AfterReset (value : Bytes) : List Bytes → Prop
  | skip {line : Bytes} {lines : List Bytes} (h : pairOf line = none)
      (hrest : AfterReset value lines) : AfterReset value (line :: lines)
  | first {line k v : Bytes} {lines : List Bytes} (h : pairOf line = some (k, v)) (hk : k ≠ [])
      (hv : v.length < 60) (hrest : Until Passes (Resets value) lines) :
      AfterReset value (line :: lines)

/-! ### One line -/

variable {line k v key value : Bytes}

theorem strkv_of_none (h : pairOf line = none) (key value : Bytes) :
    strkv line key value = some (false, key, value) := by
  unfold pairOf at h
  unfold strkv
  split
  · rfl
  · rename_i hcomment
    rw [if_neg hcomment] at h
    cases hp : strchr line 61 with
    | none => rfl
    | some p =>
        cases hq : (strchr line 13).or (strchr line 10) with
        | none => rfl
        | some q => simp [hp, hq] at h

theorem strkv_of_some (h : pairOf line = some (k, v)) (key value : Bytes) :
    line.head? ≠ some 35 ∧ 61 ∈ line ∧ ∃ src,
      k = (cstr src).take (line.takeWhile (· ≠ 61)).length ∧
      v = cstr (src.drop ((line.takeWhile (· ≠ 61)).length + 1)) ∧
      strkv line key value = (strncpy key 0 src (line.takeWhile (· ≠ 61)).length).bind fun key =>
        (strcpy value (src.drop ((line.takeWhile (· ≠ 61)).length + 1))).map fun value =>
          (true, key, value) := by
  unfold pairOf at h
  split at h
  · cases h
  · rename_i hcomment
    simp only [Option.bind_eq_bind, Option.bind_eq_some_iff, Option.some.injEq,
      Prod.mk.injEq] at h
    obtain ⟨p, hp, q, hq, rfl, rfl⟩ := h
    obtain ⟨hmem, rfl⟩ := strchr_eq_some hp
    refine ⟨hcomment, hmem, line.set q 0, rfl, rfl, ?_⟩
    simp only [strkv, hcomment, if_false, hp, hq, Option.bind_eq_bind, Option.map_eq_bind]
    rfl

/-- An array of 50 bytes that ends with a zero byte. -/
def KeyArray (key : Bytes) : Prop := ∃ xs, key = xs ++ [0] ∧ xs.length = 49

theorem keyArray_zero : KeyArray (List.replicate 50 0) := ⟨List.replicate 49 0, rfl, rfl⟩

theorem KeyArray.zero_mem (h : KeyArray key) : 0 ∈ key := by
  obtain ⟨xs, rfl, -⟩ := h
  simp

/-- What `strncpy` leaves in the array for the key. -/
theorem KeyArray.strncpy (h : KeyArray key) {src : Bytes} {p : Nat} (hp : p < 50)
    (hk : k = (cstr src).take p) :
    ∃ key', strncpy key 0 src p = some key' ∧ KeyArray key' ∧
      key' = k ++ List.replicate (p - k.length) 0 ++ key.drop p := by
  obtain ⟨xs, rfl, hxs⟩ := h
  have hle : k.length ≤ p := by rw [hk, List.length_take]; omega
  refine ⟨_, ?_, ?_, rfl⟩
  · rw [Lib.strncpy, if_pos (by simp; omega), ← hk]
    simp
  · refine ⟨k ++ List.replicate (p - k.length) 0 ++ xs.drop p, ?_, ?_⟩
    · rw [List.drop_append_of_le_length (by omega)]
      simp
    · simp
      omega

/-- A line that `strkv` takes. -/
theorem strkv_spec (h : pairOf line = some (k, v)) (hfits : LineFits line) (hkey : KeyArray key)
    (hvalue : value.length = 60) :
    (60 ≤ v.length ∧ strkv line key value = none) ∨
    v.length < 60 ∧ ∃ key' value', strkv line key value = some (true, key', value') ∧
      KeyArray key' ∧ value'.length = 60 ∧ cstr value' = v ∧
      (key = List.replicate 50 0 → cstr key' = k) ∧
      (cstr key ≠ [] → (cstr key' = [] ↔ k = [] ∧ line.head? ≠ some 61)) := by
  obtain ⟨hcomment, hmem, src, hk, hv, heq⟩ := strkv_of_some h key value
  set p := (line.takeWhile (· ≠ 61)).length with hp
  have hlt : p < 50 := hfits.key hcomment hmem
  obtain ⟨key', hcopy, harray, hkey'⟩ := hkey.strncpy hlt hk
  have hle : k.length ≤ p := by rw [hk, List.length_take]; omega
  have hzero : ∀ b ∈ k, b ≠ 0 := by
    intro b hb
    rw [hk] at hb
    exact ne_zero_of_mem_cstr (List.mem_of_mem_take hb)
  rw [heq, hcopy, Option.bind_some]
  cases hstrcpy : strcpy value (src.drop (p + 1)) with
  | none =>
      rw [strcpy_eq_none_iff, ← hv, hvalue] at hstrcpy
      exact .inl ⟨hstrcpy, rfl⟩
  | some value' =>
      obtain ⟨htext, hlen⟩ := strcpy_eq_some hstrcpy
      have hroom : v.length < 60 := by
        by_contra hge
        have hnone : strcpy value (src.drop (p + 1)) = none :=
          strcpy_eq_none_iff.mpr (by rw [← hv, hvalue]; omega)
        rw [hnone] at hstrcpy
        cases hstrcpy
      refine .inr ⟨hroom, key', value', rfl, harray, hlen.trans hvalue, htext.trans hv.symm, ?_, ?_⟩
      · rintro rfl
        rw [hkey', List.append_assoc, cstr_append hzero, List.drop_replicate,
          List.replicate_append_replicate]
        simp [cstr]
      · intro hdirty
        have hhead : p = 0 ↔ line.head? = some 61 := length_takeWhile_eq_zero_iff hmem
        by_cases hpos : p = 0
        · have hsame : key' = key := by
            rw [hpos, strncpy_zero] at hcopy
            exact (Option.some.inj hcopy).symm
          rw [hsame]
          exact iff_of_false hdirty fun hreset => hreset.2 (hhead.mp hpos)
        · rw [hkey', List.append_assoc, cstr_append hzero, List.append_eq_nil_iff]
          refine and_congr_right fun hnil => iff_of_true ?_ fun heq => hpos (hhead.mpr heq)
          obtain ⟨n, hn⟩ : ∃ n, p - k.length = n + 1 :=
            ⟨p - 1, by rw [hnil, List.length_nil]; omega⟩
          simp [hn, List.replicate_succ, cstr]

theorem cstr_clearKey (key : Bytes) : cstr (clearKey key) = [] := by
  unfold clearKey
  cases hn : (cstr key).length with
  | zero => exact List.length_eq_zero_iff.mp hn
  | succ n => simp [List.replicate_succ, cstr]

theorem clearKey_eq_self_iff : clearKey key = key ↔ cstr key = [] := by
  constructor
  · intro h
    rw [← h, cstr_clearKey]
  · intro h
    simp [clearKey, h]

/-! ### The loop -/

/-- The loop over the lines. -/
def configLines : List Bytes → Bytes → Bytes → Bytes → Option (Bytes × Bytes)
  | [], _, _, _ => none
  | line :: lines, k, v, key => do
      let (ret, k, v) ← strkv line k v
      if ret then
        if 0 ∈ k then
          if cstr k = cstr key then some (key, cstr v)
          else configLines lines k v (clearKey key)
        else none
      else configLines lines k v key

/-- Every call of `fgets` reads a line. -/
theorem configLoop_eq {n : Nat} : ∀ {fd k v key : Bytes}, fd.length < n →
    (∀ line ∈ linesOf fd, line.length < 120) →
      configLoop n fd k v key = configLines (linesOf fd) k v key := by
  induction n with
  | zero => intro fd k v key hn _; omega
  | succ n ih =>
      intro fd k v key hn hshort
      cases hlines : linesOf fd with
      | nil =>
          obtain rfl := linesOf_eq_nil_iff.mp hlines
          rfl
      | cons line lines =>
          rw [hlines] at hshort
          obtain ⟨hfgets, hrest, hdrop⟩ :=
            fgets_of_linesOf hlines (hshort line List.mem_cons_self)
          have htail : ∀ k v key, configLoop n (fd.drop line.length) k v key =
              configLines lines k v key := by
            intro k v key
            have hshort' : ∀ l ∈ linesOf (fd.drop line.length), l.length < 120 :=
              hrest.symm ▸ fun l hl => hshort l (List.mem_cons_of_mem _ hl)
            rw [ih (by omega) hshort', hrest]
          rw [configLoop, hfgets, configLines]
          simp only [htail]

/-- The key of the caller is kept when it is empty. -/
theorem configLines_key : ∀ {lines : List Bytes} {k v key key' value : Bytes}, cstr key = [] →
    configLines lines k v key = some (key', value) → key' = key := by
  intro lines
  induction lines with
  | nil => intro k v key key' value _ h; cases h
  | cons line lines ih =>
      intro k v key key' value hkey h
      rw [configLines, Option.bind_eq_bind, Option.bind_eq_some_iff] at h
      obtain ⟨⟨ret, k', v'⟩, -, h⟩ := h
      simp only [clearKey_eq_self_iff.mpr hkey] at h
      split at h
      · split at h
        · split at h
          · exact (Prod.mk.inj (Option.some.inj h)).1.symm
          · exact ih hkey h
        · cases h
      · exact ih hkey h

theorem configLines_of_none {lines : List Bytes} (h : pairOf line = none) :
    configLines (line :: lines) k v key = configLines lines k v key := by
  rw [configLines, strkv_of_none h]
  rfl

/-- A round with a line that `strkv` takes. -/
theorem configLines_of_some (lines : List Bytes) (key : Bytes) {a b : Bytes}
    (h : pairOf line = some (a, b)) (hfits : LineFits line) (hk : KeyArray k) (hv : v.length = 60) :
    (60 ≤ b.length ∧ configLines (line :: lines) k v key = none) ∨
    b.length < 60 ∧ ∃ k' v', KeyArray k' ∧ v'.length = 60 ∧
      (k = List.replicate 50 0 → cstr k' = a) ∧
      (cstr k ≠ [] → (cstr k' = [] ↔ a = [] ∧ line.head? ≠ some 61)) ∧
      configLines (line :: lines) k v key = if cstr k' = cstr key then some (key, b)
        else configLines lines k' v' (clearKey key) := by
  rcases strkv_spec h hfits hk hv with ⟨hroom, hnone⟩ |
    ⟨hroom, k', v', hsome, harray, hlen, htext, hfresh, hdirty⟩
  · exact .inl ⟨hroom, by rw [configLines, hnone]; rfl⟩
  · refine .inr ⟨hroom, k', v', harray, hlen, hfresh, hdirty, ?_⟩
    rw [configLines, hsome]
    simp [harray.zero_mem, htext]

/-- The empty key is looked for, and another one is in `k`. -/
theorem configLines_dirty {value : Bytes} (hvalue : value.length < 60) (hkey : cstr key = []) :
    ∀ {lines : List Bytes} {k v : Bytes}, (∀ line ∈ lines, LineFits line) → KeyArray k →
      v.length = 60 → cstr k ≠ [] →
      (configLines lines k v key = some (key, value) ↔ Until Passes (Resets value) lines) := by
  intro lines
  induction lines with
  | nil => intro k v _ _ _ _; exact iff_of_false nofun not_until_nil
  | cons line lines ih =>
      intro k v hfits hk hv hdirty
      obtain ⟨hline, hlines⟩ := List.forall_mem_cons.mp hfits
      rw [until_cons]
      cases hpair : pairOf line with
      | none =>
          rw [configLines_of_none hpair, ih hlines hk hv hdirty]
          have hno : ¬ Resets value line := by simp [Resets, hpair]
          have hpass : Passes line := fun _ _ h => by rw [hpair] at h; cases h
          simp [hno, hpass]
      | some kv =>
          obtain ⟨a, b⟩ := kv
          rcases configLines_of_some lines key hpair hline hk hv with
            ⟨hroom, hnone⟩ | ⟨hroom, k', v', hk', hv', -, hnext, heq⟩
          · rw [hnone]
            refine iff_of_false nofun fun h => ?_
            rcases h with ⟨hreset, -⟩ | ⟨hpass, -⟩
            · rw [hpair] at hreset
              obtain ⟨-, rfl⟩ := Prod.mk.inj (Option.some.inj hreset)
              omega
            · have hlt := (hpass a b hpair).1
              omega
          · rw [heq, hkey, clearKey_eq_self_iff.mpr hkey]
            have hnext := hnext hdirty
            split
            · rename_i hnil
              obtain ⟨rfl, hhead⟩ := hnext.mp hnil
              have hpass : ¬ Passes line := fun h => hhead ((h [] b hpair).2 rfl)
              simp [Resets, hpair, hhead, hpass]
            · rename_i hne
              have hreset : ¬ Resets value line := by
                intro h
                obtain ⟨hpair', hhead⟩ := h
                rw [hpair] at hpair'
                exact hne (hnext.mpr ⟨(Prod.mk.inj (Option.some.inj hpair')).1, hhead⟩)
              have hpass : Passes line := by
                intro a' b' hpair'
                rw [hpair] at hpair'
                obtain ⟨rfl, rfl⟩ := Prod.mk.inj (Option.some.inj hpair')
                exact ⟨hroom, fun hnil => by_contra fun hhead => hne (hnext.mpr ⟨hnil, hhead⟩)⟩
              rw [ih hlines hk' hv' hne]
              simp [hreset, hpass]

theorem afterReset_of_none {value : Bytes} {lines : List Bytes} (h : pairOf line = none) :
    AfterReset value (line :: lines) ↔ AfterReset value lines := by
  refine ⟨fun hreset => ?_, .skip h⟩
  cases hreset with
  | skip _ hrest => exact hrest
  | first hpair _ _ _ =>
      rw [h] at hpair
      cases hpair

theorem afterReset_of_some {value a b : Bytes} {lines : List Bytes}
    (h : pairOf line = some (a, b)) : AfterReset value (line :: lines) ↔
      a ≠ [] ∧ b.length < 60 ∧ Until Passes (Resets value) lines := by
  constructor
  · intro hreset
    cases hreset with
    | skip hnone _ =>
        rw [h] at hnone
        cases hnone
    | first hpair ha hb hrest =>
        rw [h] at hpair
        obtain ⟨rfl, rfl⟩ := Prod.mk.inj (Option.some.inj hpair)
        exact ⟨ha, hb, hrest⟩
  · intro hreset
    obtain ⟨ha, hb, hrest⟩ := hreset
    exact .first h ha hb hrest

/-- The loop from the arrays as they are at its start. -/
theorem configLines_start {value : Bytes} (hvalue : value.length < 60) :
    ∀ {lines : List Bytes} {v : Bytes}, (∀ line ∈ lines, LineFits line) → v.length = 60 →
      (configLines lines (List.replicate 50 0) v key = some (key, value) ↔
        lines.findSome? pairOf = some (cstr key, value) ∨
          cstr key = [] ∧ AfterReset value lines) := by
  intro lines
  induction lines with
  | nil =>
      intro v _ _
      refine iff_of_false nofun fun h => ?_
      rcases h with h | ⟨-, h⟩ <;> cases h
  | cons line lines ih =>
      intro v hfits hv
      obtain ⟨hline, hlines⟩ := List.forall_mem_cons.mp hfits
      cases hpair : pairOf line with
      | none =>
          rw [configLines_of_none hpair, ih hlines hv, List.findSome?_cons, hpair,
            afterReset_of_none hpair]
      | some kv =>
          obtain ⟨a, b⟩ := kv
          have hfirst : (line :: lines).findSome? pairOf = some (cstr key, value) ↔
              a = cstr key ∧ b = value := by simp [hpair]
          rw [hfirst, afterReset_of_some hpair]
          rcases configLines_of_some lines key hpair hline keyArray_zero hv with
            ⟨hroom, hnone⟩ | ⟨hroom, k', v', hk', hv', hfresh, -, heq⟩
          · rw [hnone]
            refine iff_of_false nofun fun h => ?_
            rcases h with ⟨-, rfl⟩ | ⟨-, -, hlt, -⟩ <;> omega
          · rw [heq, hfresh rfl]
            split
            · rename_i hmatch
              rw [← hmatch]
              constructor
              · intro h
                exact .inl ⟨rfl, (Prod.mk.inj (Option.some.inj h)).2⟩
              · intro h
                rcases h with ⟨-, rfl⟩ | ⟨hnil, hne, -⟩
                · rfl
                · exact absurd hnil hne
            · rename_i hne
              by_cases hkey : cstr key = []
              · rw [hkey] at hne ⊢
                rw [clearKey_eq_self_iff.mpr hkey,
                  configLines_dirty hvalue hkey hlines hk' hv' (by rwa [hfresh rfl])]
                simp [hne, hroom]
              · -- the key has been cleared, and stays so
                refine iff_of_false (fun h => ?_) (by simp [hne, hkey])
                have hsame := configLines_key (cstr_clearKey key) h
                exact hkey (clearKey_eq_self_iff.mp hsame.symm)

/-- The value of a line with the key is not too long. -/
theorem length_lt_of_firstValue {fd value : Bytes} (hfits : ∀ line ∈ linesOf fd, LineFits line)
    (h : firstValue fd key = some value) : value.length < 60 := by
  obtain ⟨line, hline, h⟩ := List.exists_of_findSome?_eq_some h
  obtain ⟨kv, hkv, h⟩ := Option.bind_eq_some_iff.mp h
  split at h
  · obtain rfl := Option.some.inj h
    unfold keyValue at hkv
    split at hkv
    · rename_i hform
      obtain rfl := Option.some.inj hkv
      exact (hfits line hline).value hform.1 hform.2.2
    · cases hkv
  · cases h

/-- `config` as the loop over the lines. -/
theorem config_eq_some_iff {fd value : Bytes} (hfits : ∀ line ∈ linesOf fd, LineFits line)
    (hvalue : value.length < 60) :
    config fd key = some (key, value) ↔
      (linesOf fd).findSome? pairOf = some (cstr key, value) ∨
        cstr key = [] ∧ AfterReset value (linesOf fd) := by
  rw [config, configLoop_eq (Nat.lt_succ_self _) fun line hline => (hfits line hline).short]
  exact configLines_start hvalue hfits rfl

/-- **When `config` finds the value** of the first line with the key and leaves the caller's key
as it is: exactly when the first line that `strkv` takes has this key and this value. An empty
key is found, too, when such a line has another key and a later one begins with CR and has this
value, with no line between them at which the loop ends. -/
theorem config_iff (fd key value : Bytes) (hfits : ∀ line ∈ linesOf fd, LineFits line)
    (hfirst : firstValue fd (cstr key) = some value) :
    config fd key = some (key, value) ↔
      (linesOf fd).findSome? pairOf = some (cstr key, value) ∨
        cstr key = [] ∧ AfterReset value (linesOf fd) :=
  config_eq_some_iff hfits (length_lt_of_firstValue hfits hfirst)

/-- A comment, a line without `=`, and the key. -/
theorem config_iff_first :
    config (ascii "#b=1\nb\nb=2\r\n") (ascii "b") = some (ascii "b", ascii "2") :=
  (config_iff _ (ascii "b") (ascii "2") (by decide) rfl).mpr (.inl rfl)

/-- A line with another key comes first: the key is cleared, and nothing is found. -/
theorem key_cleared :
    (∀ line ∈ linesOf (ascii "a=1\nb=2\n"), LineFits line) ∧
      firstValue (ascii "a=1\nb=2\n") (ascii "b") = some (ascii "2") ∧
      config (ascii "a=1\nb=2\n") (ascii "b") = none ∧ clearKey (ascii "b") = [0] :=
  ⟨by decide, rfl, rfl, rfl⟩

/-! ### Plain files -/

/-- A line of a text without zero bytes, and with CR and LF at its end only. -/
def Plain (line : Bytes) : Prop :=
  ∃ t, (∀ b ∈ t, b ≠ 0 ∧ b ≠ 10 ∧ b ≠ 13) ∧ (line = t ++ [10] ∨ line = t ++ [13, 10])

/-- In a plain line `strkv` finds the key and the value that are meant. -/
theorem Plain.pairOf_eq (h : Plain line) : pairOf line = keyValue line := by
  obtain ⟨t, ht, hline⟩ := h
  have hzero : ∀ b ∈ t, b ≠ 0 := fun b hb => (ht b hb).1
  have hlf : (10 : UInt8) ∉ t := fun hb => (ht 10 hb).2.1 rfl
  have hcr : (13 : UInt8) ∉ t := fun hb => (ht 13 hb).2.2 rfl
  obtain ⟨c, rest, rfl, hc, hend, hchomp, hlast, hmem⟩ : ∃ c rest, line = t ++ c :: rest ∧
      (∀ b ∈ c :: rest, b ≠ 0) ∧ (strchr line 13).or (strchr line 10) = some t.length ∧
      chomp line = t ∧ line.getLast? = some 10 ∧ (61 ∈ line ↔ 61 ∈ t) := by
    rcases hline with rfl | rfl
    · have hnone : strchr (t ++ [10]) 13 = none := by
        have hno : (13 : UInt8) ∉ cstr (t ++ [10]) := fun hmem =>
          absurd ((cstr_isPrefix _).mem hmem) (by simp [hcr])
        rw [strchr, if_neg hno]
      have hlast : t.getLast? ≠ some 13 := fun hlast => hcr (List.mem_of_getLast? hlast)
      refine ⟨10, [], rfl, by simp, ?_, ?_, by simp, by simp⟩
      · rw [hnone, strchr_append hzero (by decide) hlf]
        rfl
      · simp [chomp, hlast]
    · refine ⟨13, [10], rfl, by simp, ?_, ?_, by simp, by simp⟩
      · rw [strchr_append hzero (by decide) hcr]
        rfl
      · simp [chomp]
  have hwhole : cstr (t ++ c :: rest) = t ++ c :: rest :=
    cstr_of_forall (List.forall_mem_append.mpr ⟨hzero, hc⟩)
  by_cases hcomment : (t ++ c :: rest).head? = some 35
  · rw [pairOf, keyValue, if_pos hcomment, if_neg fun h => h.1 hcomment]
  by_cases heq : 61 ∈ t
  · have hp : strchr (t ++ c :: rest) 61 = some (t.takeWhile (· ≠ 61)).length := by
      rw [strchr, hwhole, if_pos (hmem.mpr heq), takeWhile_append_of_mem heq]
    have hset : (t ++ c :: rest).set t.length 0 = t ++ 0 :: rest := by simp
    have hle : (t.takeWhile (· ≠ 61)).length + 1 ≤ t.length := length_takeWhile_lt heq
    have htake : t.take (t.takeWhile (· ≠ 61)).length = t.takeWhile (· ≠ 61) :=
      (List.prefix_iff_eq_take.mp (List.takeWhile_prefix _)).symm
    have hdrop : t.drop (t.takeWhile (· ≠ 61)).length = t.dropWhile (· ≠ 61) := by
      have hsplit := List.take_append_drop (t.takeWhile (· ≠ 61)).length t
      rw [htake] at hsplit
      exact List.append_cancel_left (hsplit.trans List.takeWhile_append_dropWhile.symm)
    rw [pairOf, keyValue, if_neg hcomment, if_pos ⟨hcomment, hlast, hmem.mpr heq⟩, hp, hend,
      valueOf, hchomp, takeWhile_append_of_mem heq]
    simp only [Option.bind_eq_bind, Option.bind_some, hset, cstr_append_zero, cstr_of_forall hzero,
      List.drop_append_of_le_length hle]
    rw [htake, cstr_of_forall fun b hb => hzero b (List.mem_of_mem_drop hb), ← List.tail_drop,
      hdrop]
  · have hp : strchr (t ++ c :: rest) 61 = none := by
      rw [strchr, hwhole, if_neg fun h => heq (hmem.mp h)]
    rw [pairOf, keyValue, if_neg hcomment, if_neg fun h => heq (hmem.mp h.2.2), hp]
    rfl

theorem AfterReset.exists_resets {lines : List Bytes} (h : AfterReset value lines) :
    ∃ line ∈ lines, Resets value line := by
  induction h with
  | skip _ _ ih =>
      obtain ⟨line, hline, hreset⟩ := ih
      exact ⟨line, List.mem_cons_of_mem _ hline, hreset⟩
  | first _ _ _ hrest =>
      obtain ⟨pre, line, post, rfl, hreset, -⟩ := hrest
      exact ⟨line, List.mem_cons_of_mem _ (List.mem_append_right pre List.mem_cons_self), hreset⟩

/-- In a plain line, an empty key stands in front of a `=` at the beginning. -/
theorem Plain.not_resets (h : Plain line) : ¬ Resets value line := by
  intro hreset
  obtain ⟨hpair, hhead⟩ := hreset
  rw [h.pairOf_eq, keyValue] at hpair
  split at hpair
  · rename_i hform
    obtain ⟨hnil, -⟩ := Prod.mk.inj (Option.some.inj hpair)
    exact hhead ((length_takeWhile_eq_zero_iff hform.2.2).mp (List.length_eq_zero_iff.mpr hnil))
  · cases hpair

/-- **A plain file.** `config` finds the value and keeps the key exactly when the first line
`key=value` of the file is the one that is looked for. -/
theorem config_eq_some_iff_of_plain {fd : Bytes} (hfits : ∀ line ∈ linesOf fd, LineFits line)
    (hplain : ∀ line ∈ linesOf fd, Plain line) (hvalue : value.length < 60) :
    config fd key = some (key, value) ↔
      (linesOf fd).findSome? keyValue = some (cstr key, value) := by
  have hmap : (linesOf fd).map pairOf = (linesOf fd).map keyValue :=
    List.map_congr_left fun line hline => (hplain line hline).pairOf_eq
  have hpairs : (linesOf fd).findSome? pairOf = (linesOf fd).findSome? keyValue := by
    have hsome := congrArg (List.findSome? id) hmap
    rwa [List.findSome?_map, List.findSome?_map] at hsome
  have hreset : ¬ AfterReset value (linesOf fd) := by
    intro h
    obtain ⟨line, hline, h⟩ := h.exists_resets
    exact (hplain line hline).not_resets h
  rw [config_eq_some_iff hfits hvalue, hpairs, or_iff_left fun h => hreset h.2]

end SpiderChat
