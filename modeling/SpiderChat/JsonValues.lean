import SpiderChat.JsonNumber

/-!
# SpiderChat.JsonValues

The loop of `json_parse_ex` over the text of a value: whatever `readValue` reads,
either pass goes over it with the operations of `build`.
-/

namespace SpiderChat.JsonC

open Lib

variable {settings : JsonSettings} {first_pass : Bool} {s : Scan} {b b' : Builder} {l r : Bytes}
  {m : Mode}

/-! ### What the operations leave in hand -/

theorem type_grow {u u' : JsonU} {length : Nat} (h : u.grow = .ok (length, u')) :
    u'.type = u.type ∧ (u.type = .json_object ∨ u.type = .json_array) := by
  cases u with
  | object n values =>
      cases h
      exact ⟨rfl, .inl rfl⟩
  | array n values =>
      cases h
      exact ⟨rfl, .inr rfl⟩
  | _ => cases h

/-- A value that ends in another one leaves that one in hand. -/
theorem topIs_leave {a p : Addr} {parent : JsonValue}
    (h : leave first_pass b a p parent = .ok b') :
    TopIs b' parent.u.type ∧ (parent.u.type = .json_object ∨ parent.u.type = .json_array) := by
  unfold leave at h
  obtain ⟨⟨length, u⟩, hgrow, h⟩ := bind_eq_ok.mp h
  obtain ⟨b₂, -, h⟩ := bind_eq_ok.mp h
  obtain ⟨htype, hcases⟩ := type_grow hgrow
  dsimp only at h
  split at h
  · cases h
  · cases h
    exact ⟨⟨p, { parent with u }, Builder.read_setU b₂ p parent u, htype⟩, hcases⟩

/-- Behind an element or a member, the value it is in is in hand. -/
theorem topIs_finish (h : finish first_pass b = .ok (m, b')) :
    (m = .seek true false → TopIs b' .json_array) ∧
      (m = .inside true → TopIs b' .json_object) := by
  unfold finish leaveTop at h
  cases hread : b.read b.top with
  | error f =>
      rw [hread] at h
      cases h
  | ok q =>
      obtain ⟨a, top⟩ := q
      rw [hread, ok_bind] at h
      cases hp : top.parent with
      | none =>
          simp only [hp] at h
          cases h
          constructor <;> (intro h; cases h)
      | some p =>
          simp only [hp] at h
          cases hparent : b.read (some p) with
          | error f =>
              rw [hparent] at h
              cases h
          | ok q' =>
              obtain ⟨p', parent⟩ := q'
              rw [hparent, ok_bind] at h
              dsimp only at h
              cases hleave : leave first_pass b a p parent with
              | error f =>
                  rw [hleave] at h
                  cases h
              | ok b₁ =>
                  rw [hleave, ok_bind] at h
                  cases h
                  obtain ⟨htop, hobj | harr⟩ := topIs_leave hleave
                  · rw [hobj] at htop ⊢
                    exact ⟨fun h => absurd h (by simp [modeAfter]), fun _ => htop⟩
                  · rw [harr] at htop ⊢
                    exact ⟨fun _ => htop, fun h => absurd h (by simp [modeAfter])⟩

theorem inType_cases (type : JsonType) (b : Builder) :
    inType type b = .ok b ∧ TopIs b type ∨ inType type b = .error none := by
  unfold inType
  split
  · rename_i a value hread
    split
    · rename_i htype
      exact .inl ⟨rfl, a, value, hread, htype⟩
    · exact .inr rfl
  · exact .inr rfl

/-- An element or a member, and what comes behind it. -/
theorem finishIn_bind (x : Eff Builder) (k : Builder → Eff (Mode × Builder)) :
    (x >>= fun b => finishIn first_pass m b >>= k) =
      (x >>= fun b => eff (finish first_pass b)) >>= fun p =>
        if p.1 = m then k p.2 else throw none := by
  simp only [finishIn, bind_assoc]
  congr 1
  funext b
  congr 1
  funext p
  split <;> rfl

theorem read_allocValue {type : JsonType} (h : allocValue settings b type = .ok b') :
    ∃ a value, b'.read b'.top = .ok (a, value) ∧ value.u = type.zero := by
  unfold allocValue linkAlloc at h
  split at h
  · cases h
  · rename_i mem hmem
    obtain ⟨values, hvalues, h⟩ := bind_eq_ok.mp h
    cases h
    split at hvalues
    · cases hvalues
      exact ⟨b.mem.calls, _, Builder.read_eq_ok.mpr ⟨rfl, Heap.get_set_self _ _ _⟩, rfl⟩
    · rename_i last hlast
      split at hvalues
      · cases hvalues
      · rename_i v hv
        cases hvalues
        by_cases heq : last = b.mem.calls
        · subst heq
          rw [Heap.get_set_self] at hv
          obtain rfl := Option.some.inj hv
          exact ⟨b.mem.calls, _, Builder.read_eq_ok.mpr ⟨rfl, Heap.get_set_self _ _ _⟩, rfl⟩
        · exact ⟨b.mem.calls, _, Builder.read_eq_ok.mpr ⟨rfl,
            (Heap.get_set_ne (Ne.symm heq)).trans (Heap.get_set_self _ _ _)⟩, rfl⟩

theorem string_length_openString (h : openString settings first_pass b = .ok b') :
    b'.string_length = 0 := by
  unfold openString at h
  obtain ⟨b₁, -, h⟩ := bind_eq_ok.mp h
  obtain ⟨⟨a, value⟩, -, h⟩ := bind_eq_ok.mp h
  dsimp only at h
  split at h
  · cases h
    rfl
  · cases h

theorem string_length_openName (h : openName b = .ok b') : b'.string_length = 0 := by
  unfold openName at h
  obtain ⟨⟨a, value⟩, -, h⟩ := bind_eq_ok.mp h
  dsimp only at h
  split at h <;> (cases h; rfl)

/-! ### Where a number may end -/

theorem isNumChar_of_isWs {c : UInt8} (h : Json.isWs c = true) : Json.isNumChar c = false := by
  simp only [Json.isWs, Bool.or_eq_true, beq_iff_eq] at h
  obtain ((rfl | rfl) | rfl) | rfl := h <;> decide

theorem numEnd_of_dropWhile (h : ∀ c l, r.dropWhile Json.isWs = c :: l → Json.isNumChar c = false) :
    NumEnd r := by
  intro c hc
  cases r with
  | nil => cases hc
  | cons d r =>
      obtain rfl : d = c := by simpa using hc
      cases hws : Json.isWs d with
      | true => exact isNumChar_of_isWs hws
      | false => exact h d r (by rw [List.dropWhile_cons_of_neg (by simp [hws])])

theorem numEnd_of_readElems {n : Nat} {xs : List Value} (h : readElems n true l = some (xs, r)) :
    NumEnd l := by
  cases n with
  | zero => cases h
  | succ n =>
      refine numEnd_of_dropWhile fun c l' hl => ?_
      rw [readElems, hl] at h
      by_cases hclose : c = 93
      · subst hclose
        decide
      · by_cases hcomma : c = 44
        · subst hcomma
          decide
        · simp [hclose, hcomma] at h

theorem numEnd_of_readMembers {n : Nat} {ms : List (Bytes × Value)}
    (h : readMembers n true l = some (ms, r)) : NumEnd l := by
  cases n with
  | zero => cases h
  | succ n =>
      refine numEnd_of_dropWhile fun c l' hl => ?_
      rw [readMembers, hl] at h
      by_cases hclose : c = 125
      · subst hclose
        decide
      · by_cases hcomma : c = 44
        · subst hcomma
          decide
        · simp [hclose, hcomma] at h

theorem numEnd_of_isEnd (h : isEnd r = true) : NumEnd r := by
  refine numEnd_of_dropWhile fun c l hl => ?_
  rw [isEnd, hl] at h
  obtain rfl : c = 0 := by simpa using h
  decide

/-! ### The bytes between values -/

variable (settings first_pass) in
/-- White space is skipped between the members of an object. -/
theorem At.skip_inside {comma : Bool} (h : At s (.inside comma) l b) (hb : TopIs b .json_object) :
    ∃ t, Reaches (body settings first_pass) rounds s t ∧
      At t (.inside comma) (l.dropWhile Json.isWs) b := by
  obtain ⟨a, value, hread, htype⟩ := hb
  induction l generalizing s with
  | nil => exact ⟨s, .refl s, h⟩
  | cons c l ih =>
      cases hc : Json.isWs c with
      | false => exact ⟨s, .refl s, by rwa [List.dropWhile_cons, hc]⟩
      | true =>
          obtain ⟨t, ht, hat⟩ := h.again_whitespace
          have hbody : body settings first_pass s = .inl t := by
            rw [body, middle_of_at h rfl rfl, ← ht]
            simp [Mode.flags, typeSection, h.build, hread, htype, ofOp, objectSection, hc]
          obtain ⟨u, hu, hau⟩ := ih hat
          refine ⟨u, .trans (.round hbody ?_) hu, by rwa [List.dropWhile_cons, hc]⟩
          rw [rounds, rounds, hat.i, h.i, List.length_cons]
          omega

variable (settings first_pass) in
theorem middle_object {comma : Bool} (h : At s (.inside comma) l b) (hb : TopIs b .json_object) :
    middle settings first_pass s = objectSection settings s (l.headD 0) := by
  obtain ⟨a, value, hread, htype⟩ := hb
  rw [middle_of_at h rfl rfl]
  simp [Mode.flags, typeSection, h.build, hread, htype, ofOp]

variable (settings first_pass) in
theorem middle_seek {comma colon : Bool} (h : At s (.seek comma colon) l b) :
    middle settings first_pass s = seekSection settings first_pass s (l.headD 0) := by
  rw [middle_of_at h rfl rfl]
  rfl

variable (settings first_pass) in
/-- The first byte of a value. -/
theorem middle_value (h : At s (.seek false false) l b) (hws : Json.isWs (l.headD 0) = false)
    (hc : l.headD 0 ≠ 93) :
    middle settings first_pass s =
      startValue settings first_pass { s with flags.seek_value := false } (l.headD 0) := by
  have hcomma : s.flags.need_comma = false := h.need_comma
  have hcolon : s.flags.need_colon = false := h.need_colon
  simp only [middle_seek settings first_pass h, seekSection, hws, hc, hcomma, hcolon,
    Bool.false_eq_true, if_false]

variable (settings first_pass) in
theorem At.comma (h : At s (.seek true false) (44 :: l) b) :
    ∃ t, Reaches (body settings first_pass) rounds s t ∧ At t (.seek false false) l b := by
  obtain ⟨t, ht, hat⟩ := again_of_at (w := { s with flags.need_comma := false })
    (m := .seek false false) h.i
    (by
      show { s.flags.control with need_comma := false } = _
      rw [h.flags]
      rfl) h.build
  refine ⟨t, .round ?_ ?_, hat⟩
  · rw [body, middle_seek settings first_pass h, seekSection, ← ht]
    simp [Json.isWs, h.need_comma, Mode.flags]
  · rw [rounds, rounds, hat.i, h.i, List.length_cons]
    omega

variable (settings first_pass) in
theorem At.colon (h : At s (.seek false true) (58 :: l) b) :
    ∃ t, Reaches (body settings first_pass) rounds s t ∧ At t (.seek false false) l b := by
  obtain ⟨t, ht, hat⟩ := again_of_at (w := { s with flags.need_colon := false })
    (m := .seek false false) h.i
    (by
      show { s.flags.control with need_colon := false } = _
      rw [h.flags]
      rfl) h.build
  refine ⟨t, .round ?_ ?_, hat⟩
  · rw [body, middle_seek settings first_pass h, seekSection, ← ht]
    simp [Json.isWs, h.need_comma, h.need_colon, Mode.flags]
  · rw [rounds, rounds, hat.i, h.i, List.length_cons]
    omega

variable (settings first_pass) in
theorem At.comma_inside (h : At s (.inside true) (44 :: l) b) (hb : TopIs b .json_object) :
    ∃ t, Reaches (body settings first_pass) rounds s t ∧ At t (.inside false) l b := by
  obtain ⟨t, ht, hat⟩ := again_of_at (w := { s with flags.need_comma := false })
    (m := .inside false) h.i
    (by
      show { s.flags.control with need_comma := false } = _
      rw [h.flags]
      rfl) h.build
  refine ⟨t, .round ?_ ?_, hat⟩
  · rw [body, middle_object settings first_pass h hb, objectSection, ← ht]
    simp [Json.isWs, h.need_comma, Mode.flags, endSection, h.reproc, h.next, advance]
  · rw [rounds, rounds, hat.i, h.i, List.length_cons]
    omega

/-- The bracket that closes an array. -/
theorem Outcome.close_array {comma : Bool} (h : At s (.seek comma false) (93 :: r) b)
    (hb : TopIs b .json_array) : Outcome settings first_pass s r (eff (finish first_pass b)) := by
  obtain ⟨a, value, hread, htype⟩ := hb
  have hyields : Yields settings first_pass s r (eff (finish first_pass s.build)) := by
    refine .of_next false (w := { s with
      flags.need_comma := false, flags.seek_value := false, flags.next := true }) ?_ ?_ ⟨93, h.i⟩
    · rw [middle_seek settings first_pass h, seekSection]
      simp [Json.isWs, h.build, hread, htype, ofOp]
    · show { s.flags.control with need_comma := false, seek_value := false, next := true } = _
      rw [h.flags]
      rfl
  rw [h.build] at hyields
  exact .of_yields hyields (by rw [h.i]; simp)

/-- The brace that closes an object. -/
theorem Outcome.close_object {comma : Bool} (h : At s (.inside comma) (125 :: r) b)
    (hb : TopIs b .json_object) : Outcome settings first_pass s r (eff (finish first_pass b)) := by
  have hyields : Yields settings first_pass s r (eff (finish first_pass s.build)) := by
    refine .of_next false (w := { s with
      flags.need_comma := false, flags.next := true }) ?_ ?_ ⟨125, h.i⟩
    · rw [middle_object settings first_pass h hb, objectSection]
      simp [Json.isWs]
    · show { s.flags.control with need_comma := false, next := true } = _
      rw [h.flags]
      rfl
  rw [h.build] at hyields
  exact .of_yields hyields (by rw [h.i]; simp)

/-- The byte that opens an object, an array or a string. -/
theorem Outcome.opens {c : UInt8} {x : Op Builder} {m : Mode} {k : Builder → Eff (Mode × Builder)}
    {g : Builder → Scan} (h : At s (.seek false false) (c :: l) b)
    (hc : c = 123 ∨ c = 91 ∨ c = 34)
    (hstart : startValue settings first_pass { s with flags.seek_value := false } c =
      ofOp { s with flags.seek_value := false } x >>= fun build => throw (again (g build)))
    (hg : ∀ b', (g b').i = c :: l ∧ (g b').flags.control = m.flags ∧ (g b').build = b')
    (hk : ∀ t b', x = .ok b' → At t m l b' → Outcome settings first_pass t r (k b')) :
    Outcome settings first_pass s r (eff x >>= k) := by
  refine .op_round (u := { s with flags.seek_value := false }) ?_ hg ?_ hk
  · rw [body, middle_value settings first_pass h (by rcases hc with rfl | rfl | rfl <;> rfl)
      (by rcases hc with rfl | rfl | rfl <;> simp), List.headD_cons, hstart]
    cases x <;> rfl
  · rw [h.i, List.length_cons]
    omega

theorem Outcome.in_type {type : JsonType} {k : Builder → Eff (Mode × Builder)}
    (hk : TopIs b type → Outcome settings first_pass s r (k b)) :
    Outcome settings first_pass s r (inType type b >>= k) := by
  rcases inType_cases type b with ⟨hx, htop⟩ | hx
  · rw [hx, ok_bind]
    exact hk htop
  · rw [hx]
    trivial

theorem Outcome.open_object (h : At s (.seek false false) (123 :: l) b)
    {k : Builder → Eff (Mode × Builder)}
    (hk : ∀ t b', At t (.inside false) l b' → TopIs b' .json_object →
      Outcome settings first_pass t r (k b')) :
    Outcome settings first_pass s r
      (eff (newValue settings first_pass b .json_object) >>= fun b =>
        inType .json_object b >>= k) := by
  refine .opens (m := .inside false) (g := fun build => { s with build, flags.seek_value := false })
    h (.inl rfl) ?_ (fun b' => ⟨h.i, ?_, rfl⟩) fun t b' _ hat => .in_type (hk t b' hat)
  · rw [startValue, if_pos rfl, h.build]
  · show { s.flags.control with seek_value := false } = _
    rw [h.flags]
    rfl

theorem Outcome.open_array (h : At s (.seek false false) (91 :: l) b)
    {k : Builder → Eff (Mode × Builder)}
    (hk : ∀ t b', At t (.seek false false) l b' → TopIs b' .json_array →
      Outcome settings first_pass t r (k b')) :
    Outcome settings first_pass s r
      (eff (newValue settings first_pass b .json_array) >>= fun b =>
        inType .json_array b >>= k) := by
  refine .opens (m := .seek false false) (g := fun build => { s with build })
    h (.inr (.inl rfl)) ?_ (fun b' => ⟨h.i, h.flags, rfl⟩) fun t b' _ hat => .in_type (hk t b' hat)
  have hseek : s.flags.seek_value = true := h.seek_value
  rw [startValue, if_neg (by decide), if_pos rfl, h.build, ← hseek]

theorem Outcome.open_string (h : At s (.seek false false) (34 :: l) b)
    {k : Builder → Eff (Mode × Builder)}
    (hk : ∀ t b', At t (.chars false) l b' → b'.string_length = 0 →
      Outcome settings first_pass t r (k b')) :
    Outcome settings first_pass s r (eff (openString settings first_pass b) >>= k) := by
  refine .opens (m := .chars false)
    (g := fun build => { s with build, flags.seek_value := false, flags.string := true })
    h (.inr (.inr rfl)) ?_ (fun b' => ⟨h.i, ?_, rfl⟩) fun t b' hx hat =>
      hk t b' hat (string_length_openString hx)
  · rw [startValue, if_neg (by decide), if_neg (by decide), if_pos rfl, h.build]
  · show { s.flags.control with seek_value := false, string := true } = _
    rw [h.flags]
    rfl

/-- The quote that opens the name of a member. -/
theorem Outcome.open_name (h : At s (.inside false) (34 :: l) b) (hb : TopIs b .json_object)
    {k : Builder → Eff (Mode × Builder)}
    (hk : ∀ t b', At t (.chars false) l b' → b'.string_length = 0 →
      Outcome settings first_pass t r (k b')) :
    Outcome settings first_pass s r (eff (openName b) >>= k) := by
  refine .op_round (m := .chars false) (u := s)
    (g := fun build => { s with build, flags.string := true, flags.reproc := false }) ?_
    (fun b' => ⟨h.i, ?_, rfl⟩) ?_ fun t b' hx hat => hk t b' hat (string_length_openName hx)
  · rw [body, middle_object settings first_pass h hb, objectSection, h.build]
    cases openName b <;>
      simp [Json.isWs, h.need_comma, Mode.flags, ofOp, endSection, h.next, h.reproc, advance]
  · show { s.flags.control with string := true, reproc := false } = _
    rw [h.flags]
    rfl
  · rw [h.i, List.length_cons]
    omega

/-- The characters of a string or a name, and what comes behind them. -/
theorem Outcome.chars_then {d : Bytes} {l' : Bytes} {f : Builder → Eff (Mode × Builder)}
    (hd : readString l = some (d, r)) (h : At s (.chars false) l b) (hb : b.string_length = 0)
    (hlen : l.length ≤ uint_max)
    (hf : ∀ t b', At t (.chars false) (34 :: r) b' → b'.string_length ≤ uint_max →
      Outcome settings first_pass t l' (f b')) :
    Outcome settings first_pass s l' (eff (stringAdd first_pass b d) >>= f) := by
  have hchars := Outcome.chars settings first_pass
    (readString_eq_some.mp hd) h (by omega)
  have heq : (eff (stringAdd first_pass b d) >>= f) =
      (eff (stringAdd first_pass b d) >>= fun b => pure (Mode.chars false, b)) >>= fun p =>
        f p.2 := by
    rw [bind_assoc]
    rfl
  rw [heq]
  refine .bind hchars fun t m b' hx hat => ?_
  cases hadd : stringAdd first_pass b d with
  | error e =>
      rw [hadd] at hx
      cases hx
  | ok b₁ =>
      rw [hadd] at hx
      cases hx
      refine hf t _ hat ?_
      have := string_length_stringAdd hadd
      have := length_readString hd
      dsimp only
      omega

/-- A string that is a value. -/
theorem Outcome.string {d : Bytes} (hd : readString l = some (d, r))
    (h : At s (.seek false false) (34 :: l) b) (hlen : l.length ≤ uint_max) :
    Outcome settings first_pass s r
      (build settings first_pass (.string d) b >>= fun b => eff (finish first_pass b)) := by
  simp only [build, buildChars, bind_assoc]
  refine .open_string h fun t b' hat hb' => .chars_then hd hat hb' hlen fun u b'' hau hb'' => ?_
  exact .endString hau hb''

/-- The name of a member, and what comes behind it. -/
theorem Outcome.name {d l' : Bytes} {f : Builder → Eff (Mode × Builder)}
    (hd : readString l = some (d, r)) (h : At s (.chars false) l b) (hb : b.string_length = 0)
    (hlen : l.length ≤ uint_max)
    (hf : ∀ t b', At t (.seek false true) r b' → Outcome settings first_pass t l' (f b')) :
    Outcome settings first_pass s l' (buildChars first_pass false d b >>= f) := by
  simp only [buildChars, bind_assoc]
  refine .chars_then hd h hb hlen fun t b' hat hb' => ?_
  have heq : (eff (closeQuote first_pass b') >>= fun p =>
        (if p.2 = false then pure p.1 else throw none) >>= f) =
      (eff (closeQuote first_pass b') >>= fun p =>
        if p.2 = false then pure (Mode.seek false true, p.1) else throw none) >>= fun p =>
          if p.1 = .seek false true then f p.2 else throw none := by
    rw [bind_assoc]
    congr 1
    funext p
    split <;> rfl
  rw [heq]
  refine .bind (.endName hat hb') fun u m b'' _ hau => ?_
  dsimp only
  split
  · rename_i hm
    subst hm
    exact hf u b'' hau
  · trivial

variable (settings first_pass) in
/-- The colon behind a name. -/
theorem At.eat_colon (h : At s (.seek false true) l b) (heat : Json.eat 58 l = some r) :
    ∃ t, Reaches (body settings first_pass) rounds s t ∧ At t (.seek false false) r b := by
  obtain ⟨t, ht, hat⟩ := h.skip_seek settings first_pass
  unfold Json.eat at heat
  split at heat
  · cases heat
  · rename_i c l' hl
    split at heat
    · rename_i hc
      cases heat
      subst hc
      rw [hl] at hat
      obtain ⟨u, hu, hau⟩ := hat.colon settings first_pass
      exact ⟨u, ht.trans hu, hau⟩
    · cases heat

/-! ### Values -/

/-- An element or a member, and what comes behind it in the value it is in. -/
theorem Outcome.in_turn {m : Mode} {x : Eff Builder} {k : Builder → Eff (Mode × Builder)}
    (h : Outcome settings first_pass s l (x >>= fun b => eff (finish first_pass b)))
    (hk : ∀ t b' b'', finish first_pass b' = .ok (m, b'') → At t m l b'' →
      Outcome settings first_pass t r (k b'')) :
    Outcome settings first_pass s r (x >>= fun b => finishIn first_pass m b >>= k) := by
  rw [finishIn_bind]
  refine .bind h fun t m b'' hx hat => ?_
  dsimp only
  split
  · rename_i hm
    subst hm
    match x, hx with
    | .ok b', hx =>
        rw [ok_bind] at hx
        cases hfinish : finish first_pass b' with
        | error f =>
            rw [hfinish] at hx
            cases hx
        | ok p =>
            rw [hfinish] at hx
            cases hx
            exact hk t b' b'' hfinish hat
  · trivial

theorem length_dropWhile_isWs_le (l : Bytes) : (l.dropWhile Json.isWs).length ≤ l.length :=
  (List.dropWhile_sublist _).length_le

theorem length_readWord {w : Bytes} (h : readWord w l = some r) : r.length ≤ l.length := by
  unfold readWord at h
  split at h
  · cases h
    rw [List.length_drop]
    omega
  · cases h

theorem length_eat {c : UInt8} (h : Json.eat c l = some r) : r.length < l.length := by
  have hle := length_dropWhile_isWs_le l
  unfold Json.eat at h
  split at h
  · cases h
  · rename_i d r' hl
    rw [hl, List.length_cons] at hle
    split at h
    · cases h
      omega
    · cases h

def ValueFits (n : Nat) : Prop :=
  ∀ (l : Bytes) (v : Value) (r : Bytes), readValue n l = some (v, r) →
    v.weight + r.length ≤ l.length

def ElemsFit (n : Nat) : Prop :=
  ∀ (comma : Bool) (l : Bytes) (xs : List Value) (r : Bytes), readElems n comma l = some (xs, r) →
    weightElems xs + r.length < l.length

def MembersFit (n : Nat) : Prop :=
  ∀ (comma : Bool) (l : Bytes) (ms : List (Bytes × Value)) (r : Bytes),
    readMembers n comma l = some (ms, r) → weightMembers ms + r.length < l.length

theorem valueFits_succ {n : Nat} (helems : ElemsFit n) (hmembers : MembersFit n) :
    ValueFits (n + 1) := by
  intro l v r h
  have hle := length_dropWhile_isWs_le l
  rw [readValue] at h
  split at h
  · cases h
  rename_i c l' hl
  rw [hl, List.length_cons] at hle
  -- the branches of `readValue`: what a value weighs is paid for by its bytes
  split at h
  · obtain ⟨⟨ms, r'⟩, hms, heq⟩ := Option.map_eq_some_iff.mp h
    cases heq
    have := hmembers false l' ms _ hms
    simp only [Value.weight]
    omega
  split at h
  · obtain ⟨⟨xs, r'⟩, hxs, heq⟩ := Option.map_eq_some_iff.mp h
    cases heq
    have := helems false l' xs _ hxs
    simp only [Value.weight]
    omega
  split at h
  · obtain ⟨⟨d, r'⟩, hd, heq⟩ := Option.map_eq_some_iff.mp h
    cases heq
    have := length_readString hd
    simp only [Value.weight]
    omega
  split at h
  · obtain ⟨r', hr, heq⟩ := Option.map_eq_some_iff.mp h
    cases heq
    have := length_readWord hr
    simp only [Value.weight]
    omega
  split at h
  · obtain ⟨r', hr, heq⟩ := Option.map_eq_some_iff.mp h
    cases heq
    have := length_readWord hr
    simp only [Value.weight]
    omega
  split at h
  · obtain ⟨r', hr, heq⟩ := Option.map_eq_some_iff.mp h
    cases heq
    have := length_readWord hr
    simp only [Value.weight]
    omega
  split at h
  · rename_i hc
    obtain ⟨⟨u, r'⟩, hu, heq⟩ := Option.map_eq_some_iff.mp h
    cases heq
    have := (splitsNum_readNumber hc hu).2
    have hweight : u.toValue.weight = 1 := by cases u <;> rfl
    dsimp only
    omega
  · cases h

theorem elemsFit_succ {n : Nat} (hvalue : ValueFits n) (helems : ElemsFit n) :
    ElemsFit (n + 1) := by
  intro comma l xs r h
  have hle := length_dropWhile_isWs_le l
  rw [readElems] at h
  split at h
  · cases h
  rename_i c l' hl
  rw [hl, List.length_cons] at hle
  split at h
  · cases h
    simp only [weightElems]
    omega
  split at h
  · split at h
    · have := helems false l' xs r h
      omega
    · cases h
  · obtain ⟨⟨v, r'⟩, hv, h⟩ := Option.bind_eq_some_iff.mp h
    obtain ⟨⟨vs, r''⟩, hvs, heq⟩ := Option.map_eq_some_iff.mp h
    cases heq
    have hfits := hvalue _ v r' hv
    have := helems true r' vs _ hvs
    rw [List.length_cons] at hfits
    simp only [weightElems]
    omega

theorem membersFit_succ {n : Nat} (hvalue : ValueFits n) (hmembers : MembersFit n) :
    MembersFit (n + 1) := by
  intro comma l ms r h
  have hle := length_dropWhile_isWs_le l
  rw [readMembers] at h
  split at h
  · cases h
  rename_i c l' hl
  rw [hl, List.length_cons] at hle
  split at h
  · cases h
    simp only [weightMembers]
    omega
  split at h
  · split at h
    · have := hmembers false l' ms r h
      omega
    · cases h
  split at h
  · obtain ⟨⟨k, r₁⟩, hk, h⟩ := Option.bind_eq_some_iff.mp h
    obtain ⟨r₂, hr₂, h⟩ := Option.bind_eq_some_iff.mp h
    obtain ⟨⟨v, r₃⟩, hv, h⟩ := Option.bind_eq_some_iff.mp h
    obtain ⟨⟨ms', r₄⟩, hms, heq⟩ := Option.map_eq_some_iff.mp h
    cases heq
    have := length_readString hk
    have := length_eat hr₂
    have := hvalue _ v r₃ hv
    dsimp only at *
    have := hmembers true r₃ ms' _ hms
    simp only [weightMembers]
    omega
  · cases h

/-- What is read takes its weight of the text. -/
theorem reads_fit (n : Nat) : ValueFits n ∧ ElemsFit n ∧ MembersFit n := by
  induction n with
  | zero =>
      refine ⟨?_, ?_, ?_⟩
      · intro l v r h
        cases h
      · intro comma l xs r h
        cases h
      · intro comma l ms r h
        cases h
  | succ n ih =>
      obtain ⟨hvalue, helems, hmembers⟩ := ih
      exact ⟨valueFits_succ helems hmembers, elemsFit_succ hvalue helems,
        membersFit_succ hvalue hmembers⟩

theorem length_readValue {n : Nat} {v : Value} (h : readValue n l = some (v, r)) :
    v.weight + r.length ≤ l.length :=
  (reads_fit n).1 l v r h

/-- The loop goes over every value that is read with fuel `n`. -/
def ValueRuns (settings : JsonSettings) (first_pass : Bool) (n : Nat) : Prop :=
  ∀ (l : Bytes) (v : Value) (r : Bytes) (s : Scan) (b : Builder),
    readValue n l = some (v, r) → (first_pass = false → NumEnd r) → l.length ≤ uint_max →
    At s (.seek false false) l b →
    Outcome settings first_pass s r
      (build settings first_pass v b >>= fun b => eff (finish first_pass b))

def ElemsRun (settings : JsonSettings) (first_pass : Bool) (n : Nat) : Prop :=
  ∀ (comma : Bool) (l : Bytes) (xs : List Value) (r : Bytes) (s : Scan) (b : Builder),
    readElems n comma l = some (xs, r) → l.length ≤ uint_max → At s (.seek comma false) l b →
    TopIs b .json_array →
    Outcome settings first_pass s r
      (buildElems settings first_pass xs b >>= fun b => eff (finish first_pass b))

def MembersRun (settings : JsonSettings) (first_pass : Bool) (n : Nat) : Prop :=
  ∀ (comma : Bool) (l : Bytes) (ms : List (Bytes × Value)) (r : Bytes) (s : Scan) (b : Builder),
    readMembers n comma l = some (ms, r) → l.length ≤ uint_max → At s (.inside comma) l b →
    TopIs b .json_object →
    Outcome settings first_pass s r
      (buildMembers settings first_pass ms b >>= fun b => eff (finish first_pass b))

theorem elemsRun_succ {n : Nat} (hvalue : ValueRuns settings first_pass n)
    (helems : ElemsRun settings first_pass n) : ElemsRun settings first_pass (n + 1) := by
  intro comma l xs r s b hread hlen hat htop
  obtain ⟨t, ht, hat⟩ := hat.skip_seek settings first_pass
  refine .after ht ?_
  have hlen' := Nat.le_trans (length_dropWhile_isWs_le l) hlen
  rw [readElems] at hread
  split at hread
  · cases hread
  rename_i c l' hl
  rw [hl] at hat hlen'
  split at hread
  · rename_i hc
    cases hread
    subst hc
    -- `]`
    rw [buildElems]
    exact .close_array hat htop
  split at hread
  -- a comma
  · rename_i hcomma
    split at hread
    · rename_i hc
      subst hc hcomma
      obtain ⟨u, hu, hat⟩ := hat.comma settings first_pass
      exact .after hu (helems false l' xs r u b hread
        (Nat.le_trans (Nat.le_succ _) hlen') hat htop)
    · cases hread
  · rename_i hcomma
    obtain rfl : comma = false := by simpa using hcomma
    obtain ⟨⟨v, r'⟩, hv, hread⟩ := Option.bind_eq_some_iff.mp hread
    obtain ⟨⟨vs, r''⟩, hvs, heq⟩ := Option.map_eq_some_iff.mp hread
    cases heq
    -- a value, and the loop goes on behind it with a comma to come
    have hfits := length_readValue hv
    simp only [buildElems, bind_assoc]
    refine .in_turn (hvalue _ v r' t b hv (fun _ => numEnd_of_readElems hvs) hlen' hat) ?_
    intro u b' b'' hfinish hau
    exact helems true r' vs _ u b'' hvs (by omega) hau ((topIs_finish hfinish).1 rfl)

theorem membersRun_succ {n : Nat} (hvalue : ValueRuns settings first_pass n)
    (hmembers : MembersRun settings first_pass n) :
    MembersRun settings first_pass (n + 1) := by
  intro comma l ms r s b hread hlen hat htop
  obtain ⟨t, ht, hat⟩ := hat.skip_inside settings first_pass htop
  refine .after ht ?_
  have hlen' := Nat.le_trans (length_dropWhile_isWs_le l) hlen
  rw [readMembers] at hread
  split at hread
  · cases hread
  rename_i c l' hl
  rw [hl] at hat hlen'
  rw [List.length_cons] at hlen'
  split at hread
  · rename_i hc
    cases hread
    subst hc
    rw [buildMembers]
    exact .close_object hat htop
  split at hread
  · rename_i hcomma
    split at hread
    · rename_i hc
      subst hc hcomma
      obtain ⟨u, hu, hat⟩ := hat.comma_inside settings first_pass htop
      exact .after hu (hmembers false l' ms r u b hread
        (Nat.le_trans (Nat.le_succ _) hlen') hat htop)
    · cases hread
  rename_i hcomma
  obtain rfl : comma = false := by simpa using hcomma
  split at hread
  · rename_i hc
    subst hc
    obtain ⟨⟨k, r₁⟩, hk, hread⟩ := Option.bind_eq_some_iff.mp hread
    obtain ⟨r₂, hr₂, hread⟩ := Option.bind_eq_some_iff.mp hread
    obtain ⟨⟨v, r₃⟩, hv, hread⟩ := Option.bind_eq_some_iff.mp hread
    obtain ⟨⟨ms', r₄⟩, hms, heq⟩ := Option.map_eq_some_iff.mp hread
    cases heq
    -- name, colon and value are one stretch of the loop each
    have hname := length_readString hk
    have hcolon := length_eat hr₂
    have hfits := length_readValue hv
    dsimp only at hcolon
    simp only [buildMembers, bind_assoc]
    refine .open_name hat htop fun u b₁ hau hb₁ => .name hk hau hb₁ (by omega) fun w b₂ haw => ?_
    obtain ⟨w', hw', haw'⟩ := haw.eat_colon settings first_pass hr₂
    refine .after hw' (.in_turn (hvalue r₂ v r₃ w' b₂ hv (fun _ => numEnd_of_readMembers hms)
      (by omega) haw') ?_)
    intro x b' b'' hfinish hax
    exact hmembers true r₃ ms' _ x b'' hms (by omega) hax ((topIs_finish hfinish).2 rfl)
  · cases hread

theorem isNumber_readExponent {u u' : JsonU} (hu : u.type = .json_integer ∨ u.type = .json_double)
    (h : readExponent u l = some (u', r)) :
    u'.type = .json_integer ∨ u'.type = .json_double := by
  unfold readExponent at h
  split at h
  · dsimp only at h
    split at h
    · cases h
    · cases h
      cases u with
      | integer n => exact .inr rfl
      | double d => exact .inr rfl
      | _ => rcases hu with hu | hu <;> cases hu
  · cases h
    exact hu

theorem isNumber_readUnsigned {u : JsonU} (h : readUnsigned l = some (u, r)) :
    u.type = .json_integer ∨ u.type = .json_double := by
  unfold readUnsigned at h
  dsimp only at h
  split at h
  · cases h
  · obtain ⟨⟨u', r'⟩, hf, he⟩ := Option.bind_eq_some_iff.mp h
    refine isNumber_readExponent ?_ he
    unfold readFraction at hf
    dsimp only at hf
    split at hf
    · split at hf
      · cases hf
      · cases hf
        exact .inr rfl
    · cases hf
      exact .inl rfl

theorem isNumber_readNumber {u : JsonU} (h : readNumber l = some (u, r)) :
    u.type = .json_integer ∨ u.type = .json_double := by
  unfold readNumber at h
  split at h
  · obtain ⟨⟨u', r'⟩, hu, heq⟩ := Option.map_eq_some_iff.mp h
    cases heq
    have htype := isNumber_readUnsigned hu
    cases u' with
    | integer n => exact .inl rfl
    | double d => exact .inr rfl
    | _ => rcases htype with htype | htype <;> cases htype
  · exact isNumber_readUnsigned h

theorem build_toValue {u : JsonU} (hu : u.type = .json_integer ∨ u.type = .json_double)
    (b : Builder) :
    build settings first_pass u.toValue b = eff (buildNumber settings first_pass u b) := by
  cases u with
  | integer n => rw [JsonU.toValue, build]
  | double d => rw [JsonU.toValue, build]
  | _ => rcases hu with hu | hu <;> cases hu

theorem startValue_number {c : UInt8} (hc : isDigit c = true ∨ c = 45) (s : Scan) :
    startValue settings first_pass s c = startNumber settings first_pass s c := by
  have hne : ∀ d : UInt8, isDigit d = false → d ≠ 45 → c ≠ d := by
    rintro d hd hminus rfl
    rcases hc with hc | hc
    · rw [hd] at hc
      cases hc
    · exact hminus hc
  rw [startValue, if_neg (hne 123 (by decide) (by decide)), if_neg (hne 91 (by decide) (by decide)),
    if_neg (hne 34 (by decide) (by decide)), if_neg (hne 116 (by decide) (by decide)),
    if_neg (hne 102 (by decide) (by decide)), if_neg (hne 110 (by decide) (by decide)), if_pos hc]

/-- A number, in both passes. -/
theorem Outcome.number {c : UInt8} {u : JsonU} (h : At s (.seek false false) (c :: l) b)
    (hws : Json.isWs c = false) (hc : isDigit c = true ∨ c = 45)
    (hu : readNumber (c :: l) = some (u, r)) (hend : first_pass = false → NumEnd r) :
    Outcome settings first_pass s r
      (build settings first_pass u.toValue b >>= fun b => eff (finish first_pass b)) := by
  rw [build_toValue (isNumber_readNumber hu)]
  have hclose : c ≠ 93 := by
    rintro rfl
    rcases hc with hc | hc <;> cases hc
  have hmiddle := (middle_value settings first_pass h hws
    hclose).trans (startValue_number hc _)
  cases first_pass with
  | false => exact .number_second h hc hmiddle hu (hend rfl)
  | true =>
      simp only [buildNumber, if_true, eff_bind, bind_assoc]
      refine .op_bind (fun f hf => ⟨{ s with flags.seek_value := false }, ?_⟩) fun b₁ hb₁ => ?_
      · rw [← h.build] at hf
        rw [body, hmiddle, startNumber]
        dsimp only
        rw [hf]
        rfl
      · obtain ⟨a, value, hread, htype⟩ := read_allocValue hb₁
        have hruns := NumberRuns.of_at h hc hmiddle hb₁ hread htype
        rw [hu] at hruns
        rw [hread]
        exact hruns

theorem valueRuns_succ {n : Nat} (helems : ElemsRun settings first_pass n)
    (hmembers : MembersRun settings first_pass n) : ValueRuns settings first_pass (n + 1) := by
  intro l v r s b hread hend hlen hat
  obtain ⟨t, ht, hat⟩ := hat.skip_seek settings first_pass
  refine .after ht ?_
  have hlen' := Nat.le_trans (length_dropWhile_isWs_le l) hlen
  -- what is looked at is no white space, which the seeking skips
  have hhead : ∀ c l', l.dropWhile Json.isWs = c :: l' → Json.isWs c = false := by
    intro c l' hl
    by_contra hws
    have := List.head_dropWhile_not (p := Json.isWs) (l := l) (by simp [hl])
    simp [hl, hws] at this
  rw [readValue] at hread
  split at hread
  · cases hread
  rename_i c l' hl
  have hws := hhead c l' hl
  rw [hl] at hat hlen'
  rw [List.length_cons] at hlen'
  split at hread
  · rename_i hc
    subst hc
    obtain ⟨⟨ms, r'⟩, hms, heq⟩ := Option.map_eq_some_iff.mp hread
    cases heq
    simp only [build, bind_assoc]
    exact .open_object hat fun u b' hau htop =>
      hmembers false l' ms _ u b' hms (by omega) hau htop
  split at hread
  · rename_i hc
    subst hc
    obtain ⟨⟨xs, r'⟩, hxs, heq⟩ := Option.map_eq_some_iff.mp hread
    cases heq
    simp only [build, bind_assoc]
    exact .open_array hat fun u b' hau htop =>
      helems false l' xs _ u b' hxs (by omega) hau htop
  split at hread
  · rename_i hc
    subst hc
    obtain ⟨⟨d, r'⟩, hd, heq⟩ := Option.map_eq_some_iff.mp hread
    cases heq
    exact .string hd hat (by omega)
  split at hread
  · rename_i hc
    subst hc
    obtain ⟨r', hr, heq⟩ := Option.map_eq_some_iff.mp hread
    cases heq
    rw [build]
    exact .word hat ((middle_value settings first_pass hat hws (by simp)).trans rfl)
      (by decide) hr
  split at hread
  · rename_i hc
    subst hc
    obtain ⟨r', hr, heq⟩ := Option.map_eq_some_iff.mp hread
    cases heq
    rw [build]
    exact .word hat ((middle_value settings first_pass hat hws (by simp)).trans rfl)
      (by decide) hr
  split at hread
  · rename_i hc
    subst hc
    obtain ⟨r', hr, heq⟩ := Option.map_eq_some_iff.mp hread
    cases heq
    rw [build]
    exact .word hat ((middle_value settings first_pass hat hws (by simp)).trans rfl)
      (by decide) hr
  split at hread
  · rename_i hc
    obtain ⟨⟨u, r'⟩, hu, heq⟩ := Option.map_eq_some_iff.mp hread
    cases heq
    exact .number hat hws hc hu hend
  · cases hread

/-- **The loop over the text of a value**: in either pass it performs the operations of
the value that the text says, and comes to the rest of the text. -/
theorem runs (settings : JsonSettings) (first_pass : Bool) (n : Nat) :
    ValueRuns settings first_pass n ∧ ElemsRun settings first_pass n ∧
      MembersRun settings first_pass n := by
  induction n with
  | zero =>
      refine ⟨?_, ?_, ?_⟩
      · intro l v r s b h
        cases h
      · intro comma l xs r s b h
        cases h
      · intro comma l ms r s b h
        cases h
  | succ n ih =>
      obtain ⟨hvalue, helems, hmembers⟩ := ih
      exact ⟨valueRuns_succ helems hmembers, elemsRun_succ hvalue helems,
        membersRun_succ hvalue hmembers⟩

/-! ### A pass -/

variable (settings first_pass) in
/-- A byte behind the value. -/
theorem body_done (h : At s .done l b) :
    body settings first_pass s =
      outcome (if l.headD 0 = 0 then throw (.inr (.done s))
        else if Json.isWs (l.headD 0) then throw (again (whitespace s (l.headD 0)))
        else failedAt s (ascii "Trailing garbage: `" ++ [l.headD 0, 96])) := by
  have hdone : s.flags.done = true := h.done
  rw [body, middle, doneSection, if_pos hdone, h.i]
  split
  · rfl
  · split <;> rfl

theorem At.stops (h : At s .done l b) (hl : l.headD 0 = 0) :
    Leads (body settings first_pass) rounds s (.inr (.done s)) := by
  refine .round ?_ ?_
  · rw [body_done settings first_pass h, if_pos hl, outcome_throw]
  · rw [left_inr, rounds]
    omega

variable (settings first_pass) in
/-- Behind the value: white space, and the end of the text. -/
theorem At.ends (h : At s .done l b) (hend : isEnd l = true) :
    ∃ t, Leads (body settings first_pass) rounds s (.inr (.done t)) ∧ t.build = b := by
  induction l generalizing s with
  | nil => exact ⟨s, h.stops rfl, h.build⟩
  | cons c l ih =>
      cases hc : Json.isWs c with
      | true =>
          obtain ⟨t, ht, hat⟩ := h.again_whitespace
          have hc0 : c ≠ 0 := by
            rintro rfl
            cases hc
          have hbody : body settings first_pass s = .inl t := by
            rw [body_done settings first_pass h, List.headD_cons, if_neg hc0, if_pos hc,
              outcome_throw, ht]
          rw [isEnd, List.dropWhile_cons_of_pos hc] at hend
          obtain ⟨u, hu, hbuild⟩ := ih hat hend
          refine ⟨u, .trans (.round hbody ?_) hu, hbuild⟩
          rw [left_inl, rounds, rounds, hat.i, h.i, List.length_cons]
          omega
      | false =>
          rw [isEnd, List.dropWhile_cons_of_neg (by simp [hc])] at hend
          exact ⟨s, h.stops (by simpa using hend), h.build⟩

theorem weight_le_of_readText {v : Value} (hread : readText l = some v) : v.weight ≤ l.length := by
  unfold readText at hread
  split at hread
  · rename_i v' r hvalue
    split at hread
    · obtain rfl := Option.some.inj hread
      have := length_readValue hvalue
      omega
    · cases hread
  · cases hread

/-- The values before a pass. -/
def before (alloc : Ptr) (mem : Memory) : Builder := ⟨none, none, alloc, none, 0, mem⟩

variable (settings first_pass) in
/-- **A pass over a text that is read**: it performs the operations of its value, and stops
when one of them fails. -/
theorem runPass_of_readText (alloc : Ptr) (mem : Memory) {v : Value}
    (hread : readText l = some v) (hlen : l.length ≤ uint_max) {P : Builder → Prop}
    {E : Option Fault → Prop} (hnone : ¬ E none)
    (h : Ensures (fun p => p.1 = .done ∧ P p.2) E
      (build settings first_pass v (before alloc mem) >>= fun b => eff (finish first_pass b))) :
    (∃ s, runPass settings first_pass (start l alloc mem) = some (.done s) ∧ P s.build) ∨
      ∃ f t, runPass settings first_pass (start l alloc mem) = some (stopOf t f) ∧
        E (some f) := by
  unfold readText at hread
  split at hread
  · rename_i v' r hvalue
    split at hread
    · rename_i hend
      obtain rfl := Option.some.inj hread
      have hat : At (start l alloc mem) (.seek false false) l (before alloc mem) :=
        ⟨rfl, rfl, rfl⟩
      have hruns := (runs settings first_pass _).1 l v' r _ _ hvalue
        (fun _ => numEnd_of_isEnd hend) hlen hat
      -- either both end well, or both stop with the same fault
      match hx : build settings first_pass v' (before alloc mem) >>= fun b =>
        eff (finish first_pass b), hruns, h with
      | .ok (m, b), hruns, h =>
          obtain ⟨t, ht, hat⟩ := hruns
          obtain ⟨rfl : m = .done, hP⟩ := h
          obtain ⟨u, hu, hbuild⟩ := hat.ends settings first_pass hend
          exact .inl ⟨u, loop_of_leads (ht _ hu) (Nat.le_refl _), by rwa [hbuild]⟩
      | .error none, _, h => exact absurd h hnone
      | .error (some f), hruns, h =>
          obtain ⟨t, ht⟩ := hruns
          exact .inr ⟨f, t, loop_of_leads ht (Nat.le_refl _), h⟩
    · cases hread
  · cases hread

end SpiderChat.JsonC
