import SpiderChat.JsonFirst

/-!
# SpiderChat.JsonReject

A text that is not read does not pass: the first pass stops at it with all the
values made so far in its list. The one text that does something else starts with
`]`: the parser then looks at the type of a value that it does not have.
-/

namespace SpiderChat.JsonC

open Lib

variable {settings : JsonSettings} {s t : Scan} {b : Builder} {l r : Bytes} {m : Mode}
  {shapes pre post : List Shape} {u u' : JsonU} {p : Ptr} {n k : Nat}

/-- The first pass fails from here, with all values in the list. -/
def Fails (settings : JsonSettings) (s : Scan) : Prop :=
  ∃ e t, Leads (body settings true) rounds s (.inr (.failed e t)) ∧ ∃ shapes, Layout t.build shapes

theorem Fails.after (h : Reaches (body settings true) rounds s t) (ht : Fails settings t) :
    Fails settings s := by
  obtain ⟨e, u, hu, hlayout⟩ := ht
  exact ⟨e, u, h _ hu, hlayout⟩

theorem Fails.of_body {e : Bytes} (h : body settings true s = .inr (.failed e t))
    (hlayout : Layout t.build shapes) : Fails settings s :=
  ⟨e, t, .round h (by rw [left_inr, rounds]; omega), shapes, hlayout⟩

theorem Fails.of_middle {text : Bytes} (h : middle settings true s = failedAt t text)
    (hlayout : Layout t.build shapes) : Fails settings s := by
  obtain ⟨e, he⟩ := body_of_failedAt settings true h
  exact .of_body he hlayout

/-- The operations of the first pass lead on, or an allocation fails. -/
theorem Outcome.goes_or_fails {x : Eff (Mode × Builder)} {P : Mode × Builder → Prop}
    (h : Outcome settings true s r x) (hx : Ensures P (Kept settings) x) :
    (∃ t m b, Reaches (body settings true) rounds s t ∧ At t m r b ∧ P (m, b)) ∨
      Fails settings s := by
  match x, h, hx with
  | .ok (m, b), ⟨t, ht, hat⟩, hP => exact .inl ⟨t, m, b, ht, hat, hP⟩
  | .error none, _, hkept => exact absurd hkept not_kept_none
  | .error (some f), ⟨t, ht⟩, ⟨_, b, shapes, hf, hlayout⟩ =>
      cases hf
      exact .inr ⟨_, _, ht, shapes, hlayout⟩

/-! ### Strings -/

theorem hexValues_fails {c : UInt8} (n : Nat) (r : Bytes) :
    ∃ vs i, hexValues n (c :: r) = some (vs, i) ∧
      (vs.length = n → n ≤ r.length ∧ ∀ x ∈ r.take n, isHex x = true) := by
  induction n generalizing c r with
  | zero => exact ⟨[], c :: r, rfl, fun _ => ⟨Nat.zero_le _, by simp⟩⟩
  | succ n ih =>
      cases r with
      | nil => exact ⟨[], [], rfl, fun h => by cases h⟩
      | cons d r =>
          rw [hexValues, List.headD_cons]
          by_cases hd : hexValue d = 0xFF
          · rw [if_pos hd]
            exact ⟨[], _, rfl, fun h => by cases h⟩
          · obtain ⟨vs, i, hvs, hlen⟩ := ih (c := d) (r := r)
            rw [if_neg hd, hvs]
            refine ⟨_, i, rfl, fun h => ?_⟩
            obtain ⟨hle, hall⟩ := hlen (by simpa using h)
            refine ⟨Nat.succ_le_succ hle, fun x hx => ?_⟩
            rw [List.take_succ_cons] at hx
            rcases List.mem_cons.mp hx with rfl | hx
            · simpa [isHex] using hd
            · exact hall x hx

/-- Less than four digits behind `\\u`. -/
theorem hexValues_of_unicodePiece {c : UInt8} (h : unicodePiece r = none) :
    ∃ vs i, hexValues 4 (c :: r) = some (vs, i) ∧ vs.length ≠ 4 := by
  obtain ⟨vs, i, hvs, hlen⟩ := hexValues_fails (c := c) 4 r
  refine ⟨vs, i, hvs, fun h4 => ?_⟩
  obtain ⟨hle, hall⟩ := hlen h4
  match r, hle with
  | u1 :: u2 :: u3 :: u4 :: r, _ =>
      simp only [List.take_succ_cons, List.take_zero, List.mem_cons, List.not_mem_nil, or_false,
        forall_eq_or_imp, forall_eq] at hall
      simp [unicodePiece, hall] at h

variable (settings) in
theorem body_eof {escaped : Bool} (h : At s (.chars escaped) l b) (hl : l.headD 0 = 0) :
    ∃ e, body settings true s = .inr (.failed e s) := by
  have hstring : s.flags.string = true := h.string
  rw [body, middle_chars h, stringSection, if_pos hstring, if_pos hl]
  exact ⟨_, rfl⟩

variable (settings) in
/-- A bad `\\u`. -/
theorem body_bad_unicode (h : At s (.chars true) (117 :: r) b) (hr : unicodePiece r = none)
    (hlen : b.string_length ≤ uint_max) :
    ∃ e t, body settings true s = .inr (.failed e t) ∧ t.build = b := by
  obtain ⟨vs, i, hvs, hne⟩ := hexValues_of_unicodePiece (c := 117) hr
  have hescaped : ∀ t : Scan, t.i = 117 :: r → ∃ e u, escapedSection true t 117 =
      failed u e ∧ u.build = t.build := by
    intro t ht
    rw [escapedSection, if_pos rfl]
    dsimp only
    rw [ht, hvs]
    split
    · rename_i heq
      cases heq
      exact absurd rfl hne
    · exact ⟨_, _, rfl, rfl⟩
    · rename_i heq
      cases heq
  obtain ⟨e, t, ht, hbuild⟩ := hescaped s h.i
  refine ⟨e, t, ?_, hbuild.trans h.build⟩
  have hstring : s.flags.string = true := h.string
  have hesc : s.flags.escaped = true := h.escaped
  rw [body, middle_chars h, stringSection, if_pos hstring, List.headD_cons, if_neg (by decide),
    if_neg (by rw [h.build]; omega), if_pos hesc, ht]
  rfl

/-- A text that is no piece of a string. -/
theorem chars_fail_here (hp : charPiece l = none) (h : At s (.chars false) l b)
    (hlayout : Layout b shapes) (hlen : b.string_length ≤ uint_max) : Fails settings s := by
  -- the zero byte behind the text ends every string
  have heof : ∀ {escaped l t}, At t (.chars escaped) l b → l.headD 0 = 0 → Fails settings t := by
    intro escaped l t hat hl
    obtain ⟨e, he⟩ := body_eof settings hat hl
    exact .of_body he (by rw [hat.build]; exact hlayout)
  unfold charPiece at hp
  split at hp
  · exact heof h rfl
  · rename_i c r
    split at hp
    · rename_i hc
      exact heof h hc
    split at hp
    · rename_i hc
      subst hc
      obtain ⟨t, ht, hat⟩ := h.backslash settings true hlen
      refine .after ht ?_
      split at hp
      · exact heof hat rfl
      · split at hp
        · rename_i he
          exact heof hat he
        split at hp
        · rename_i he
          subst he
          obtain ⟨e, u, hu, hbuild⟩ := body_bad_unicode settings hat hp hlen
          exact .of_body hu (by rw [hbuild]; exact hlayout)
        · cases hp
    · split at hp <;> cases hp

/-- A string that does not end. -/
theorem chars_fail (hread : readString l = none) (h : At s (.chars false) l b)
    (hlayout : Layout b shapes) (hlen : b.string_length + l.length ≤ uint_max) :
    Fails settings s := by
  induction hn : l.length using Nat.strong_induction_on generalizing l s b with
  | _ n ih =>
      -- a piece that is read leads to a shorter rest, which is not read either
      cases hp : charPiece l with
      | none => exact chars_fail_here hp h hlayout (by omega)
      | some q =>
          obtain ⟨d, l'⟩ := q
          cases d with
          | none =>
              rw [readString_eq_some.mpr (.close hp)] at hread
              cases hread
          | some d =>
              have hle := length_charPiece hp
              obtain ⟨raw, hraw, hpos, -, -⟩ := quoting_lawful.read hp
              have hrest : readString l' = none := by
                cases hrest : readString l' with
                | none => rfl
                | some q =>
                    rw [readString_eq_some.mpr (.read hp (readString_eq_some.mp hrest))] at hread
                    cases hread
              have hpiece := Outcome.piece settings true (r := l')
                (k := fun b => pure (.chars false, b)) hp h (by omega)
                fun t b' _ hat => ⟨t, .refl t, hat⟩
              rw [stringAdd_true] at hpiece
              obtain ⟨t, ht, hat⟩ := hpiece
              refine .after ht (ih l'.length ?_ hrest hat (hlayout.string _ _) ?_ rfl)
              · have := congrArg List.length hraw
                rw [List.length_append] at this
                have := List.length_pos_iff.mpr hpos
                omega
              · dsimp only
                omega

/-! ### Words and numbers -/

theorem expect_fails {w : Bytes} {c : UInt8} (hw : ¬ w <+: l) (hzero : ∀ x ∈ w, x ≠ 0) :
    ∃ i, expect w (c :: l) = some (false, i) := by
  induction w generalizing c l with
  | nil => exact absurd (List.nil_prefix) hw
  | cons d w ih =>
      rw [expect]
      cases l with
      | nil => exact ⟨[], if_neg fun h => hzero d List.mem_cons_self h.symm⟩
      | cons e l =>
          rw [List.headD_cons]
          split
          · rename_i he
            exact ih (fun hpre => hw (by rw [he]; exact (List.prefix_cons_inj d).mpr hpre))
              fun x hx => hzero x (List.mem_cons_of_mem _ hx)
          · exact ⟨_, rfl⟩

theorem word_fails {w : Bytes} {c : UInt8} {least : Nat} {type : JsonType} {value : Option Bool}
    (h : At s (.seek false false) (c :: l) b)
    (hmiddle : middle settings true s =
      literal settings true { s with flags.seek_value := false } least w type value)
    (hw : readWord w l = none) (hzero : ∀ x ∈ w, x ≠ 0) (hlayout : Layout b shapes) :
    Fails settings s := by
  have hprefix : ¬ w <+: l := by
    intro hpre
    rw [readWord, if_pos hpre] at hw
    cases hw
  obtain ⟨i, hi⟩ := expect_fails (c := c) hprefix hzero
  rw [literal] at hmiddle
  split at hmiddle
  · exact .of_middle hmiddle (by show Layout s.build shapes; rw [h.build]; exact hlayout)
  · dsimp only at hmiddle
    rw [h.i, hi] at hmiddle
    exact .of_middle hmiddle (by show Layout s.build shapes; rw [h.build]; exact hlayout)

theorem number_fails {c : UInt8} (hmax : settings.max_memory = 0)
    (h : At s (.seek false false) (c :: l) b) (hws : Json.isWs c = false)
    (hc : isDigit c = true ∨ c = 45) (hread : readNumber (c :: l) = none)
    (hlayout : Layout b shapes) : Fails settings s := by
  have hclose : c ≠ 93 := by
    rintro rfl
    rcases hc with hc | hc <;> cases hc
  have hmiddle := (middle_value settings true h hws
    hclose).trans (startValue_number hc _)
  have hfirst := hlayout.allocValue hmax .json_integer
  match hnew : allocValue settings b .json_integer, hfirst with
  | .error f, ⟨_, b', shapes', hf, hlayout'⟩ =>
      cases hf
      rw [← h.build] at hnew
      refine .of_body (t := { s with flags.seek_value := false, build := b' })
        (e := ascii "Memory allocation failure") ?_ hlayout'
      rw [body, hmiddle, startNumber]
      show outcome ((ofOp _ (allocValue settings s.build .json_integer) >>= _) >>= _) = _
      rw [hnew]
      rfl
  | .ok b₁, ⟨hlayout₁, htop⟩ =>
      have hruns := NumberRuns.of_at h hc hmiddle hnew (hlayout₁.read_top htop) rfl
      rw [hread] at hruns
      obtain ⟨e, t, ht, hbuild⟩ := hruns
      refine ⟨e, t, ht, ?_⟩
      rcases hbuild with hbuild | ⟨u', hbuild⟩
      · exact ⟨_, by rw [hbuild]; exact hlayout₁⟩
      · exact ⟨_, by rw [hbuild]; exact hlayout₁.setU hlayout₁.read u'⟩

/-! ### Bytes that do not belong -/

section
variable (hlayout : Layout b shapes)
include hlayout

theorem seek_fails_comma {colon : Bool} (h : At s (.seek true colon) l b)
    (hws : Json.isWs (l.headD 0) = false) (hclose : l.headD 0 ≠ 93) (hc : l.headD 0 ≠ 44) :
    Fails settings s := by
  have hcomma : s.flags.need_comma = true := h.need_comma
  have hmiddle := middle_seek settings true h
  simp only [seekSection, hws, hclose, hcomma, hc, Bool.false_eq_true, if_false, if_true] at hmiddle
  exact .of_middle hmiddle (by rw [h.build]; exact hlayout)

theorem seek_fails_colon (h : At s (.seek false true) l b)
    (hws : Json.isWs (l.headD 0) = false) (hclose : l.headD 0 ≠ 93) (hc : l.headD 0 ≠ 58) :
    Fails settings s := by
  have hcomma : s.flags.need_comma = false := h.need_comma
  have hcolon : s.flags.need_colon = true := h.need_colon
  have hmiddle := middle_seek settings true h
  simp only [seekSection, hws, hclose, hcomma, hcolon, hc, Bool.false_eq_true, if_false,
    if_true] at hmiddle
  exact .of_middle hmiddle (by rw [h.build]; exact hlayout)

/-- `]` where a value of an object is looked for. -/
theorem seek_fails_bracket (hsettings : settings.settings = 0) {comma colon : Bool}
    (h : At s (.seek comma colon) l b) (hl : l.headD 0 = 93) (htop : TopIs b .json_object) :
    Fails settings s := by
  obtain ⟨a, value, hread, htype⟩ := htop
  have hmiddle := middle_seek settings true h
  have hws : Json.isWs 93 = false := by decide
  simp only [seekSection, hl, hws, h.build, hread, ofOp, pure_bind, htype, hsettings,
    Bool.false_eq_true, if_false, if_true, reduceCtorEq] at hmiddle
  exact .of_middle hmiddle (by rw [h.build]; exact hlayout)

theorem value_fails (h : At s (.seek false false) l b) (hws : Json.isWs (l.headD 0) = false)
    (hc : ∀ c ∈ [93, 123, 91, 34, 116, 102, 110, 45], l.headD 0 ≠ c)
    (hdigit : isDigit (l.headD 0) = false) : Fails settings s := by
  simp only [List.mem_cons, List.not_mem_nil, or_false, forall_eq_or_imp, forall_eq] at hc
  obtain ⟨h93, h123, h91, h34, h116, h102, h110, h45⟩ := hc
  have hmiddle := middle_value settings true h hws h93
  simp only [startValue, h123, h91, h34, h116, h102, h110, h45, hdigit, Bool.false_eq_true,
    if_false, or_self] at hmiddle
  exact .of_middle hmiddle (by show Layout s.build shapes; rw [h.build]; exact hlayout)

theorem member_fails (hsettings : settings.settings = 0) {comma : Bool}
    (h : At s (.inside comma) l b) (htop : TopIs b .json_object)
    (hws : Json.isWs (l.headD 0) = false) (hclose : l.headD 0 ≠ 125)
    (hc : l.headD 0 ≠ if comma then 44 else 34) : Fails settings s := by
  have hcomma : s.flags.need_comma = comma := h.need_comma
  have hmiddle := middle_object settings true h htop
  cases comma with
  | true =>
      rw [if_pos rfl] at hc
      by_cases hquote : l.headD 0 = 34
      · simp only [objectSection, hquote, hcomma, hsettings, and_self, if_true,
          show Json.isWs 34 = false by decide, Bool.false_eq_true, if_false] at hmiddle
        exact .of_middle hmiddle (by rw [h.build]; exact hlayout)
      · simp only [objectSection, hws, hquote, hclose, hc, false_and, Bool.false_eq_true,
          if_false] at hmiddle
        exact .of_middle hmiddle (by rw [h.build]; exact hlayout)
  | false =>
      rw [if_neg (by decide)] at hc
      simp only [objectSection, hws, hc, hclose, hcomma, Bool.false_eq_true, and_false,
        if_false] at hmiddle
      exact .of_middle hmiddle (by rw [h.build]; exact hlayout)

end

/-! ### Values -/

/-- The settings of `json_parse`, but for the allocator. -/
structure JsonSettings.Plain (settings : JsonSettings) : Prop where
  max_memory : settings.max_memory = 0
  settings : settings.settings = 0

def ValueFails (settings : JsonSettings) (n : Nat) : Prop :=
  ∀ l s b shapes, readValue n l = none → 2 * l.length < n → l.length ≤ uint_max →
    At s (.seek false false) l b → Layout b shapes →
    (∀ r, l.dropWhile Json.isWs = 93 :: r → TopIs b .json_object) → Fails settings s

def ElemsFail (settings : JsonSettings) (n : Nat) : Prop :=
  ∀ comma l s b pre p k post, readElems n comma l = none → 2 * l.length + 1 < n →
    k + l.length ≤ uint_max → At s (.seek comma false) l b →
    Layout b (pre ++ (p, .array k none) :: post) → b.top = some pre.length → Fails settings s

def MembersFail (settings : JsonSettings) (n : Nat) : Prop :=
  ∀ comma l s b pre p k bytes post, readMembers n comma l = none → 2 * l.length + 1 < n →
    k + l.length ≤ uint_max → At s (.inside comma) l b →
    Layout b (pre ++ (p, .object k (.size bytes)) :: post) → b.top = some pre.length →
    Fails settings s

/-- An element or a member that is read leads on, or an allocation fails. -/
theorem element_step {v : Value} (hplain : settings.Plain) (hread : readValue n l = some (v, r))
    (hlen : l.length ≤ uint_max) (h : At s (.seek false false) l b)
    (hlayout : Layout b (pre ++ (p, u) :: post)) (htop : b.top = some pre.length)
    (hgrow : u.grow = .ok (k, u')) (hk : k < uint_max) (hmode : modeAfter (some u.type) = m) :
    (∃ t b' post', Reaches (body settings true) rounds s t ∧ At t m r b' ∧
      Layout b' (pre ++ (p, u') :: post') ∧ b'.top = some pre.length) ∨ Fails settings s := by
  have hfits := length_readValue hread
  have hout := Outcome.in_turn (k := fun b => pure (m, b)) (r := r) (m := m)
    ((runs settings true n).1 l v r s b hread (fun hsecond => by cases hsecond) hlen h)
    fun t b' b'' _ hat => ⟨t, .refl t, hat⟩
  have hlen' : (pre ++ (p, u) :: post).length = pre.length + 1 + post.length := by
    simp only [List.length_append, List.length_cons]
    omega
  rcases hout.goes_or_fails (P := fun q => q.1 = m ∧
    Layout q.2 (pre ++ (p, u') :: (post ++ shapesOf v (some pre.length)
      (pre.length + 1 + post.length))) ∧ q.2.top = some pre.length) (by
      refine (valueCounts hplain.max_memory v (by omega) b _ hlayout).bind fun b₁ hb₁ => ?_
      obtain ⟨h₁, htop₁⟩ := hb₁
      rw [htop, hlen', List.append_assoc, List.cons_append] at h₁
      rw [hlen'] at htop₁
      refine (h₁.finishIn settings htop₁ hgrow hk hmode).bind fun b₂ hb₂ => ?_
      exact ⟨rfl, hb₂⟩) with ⟨t, m', b', ht, hat, hm, hlayout', htop'⟩ | hfails
  · obtain rfl : m' = m := hm
    exact .inl ⟨t, b', _, ht, hat, hlayout', htop'⟩
  · exact .inr hfails

theorem topIs_of_layout (hlayout : Layout b (pre ++ (p, u) :: post))
    (htop : b.top = some pre.length) : TopIs b u.type :=
  ⟨_, _, hlayout.read_top htop, rfl⟩

theorem isWs_headD_dropWhile (l : Bytes) :
    Json.isWs ((l.dropWhile Json.isWs).headD 0) = false := by
  induction l with
  | nil => rfl
  | cons c l ih =>
      cases hc : Json.isWs c with
      | true => rwa [List.dropWhile_cons_of_pos hc]
      | false => rwa [List.dropWhile_cons_of_neg (by simp [hc])]

theorem elemsFail_succ (hplain : settings.Plain) (hvalue : ValueFails settings n)
    (helems : ElemsFail settings n) : ElemsFail settings (n + 1) := by
  intro comma l s b pre p k post hread hfuel hlen hat hlayout htop
  obtain ⟨t, ht, hat⟩ := hat.skip_seek settings true
  refine .after ht ?_
  have hle := length_dropWhile_isWs_le l
  have hws := isWs_headD_dropWhile l
  rw [readElems] at hread
  split at hread
  · rename_i hl
    rw [hl] at hat
    -- the text ends in the array
    cases comma with
    | true => exact seek_fails_comma hlayout hat (by decide) (by decide) (by decide)
    | false => exact value_fails hlayout hat (by decide) (by decide) (by decide)
  rename_i c l' hl
  rw [hl] at hat hle hws
  rw [List.length_cons] at hle
  rw [List.headD_cons] at hws
  split at hread
  · cases hread
  rename_i hclose
  split at hread
  · rename_i hcomma
    subst hcomma
    split at hread
    · rename_i hc
      subst hc
      obtain ⟨u, hu, hau⟩ := hat.comma settings true
      exact .after hu (helems false l' u b pre p k post hread (by omega) (by omega) hau hlayout
        htop)
    · rename_i hc
      exact seek_fails_comma hlayout hat hws hclose hc
  · rename_i hcomma
    obtain rfl : comma = false := by simpa using hcomma
    -- the value is not read, or what is behind it is not
    cases hv : readValue n (c :: l') with
    | none =>
        refine hvalue _ t b _ hv (by rw [List.length_cons]; omega) (by rw [List.length_cons]; omega)
          hat hlayout fun r hr => ?_
        rw [List.dropWhile_cons_of_neg (by simp [hws])] at hr
        exact absurd (List.cons.inj hr).1 hclose
    | some q =>
        obtain ⟨v, r⟩ := q
        rw [hv, Option.bind_some, Option.map_eq_none_iff] at hread
        have hfits := length_readValue hv
        have hweight : 0 < v.weight := weight_pos v
        rw [List.length_cons] at hfits
        rcases element_step hplain hv (by rw [List.length_cons]; omega) hat hlayout htop
          (k := k) rfl (by omega) rfl with ⟨u, b', post', hu, hau, hlayout', htop'⟩ | hfails
        · exact .after hu (helems true r u b' pre p (k + 1) post' hread (by omega) (by omega) hau
            hlayout' htop')
        · exact hfails

variable (settings) in
/-- The name of a member that is read leads on. -/
theorem name_step {d : Bytes} {bytes : Nat} (hd : readString l = some (d, r))
    (hlen : l.length ≤ uint_max) (h : At s (.inside false) (34 :: l) b)
    (hlayout : Layout b (pre ++ (p, .object k (.size bytes)) :: post))
    (htop : b.top = some pre.length) :
    (∃ t b' bytes', Reaches (body settings true) rounds s t ∧ At t (.seek false true) r b' ∧
      Layout b' (pre ++ (p, .object k (.size bytes')) :: post) ∧ b'.top = some pre.length) ∨
      Fails settings s := by
  have hout : Outcome settings true s r (eff (openName b) >>= fun b =>
      buildChars true false d b >>= fun b => pure (.seek false true, b)) :=
    .open_name h (topIs_of_layout hlayout htop) fun t b' hat hb' =>
      .name hd hat hb' hlen fun u b'' hau => ⟨u, .refl u, hau⟩
  rw [← bind_assoc] at hout
  rcases hout.goes_or_fails (P := fun q => q.1 = .seek false true ∧
    Layout q.2 (pre ++ (p, .object k (.size (bytes + (d.length + 1)))) :: post) ∧
      q.2.top = some pre.length) ((hlayout.buildName htop d).bind fun b₁ hb₁ => ⟨rfl, hb₁⟩)
    with ⟨t, m, b', ht, hat, hm, hlayout', htop'⟩ | hfails
  · obtain rfl : m = .seek false true := hm
    exact .inl ⟨t, b', _, ht, hat, hlayout', htop'⟩
  · exact .inr hfails

/-- The name of a member that does not end. -/
theorem name_fails {bytes : Nat} (hd : readString l = none) (hlen : l.length ≤ uint_max)
    (h : At s (.inside false) (34 :: l) b)
    (hlayout : Layout b (pre ++ (p, .object k (.size bytes)) :: post))
    (htop : b.top = some pre.length) : Fails settings s := by
  have hout : Outcome settings true s l (eff (openName b) >>= fun b => pure (.chars false, b)) :=
    .open_name h (topIs_of_layout hlayout htop) fun t b' hat _ => ⟨t, .refl t, hat⟩
  rcases hout.goes_or_fails (P := fun q => q.1 = .chars false ∧
    Layout q.2 (pre ++ (p, .object k (.size bytes)) :: post) ∧ q.2.string_length = 0)
    ((hlayout.openName htop).eff.bind fun b₁ hb₁ => ⟨rfl, hb₁.1, hb₁.2.2⟩)
    with ⟨t, m, b', ht, hat, hm, hlayout', hb'⟩ | hfails
  · obtain rfl : m = .chars false := hm
    have hzero : b'.string_length = 0 := hb'
    exact .after ht (chars_fail hd hat hlayout' (by omega))
  · exact hfails

/-- No colon behind a name. -/
theorem colon_fails (hsettings : settings.settings = 0) (heat : Json.eat 58 l = none)
    (h : At s (.seek false true) l b) (hlayout : Layout b shapes) (htop : TopIs b .json_object) :
    Fails settings s := by
  obtain ⟨t, ht, hat⟩ := h.skip_seek settings true
  refine .after ht ?_
  have hws := isWs_headD_dropWhile l
  by_cases hclose : (l.dropWhile Json.isWs).headD 0 = 93
  · exact seek_fails_bracket hlayout hsettings hat hclose htop
  · refine seek_fails_colon hlayout hat hws hclose fun hcolon => ?_
    unfold Json.eat at heat
    split at heat
    · rename_i hl
      rw [hl] at hcolon
      cases hcolon
    · rename_i c l' hl
      rw [hl, List.headD_cons] at hcolon
      rw [if_pos hcolon] at heat
      cases heat

theorem membersFail_succ (hplain : settings.Plain) (hvalue : ValueFails settings n)
    (hmembers : MembersFail settings n) : MembersFail settings (n + 1) := by
  intro comma l s b pre p k bytes post hread hfuel hlen hat hlayout htop
  have hobject := topIs_of_layout hlayout htop
  obtain ⟨t, ht, hat⟩ := hat.skip_inside settings true hobject
  refine .after ht ?_
  have hle := length_dropWhile_isWs_le l
  have hws := isWs_headD_dropWhile l
  rw [readMembers] at hread
  split at hread
  · rename_i hl
    rw [hl] at hat
    exact member_fails hlayout hplain.settings hat hobject (by decide) (by decide)
      (by cases comma <;> decide)
  rename_i c l' hl
  rw [hl] at hat hle hws
  rw [List.length_cons] at hle
  rw [List.headD_cons] at hws
  split at hread
  · cases hread
  rename_i hclose
  split at hread
  · rename_i hcomma
    subst hcomma
    split at hread
    · rename_i hc
      subst hc
      obtain ⟨u, hu, hau⟩ := hat.comma_inside settings true hobject
      exact .after hu (hmembers false l' u b pre p k bytes post hread (by omega) (by omega) hau
        hlayout htop)
    · rename_i hc
      exact member_fails hlayout hplain.settings hat hobject hws hclose hc
  rename_i hcomma
  obtain rfl : comma = false := by simpa using hcomma
  split at hread
  · rename_i hc
    subst hc
    -- the first of name, colon and value that is not read makes the loop fail
    cases hk : readString l' with
    | none => exact name_fails hk (by omega) hat hlayout htop
    | some q =>
        obtain ⟨d, r₁⟩ := q
        have hname := length_readString hk
        rw [hk, Option.bind_some] at hread
        rcases name_step settings hk (by omega) hat hlayout htop
          with ⟨u, b₁, bytes₁, hu, hau, hlayout₁, htop₁⟩ | hfails
        swap
        · exact hfails
        refine .after hu ?_
        have hobject₁ := topIs_of_layout hlayout₁ htop₁
        dsimp only at hread
        cases hr₂ : Json.eat 58 r₁ with
        | none => exact colon_fails hplain.settings hr₂ hau hlayout₁ hobject₁
        | some r₂ =>
            have hcolon := length_eat hr₂
            rw [hr₂, Option.bind_some] at hread
            obtain ⟨w, hw, haw⟩ := hau.eat_colon settings true hr₂
            refine .after hw ?_
            cases hv : readValue n r₂ with
            | none =>
                exact hvalue r₂ w b₁ _ hv (by omega) (by omega) haw hlayout₁ fun _ _ => hobject₁
            | some q =>
                obtain ⟨v, r₃⟩ := q
                rw [hv, Option.bind_some, Option.map_eq_none_iff] at hread
                have hfits := length_readValue hv
                rcases element_step hplain hv (by omega) haw hlayout₁ htop₁ (k := k) rfl
                  (by omega) rfl with ⟨x, b₂, post₂, hx, hax, hlayout₂, htop₂⟩ | hfails
                · exact .after hx (hmembers true r₃ x b₂ pre p (k + 1) bytes₁ post₂ hread
                    (by omega) (by omega) hax hlayout₂ htop₂)
                · exact hfails
  · rename_i hc
    exact member_fails hlayout hplain.settings hat hobject hws hclose hc

/-- The byte that opens an array or an object. -/
theorem open_step {c : UInt8} {type : JsonType} (hmax : settings.max_memory = 0)
    (hc : c = 123 ∧ type = .json_object ∧ m = .inside false ∨
      c = 91 ∧ type = .json_array ∧ m = .seek false false)
    (h : At s (.seek false false) (c :: l) b) (hlayout : Layout b shapes) :
    (∃ t b', Reaches (body settings true) rounds s t ∧ At t m l b' ∧
      Layout b' (shapes ++ [(b.top, type.zero)]) ∧ b'.top = some shapes.length) ∨
      Fails settings s := by
  have hout : Outcome settings true s l (eff (newValue settings true b type) >>= fun b =>
      inType type b >>= fun b => pure (m, b)) := by
    rcases hc with ⟨rfl, rfl, rfl⟩ | ⟨rfl, rfl, rfl⟩
    · exact .open_object h fun t b' hat _ => ⟨t, .refl t, hat⟩
    · exact .open_array h fun t b' hat _ => ⟨t, .refl t, hat⟩
  have htype : type.zero.type = type := by cases type <;> rfl
  rcases hout.goes_or_fails (P := fun q => q.1 = m ∧
    Layout q.2 (shapes ++ [(b.top, type.zero)]) ∧ q.2.top = some shapes.length)
    ((hlayout.allocValue hmax type).eff.bind fun b₁ hb₁ => by
      rw [inType_of_read type (hb₁.1.read_top hb₁.2) htype]
      exact ⟨rfl, hb₁⟩)
    with ⟨t, m', b', ht, hat, hm, hlayout', htop'⟩ | hfails
  · obtain rfl : m' = m := hm
    exact .inl ⟨t, b', ht, hat, hlayout', htop'⟩
  · exact .inr hfails

/-- A string that does not end. -/
theorem string_fails (hmax : settings.max_memory = 0) (hd : readString l = none)
    (hlen : l.length ≤ uint_max) (h : At s (.seek false false) (34 :: l) b)
    (hlayout : Layout b shapes) : Fails settings s := by
  have hout : Outcome settings true s l (eff (openString settings true b) >>= fun b =>
      pure (.chars false, b)) := .open_string h fun t b' hat _ => ⟨t, .refl t, hat⟩
  rcases hout.goes_or_fails (P := fun q => q.1 = .chars false ∧
    Layout q.2 (shapes ++ [(b.top, .string 0 none)]) ∧ q.2.string_length = 0)
    ((hlayout.openString hmax).eff.bind fun b₁ hb₁ => ⟨rfl, hb₁.1, hb₁.2.2⟩)
    with ⟨t, m, b', ht, hat, hm, hlayout', hb'⟩ | hfails
  · obtain rfl : m = .chars false := hm
    have hzero : b'.string_length = 0 := hb'
    exact .after ht (chars_fail hd hat hlayout' (by omega))
  · exact hfails

theorem startValue_true (s : Scan) : startValue settings true s 116 =
    literal settings true s 3 (ascii "rue") .json_boolean (some true) := rfl

theorem startValue_false (s : Scan) : startValue settings true s 102 =
    literal settings true s 4 (ascii "alse") .json_boolean none := rfl

theorem startValue_null (s : Scan) : startValue settings true s 110 =
    literal settings true s 3 (ascii "ull") .json_null none := rfl

theorem valueFails_succ (hplain : settings.Plain) (helems : ElemsFail settings n)
    (hmembers : MembersFail settings n) : ValueFails settings (n + 1) := by
  intro l s b shapes hread hfuel hlen hat hlayout hbracket
  obtain ⟨t, ht, hat⟩ := hat.skip_seek settings true
  refine .after ht ?_
  have hle := length_dropWhile_isWs_le l
  have hws := isWs_headD_dropWhile l
  rw [readValue] at hread
  split at hread
  · rename_i hl
    rw [hl] at hat
    exact value_fails hlayout hat (by decide) (by decide) (by decide)
  rename_i c l' hl
  rw [hl] at hat hle hws
  rw [List.length_cons] at hle
  rw [List.headD_cons] at hws
  have hzero : ∀ w ∈ [ascii "rue", ascii "alse", ascii "ull"], ∀ x ∈ w, x ≠ 0 := by decide
  split at hread
  · rename_i hc
    subst hc
    rw [Option.map_eq_none_iff] at hread
    rcases open_step hplain.max_memory (.inl ⟨rfl, rfl, rfl⟩) hat hlayout
      with ⟨u, b', hu, hau, hlayout', htop'⟩ | hfails
    · exact .after hu (hmembers false l' u b' shapes b.top 0 0 [] hread (by omega) (by omega) hau
        hlayout' htop')
    · exact hfails
  rename_i hbrace
  split at hread
  · rename_i hc
    subst hc
    rw [Option.map_eq_none_iff] at hread
    rcases open_step hplain.max_memory (.inr ⟨rfl, rfl, rfl⟩) hat hlayout
      with ⟨u, b', hu, hau, hlayout', htop'⟩ | hfails
    · exact .after hu (helems false l' u b' shapes b.top 0 [] hread (by omega) (by omega) hau
        hlayout' htop')
    · exact hfails
  rename_i hsquare
  split at hread
  · rename_i hc
    subst hc
    rw [Option.map_eq_none_iff] at hread
    exact string_fails hplain.max_memory hread (by omega) hat hlayout
  rename_i hquote
  split at hread
  · rename_i hc
    subst hc
    rw [Option.map_eq_none_iff] at hread
    have hmiddle := middle_value settings true hat hws (by simp)
    exact word_fails hat (hmiddle.trans (startValue_true _)) hread (hzero _ (by simp)) hlayout
  rename_i htrue
  split at hread
  · rename_i hc
    subst hc
    rw [Option.map_eq_none_iff] at hread
    have hmiddle := middle_value settings true hat hws (by simp)
    exact word_fails hat (hmiddle.trans (startValue_false _)) hread (hzero _ (by simp)) hlayout
  rename_i hfalse
  split at hread
  · rename_i hc
    subst hc
    rw [Option.map_eq_none_iff] at hread
    have hmiddle := middle_value settings true hat hws (by simp)
    exact word_fails hat (hmiddle.trans (startValue_null _)) hread (hzero _ (by simp)) hlayout
  rename_i hnull
  split at hread
  · rename_i hc
    rw [Option.map_eq_none_iff] at hread
    exact number_fails hplain.max_memory hat hws hc hread hlayout
  · rename_i hc
    obtain ⟨hdigit, hminus⟩ := not_or.mp hc
    by_cases hclose : c = 93
    · subst hclose
      exact seek_fails_bracket hlayout hplain.settings hat rfl (hbracket l' hl)
    · refine value_fails hlayout hat hws ?_ (by simpa using hdigit)
      simp [hclose, hbrace, hsquare, hquote, htrue, hfalse, hnull, hminus]

theorem fails (hplain : settings.Plain) (n : Nat) :
    ValueFails settings n ∧ ElemsFail settings n ∧ MembersFail settings n := by
  induction n with
  | zero =>
      refine ⟨?_, ?_, ?_⟩
      · intro l s b shapes _ hfuel
        cases hfuel
      · intro comma l s b pre p k post _ hfuel
        cases hfuel
      · intro comma l s b pre p k bytes post _ hfuel
        cases hfuel
  | succ n ih =>
      obtain ⟨hvalue, helems, hmembers⟩ := ih
      exact ⟨valueFails_succ hplain helems hmembers, elemsFail_succ hplain hvalue helems,
        membersFail_succ hplain hvalue hmembers⟩

/-! ### The first pass over a text that is not read -/

theorem done_fails (hend : isEnd l = false) (h : At s .done l b) (hlayout : Layout b shapes) :
    Fails settings s := by
  induction l generalizing s with
  | nil => cases hend
  | cons c l ih =>
      cases hc : Json.isWs c with
      | true =>
          obtain ⟨t, ht, hat⟩ := h.again_whitespace
          have hc0 : c ≠ 0 := by
            rintro rfl
            cases hc
          have hbody : body settings true s = .inl t := by
            rw [body_done settings true h, List.headD_cons, if_neg hc0, if_pos hc, outcome_throw,
              ht]
          rw [isEnd, List.dropWhile_cons_of_pos hc] at hend
          refine .after (.round hbody ?_) (ih hend hat)
          rw [rounds, rounds, hat.i, h.i, List.length_cons]
          omega
      | false =>
          rw [isEnd, List.dropWhile_cons_of_neg (by simp [hc])] at hend
          have hc0 : c ≠ 0 := by simpa using hend
          have hbody := body_done settings true h
          rw [List.headD_cons, if_neg hc0, if_neg (by simp [hc])] at hbody
          exact .of_body hbody (by rw [h.build]; exact hlayout)

variable (settings) in
/-- **A text that is not read does not pass.** -/
theorem firstPass_fails (hplain : settings.Plain) (hread : readText l = none)
    (hlen : l.length ≤ uint_max) (hbracket : ∀ r, l.dropWhile Json.isWs ≠ 93 :: r) :
    ∃ e t, runPass settings true (start l none Memory.empty) = some (.failed e t) ∧
      ∃ shapes, Layout t.build shapes := by
  have hat : At (start l none Memory.empty) (.seek false false) l (before none Memory.empty) :=
    ⟨rfl, rfl, rfl⟩
  have hfails : Fails settings (start l none Memory.empty) := by
    -- a value is not read, or there is more behind it
    cases hvalue : readValue (2 * l.length + 1) l with
    | none =>
        exact (fails hplain _).1 l _ _ [] hvalue (Nat.lt_succ_self _) hlen hat layout_before
          fun r hr => absurd hr (hbracket r)
    | some q =>
        obtain ⟨v, r⟩ := q
        rw [readText, hvalue] at hread
        have hend : isEnd r = false := by
          cases hend : isEnd r with
          | false => rfl
          | true => simp [hend] at hread
        have hfits := length_readValue hvalue
        have hout := (runs settings true _).1 l v r _ _ hvalue (fun hsecond => by cases hsecond)
          hlen hat
        rcases hout.goes_or_fails (P := fun q => q.1 = .done ∧ Layout q.2 (shapesOf v none 0))
          ((valueCounts hplain.max_memory v (by omega) _ _ layout_before).bind fun b hb => by
            obtain ⟨hlayout, htop⟩ := hb
            obtain ⟨u, rest, hu⟩ := shapesOf_cons v none 0
            have hroot : Layout b ([] ++ (none, u) :: rest) := by
              rw [List.nil_append, ← hu]
              exact hlayout
            rw [hroot.finish_root htop]
            exact ⟨rfl, hlayout⟩)
          with ⟨t, m, b, ht, hat, hm, hlayout⟩ | hfails
        · obtain rfl : m = .done := hm
          exact .after ht (done_fails hend hat hlayout)
        · exact hfails
  obtain ⟨e, t, ht, hlayout⟩ := hfails
  exact ⟨e, t, loop_of_leads ht (Nat.le_refl _), hlayout⟩

/-- **A text that starts with `]`** makes the parser look through a null pointer. -/
theorem firstPass_bracket (hbracket : l.dropWhile Json.isWs = 93 :: r) :
    runPass settings true (start l none Memory.empty) = some .undefined := by
  have hat : At (start l none Memory.empty) (.seek false false) l (before none Memory.empty) :=
    ⟨rfl, rfl, rfl⟩
  obtain ⟨t, ht, hat⟩ := hat.skip_seek settings true
  rw [hbracket] at hat
  have hbody : body settings true t = .inr .undefined := by
    rw [body, middle_seek settings true hat, List.headD_cons, seekSection, if_neg (by decide),
      if_pos rfl, hat.build]
    rfl
  exact loop_of_leads (ht _ (.round hbody (by rw [left_inr, rounds]; omega))) (Nat.le_refl _)

/-! ### What was allocated is freed -/

/-- The list of the values from `k` on, when there are `n` more. -/
theorem freeAllocs_chain {m : Memory} (fuel : Nat) (hn : k + n = shapes.length) (hfuel : n ≤ fuel)
    (hvalues : ∀ i : Nat, m.values.get i =
      if i < k then none else ((counted shapes.length 0 shapes)[i]?).map Prod.fst) :
    ∃ m', freeAllocs fuel (if n = 0 then none else some k) m = some m' ∧ m'.values = [] ∧
      m'.blocks = m.blocks := by
  induction n generalizing k fuel m with
  | zero =>
      refine ⟨m, by cases fuel <;> rfl, Heap.eq_nil fun i => ?_, rfl⟩
      rw [hvalues]
      split
      · rfl
      · rename_i hi
        have hlt : ¬ (i : Nat) < k := hi
        rw [List.getElem?_eq_none (by rw [length_counted]; omega)]
        rfl
  | succ n ih =>
      obtain ⟨fuel, rfl⟩ : ∃ f, fuel = f + 1 := ⟨fuel - 1, by omega⟩
      have hget : m.values.get k =
          some ⟨shapes[k].1, shapes[k].2, .next_alloc (nextOf shapes.length k)⟩ := by
        rw [hvalues, if_neg (Nat.lt_irrefl _), getElem?_counted,
          List.getElem?_eq_getElem (by omega), Nat.zero_add]
        rfl
      have hnext : nextOf shapes.length k = if n = 0 then none else some (k + 1) := by
        unfold nextOf
        split <;> split <;> first | rfl | omega
      -- without its first value the rest is again such a list
      obtain ⟨m', hm', hnil, hblocks⟩ := ih (k := k + 1) fuel
        (m := { m with values := m.values.erase k }) (by omega) (by omega) fun i => by
          by_cases hi : i = k
          · rw [hi, Heap.get_erase_self, if_pos (Nat.lt_succ_self _)]
          · rw [Heap.get_erase_ne hi, hvalues]
            congr 1
            exact propext ⟨fun h => Nat.lt_succ_of_lt h,
              fun h => Nat.lt_of_le_of_ne (Nat.le_of_lt_succ h) hi⟩
      refine ⟨m', ?_, hnil, hblocks⟩
      rw [if_neg (Nat.succ_ne_zero n), freeAllocs, hget]
      dsimp only
      rw [freeValue, Heap.free_eq hget, hnext]
      exact hm'

/-- Nothing is allocated. -/
def Memory.Freed (m : Memory) : Prop := m.values = [] ∧ m.blocks = []

/-- A first pass that fails gives back all that it took. -/
theorem failedParse_first (error : Bytes) (h : Layout b shapes) :
    ∃ mem e, failedParse true error b = some ⟨none, mem, e⟩ ∧ mem.Freed := by
  have hroot : b.root = if shapes.length = 0 then none else some 0 := by
    rw [h.root]
    cases shapes <;> rfl
  obtain ⟨mem, hmem, hvalues, hblocks⟩ := freeAllocs_chain (m := b.mem) b.mem.calls
    (Nat.zero_add shapes.length) (Nat.le_of_eq h.calls.symm) h.image.values
  have hnil : b.mem.blocks = [] := Heap.eq_nil fun i => by
    rw [h.image.blocks, getElem?_counted]
    cases shapes[i]? <;> rfl
  refine ⟨mem, if cstr error = [] then ascii "Unknown error" else cstr error, ?_, hvalues,
    hblocks.trans hnil⟩
  simp only [failedParse, if_true, hroot, hmem, Option.map_some]

/-- The byte order mark is not skipped where `char` is signed. -/
theorem skipBom_eq (l : Bytes) : skipBom l = l := by
  have hne : ∀ c : UInt8, c.toInt8.toInt ≠ 0xEF := by
    intro c h
    have hle := Int8.toInt_le c.toInt8
    rw [h] at hle
    exact absurd hle (by decide)
  unfold skipBom
  split
  · rw [if_neg fun h => hne _ h.1]
  · rfl

end SpiderChat.JsonC
