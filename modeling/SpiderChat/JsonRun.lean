import SpiderChat.JsonGrammar

/-!
# SpiderChat.JsonRun

What the loop of `json_parse_ex` does with the text of a value: it performs the
operations of `build`, which are the same for every text of that value. Here the
loop is taken apart from the memory, and both passes are treated at once; what the
operations leave behind is the subject of the next modules.

`Mode` is what the flags say between two rounds. `Outcome s r x` says that the loop
comes from `s` to the rest `r` of the text with what the operations `x` return, or
stops where they fail.
-/

namespace SpiderChat.JsonC

open Lib

/-! ### The operations of a value -/

/-- What the flags say between two rounds. -/
inductive Mode
  /-- a value is looked for; a comma or a colon has to come before it -/
  | seek (need_comma need_colon : Bool)
  /-- between the members of an object, or in a number -/
  | inside (need_comma : Bool)
  /-- in a string, behind a backslash or not -/
  | chars (escaped : Bool)
  /-- the value of the text is complete -/
  | done
  deriving DecidableEq

def Mode.flags : Mode → Flags
  | .seek need_comma need_colon => { seek_value := true, need_comma, need_colon }
  | .inside need_comma => { need_comma }
  | .chars escaped => { string := true, escaped }
  | .done => { done := true, need_comma := true }

/-- What the flags say behind a value that is in another one of the type, or in none. -/
def modeAfter : Option JsonType → Mode
  | none => .done
  | some .json_array => .seek true false
  | some _ => .inside true

/-- `if (flags & flag_next)`, as an operation. -/
def finish (first_pass : Bool) (b : Builder) : Op (Mode × Builder) :=
  (leaveTop first_pass b).map fun p => (modeAfter p.1, p.2)

/-- Operations that know what they are inside of: `error none` is an operation in a place
where it does not belong. -/
abbrev Eff := Except (Option Fault)

/-- An operation, wherever it stands. -/
def eff {α : Type} : Op α → Eff α
  | .ok a => .ok a
  | .error f => .error (some f)

/-- The operations of a number. -/
def buildNumber (settings : JsonSettings) (first_pass : Bool) (u : JsonU) (b : Builder) :
    Op Builder := do
  let b ← newValue settings first_pass b .json_integer
  if first_pass then do
    let (a, value) ← b.read b.top
    pure (b.setU a value u)
  else pure b

/-- The operations of a word. -/
def buildWord (settings : JsonSettings) (first_pass : Bool) (type : JsonType)
    (value : Option Bool) (b : Builder) : Op Builder := do
  let b ← newValue settings first_pass b type
  match value with
  | none => pure b
  | some boolean => do
      let (a, value) ← b.read b.top
      pure (b.setU a value (.boolean boolean))

/-- The operations of a string or a name, behind its opening quote. -/
def buildChars (first_pass isString : Bool) (s : Bytes) (b : Builder) : Eff Builder := do
  let b ← eff (stringAdd first_pass b s)
  let (b, closed) ← eff (closeQuote first_pass b)
  if closed = isString then pure b else throw none

/-- The end of an element or a member, `mode` being what comes behind it. -/
def finishIn (first_pass : Bool) (mode : Mode) (b : Builder) : Eff Builder := do
  let (m, b) ← eff (finish first_pass b)
  if m = mode then pure b else throw none

/-- The value in hand has the type. -/
def TopIs (b : Builder) (type : JsonType) : Prop :=
  ∃ a value, b.read b.top = .ok (a, value) ∧ value.u.type = type

/-- Goes on in a value of the type. -/
def inType (type : JsonType) (b : Builder) : Eff Builder :=
  match b.read b.top with
  | .ok (_, value) => if value.u.type = type then pure b else throw none
  | .error _ => throw none

mutual

/-- The operations of a value. -/
def build (settings : JsonSettings) (first_pass : Bool) : Value → Builder → Eff Builder
  | .object ms, b => do
      let b ← eff (newValue settings first_pass b .json_object)
      let b ← inType .json_object b
      buildMembers settings first_pass ms b
  | .array xs, b => do
      let b ← eff (newValue settings first_pass b .json_array)
      let b ← inType .json_array b
      buildElems settings first_pass xs b
  | .integer n, b => eff (buildNumber settings first_pass (.integer n) b)
  | .double d, b => eff (buildNumber settings first_pass (.double d) b)
  | .string s, b => do
      let b ← eff (openString settings first_pass b)
      buildChars first_pass true s b
  | .boolean true, b => eff (buildWord settings first_pass .json_boolean (some true) b)
  | .boolean false, b => eff (buildWord settings first_pass .json_boolean none b)
  | .null, b => eff (buildWord settings first_pass .json_null none b)

def buildElems (settings : JsonSettings) (first_pass : Bool) :
    List Value → Builder → Eff Builder
  | [], b => pure b
  | x :: xs, b => do
      let b ← build settings first_pass x b
      let b ← finishIn first_pass (.seek true false) b
      buildElems settings first_pass xs b

def buildMembers (settings : JsonSettings) (first_pass : Bool) :
    List (Bytes × Value) → Builder → Eff Builder
  | [], b => pure b
  | (k, x) :: ms, b => do
      let b ← eff (openName b)
      let b ← buildChars first_pass false k b
      let b ← build settings first_pass x b
      let b ← finishIn first_pass (.inside true) b
      buildMembers settings first_pass ms b

end

/-! ### Between two rounds -/

/-- The flags without those of a number. -/
def Flags.control (f : Flags) : Flags :=
  { f with num_negative := false, num_zero := false, num_e := false, num_e_got_sign := false,
           num_e_negative := false }

/-- The loop is between two rounds, at the text `l`. -/
structure At (s : Scan) (m : Mode) (l : Bytes) (b : Builder) : Prop where
  flags : s.flags.control = m.flags
  i : s.i = l
  build : s.build = b

variable {settings : JsonSettings} {first_pass : Bool} {s : Scan} {b : Builder} {l r : Bytes}
  {m : Mode}

namespace At

section
variable (h : At s m l b)
include h

theorem get (p : Flags → Bool) : p s.flags.control = p m.flags := congrArg p h.flags

theorem next : s.flags.next = m.flags.next := h.get Flags.next
theorem reproc : s.flags.reproc = m.flags.reproc := h.get Flags.reproc
theorem need_comma : s.flags.need_comma = m.flags.need_comma :=
  h.get Flags.need_comma
theorem seek_value : s.flags.seek_value = m.flags.seek_value :=
  h.get Flags.seek_value
theorem escaped : s.flags.escaped = m.flags.escaped := h.get Flags.escaped
theorem string : s.flags.string = m.flags.string := h.get Flags.string
theorem need_colon : s.flags.need_colon = m.flags.need_colon :=
  h.get Flags.need_colon
theorem done : s.flags.done = m.flags.done := h.get Flags.done

end

end At

/-! ### What a round does -/

/-- The round at `s` leads to the rest `r` with what the operations return. -/
def Yields (settings : JsonSettings) (first_pass : Bool) (s : Scan) (r : Bytes) :
    Eff (Mode × Builder) → Prop
  | .ok (m, b) => ∃ t, body settings first_pass s = .inl t ∧ At t m r b
  | .error none => True
  | .error (some f) => ∃ t, body settings first_pass s = .inr (stopOf t f)

/-- The loop comes from `s` to the rest `r` with what the operations return. -/
def Outcome (settings : JsonSettings) (first_pass : Bool) (s : Scan) (r : Bytes) :
    Eff (Mode × Builder) → Prop
  | .ok (m, b) => ∃ t, Reaches (body settings first_pass) rounds s t ∧ At t m r b
  | .error none => True
  | .error (some f) => ∃ t, Leads (body settings first_pass) rounds s (.inr (stopOf t f))

theorem Outcome.of_yields {x : Eff (Mode × Builder)} (h : Yields settings first_pass s r x)
    (hlt : r.length < s.i.length) : Outcome settings first_pass s r x := by
  match x, h with
  | .ok (m, b), h =>
      obtain ⟨t, ht, hat⟩ := h
      exact ⟨t, .round ht (by rw [rounds, rounds, hat.i]; omega), hat⟩
  | .error none, _ => trivial
  | .error (some f), h =>
      obtain ⟨t, ht⟩ := h
      exact ⟨t, .round ht (by rw [left_inr, rounds]; omega)⟩

theorem Outcome.after {t : Scan} {x : Eff (Mode × Builder)}
    (h : Reaches (body settings first_pass) rounds s t) (h' : Outcome settings first_pass t r x) :
    Outcome settings first_pass s r x := by
  match x, h' with
  | .ok (m, b), h' =>
      obtain ⟨u, hu, hat⟩ := h'
      exact ⟨u, h.trans hu, hat⟩
  | .error none, _ => trivial
  | .error (some f), h' =>
      obtain ⟨u, hu⟩ := h'
      exact ⟨u, h _ hu⟩

theorem Outcome.bind {x : Eff (Mode × Builder)} {f : Mode × Builder → Eff (Mode × Builder)}
    (h : Outcome settings first_pass s l x)
    (hf : ∀ t m b, x = .ok (m, b) → At t m l b → Outcome settings first_pass t r (f (m, b))) :
    Outcome settings first_pass s r (x >>= f) := by
  match x, h with
  | .ok (m, b), h =>
      obtain ⟨t, ht, hat⟩ := h
      exact .after ht (hf t m b rfl hat)
  | .error none, _ => trivial
  | .error (some f), h => exact h

/-- An operation of a round, and the rounds behind it. -/
theorem Outcome.op_bind {α : Type} {x : Op α} {f : α → Eff (Mode × Builder)}
    (herr : ∀ fault, x = .error fault → ∃ t, body settings first_pass s = .inr (stopOf t fault))
    (hok : ∀ a, x = .ok a → Outcome settings first_pass s r (f a)) :
    Outcome settings first_pass s r (eff x >>= f) := by
  match x, herr, hok with
  | .ok a, _, hok => exact hok a rfl
  | .error fault, herr, _ =>
      obtain ⟨t, ht⟩ := herr fault rfl
      exact ⟨t, .round ht (by rw [left_inr, rounds]; omega)⟩

theorem middle_of_at (h : At s m l b) (hdone : m.flags.done = false)
    (hstring : m.flags.string = false) :
    middle settings first_pass s =
      if m.flags.seek_value then seekSection settings first_pass s (l.headD 0)
      else typeSection settings s (l.headD 0) := by
  simp [middle, doneSection, stringSection, h.done, hdone, h.string, hstring, h.seek_value, h.i]

variable (settings first_pass) in
theorem body_of_failedAt {t : Scan} {d : Bytes}
    (h : middle settings first_pass s = failedAt t d) :
    ∃ e, body settings first_pass s = .inr (.failed e t) := by
  refine ⟨place t ++ ascii ": " ++ d, ?_⟩
  rw [body, h]
  rfl

theorem again_of_at {c : UInt8} {w : Scan} (hi : w.i = c :: l)
    (hflags : w.flags.control = m.flags) (hbuild : w.build = b) :
    ∃ t, again w = .inl t ∧ At t m l b := by
  refine ⟨{ w with i := l }, ?_, hflags, rfl, hbuild⟩
  rw [again, hi]

@[simp] theorem whitespace_i (s : Scan) (c : UInt8) : (whitespace s c).i = s.i := by
  unfold whitespace
  split <;> rfl

@[simp] theorem whitespace_flags (s : Scan) (c : UInt8) : (whitespace s c).flags = s.flags := by
  unfold whitespace
  split <;> rfl

@[simp] theorem whitespace_build (s : Scan) (c : UInt8) : (whitespace s c).build = s.build := by
  unfold whitespace
  split <;> rfl

theorem At.again_whitespace {c : UInt8} (h : At s m (c :: l) b) :
    ∃ t, again (whitespace s c) = .inl t ∧ At t m l b :=
  again_of_at (by rw [whitespace_i, h.i]) (by rw [whitespace_flags, h.flags])
    (by rw [whitespace_build, h.build])

variable (settings first_pass) in
/-- White space is skipped where a value is looked for. -/
theorem At.skip_seek {comma colon : Bool} (h : At s (.seek comma colon) l b) :
    ∃ t, Reaches (body settings first_pass) rounds s t ∧
      At t (.seek comma colon) (l.dropWhile Json.isWs) b := by
  induction l generalizing s with
  | nil => exact ⟨s, .refl s, h⟩
  | cons c l ih =>
      cases hc : Json.isWs c with
      | false => exact ⟨s, .refl s, by rwa [List.dropWhile_cons, hc]⟩
      | true =>
          obtain ⟨t, ht, hat⟩ := h.again_whitespace
          have hbody : body settings first_pass s = .inl t := by
            rw [body, middle_of_at h rfl rfl, ← ht]
            simp [Mode.flags, seekSection, hc]
          obtain ⟨u, hu, hau⟩ := ih hat
          refine ⟨u, .trans (.round hbody ?_) hu, by rwa [List.dropWhile_cons, hc]⟩
          rw [rounds, rounds, hat.i, h.i, List.length_cons]
          omega

/-! ### The end of a value -/

theorem advance_of_at {keep : Bool} {w : Scan}
    (hi : if keep then w.i = r else ∃ c, w.i = c :: r)
    (hflags : w.flags.control = m.flags) (hbuild : w.build = b) :
    ∃ t, advance keep w = .inl t ∧ At t m r b := by
  cases keep with
  | true => exact ⟨w, rfl, hflags, hi, hbuild⟩
  | false =>
      obtain ⟨c, hc⟩ := hi
      exact again_of_at hc hflags hbuild

/-- A round whose body comes to its end with `flag_next`. -/
theorem Yields.of_next (keep : Bool) {w : Scan}
    (hmiddle : middle settings first_pass s = pure w)
    (hflags : w.flags.control = { next := true, reproc := keep })
    (hi : if keep then w.i = r else ∃ c, w.i = c :: r) :
    Yields settings first_pass s r (eff (finish first_pass w.build)) := by
  obtain ⟨i, flags, line, lb, nd, ne, nf, bld⟩ := w
  have hnext : flags.next = true := congrArg Flags.next hflags
  have hreproc : flags.reproc = keep := congrArg Flags.reproc hflags
  have hseek : flags.seek_value = false := congrArg Flags.seek_value hflags
  have hbody : body settings first_pass s =
      outcome (nextSection first_pass keep ⟨i, { flags with reproc := false }, line, lb, nd, ne,
        nf, bld⟩) := by
    simp only [body, hmiddle, pure_bind, endSection, hnext, hreproc, if_true]
  simp only [nextSection] at hbody
  -- `flag_next` leaves the value that has ended and goes to its parent
  cases hleave : leaveTop first_pass bld with
  | error f =>
      simp only [hleave, ofOp, throw_bind, outcome_throw] at hbody
      simp only [finish, hleave]
      exact ⟨_, hbody⟩
  | ok p =>
      obtain ⟨type, b'⟩ := p
      simp only [hleave, ofOp, pure_bind] at hbody
      simp only [finish, hleave]
      -- without a parent the text has to end; an array seeks its next value
      cases type with
      | none =>
          obtain ⟨t, ht, hat⟩ := advance_of_at (m := .done) (b := b') hi
            (w := ⟨i, { flags with
              reproc := false, next := false, need_comma := true, done := true }, line, lb, nd, ne,
              nf, b'⟩)
            (by
              show { flags.control with
                reproc := false, next := false, need_comma := true, done := true } = _
              rw [hflags]
              rfl) rfl
          exact ⟨t, hbody.trans ht, hat⟩
      | some type =>
          obtain ⟨t, ht, hat⟩ := advance_of_at (m := modeAfter (some type)) (b := b') hi
            (w := ⟨i, { flags with
              reproc := false, next := false, need_comma := true,
              seek_value := flags.seek_value || type == JsonType.json_array }, line, lb, nd, ne,
              nf, b'⟩)
            (by
              show { flags.control with
                reproc := false, next := false, need_comma := true,
                seek_value := flags.seek_value || type == JsonType.json_array } = _
              rw [hflags, hseek]
              cases type <;> rfl) rfl
          exact ⟨t, hbody.trans ht, hat⟩

/-! ### Strings -/

theorem stringAdd_append (b : Builder) (x y : Bytes) :
    stringAdd first_pass b (x ++ y) = stringAdd first_pass b x >>= (stringAdd first_pass · y) := by
  simp [stringAdd]

theorem string_length_writeChar {b b' : Builder} {c : UInt8} (h : writeChar b c = .ok b') :
    b'.string_length = b.string_length := by
  unfold writeChar at h
  split at h
  · cases h
  split at h
  · split at h
    · cases h
    · cases h
      rfl
  · split at h
    · cases h
    · cases h
      rfl
  · cases h

theorem string_length_addChar {b b' : Builder} {c : UInt8}
    (h : addChar first_pass b c = .ok b') : b'.string_length = b.string_length + 1 := by
  cases first_pass with
  | true =>
      cases h
      rfl
  | false =>
      rw [addChar, inSecond_false] at h
      cases hw : writeChar b c with
      | error f =>
          rw [hw] at h
          cases h
      | ok b₁ =>
          rw [hw] at h
          cases h
          exact congrArg (· + 1) (string_length_writeChar hw)

theorem string_length_stringAdd {b b' : Builder} {x : Bytes}
    (h : stringAdd first_pass b x = .ok b') : b'.string_length = b.string_length + x.length := by
  induction x generalizing b with
  | nil =>
      cases h
      rfl
  | cons c x ih =>
      rw [stringAdd, List.foldlM_cons] at h
      cases hadd : addChar first_pass b c with
      | error f =>
          rw [hadd] at h
          cases h
      | ok b₁ =>
          rw [hadd] at h
          rw [ih h, string_length_addChar hadd, List.length_cons]
          omega

theorem middle_chars {escaped : Bool} (h : At s (.chars escaped) l b) :
    middle settings first_pass s =
      (stringSection first_pass s (l.headD 0) >>= fun s =>
        if s.flags.seek_value then seekSection settings first_pass s (l.headD 0)
        else typeSection settings s (l.headD 0)) := by
  simp only [middle, doneSection, h.done, h.i]
  rfl

/-- A byte that stands for itself. -/
theorem body_plain {c : UInt8} (h : At s (.chars false) (c :: l) b) (h0 : c ≠ 0) (hc : c ≠ 92)
    (hq : c ≠ 34) (hlen : b.string_length ≤ uint_max) :
    body settings first_pass s =
      match stringAdd first_pass b [c] with
      | .ok build => again { s with build }
      | .error f => .inr (stopOf s f) := by
  rw [body, middle_chars h, stringSection]
  simp only [h.string, h.escaped, h.build, Mode.flags, List.headD_cons, h0, hc, hq,
    Nat.not_lt.mpr hlen, if_true, if_false]
  cases stringAdd first_pass b [c] <;> simp [ofOp]

theorem body_backslash (h : At s (.chars false) (92 :: l) b)
    (hlen : b.string_length ≤ uint_max) :
    body settings first_pass s = again { s with flags.escaped := true } := by
  rw [body, middle_chars h, stringSection]
  simp only [h.string, h.escaped, h.build, Mode.flags, List.headD_cons, Nat.not_lt.mpr hlen,
    if_true, if_false]
  rfl

/-- The byte behind a backslash. -/
theorem body_escape {e : UInt8} (h : At s (.chars true) (e :: l) b) (h0 : e ≠ 0) (hu : e ≠ 117)
    (hlen : b.string_length ≤ uint_max) :
    body settings first_pass s =
      match stringAdd first_pass b [escapedChar e] with
      | .ok build => again { s with flags.escaped := false, build }
      | .error f => .inr (stopOf { s with flags.escaped := false } f) := by
  rw [body, middle_chars h, stringSection]
  simp only [h.string, h.escaped, h.build, Mode.flags, List.headD_cons, h0, hu, escapedSection,
    Nat.not_lt.mpr hlen, if_true, if_false]
  cases stringAdd first_pass b [escapedChar e] <;> rfl

theorem hexValues_four {c u1 u2 u3 u4 : UInt8} (h1 : isHex u1 = true) (h2 : isHex u2 = true)
    (h3 : isHex u3 = true) (h4 : isHex u4 = true) :
    hexValues 4 (c :: u1 :: u2 :: u3 :: u4 :: l) =
      some ([hexValue u1, hexValue u2, hexValue u3, hexValue u4], u4 :: l) := by
  simp only [isHex, bne_iff_ne] at h1 h2 h3 h4
  simp [hexValues, h1, h2, h3, h4]

/-- The four digits behind `\\u`. -/
theorem body_unicode {u1 u2 u3 u4 : UInt8}
    (h : At s (.chars true) (117 :: u1 :: u2 :: u3 :: u4 :: l) b)
    (h1 : isHex u1 = true) (h2 : isHex u2 = true) (h3 : isHex u3 = true) (h4 : isHex u4 = true)
    (hlen : b.string_length ≤ uint_max) :
    body settings first_pass s =
      match stringAdd first_pass b
        (unicodeChars (hexValue u1 * 16 + hexValue u2) (hexValue u3 * 16 + hexValue u4)) with
      | .ok build => again { s with flags.escaped := false, i := u4 :: l, build }
      | .error f => .inr (stopOf { s with flags.escaped := false } f) := by
  rw [body, middle_chars h, stringSection]
  simp only [h.string, h.escaped, h.build, h.i, Mode.flags, List.headD_cons, escapedSection,
    Nat.not_lt.mpr hlen, if_true, if_false, hexValues_four h1 h2 h3 h4]
  cases stringAdd first_pass b
    (unicodeChars (hexValue u1 * 16 + hexValue u2) (hexValue u3 * 16 + hexValue u4)) <;> rfl

/-- The closing quote. -/
theorem stringSection_quote (h : At s (.chars false) l b) (hlen : b.string_length ≤ uint_max) :
    stringSection first_pass s 34 =
      (ofOp s (closeQuote first_pass b) >>= fun p =>
        if p.2 then pure { s with build := p.1, flags.string := false, flags.next := true }
        else throw (again { s with
          build := p.1, flags.string := false, flags.seek_value := true,
          flags.need_colon := true })) := by
  simp only [stringSection, h.string, h.escaped, h.build, Mode.flags, Nat.not_lt.mpr hlen,
    if_true, if_false]
  rfl

theorem body_quote (h : At s (.chars false) (34 :: l) b) (hlen : b.string_length ≤ uint_max)
    {f : Fault} (hclose : closeQuote first_pass b = .error f) :
    body settings first_pass s = .inr (stopOf s f) := by
  rw [body, middle_chars h, List.headD_cons, stringSection_quote h hlen, hclose]
  rfl

theorem body_quote_name (h : At s (.chars false) (34 :: l) b) (hlen : b.string_length ≤ uint_max)
    {b' : Builder} (hclose : closeQuote first_pass b = .ok (b', false)) :
    body settings first_pass s = again { s with
      build := b', flags.string := false, flags.seek_value := true, flags.need_colon := true } := by
  rw [body, middle_chars h, List.headD_cons, stringSection_quote h hlen, hclose]
  rfl

@[simp] theorem eff_ok {α : Type} (a : α) : eff (Except.ok a : Op α) = .ok a := rfl

theorem eff_bind {α β : Type} (x : Op α) (f : α → Op β) :
    eff (x >>= f) = eff x >>= fun a => eff (f a) := by
  cases x <;> rfl

/-- A round that performs an operation and goes on behind it. -/
theorem Outcome.op_round {x : Op Builder} {g : Builder → Scan} {u : Scan} {c : UInt8}
    {k : Builder → Eff (Mode × Builder)}
    (hbody : body settings first_pass s =
      match x with
      | .ok build => again (g build)
      | .error f => .inr (stopOf u f))
    (hg : ∀ b', (g b').i = c :: l ∧ (g b').flags.control = m.flags ∧ (g b').build = b')
    (hlt : l.length < s.i.length)
    (hk : ∀ t b', x = .ok b' → At t m l b' → Outcome settings first_pass t r (k b')) :
    Outcome settings first_pass s r (eff x >>= k) := by
  refine .op_bind (fun f hf => ⟨u, by rw [hbody, hf]⟩) fun b' hb' => ?_
  obtain ⟨hi, hflags, hbuild⟩ := hg b'
  obtain ⟨t, ht, hat⟩ := again_of_at hi hflags hbuild
  refine .after (.round (t := t) ?_ ?_) (hk t b' hb' hat)
  · rw [hbody, hb', ← ht]
  · rw [rounds, rounds, hat.i]
    omega

variable (settings first_pass) in
/-- The round for a backslash. -/
theorem At.backslash (h : At s (.chars false) (92 :: l) b) (hlen : b.string_length ≤ uint_max) :
    ∃ t, Reaches (body settings first_pass) rounds s t ∧ At t (.chars true) l b := by
  obtain ⟨t, ht, hat⟩ := again_of_at (w := { s with flags.escaped := true })
    (m := .chars true) h.i
    (by
      show { s.flags.control with escaped := true } = _
      rw [h.flags]
      rfl) h.build
  refine ⟨t, .round ((body_backslash h hlen).trans ht) ?_, hat⟩
  rw [rounds, rounds, hat.i, h.i, List.length_cons]
  omega

variable (settings first_pass) in
/-- One piece of a string. -/
theorem Outcome.piece {d l' : Bytes} {k : Builder → Eff (Mode × Builder)}
    (hp : charPiece l = some (some d, l')) (h : At s (.chars false) l b)
    (hlen : b.string_length ≤ uint_max)
    (hk : ∀ t b', stringAdd first_pass b d = .ok b' → At t (.chars false) l' b' →
      Outcome settings first_pass t r (k b')) :
    Outcome settings first_pass s r (eff (stringAdd first_pass b d) >>= k) := by
  rcases charPiece_inv hp with ⟨c, rfl, rfl, h0, hc, hquote⟩ | ⟨e, rfl, rfl, h0, hu⟩ |
    ⟨u1, u2, u3, u4, rfl, ⟨h1, h2, h3, h4⟩, rfl⟩
  · refine .op_round (body_plain h h0 hc hquote hlen) (fun b' => ⟨h.i, h.flags, rfl⟩) ?_ hk
    rw [h.i, List.length_cons]
    omega
  -- an escape takes a round for the backslash and one for what follows it
  · obtain ⟨t, ht, hat⟩ := h.backslash settings first_pass hlen
    refine .after ht (.op_round (m := .chars false) (body_escape hat h0 hu hlen)
      (fun b' => ⟨hat.i, ?_, rfl⟩) ?_ hk)
    · show { t.flags.control with escaped := false } = _
      rw [hat.flags]
      rfl
    · rw [hat.i, List.length_cons]
      omega
  · obtain ⟨t, ht, hat⟩ := h.backslash settings first_pass hlen
    refine .after ht (.op_round (m := .chars false) (body_unicode hat h1 h2 h3 h4 hlen)
      (fun b' => ⟨rfl, ?_, rfl⟩) ?_ hk)
    · show { t.flags.control with escaped := false } = _
      rw [hat.flags]
      rfl
    · rw [hat.i]
      simp only [List.length_cons]
      omega

/-- A piece of a string is not longer than its text. -/
theorem length_charPiece {d l' : Bytes} (hp : charPiece l = some (some d, l')) :
    d.length + l'.length ≤ l.length := by
  obtain ⟨raw, rfl, -, hle, -⟩ := quoting_lawful.read hp
  rw [List.length_append]
  omega

variable (settings first_pass) in
/-- The characters of a string, up to its closing quote. -/
theorem Outcome.chars {d : Bytes} (hq : quoting.Scans l d r) (h : At s (.chars false) l b)
    (hlen : b.string_length + l.length ≤ uint_max) :
    Outcome settings first_pass s (34 :: r)
      (eff (stringAdd first_pass b d) >>= fun b => pure (.chars false, b)) := by
  induction hq generalizing s b with
  | close hp =>
      obtain rfl := charPiece_close hp
      exact ⟨s, .refl s, h⟩
  | @read l d l' ds r hp hs ih =>
      have hle := length_charPiece hp
      rw [stringAdd_append, eff_bind, bind_assoc]
      refine .piece settings first_pass hp h (by omega) fun t b' hadd hat => ih hat ?_
      have := string_length_stringAdd hadd
      omega

theorem topIs_closeQuote {b' : Builder} (h : closeQuote first_pass b = .ok (b', true)) :
    TopIs b' .json_string := by
  unfold closeQuote at h
  obtain ⟨b₁, -, h⟩ := bind_eq_ok.mp h
  obtain ⟨⟨a, value⟩, hread, h⟩ := bind_eq_ok.mp h
  obtain ⟨htop, -⟩ := Builder.read_eq_ok.mp hread
  cases hu : value.u with
  | string length ptr =>
      simp only [hu, pure_eq_ok, Prod.mk.injEq, and_true] at h
      subst h
      exact ⟨a, _, Builder.read_top_setU htop value _, rfl⟩
  | object length values =>
      simp only [hu, bind_eq_ok] at h
      obtain ⟨b₂, -, h⟩ := h
      cases h
  | _ =>
      simp only [hu] at h
      cases h

/-- The end of a string that is a value. -/
theorem Outcome.endString (h : At s (.chars false) (34 :: r) b)
    (hlen : b.string_length ≤ uint_max) :
    Outcome settings first_pass s r
      (eff (closeQuote first_pass b) >>= fun p =>
        (if p.2 = true then pure p.1 else throw none) >>= fun b => eff (finish first_pass b)) := by
  cases hclose : closeQuote first_pass b with
  | error f =>
      exact .of_yields (x := .error (some f)) ⟨s, body_quote h hlen hclose⟩ (by rw [h.i]; simp)
  | ok p =>
      obtain ⟨b', closed⟩ := p
      cases closed with
      | false => trivial
      | true =>
          refine .of_yields (.of_next false (w := { s with
            build := b', flags.string := false, flags.next := true }) ?_ ?_ ⟨34, h.i⟩)
            (by rw [h.i]; simp)
          · obtain ⟨a, top, hread, htype⟩ := topIs_closeQuote hclose
            rw [middle_chars h, List.headD_cons, stringSection_quote h hlen, hclose]
            simp only [ofOp, pure_bind, if_true, h.seek_value, Mode.flags, Bool.false_eq_true,
              if_false, typeSection, hread, htype]
          · show { s.flags.control with string := false, next := true } = _
            rw [h.flags]
            rfl

/-- The end of a string that is the name of a member. -/
theorem Outcome.endName (h : At s (.chars false) (34 :: r) b)
    (hlen : b.string_length ≤ uint_max) :
    Outcome settings first_pass s r
      (eff (closeQuote first_pass b) >>= fun p =>
        if p.2 = false then pure (.seek false true, p.1) else throw none) := by
  cases hclose : closeQuote first_pass b with
  | error f =>
      exact .of_yields (x := .error (some f)) ⟨s, body_quote h hlen hclose⟩ (by rw [h.i]; simp)
  | ok p =>
      obtain ⟨b', closed⟩ := p
      cases closed with
      | true => trivial
      | false =>
          obtain ⟨t, ht, hat⟩ := again_of_at (w := { s with
              build := b', flags.string := false, flags.seek_value := true,
              flags.need_colon := true }) (m := .seek false true) (b := b') h.i
            (by
              show { s.flags.control with string := false, seek_value := true,
                                          need_colon := true } = _
              rw [h.flags]
              rfl) rfl
          exact .of_yields (x := .ok (.seek false true, b'))
            ⟨t, (body_quote_name h hlen hclose).trans ht, hat⟩ (by rw [h.i]; simp)

/-! ### Words -/

theorem expect_of_prefix {w : Bytes} {c : UInt8} (h : w <+: l) :
    ∃ c', expect w (c :: l) = some (true, c' :: l.drop w.length) := by
  induction w generalizing c l with
  | nil => exact ⟨c, rfl⟩
  | cons d w ih =>
      obtain ⟨l', rfl⟩ := h
      obtain ⟨c', hc'⟩ := ih (c := d) (l := w ++ l') ⟨l', rfl⟩
      refine ⟨c', ?_⟩
      rw [List.cons_append, expect, List.headD_cons, if_pos rfl, hc', List.length_cons,
        List.drop_succ_cons]

theorem ofOp_bind {α β : Type} (x : Op α) (f : α → Op β) :
    ofOp s (x >>= f) = ofOp s x >>= fun a => ofOp s (f a) := by
  cases x <;> rfl

/-- A round that performs an operation and comes to its end with `flag_next`. -/
theorem Outcome.op_next (keep : Bool) {x : Op Builder} {u : Scan} {g : Builder → Scan}
    (hmiddle : middle settings first_pass s = ofOp u x >>= fun build => pure (g build))
    (hg : ∀ b', (g b').flags.control = { next := true, reproc := keep } ∧
      (if keep then (g b').i = r else ∃ c, (g b').i = c :: r) ∧ (g b').build = b')
    (hlt : r.length < s.i.length) :
    Outcome settings first_pass s r (eff x >>= fun b => eff (finish first_pass b)) := by
  refine .op_bind (fun f hf => ⟨u, ?_⟩) fun b' hb' => ?_
  · rw [body, hmiddle, hf]
    rfl
  · obtain ⟨hflags, hi, hbuild⟩ := hg b'
    have hyields := Yields.of_next keep (by rw [hmiddle, hb']; rfl) hflags hi
    rw [hbuild] at hyields
    exact .of_yields hyields hlt

theorem literal_eq {w : Bytes} {least : Nat} {type : JsonType} {value : Option Bool} {i : Bytes}
    (hleast : least ≤ s.i.length) (hexpect : expect w s.i = some (true, i)) :
    literal settings first_pass s least w type value =
      ofOp { s with i } (buildWord settings first_pass type value s.build) >>= fun build =>
        pure { s with i, build, flags.next := true } := by
  rw [literal, if_neg (Nat.not_lt.mpr hleast), hexpect, buildWord, ofOp_bind, bind_assoc]
  cases value with
  | none => rfl
  | some boolean =>
      simp only [ofOp_bind, bind_assoc]
      rfl

/-- `case 't'`, `case 'f'` and `case 'n'` -/
theorem Outcome.word {c : UInt8} {w : Bytes} {least : Nat} {type : JsonType}
    {value : Option Bool} (h : At s (.seek false false) (c :: l) b)
    (hmiddle : middle settings first_pass s =
      literal settings first_pass { s with flags.seek_value := false } least w type value)
    (hleast : least ≤ w.length + 1) (hw : readWord w l = some r) :
    Outcome settings first_pass s r
      (eff (buildWord settings first_pass type value b) >>=
        fun b => eff (finish first_pass b)) := by
  unfold readWord at hw
  split at hw
  · rename_i hprefix
    obtain rfl := Option.some.inj hw
    obtain ⟨c', hexpect⟩ := expect_of_prefix (c := c) hprefix
    have hlen := hprefix.length_le
    rw [literal_eq (i := c' :: l.drop w.length) (by rw [h.i, List.length_cons]; omega)
      (by rw [h.i]; exact hexpect), h.build] at hmiddle
    refine .op_next false hmiddle (fun b' => ⟨?_, ⟨c', rfl⟩, rfl⟩) ?_
    · show { s.flags.control with seek_value := false, next := true } = _
      rw [h.flags]
      rfl
    · rw [h.i, List.length_cons, List.length_drop]
      omega
  · cases hw

end SpiderChat.JsonC
