import SpiderChat.LogFiles

/-!
# SpiderChat.LogLines

**Threads that log at the same time**, on one day. As long as every `gmtime` is called for the
same date, it does not matter that they share it: the calls of a `log_write` are those of
`lineCalls` (`simulates_resolved`). Then, whatever the order of the calls is, no `log_write` comes
to a file that it could not open (`log_write_goes_on`), the file of the day gets exactly the lines
of the calls that have succeeded, whole and each once (`log_lines_written`), and a line is lost if
and only if its call is overtaken (`log_line_lost_iff`). At midnight another thread's date can be
read, and the file not be opened (`midnight_undefined`). A thread that logs alone loses no line, on
whatever days (`log_lines_in_order`).
-/

namespace SpiderChat.Log

open Lib

/-! ### Entries -/

/-- A call of `log_write`. -/
structure LogEntry where
  t : Int64
  level : Nat
  text : Bytes

namespace LogEntry

/-- The time has a date, and the level a name. -/
def Dated (e : LogEntry) : Prop := (gmtime e.t).isSome ∧ e.level < log_level.length

def stm (e : LogEntry) : Tm := (gmtime e.t).getD ⟨0, 0, 0⟩

def name (e : LogEntry) : Bytes := log_level.getD e.level []

def file (e : LogEntry) : Bytes := dayFile e.stm e.name

def line (e : LogEntry) : Bytes := lineOf e.t e.name e.text

variable {e : LogEntry}

theorem Dated.gmtime_eq (h : e.Dated) : gmtime e.t = some e.stm := by
  obtain ⟨stm, hstm⟩ := Option.isSome_iff_exists.mp h.1
  rw [LogEntry.stm, hstm, Option.getD_some]

theorem Dated.level_eq (h : e.Dated) : log_level[e.level]? = some e.name := by
  rw [name, List.getD_eq_getElem?_getD, List.getElem?_eq_getElem h.2, Option.getD_some]

end LogEntry

/-! ### Calls of one date -/

/-- The call does not go to the file system. -/
def LogCall.isDate : LogCall → Bool
  | .gmtime _ => true
  | .readStm => true
  | _ => false

/-- `gmtime` is called for the date `stm` alone, when it is `stm` that is read. -/
inductive AtDate (stm : Tm) : Logger → Prop
  | pure (ret : Int32) : AtDate stm (.pure ret)
  | gmtime {t : Int64} {k : Bool → Logger} (ht : gmtime t = some stm)
      (hk : AtDate stm (k true)) : AtDate stm (.call (.gmtime t) k)
  | readStm {k : Tm → Logger} (hk : AtDate stm (k stm)) : AtDate stm (.call .readStm k)
  | file {c : LogCall} {k : c.Answer → Logger} (hc : c.isDate = false)
      (hk : ∀ r, AtDate stm (k r)) : AtDate stm (.call c k)

/-- What is left of a program when it is `stm` that is read. -/
def resolve (stm : Tm) : Logger → Logger
  | .pure ret => .pure ret
  | .call (.gmtime _) k => resolve stm (k true)
  | .call .readStm k => resolve stm (k stm)
  | .call (.access path) k => .call (.access path) fun r => resolve stm (k r)
  | .call (.mkdir path) k => .call (.mkdir path) fun r => resolve stm (k r)
  | .call (.fopen path) k => .call (.fopen path) fun r => resolve stm (k r)
  | .call (.fwrite path text) k => .call (.fwrite path text) fun r => resolve stm (k r)
  | .call .undefined k => .call .undefined fun r => resolve stm (k r)

variable {stm : Tm} {p : Logger}

theorem resolve_file {c : LogCall} (hc : c.isDate = false) (k : c.Answer → Logger) :
    resolve stm (.call c k) = .call c fun r => resolve stm (k r) := by
  cases c with
  | gmtime t => cases hc
  | readStm => cases hc
  | _ => rfl

theorem AtDate.bind {f : Int32 → Logger} (h : AtDate stm p) (hf : ∀ ret, AtDate stm (f ret)) :
    AtDate stm (p >>= f) := by
  induction h with
  | pure ret => exact hf ret
  | gmtime ht _ ih => exact .gmtime ht ih
  | readStm _ ih => exact .readStm ih
  | file hc _ ih => exact .file hc ih

theorem resolve_bind {f : Int32 → Logger} :
    resolve stm (p >>= f) = resolve stm p >>= fun ret => resolve stm (f ret) := by
  induction p with
  | pure ret => rfl
  | call c k ih =>
      cases c with
      | gmtime t => exact ih true
      | readStm => exact ih stm
      | _ => exact congrArg (Prog.call _) (funext fun r => ih r)

/-! ### `log_write` on one date -/

theorem atDate_makeDir {dir : Bytes} {rest : Logger} (h : AtDate stm rest) :
    AtDate stm (makeDir dir rest) := by
  refine .file rfl fun found => ?_
  cases (found : Bool) with
  | true => exact h
  | false =>
      refine .file rfl fun made => ?_
      cases (made : Bool) with
      | true => exact h
      | false => exact .pure LOG_FAIL

theorem atDate_undefined : AtDate stm undefined := .file rfl nofun

/-- `log_write` calls `gmtime` for its own time only. -/
theorem atDate_logWrite {t : Int64} (level : Nat) (text : Bytes) (hstm : gmtime t = some stm) :
    AtDate stm (logWrite t level text) := by
  refine .gmtime hstm ?_
  cases log_level[level]? with
  | none => exact atDate_undefined
  | some name =>
      refine AtDate.bind (.gmtime hstm (atDate_makeDir (.readStm (atDate_makeDir
        (.readStm (atDate_makeDir (.pure LOG_SUCCESSFUL))))))) fun ret => ?_
      split
      · exact .pure LOG_FAIL
      · refine .readStm (.file rfl fun opened => ?_)
        cases (opened : Bool) with
        | true => exact .file rfl fun _ => .pure LOG_SUCCESSFUL
        | false => exact atDate_undefined

theorem resolve_makeDir (dir : Bytes) (rest : Logger) :
    resolve stm (makeDir dir rest) = makeDir dir (resolve stm rest) := by
  refine congrArg (Prog.call (LogCall.access dir)) (funext fun found => ?_)
  cases (found : Bool) with
  | true => rfl
  | false =>
      refine congrArg (Prog.call (LogCall.mkdir dir)) (funext fun made => ?_)
      cases (made : Bool) with
      | true => rfl
      | false => rfl

theorem makeDir_bind {dir : Bytes} {rest : Logger} {f : Int32 → Logger}
    (hf : f LOG_FAIL = .pure LOG_FAIL) : (makeDir dir rest >>= f) = makeDir dir (rest >>= f) := by
  rw [makeDir, Prog.call_bind, makeDir]
  congr 1
  funext found
  cases (found : Bool) with
  | true => rfl
  | false =>
      refine congrArg (Prog.call (LogCall.mkdir dir)) (funext fun made => ?_)
      cases (made : Bool) with
      | true => rfl
      | false => exact hf

theorem length_decInt_int {n : Int} (h : -2 ^ 31 ≤ n) (h' : n < 2 ^ 31) :
    (decInt n).length ≤ 11 :=
  length_decInt_le (by decide) (by omega)

theorem fits_of_gmtime {t : Int64} (hstm : gmtime t = some stm) : stm.Fits := by
  rw [gmtime] at hstm
  split at hstm
  · rename_i hfits
    exact Option.some.inj hstm ▸ hfits
  · cases hstm

/-- **No path is cut off** by the array that it is printed into. -/
theorem snprintf_paths {name : Bytes} (hfits : stm.Fits) (hname : name ∈ log_level) :
    snprintf 100 (LOG_ROOT_DIR ++ 47 :: name) = interfaceDir name ∧
      snprintf 120 (LOG_ROOT_DIR ++ 47 :: (name ++ 47 :: decInt (stm.tm_year + 1900))) =
        yearDir stm name ∧
      snprintf 120 (yearDir stm name ++ 47 :: decInt (1 + stm.tm_mon)) = monthDir stm name ∧
      snprintf 120 (LOG_ROOT_DIR ++ 47 :: (name ++ 47 :: (decInt (stm.tm_year + 1900) ++
        47 :: (decInt (1 + stm.tm_mon) ++ 47 :: (name ++ 95 :: decInt stm.tm_mday))))) =
        dayFile stm name := by
  obtain ⟨hyear, hyear', hmon, hmon', hday, hday'⟩ := hfits
  have hlen := length_le_of_mem hname
  have hroot : LOG_ROOT_DIR.length = 6 := rfl
  have hy := length_decInt_int (n := stm.tm_year + 1900) (by omega) hyear
  have hm := length_decInt_int (n := 1 + stm.tm_mon) (by omega) (by omega)
  have hd := length_decInt_int hday hday'
  refine ⟨snprintf_of_lt ?_, ?_, snprintf_of_lt ?_, ?_⟩
  · simp only [List.length_append, List.length_cons]
    omega
  · rw [snprintf_of_lt]
    · rw [yearDir, interfaceDir, List.append_assoc, List.cons_append]
    · simp only [List.length_append, List.length_cons]
      omega
  · simp only [yearDir, interfaceDir, List.length_append, List.length_cons]
    omega
  · rw [snprintf_of_lt]
    · simp only [dayFile, monthDir, yearDir, interfaceDir, List.append_assoc, List.cons_append]
    · simp only [List.length_append, List.length_cons]
      omega

/-- Nothing is cut off: `log_write` makes the three directories and appends the line. -/
theorem resolve_logWrite {t : Int64} {level : Nat} {name : Bytes} (text : Bytes)
    (hstm : gmtime t = some stm) (hname : log_level[level]? = some name) :
    resolve stm (logWrite t level text) = lineCalls stm t name text := by
  have hmem := List.mem_of_getElem? hname
  have hlen := length_le_of_mem hmem
  obtain ⟨hinterface, hyear_dir, hmonth_dir, hfile⟩ :=
    snprintf_paths (fits_of_gmtime hstm) hmem
  have ht : (decInt t.toInt).length ≤ 20 := by
    have hlo := t.le_toInt
    have hhi := t.toInt_lt
    exact length_decInt_le (by decide) (by omega)
  have hhead : snprintf 512 (decInt t.toInt ++ 9 :: (name ++ [9])) =
      decInt t.toInt ++ 9 :: (name ++ [9]) := by
    refine snprintf_of_lt ?_
    simp only [List.length_append, List.length_cons, List.length_nil]
    omega
  have hdirs : resolve stm (dirExists t name) = makeDir (interfaceDir name)
      (makeDir (yearDir stm name) (makeDir (monthDir stm name) (.pure LOG_SUCCESSFUL))) := by
    rw [← hmonth_dir, ← hyear_dir, ← hinterface]
    refine (resolve_makeDir _ _).trans (congrArg (makeDir _) ?_)
    refine (resolve_makeDir _ _).trans (congrArg (makeDir _) ?_)
    exact resolve_makeDir _ _
  have hline : resolve stm (writeLine t true name text) =
      appendLine (dayFile stm name) (lineOf t name text) := by
    rw [← hfile, lineOf, ← hhead]
    refine congrArg (Prog.call (LogCall.fopen _)) (funext fun opened => ?_)
    cases (opened : Bool) with
    | true => rfl
    | false => exact congrArg (Prog.call LogCall.undefined) (funext fun r => Empty.elim r)
  have hbody : resolve stm (logWrite t level text) = resolve stm (dirExists t name >>= fun ret =>
      if ret = LOG_FAIL then pure LOG_FAIL else writeLine t true name text) := by
    rw [logWrite]
    simp only [hname]
    rfl
  rw [hbody, resolve_bind, hdirs, makeDir_bind, makeDir_bind, makeDir_bind, lineCalls,
    ← hline] <;> rfl

/-! ### One call -/

/-- A program that reads the date `stm`, or calls `gmtime` first. -/
def Clocked (stm : Tm) (s : Shared) (p : Logger) : Prop :=
  AtDate stm p ∧ (s.stm = stm ∨ ∃ t k, p = .call (.gmtime t) k)

variable {s s' : Shared} {c : LogCall} {k : c.Answer → Logger} {r : c.Answer}

theorem respond_file (hc : c.isDate = false) (s : Shared) (r : c.Answer) :
    respond s ⟨c, r⟩ = (fileCall s.files ⟨c, r⟩).map fun files => { s with files } := by
  cases c with
  | gmtime t => cases hc
  | readStm => cases hc
  | _ => rfl

theorem respond_gmtime {t : Int64} (ht : gmtime t = some stm) (s : Shared) (found : Bool) :
    respond s ⟨.gmtime t, found⟩ = if found then some { s with stm } else none := by
  unfold respond
  simp only [ht]

theorem respond_readStm (s : Shared) (r : Tm) :
    respond s ⟨.readStm, r⟩ = if r = s.stm then some s else none := rfl

/-- A call for the date leaves the files and the rest of the program as they are. -/
theorem Clocked.date_step (h : Clocked stm s (.call c k)) (hc : c.isDate = true)
    (hr : respond s ⟨c, r⟩ = some s') :
    s'.files = s.files ∧ s'.stm = stm ∧ AtDate stm (k r) ∧
      resolve stm (k r) = resolve stm (.call c k) := by
  obtain ⟨hdate, hclock⟩ := h
  cases hdate with
  | gmtime ht hk =>
      rw [respond_gmtime ht] at hr
      cases r with
      | true =>
          obtain rfl := Option.some.inj hr
          exact ⟨rfl, rfl, hk, rfl⟩
      | false => cases hr
  | readStm hk =>
      have hstm : s.stm = stm := hclock.resolve_right fun hgmtime => by
        obtain ⟨t, k', heq⟩ := hgmtime
        cases heq
      rw [respond_readStm] at hr
      split at hr
      · rename_i hread
        obtain rfl := Option.some.inj hr
        obtain rfl : r = stm := hread.trans hstm
        exact ⟨rfl, hstm, hk, rfl⟩
      · cases hr
  | file hno _ =>
      rw [hno] at hc
      cases hc

/-- A call to the file system. -/
theorem Clocked.file_step (h : Clocked stm s (.call c k)) (hc : c.isDate = false)
    (hr : respond s ⟨c, r⟩ = some s') :
    fileCall s.files ⟨c, r⟩ = some s'.files ∧ s'.stm = stm ∧ AtDate stm (k r) := by
  obtain ⟨hdate, hclock⟩ := h
  have hstm : s.stm = stm := hclock.resolve_right fun hgmtime => by
    obtain ⟨t, k', heq⟩ := hgmtime
    cases heq
    cases hc
  rw [respond_file hc] at hr
  obtain ⟨files, hfiles, rfl⟩ := Option.map_eq_some_iff.mp hr
  refine ⟨hfiles, hstm, ?_⟩
  cases hdate with
  | gmtime _ _ => cases hc
  | readStm _ => cases hc
  | file _ hk => exact hk r

/-- Behind any call the date is `stm`. -/
theorem Clocked.step (h : Clocked stm s (.call c k)) (hr : respond s ⟨c, r⟩ = some s') :
    s'.stm = stm ∧ AtDate stm (k r) := by
  cases hc : c.isDate with
  | true => exact (h.date_step hc hr).2.imp_right And.left
  | false => exact (h.file_step hc hr).2

/-- A thread that has not returned can make its next call. -/
theorem Clocked.goes (h : Clocked stm s (.call c k)) (htidy : Tidy s.files)
    (hplaced : Placed s.files (resolve stm (.call c k))) : ∃ r s', respond s ⟨c, r⟩ = some s' := by
  cases hc : c.isDate with
  | true =>
      obtain ⟨hdate, -⟩ := h
      cases hdate with
      | gmtime ht _ => exact ⟨true, _, respond_gmtime ht s true⟩
      | readStm _ => exact ⟨s.stm, s, (respond_readStm s s.stm).trans (if_pos rfl)⟩
      | file hno _ =>
          rw [hno] at hc
          cases hc
  | false =>
      rw [resolve_file hc] at hplaced
      obtain ⟨r, files, hr⟩ := hplaced.goes htidy
      exact ⟨r, { s with files }, by rw [respond_file hc, hr, Option.map_some]⟩

/-! ### The calls to the file system -/

/-- A call to the file system. -/
def fileEvent (c : Event LogCall.Answer) : Option (Event LogCall.Answer) :=
  if c.1.isDate then none else some c

def fileEvents (es : List (Event LogCall.Answer)) : List (Event LogCall.Answer) :=
  es.filterMap fileEvent

/-- A run that nobody comes between, without the calls for the date. -/
theorem Clocked.runs_fileEvents {es : List (Event LogCall.Answer)} {ret : Int32}
    (h : Clocked stm s p) (hruns : p.Runs es ret) (hexec : exec respond s es = some s') :
    (resolve stm p).Runs (fileEvents es) ret ∧
      exec fileCall s.files (fileEvents es) = some s'.files := by
  induction hruns generalizing s with
  | pure ret =>
      obtain rfl := Option.some.inj hexec
      exact ⟨.pure ret, rfl⟩
  | call r hruns ih =>
      rename_i c k es ret
      obtain ⟨s₁, hr, hexec'⟩ := exec_cons.mp hexec
      obtain ⟨hstm, hdate⟩ := h.step hr
      obtain ⟨hruns', hfiles⟩ := ih ⟨hdate, .inl hstm⟩ hexec'
      cases hc : c.isDate with
      | true =>
          have hnone : fileEvent ⟨c, r⟩ = none := if_pos hc
          obtain ⟨heq, -, -, hresolve⟩ := h.date_step hc hr
          rw [fileEvents, List.filterMap_cons_none hnone, ← hresolve, ← heq]
          exact ⟨hruns', hfiles⟩
      | false =>
          have hsome : fileEvent ⟨c, r⟩ = some ⟨c, r⟩ := if_neg (by rw [hc]; exact nofun)
          obtain ⟨hcall, -⟩ := h.file_step hc hr
          rw [fileEvents, List.filterMap_cons_some hsome, resolve_file hc]
          exact ⟨.call r hruns', exec_cons.mpr ⟨s₁.files, hcall, hfiles⟩⟩

/-! ### Any number of threads -/

variable {ι : Type}

/-- The calls of `log_write`, none of them begun; those of one thread are begun one after
another, which is one of the orders that a run can have. -/
def logging (s : Shared) (e : ι → LogEntry) : Threads LogCall.Answer ι Shared Int32 :=
  ⟨s, fun i => logWrite (e i).t (e i).level (e i).text⟩

/-- No thread reads another date than `stm`. -/
def OneDate (stm : Tm) (s : Threads LogCall.Answer ι Shared Int32) : Prop :=
  ∀ i, Clocked stm s.shared (s.prog i)

/-- The threads with their calls to the file system alone. -/
def resolved (stm : Tm) (s : Threads LogCall.Answer ι Shared Int32) :
    Threads LogCall.Answer ι Files Int32 :=
  ⟨s.shared.files, fun i => resolve stm (s.prog i)⟩

/-- A step that goes to the file system. -/
def fileStep (c : ι × Event LogCall.Answer) : Option (ι × Event LogCall.Answer) :=
  if c.2.1.isDate then none else some c

def fileSteps (l : List (ι × Event LogCall.Answer)) : List (ι × Event LogCall.Answer) :=
  l.filterMap fileStep

theorem fileSteps_append (l l' : List (ι × Event LogCall.Answer)) :
    fileSteps (l ++ l') = fileSteps l ++ fileSteps l' := List.filterMap_append

theorem fileSteps_cons_date {c : ι × Event LogCall.Answer} (hc : c.2.1.isDate = true)
    (l : List (ι × Event LogCall.Answer)) : fileSteps (c :: l) = fileSteps l :=
  List.filterMap_cons_none (if_pos hc)

theorem fileSteps_cons_file {c : ι × Event LogCall.Answer} (hc : c.2.1.isDate = false)
    (l : List (ι × Event LogCall.Answer)) : fileSteps (c :: l) = c :: fileSteps l :=
  List.filterMap_cons_some (if_neg (by rw [hc]; exact nofun))

theorem fileStep_eq_some {c c' : ι × Event LogCall.Answer} (h : fileStep c = some c') : c = c' := by
  rw [fileStep] at h
  split at h
  · cases h
  · exact Option.some.inj h

theorem fileSteps_split {l l₁ l₂ : List (ι × Event LogCall.Answer)} {c : ι × Event LogCall.Answer}
    (h : fileSteps l = l₁ ++ c :: l₂) :
    ∃ la lb, l = la ++ c :: lb ∧ fileSteps la = l₁ ∧ fileSteps lb = l₂ := by
  obtain ⟨la, lb, rfl, hla, hlb⟩ := List.filterMap_eq_append_iff.mp h
  obtain ⟨lb₁, c', lb₂, rfl, hnone, hc, hlb₂⟩ := List.filterMap_eq_cons_iff.mp hlb
  have hnil : fileSteps lb₁ = [] := List.filterMap_eq_nil_iff.mpr hnone
  refine ⟨la ++ lb₁, lb₂, by rw [fileStep_eq_some hc, List.append_assoc], ?_, hlb₂⟩
  rw [fileSteps_append, hnil, List.append_nil]
  exact hla

theorem written_of_isDate {c : Event LogCall.Answer} (h : c.1.isDate = true) :
    written c = none := by
  obtain ⟨o, r⟩ := c
  cases o with
  | fwrite path text => cases h
  | _ => rfl

/-- The calls for the date write nothing. -/
theorem textsTo_fileSteps (path : Bytes) (l : List (ι × Event LogCall.Answer)) :
    textsTo path ((fileSteps l).map Prod.snd) = textsTo path (l.map Prod.snd) := by
  induction l with
  | nil => rfl
  | cons c l ih =>
      cases hc : c.2.1.isDate with
      | true =>
          have hempty : textsTo path [c.2] = [] := by
            rw [textsTo, writesOf, List.filterMap_cons_none (written_of_isDate hc)]
            rfl
          rw [fileSteps_cons_date hc, ih, List.map_cons, textsTo_cons, hempty, List.nil_append]
      | false =>
          rw [fileSteps_cons_file hc, List.map_cons, List.map_cons, textsTo_cons, ih,
            ← textsTo_cons]

variable {start : Shared} {e : ι → LogEntry} {w w' : Threads LogCall.Answer ι Shared Int32}
  {l : List (ι × Event LogCall.Answer)} {i : ι}

theorem oneDate_logging (hdated : ∀ i, (e i).Dated) (hstm : ∀ i, (e i).stm = stm) :
    OneDate stm (logging start e) :=
  fun i => ⟨atDate_logWrite _ _ (hstm i ▸ (hdated i).gmtime_eq), .inr ⟨_, _, rfl⟩⟩

theorem logInv_resolved (htidy : Tidy start.files) (hdated : ∀ i, (e i).Dated)
    (hstm : ∀ i, (e i).stm = stm) : LogInv (resolved stm (logging start e)) := by
  refine ⟨htidy, fun i => ?_⟩
  have hlines : (resolved stm (logging start e)).prog i =
      lineCalls stm (e i).t (e i).name (e i).text :=
    resolve_logWrite _ (hstm i ▸ (hdated i).gmtime_eq) (hdated i).level_eq
  rw [hlines]
  exact placed_lineCalls stm _ _ htidy (List.mem_of_getElem? (hdated i).level_eq)

/-- A call is overtaken or not without the calls for the date. -/
theorem overtaken_fileSteps : Overtaken i (fileSteps l) ↔ Overtaken i l := by
  constructor
  · intro h
    obtain ⟨dir, l₁, l₂, l₃, r, heq, j, hj, hmem⟩ := h
    obtain ⟨la, l', rfl, -, hl'⟩ := fileSteps_split heq
    obtain ⟨lb, lc, rfl, rfl, -⟩ := fileSteps_split hl'
    obtain ⟨c, hc, hstep⟩ := List.mem_filterMap.mp hmem
    exact ⟨dir, la, lb, lc, r, rfl, j, hj, fileStep_eq_some hstep ▸ hc⟩
  · intro h
    obtain ⟨dir, la, lb, lc, r, rfl, j, hj, hmem⟩ := h
    refine ⟨dir, fileSteps la, fileSteps lb, fileSteps lc, r, ?_, j, hj,
      List.mem_filterMap.mpr ⟨_, hmem, if_neg Bool.false_ne_true⟩⟩
    rw [fileSteps_append, fileSteps_cons_file rfl, fileSteps_append, fileSteps_cons_file rfl]

variable [DecidableEq ι]

theorem OneDate.step {c : ι × Event LogCall.Answer} (h : OneDate stm w)
    (hstep : Threads.step respond w c = some w') : OneDate stm w' := by
  obtain ⟨k, r, hprog, hevent, hshared, hupdate⟩ := step_log_inv hstep
  have hclocked := h c.1
  rw [hprog] at hclocked
  rw [hevent] at hshared
  obtain ⟨hstm, hdate⟩ := hclocked.step hshared
  intro j
  refine ⟨?_, .inl hstm⟩
  rw [hupdate]
  by_cases hj : j = c.1
  · subst hj
    rw [Function.update_self]
    exact hdate
  · rw [Function.update_of_ne hj]
    exact (h j).1

theorem resolved_of_update {p : Logger} {w' : Threads LogCall.Answer ι Shared Int32}
    (h : w'.prog = Function.update w.prog i p) : resolved stm w' =
      ⟨w'.shared.files, Function.update (resolved stm w).prog i (resolve stm p)⟩ := by
  rw [resolved, h]
  exact congrArg (Threads.mk _) (Function.comp_update (resolve stm) w.prog i p)

/-- **The date does not matter**: on one day, the threads make the calls of `resolve` to the file
system, and the others change nothing. -/
theorem simulates_resolved : Simulates (OneDate stm) (Threads.step respond)
    (Threads.step (ι := ι) fileCall) (resolved stm) fileStep where
  keeps _ _ _ h hstep := h.step hstep
  own w c c' w' h hc hstep := by
    obtain ⟨k, r, hprog, hevent, hshared, hupdate⟩ := step_log_inv hstep
    obtain ⟨j, o, r'⟩ := c
    obtain rfl : r' = r := eq_of_heq (Sigma.mk.inj hevent).2
    rw [fileStep] at hc
    split at hc
    · cases hc
    · rename_i hno
      obtain rfl := Option.some.inj hc
      have hdate : o.isDate = false := by simpa using hno
      have hclocked := h j
      rw [hprog] at hclocked
      obtain ⟨hfile, -⟩ := hclocked.file_step hdate hshared
      have hcall : (resolved stm w).prog j = .call o fun r => resolve stm (k r) :=
        (congrArg (resolve stm) hprog).trans (resolve_file hdate k)
      have hfiles : fileCall (resolved stm w).shared ⟨o, r'⟩ = some w'.shared.files := hfile
      rw [resolved_of_update hupdate]
      simp only [Threads.step, hcall, Prog.advance, dif_pos, hfiles, bind, Option.bind_some]
  other w c w' h hc hstep := by
    obtain ⟨k, r, hprog, hevent, hshared, hupdate⟩ := step_log_inv hstep
    obtain ⟨j, o, r'⟩ := c
    obtain rfl : r' = r := eq_of_heq (Sigma.mk.inj hevent).2
    rw [fileStep] at hc
    split at hc
    · rename_i hdate
      have hclocked := h j
      rw [hprog] at hclocked
      obtain ⟨hfiles, -, -, hresolve⟩ := hclocked.date_step hdate hshared
      have hsame : resolve stm (k r') = (resolved stm w).prog j :=
        hresolve.trans (congrArg (resolve stm) hprog.symm)
      rw [resolved_of_update hupdate, hfiles, hsame, Function.update_eq_self]
      rfl
    · cases hc

/-- **`log_write` does not go wrong** while no date changes: whatever the calls have done so far,
one that has not returned can make its next call; so none of them writes to a file that it could
not open. -/
theorem log_write_goes_on (htidy : Tidy start.files) (hdated : ∀ i, (e i).Dated)
    (hstm : ∀ i, (e i).stm = stm)
    (h : exec (Threads.step respond) (logging start e) l = some w) (i : ι) :
    (w.prog i).result = some LOG_SUCCESSFUL ∨ (w.prog i).result = some LOG_FAIL ∨
      ∃ c w', Threads.step respond w (i, c) = some w' := by
  have hdates : OneDate stm (logging start e) := oneDate_logging hdated hstm
  have hinv := logInv_of_exec (logInv_resolved htidy hdated hstm) (simulates_resolved.exec hdates h)
  have hclocked := exec_invariant (fun _ _ _ hw hs => hw.step hs) hdates h i
  have hplaced := hinv.placed i
  change Placed w.shared.files (resolve stm (w.prog i)) at hplaced
  cases hprog : w.prog i with
  | pure ret =>
      rw [hprog] at hplaced
      cases hplaced with
      | done hret =>
          rcases hret with rfl | rfl
          · exact .inl rfl
          · exact .inr (.inl rfl)
  | call c k =>
      rw [hprog] at hplaced hclocked
      obtain ⟨r, s', hr⟩ := hclocked.goes hinv.tidy hplaced
      refine .inr (.inr ⟨⟨c, r⟩, ⟨s', Function.update w.prog i (k r)⟩, ?_⟩)
      simp only [Threads.step, hprog, Prog.advance, dif_pos, hr, bind, Option.bind_some]

/-- A tree with the root of the logs and nothing else. -/
def emptyLogs : Files := ⟨fun path => if path = LOG_ROOT_DIR then some .dir else none⟩

theorem tidy_emptyLogs : Tidy emptyLogs := by
  refine ⟨by decide, fun p _ l hnode => ?_, fun p hp hnode => ?_⟩
  · have hif : (if p = LOG_ROOT_DIR then some Node.dir else none) = some (.file l) := hnode
    split at hif <;> cases hif
  · have hif : (if p = LOG_ROOT_DIR then some Node.dir else none) = some .dir := hnode
    split at hif
    · rename_i heq
      exact hp.ne_root heq.symm
    · cases hif

/-- Two calls in the same second, the first ones of the server. -/
def firstLines (second : Bool) : LogEntry :=
  if second then ⟨1384041600, 7, ascii "b"⟩ else ⟨1384041600, 7, ascii "a"⟩

/-- The server when it starts to log. -/
def firstState : Shared := ⟨emptyLogs, ⟨0, 0, 0⟩⟩

/-- Both find no directory; the first one makes it. -/
def overtaken : List (Bool × Event LogCall.Answer) :=
  [(true, ⟨.gmtime 1384041600, true⟩), (false, ⟨.gmtime 1384041600, true⟩),
    (true, ⟨.gmtime 1384041600, true⟩), (false, ⟨.gmtime 1384041600, true⟩),
    (true, ⟨.access (ascii "./logs/debug"), false⟩),
    (false, ⟨.access (ascii "./logs/debug"), false⟩),
    (false, ⟨.mkdir (ascii "./logs/debug"), true⟩),
    (true, ⟨.mkdir (ascii "./logs/debug"), false⟩)]

theorem dated_firstLines (second : Bool) : (firstLines second).Dated := by
  cases second with
  | true => exact ⟨by decide, by decide⟩
  | false => exact ⟨by decide, by decide⟩

theorem stm_firstLines (second : Bool) : (firstLines second).stm = ⟨113, 10, 10⟩ := by
  cases second with
  | true => decide
  | false => decide

theorem log_write_goes_on_overtaken : ∃ w,
    exec (Threads.step respond) (logging firstState firstLines) overtaken = some w ∧
      ((w.prog false).result = some LOG_SUCCESSFUL ∨
      (w.prog false).result = some LOG_FAIL ∨
      ∃ c w', Threads.step respond w (false, c) = some w') := by
  have hrun : (exec (Threads.step respond) (logging firstState firstLines) overtaken).isSome := by
    decide
  obtain ⟨w, hw⟩ := Option.isSome_iff_exists.mp hrun
  exact ⟨w, hw, log_write_goes_on tidy_emptyLogs dated_firstLines stm_firstLines hw false⟩

/-- Two calls around midnight, at the end of a month. -/
def monthEnd (second : Bool) : LogEntry :=
  if second then ⟨1385856000, 7, ascii "b"⟩ else ⟨1385855999, 7, ascii "a"⟩

/-- The first call has made the directories of its month when the second one calls `gmtime`. -/
def midnight : List (Bool × Event LogCall.Answer) :=
  [(false, ⟨.gmtime 1385855999, true⟩), (false, ⟨.gmtime 1385855999, true⟩),
    (false, ⟨.access (ascii "./logs/debug"), false⟩),
    (false, ⟨.mkdir (ascii "./logs/debug"), true⟩),
    (false, ⟨.readStm, ⟨113, 10, 30⟩⟩),
    (false, ⟨.access (ascii "./logs/debug/2013"), false⟩),
    (false, ⟨.mkdir (ascii "./logs/debug/2013"), true⟩),
    (false, ⟨.readStm, ⟨113, 10, 30⟩⟩),
    (false, ⟨.access (ascii "./logs/debug/2013/11"), false⟩),
    (false, ⟨.mkdir (ascii "./logs/debug/2013/11"), true⟩),
    (true, ⟨.gmtime 1385856000, true⟩),
    (false, ⟨.readStm, ⟨113, 11, 1⟩⟩),
    (false, ⟨.fopen (ascii "./logs/debug/2013/12/debug_1"), false⟩)]

/-- The program is at `undefined`. -/
def Stuck : Logger → Bool
  | .call .undefined _ => true
  | _ => false

theorem no_step_of_stuck {w : Threads LogCall.Answer ι Shared Int32} {i : ι}
    (h : Stuck (w.prog i) = true) (c : Event LogCall.Answer) :
    Threads.step respond w (i, c) = none := by
  rw [Option.eq_none_iff_forall_ne_some]
  intro w' hstep
  obtain ⟨k, r, hprog, -, -, -⟩ := step_log_inv hstep
  change w.prog i = .call c.1 k at hprog
  rw [hprog] at h
  obtain ⟨o, r'⟩ := c
  cases o with
  | undefined => cases r
  | _ => cases h

/-- **At midnight** a thread can read the date of another one: its month has no directory, the
file is not opened, and `fwrite` is handed `NULL`. -/
theorem midnight_undefined : ∃ w,
    exec (Threads.step respond) (logging firstState monthEnd) midnight = some w ∧
      (w.prog false).result = none ∧ ∀ c, Threads.step respond w (false, c) = none := by
  have hrun : (exec (Threads.step respond) (logging firstState monthEnd) midnight).map
      (fun w => ((w.prog false).result, Stuck (w.prog false))) = some (none, true) := by
    decide
  obtain ⟨w, hw, hend⟩ := Option.map_eq_some_iff.mp hrun
  obtain ⟨hresult, hstuck⟩ := Prod.mk.inj hend
  exact ⟨w, hw, hresult, no_step_of_stuck hstuck⟩

/-! ### The lines -/

theorem writesOf_callsOf_fileSteps (i : ι) (l : List (ι × Event LogCall.Answer)) :
    writesOf (Threads.callsOf i (fileSteps l)) = writesOf (Threads.callsOf i l) := by
  induction l with
  | nil => rfl
  | cons c l ih =>
      obtain ⟨j, c⟩ := c
      cases hc : c.1.isDate with
      | true =>
          rw [fileSteps_cons_date hc, ih]
          by_cases hj : j = i
          · rw [hj, Threads.callsOf_cons_self, writesOf, writesOf,
              List.filterMap_cons_none (written_of_isDate hc)]
          · rw [Threads.callsOf_cons_ne hj]
      | false =>
          rw [fileSteps_cons_file hc]
          by_cases hj : j = i
          · rw [hj, Threads.callsOf_cons_self, Threads.callsOf_cons_self, writesOf, writesOf,
              List.filterMap_cons, List.filterMap_cons, ← writesOf, ← writesOf, ih]
          · rw [Threads.callsOf_cons_ne hj, Threads.callsOf_cons_ne hj, ih]

/-- The calls of a `log_write` that has returned. -/
theorem ended_of_exec (hdated : ∀ i, (e i).Dated) (hstm : ∀ i, (e i).stm = stm)
    (h : exec (Threads.step respond) (logging start e) l = some w) {ret : Int32}
    (hret : (w.prog i).result = some ret) :
    Ended ((e i).file, (e i).line) (Threads.callsOf i (fileSteps l)) ret := by
  have hrun := simulates_resolved.exec (oneDate_logging hdated hstm) h
  have hdone : (resolved stm w).prog i = .pure ret :=
    congrArg (resolve stm) (Prog.result_eq_some.mp hret)
  have hruns := Threads.runs_of_exec hrun hdone
  have hlines : (resolved stm (logging start e)).prog i =
      lineCalls stm (e i).t (e i).name (e i).text :=
    resolve_logWrite _ (hstm i ▸ (hdated i).gmtime_eq) (hdated i).level_eq
  rw [hlines] at hruns
  rw [LogEntry.file, hstm i]
  exact ended_lineCalls hruns

/-- **The lines of the log**, on one day: when all calls have returned, a file holds what it held
before and the texts written to it in their order; and a call that has succeeded has written its
own line to the file of its day, once, and one that has failed nothing. -/
theorem log_lines_written (hdated : ∀ i, (e i).Dated) (hstm : ∀ i, (e i).stm = stm)
    (h : exec (Threads.step respond) (logging start e) l = some w) {ret : ι → Int32}
    (hret : ∀ i, (w.prog i).result = some (ret i)) :
    (∀ path, w.shared.files.content path =
        start.files.content path ++ (textsTo path (l.map Prod.snd)).flatten) ∧
      ∀ i, (ret i = LOG_SUCCESSFUL ∧
          writesOf (Threads.callsOf i l) = [((e i).file, (e i).line)]) ∨
        (ret i = LOG_FAIL ∧ writesOf (Threads.callsOf i l) = []) := by
  have hrun := simulates_resolved.exec (oneDate_logging hdated hstm) h
  refine ⟨fun path => ?_, fun i => ?_⟩
  · rw [← textsTo_fileSteps]
    exact content_exec (Threads.exec_parts hrun).1 path
  · rw [← writesOf_callsOf_fileSteps]
    rcases ended_of_exec hdated hstm h (hret i) with ⟨hsuccess, hw, -⟩ | ⟨hfail, hw, -⟩
    · exact .inl ⟨hsuccess, hw⟩
    · exact .inr ⟨hfail, hw⟩

/-- The first call makes the other directories and writes its line. -/
def overtaken_done : List (Bool × Event LogCall.Answer) :=
  overtaken ++ [(false, ⟨.readStm, ⟨113, 10, 10⟩⟩),
    (false, ⟨.access (ascii "./logs/debug/2013"), false⟩),
    (false, ⟨.mkdir (ascii "./logs/debug/2013"), true⟩),
    (false, ⟨.readStm, ⟨113, 10, 10⟩⟩),
    (false, ⟨.access (ascii "./logs/debug/2013/11"), false⟩),
    (false, ⟨.mkdir (ascii "./logs/debug/2013/11"), true⟩),
    (false, ⟨.readStm, ⟨113, 10, 10⟩⟩),
    (false, ⟨.fopen (ascii "./logs/debug/2013/11/debug_10"), true⟩),
    (false, ⟨.fwrite (ascii "./logs/debug/2013/11/debug_10")
      (ascii "1384041600\tdebug\ta"), ()⟩)]

/-- What the two calls return. -/
def retOf (second : Bool) : Int32 := if second then LOG_FAIL else LOG_SUCCESSFUL

theorem results_overtaken_done : ∃ w,
    exec (Threads.step respond) (logging firstState firstLines) overtaken_done = some w ∧
      ∀ i, (w.prog i).result = some (retOf i) := by
  have hrun : (exec (Threads.step respond) (logging firstState firstLines) overtaken_done).map
      (fun w => ((w.prog false).result, (w.prog true).result)) =
        some (some LOG_SUCCESSFUL, some LOG_FAIL) := by
    decide
  obtain ⟨w, hw, hresults⟩ := Option.map_eq_some_iff.mp hrun
  obtain ⟨hfalse, htrue⟩ := Prod.mk.inj hresults
  refine ⟨w, hw, fun i => ?_⟩
  cases i with
  | false => exact hfalse
  | true => exact htrue

theorem log_lines_written_overtaken : ∃ w,
    exec (Threads.step respond) (logging firstState firstLines) overtaken_done = some w ∧
      (∀ path, w.shared.files.content path = firstState.files.content path ++
        (textsTo path (overtaken_done.map Prod.snd)).flatten) ∧
      ∀ i, (retOf i = LOG_SUCCESSFUL ∧ writesOf (Threads.callsOf i overtaken_done) =
          [((firstLines i).file, (firstLines i).line)]) ∨
        (retOf i = LOG_FAIL ∧ writesOf (Threads.callsOf i overtaken_done) = []) := by
  obtain ⟨w, hw, hret⟩ := results_overtaken_done
  exact ⟨w, hw, log_lines_written dated_firstLines stm_firstLines hw hret⟩

/-! ### Lines that are lost -/

/-- **A line is lost if and only if its call is overtaken**, on one day: `log_write` has failed
exactly when another call has made a directory between its `access` and its `mkdir`. -/
theorem log_line_lost_iff (htidy : Tidy start.files) (hdated : ∀ i, (e i).Dated)
    (hstm : ∀ i, (e i).stm = stm)
    (h : exec (Threads.step respond) (logging start e) l = some w) {ret : Int32}
    (hret : (w.prog i).result = some ret) : ret = LOG_FAIL ↔ Overtaken i l := by
  rw [← overtaken_fileSteps]
  exact (logInv_resolved htidy hdated hstm).lost_iff
    (simulates_resolved.exec (oneDate_logging hdated hstm) h)
    (ended_of_exec hdated hstm h hret)

theorem log_line_lost_iff_overtaken : ∃ w,
    exec (Threads.step respond) (logging firstState firstLines) overtaken_done = some w ∧
      (retOf true = LOG_FAIL ↔ Overtaken true overtaken_done) := by
  obtain ⟨w, hw, hret⟩ := results_overtaken_done
  exact ⟨w, hw, log_line_lost_iff tidy_emptyLogs dated_firstLines stm_firstLines hw (hret true)⟩

/-! ### One call after another -/

variable {cs : List (Event LogCall.Answer)}

/-- A call of `log_write` that nobody comes between. -/
def logCall (s : Shared) (c : LogEntry × List (Event LogCall.Answer)) : Option Shared :=
  ((logWrite c.1.t c.1.level c.1.text).replay c.2).bind fun _ => exec respond s c.2

theorem logCall_eq_some {c : LogEntry × List (Event LogCall.Answer)} :
    logCall s c = some s' ↔
      (∃ ret, (logWrite c.1.t c.1.level c.1.text).Runs c.2 ret) ∧ exec respond s c.2 = some s' := by
  rw [logCall, Option.bind_eq_some_iff]
  constructor
  · intro h
    obtain ⟨ret, hret, hexec⟩ := h
    exact ⟨⟨ret, Prog.replay_eq_some.mp hret⟩, hexec⟩
  · intro h
    obtain ⟨⟨ret, hret⟩, hexec⟩ := h
    exact ⟨ret, Prog.replay_eq_some.mpr hret, hexec⟩

theorem LogEntry.Dated.clocked {e : LogEntry} (he : e.Dated) (s : Shared) :
    Clocked e.stm s (logWrite e.t e.level e.text) :=
  ⟨atDate_logWrite _ _ he.gmtime_eq, .inr ⟨_, _, rfl⟩⟩

/-- One call that nobody comes between writes its line. -/
theorem alone_logWrite {e : LogEntry} {ret : Int32} (htidy : Tidy s.files) (he : e.Dated)
    (h : (logWrite e.t e.level e.text).Runs cs ret) (hexec : exec respond s cs = some s') :
    ret = LOG_SUCCESSFUL ∧ Tidy s'.files ∧
      ∀ p, s'.files.content p = s.files.content p ++ if e.file = p then e.line else [] := by
  obtain ⟨hruns, hfiles⟩ := (he.clocked s).runs_fileEvents h hexec
  rw [resolve_logWrite e.text he.gmtime_eq he.level_eq] at hruns
  exact alone_lineCalls htidy (List.mem_of_getElem? he.level_eq) hruns hfiles

/-- A program that is somewhere in a `log_write` comes to its end. -/
theorem Clocked.exists_runs {p : Logger} (h : Clocked stm s p)
    (hplaced : Placed s.files (resolve stm p)) (htidy : Tidy s.files) :
    ∃ cs ret s', p.Runs cs ret ∧ exec respond s cs = some s' := by
  induction p generalizing s with
  | pure ret => exact ⟨[], ret, s, .pure ret, rfl⟩
  | call c k ih =>
      obtain ⟨r, s₁, hr⟩ := h.goes htidy hplaced
      obtain ⟨hstm, hdate⟩ := h.step hr
      have hnext : Placed s₁.files (resolve stm (k r)) ∧ Tidy s₁.files := by
        cases hc : c.isDate with
        | true =>
            obtain ⟨heq, -, -, hresolve⟩ := h.date_step hc hr
            rw [hresolve, heq]
            exact ⟨hplaced, htidy⟩
        | false =>
            obtain ⟨hcall, -⟩ := h.file_step hc hr
            rw [resolve_file hc] at hplaced
            obtain ⟨-, htidy', hplaced'⟩ := hplaced.step htidy hcall
            exact ⟨hplaced', htidy'⟩
      obtain ⟨cs, ret, s', hruns, hexec⟩ := ih r ⟨hdate, .inl hstm⟩ hnext.1 hnext.2
      exact ⟨⟨c, r⟩ :: cs, ret, s', .call r hruns, exec_cons.mpr ⟨s₁, hr, hexec⟩⟩

theorem exists_logCall {e : LogEntry} (htidy : Tidy s.files) (he : e.Dated) :
    ∃ cs s', logCall s (e, cs) = some s' ∧ Tidy s'.files := by
  have hplaced : Placed s.files (resolve e.stm (logWrite e.t e.level e.text)) := by
    rw [resolve_logWrite e.text he.gmtime_eq he.level_eq]
    exact placed_lineCalls e.stm e.t e.text htidy (List.mem_of_getElem? he.level_eq)
  obtain ⟨cs, ret, s', hruns, hexec⟩ := (he.clocked s).exists_runs hplaced htidy
  exact ⟨cs, s', logCall_eq_some.mpr ⟨⟨ret, hruns⟩, hexec⟩,
    (alone_logWrite htidy he hruns hexec).2.1⟩

theorem exists_logCalls {entries : List LogEntry} (htidy : Tidy start.files)
    (hdated : ∀ e ∈ entries, e.Dated) :
    ∃ calls s, calls.map Prod.fst = entries ∧ exec logCall start calls = some s := by
  induction entries generalizing start with
  | nil => exact ⟨[], start, rfl, rfl⟩
  | cons e entries ih =>
      obtain ⟨cs, s₁, hcall, htidy₁⟩ := exists_logCall htidy (hdated e List.mem_cons_self)
      obtain ⟨calls, s, hcalls, hexec⟩ := ih htidy₁ fun d hd => hdated d (List.mem_cons_of_mem _ hd)
      exact ⟨(e, cs) :: calls, s, by rw [List.map_cons, hcalls],
        exec_cons.mpr ⟨s₁, hcall, hexec⟩⟩

theorem content_logCalls {calls : List (LogEntry × List (Event LogCall.Answer))}
    (htidy : Tidy start.files) (hdated : ∀ c ∈ calls, c.1.Dated)
    (h : exec logCall start calls = some s) :
    (∀ c ∈ calls, (logWrite c.1.t c.1.level c.1.text).replay c.2 = some LOG_SUCCESSFUL) ∧
      ∀ path, s.files.content path = start.files.content path ++
        (((calls.map Prod.fst).filter fun e => e.file = path).map LogEntry.line).flatten := by
  induction calls generalizing start with
  | nil =>
      obtain rfl := Option.some.inj h
      exact ⟨fun c hc => absurd hc List.not_mem_nil, fun path => (List.append_nil _).symm⟩
  | cons c calls ih =>
      obtain ⟨s₁, hc, hrest⟩ := exec_cons.mp h
      obtain ⟨⟨ret, hret⟩, hexec⟩ := logCall_eq_some.mp hc
      obtain ⟨rfl, htidy₁, hcontent⟩ :=
        alone_logWrite htidy (hdated c List.mem_cons_self) hret hexec
      obtain ⟨hall, hlines⟩ := ih htidy₁ (fun d hd => hdated d (List.mem_cons_of_mem _ hd)) hrest
      refine ⟨fun d hd => ?_, fun path => ?_⟩
      · rcases List.mem_cons.mp hd with rfl | hd
        · exact Prog.replay_eq_some.mpr hret
        · exact hall d hd
      · rw [hlines, hcontent, List.append_assoc, List.map_cons]
        congr 1
        by_cases hfile : c.1.file = path
        · rw [if_pos hfile, List.filter_cons_of_pos (by simpa using hfile), List.map_cons,
            List.flatten_cons]
        · rw [if_neg hfile, List.nil_append, List.filter_cons_of_neg (by simpa using hfile)]

/-- **A log that one thread writes** loses no line, on whatever days: the calls come to their
ends, each with success, and a file holds the lines of its day behind what it held, in the order
of the calls. -/
theorem log_lines_in_order (entries : List LogEntry) (htidy : Tidy start.files)
    (hdated : ∀ e ∈ entries, e.Dated) :
    (∃ calls s, calls.map Prod.fst = entries ∧ exec logCall start calls = some s) ∧
      ∀ calls s, calls.map Prod.fst = entries → exec logCall start calls = some s →
        (∀ c ∈ calls, (logWrite c.1.t c.1.level c.1.text).replay c.2 = some LOG_SUCCESSFUL) ∧
          ∀ path, s.files.content path = start.files.content path ++
            ((entries.filter fun e => e.file = path).map LogEntry.line).flatten := by
  refine ⟨exists_logCalls htidy hdated, fun calls s hcalls h => ?_⟩
  subst hcalls
  exact content_logCalls htidy (fun c hc => hdated c.1 (List.mem_map_of_mem hc)) h

/-- Two lines around midnight. -/
theorem log_lines_in_order_two :
    (∃ calls s, calls.map Prod.fst = [monthEnd false, monthEnd true] ∧
        exec logCall firstState calls = some s) ∧
      ∀ calls s, calls.map Prod.fst = [monthEnd false, monthEnd true] →
        exec logCall firstState calls = some s →
        (∀ c ∈ calls, (logWrite c.1.t c.1.level c.1.text).replay c.2 = some LOG_SUCCESSFUL) ∧
          ∀ path, s.files.content path = firstState.files.content path ++
            (([monthEnd false, monthEnd true].filter fun e => e.file = path).map
              LogEntry.line).flatten := by
  refine log_lines_in_order _ tidy_emptyLogs fun e he => ?_
  simp only [List.mem_cons, List.not_mem_nil, or_false] at he
  rcases he with rfl | rfl
  · exact ⟨by decide, by decide⟩
  · exact ⟨by decide, by decide⟩

end SpiderChat.Log
