import SpiderChat.Log

/-!
# SpiderChat.LogFiles

**The files of the log.** `lineCalls` are the calls that a `log_write` makes to the file system,
when it reads one date all along: it makes three directories, each the parent of the next one, and
appends its line. `Placed` says where a thread is in them, and what it relies on; every call of
every thread keeps that for the others (`Placed.step`). So a line is lost if and only if another
thread makes a directory between the `access` and the `mkdir` of this one (`LogInv.lost_iff`).
-/

namespace SpiderChat.Log

open Lib

/-! ### Paths -/

def interfaceDir (name : Bytes) : Bytes := LOG_ROOT_DIR ++ 47 :: name

def yearDir (stm : Tm) (name : Bytes) : Bytes :=
  interfaceDir name ++ 47 :: decInt (stm.tm_year + 1900)

def monthDir (stm : Tm) (name : Bytes) : Bytes :=
  yearDir stm name ++ 47 :: decInt (1 + stm.tm_mon)

def dayFile (stm : Tm) (name : Bytes) : Bytes :=
  monthDir stm name ++ 47 :: (name ++ 95 :: decInt stm.tm_mday)

/-- A directory that `dir_exists` makes. -/
def IsLogDir (path : Bytes) : Prop :=
  ∃ stm, ∃ name ∈ log_level, path = interfaceDir name ∨ path = yearDir stm name ∨
    path = monthDir stm name

/-- A file that `log_write` writes. -/
def IsLogFile (path : Bytes) : Prop := ∃ stm, ∃ name ∈ log_level, path = dayFile stm name

/-- The line of a call. -/
def lineOf (t : Int64) (name text : Bytes) : Bytes :=
  let log_contents := decInt t.toInt ++ 9 :: (name ++ [9])
  cstr (log_contents ++ snprintf (512 - log_contents.length) text)

theorem length_le_of_mem {name : Bytes} (h : name ∈ log_level) : name.length ≤ 9 :=
  (by decide : ∀ name ∈ log_level, name.length ≤ 9) name h

theorem slash_not_mem_name {name : Bytes} (h : name ∈ log_level) : (47 : UInt8) ∉ name :=
  (by decide : ∀ name ∈ log_level, (47 : UInt8) ∉ name) name h

theorem slash_not_mem_decInt (n : Int) : (47 : UInt8) ∉ decInt n := by
  intro h
  rcases mem_decInt h with h | h <;> cases h

theorem slash_not_mem_day {name : Bytes} (h : name ∈ log_level) (n : Int) :
    (47 : UInt8) ∉ name ++ 95 :: decInt n := by
  intro hmem
  rcases List.mem_append.mp hmem with hmem | hmem
  · exact slash_not_mem_name h hmem
  · rcases List.mem_cons.mp hmem with heq | hmem
    · cases heq
    · exact slash_not_mem_decInt n hmem

theorem parentPath_interfaceDir {name : Bytes} (h : name ∈ log_level) :
    parentPath (interfaceDir name) = LOG_ROOT_DIR :=
  parentPath_append (slash_not_mem_name h) _

theorem parentPath_yearDir (stm : Tm) (name : Bytes) :
    parentPath (yearDir stm name) = interfaceDir name :=
  parentPath_append (slash_not_mem_decInt _) _

theorem parentPath_monthDir (stm : Tm) (name : Bytes) :
    parentPath (monthDir stm name) = yearDir stm name :=
  parentPath_append (slash_not_mem_decInt _) _

theorem parentPath_dayFile (stm : Tm) {name : Bytes} (h : name ∈ log_level) :
    parentPath (dayFile stm name) = monthDir stm name :=
  parentPath_append (slash_not_mem_day h _) _

/-- A component behind a path is one more slash. -/
theorem count_slash {c : Bytes} (h : (47 : UInt8) ∉ c) (path : Bytes) :
    (path ++ 47 :: c).count 47 = path.count 47 + 1 := by
  rw [List.count_append, List.count_cons_self, List.count_eq_zero.mpr h]

theorem count_interfaceDir {name : Bytes} (h : name ∈ log_level) :
    (interfaceDir name).count 47 = 2 := by
  rw [interfaceDir, count_slash (slash_not_mem_name h)]
  rfl

theorem count_yearDir (stm : Tm) {name : Bytes} (h : name ∈ log_level) :
    (yearDir stm name).count 47 = 3 := by
  rw [yearDir, count_slash (slash_not_mem_decInt _), count_interfaceDir h]

theorem count_monthDir (stm : Tm) {name : Bytes} (h : name ∈ log_level) :
    (monthDir stm name).count 47 = 4 := by
  rw [monthDir, count_slash (slash_not_mem_decInt _), count_yearDir stm h]

/-- The files lie deeper than the directories. -/
theorem IsLogDir.not_isLogFile {path : Bytes} (h : IsLogDir path) : ¬ IsLogFile path := by
  intro hfile
  obtain ⟨stm', name', hname', rfl⟩ := hfile
  have hcount : (dayFile stm' name').count 47 = 5 := by
    rw [dayFile, count_slash (slash_not_mem_day hname' _), count_monthDir stm' hname']
  obtain ⟨stm, name, hname, heq | heq | heq⟩ := h
  · rw [heq, count_interfaceDir hname] at hcount
    cases hcount
  · rw [heq, count_yearDir stm hname] at hcount
    cases hcount
  · rw [heq, count_monthDir stm hname] at hcount
    cases hcount

/-! ### The calls of a `log_write` -/

/-- `fopen`, `fwrite`, `fclose` -/
def appendLine (path line : Bytes) : Logger :=
  .call (.fopen path) fun opened : Bool =>
    if opened then .call (.fwrite path line) fun _ => .pure LOG_SUCCESSFUL else undefined

/-- The directories and the line of a `log_write` that reads the date `stm`. -/
def lineCalls (stm : Tm) (t : Int64) (name text : Bytes) : Logger :=
  makeDir (interfaceDir name) (makeDir (yearDir stm name)
    (makeDir (monthDir stm name) (appendLine (dayFile stm name) (lineOf t name text))))

/-! ### What the threads are about to do -/

/-- The directories are there, and no file stands where a directory goes, nor the other way
round. -/
structure Tidy (t : Files) : Prop where
  root : t.node LOG_ROOT_DIR = some .dir
  dirs : ∀ p, IsLogDir p → ∀ l, t.node p ≠ some (.file l)
  files : ∀ p, IsLogFile p → t.node p ≠ some .dir

/-- A program that is somewhere in a `log_write`, with what it relies on. -/
inductive Placed : Files → Logger → Prop
  | done {t : Files} {ret : Int32} (hret : ret = LOG_SUCCESSFUL ∨ ret = LOG_FAIL) :
      Placed t (.pure ret)
  | access {t : Files} {dir : Bytes} {rest : Logger} (hdir : IsLogDir dir)
      (hparent : t.node (parentPath dir) = some .dir)
      (hrest : ∀ t', t.Grows t' → t'.node dir = some .dir → Placed t' rest) :
      Placed t (.call (.access dir) fun found : Bool =>
        if found then rest
        else .call (.mkdir dir) fun made : Bool => if made then rest else .pure LOG_FAIL)
  | mkdir {t : Files} {dir : Bytes} {rest : Logger} (hdir : IsLogDir dir)
      (hparent : t.node (parentPath dir) = some .dir)
      (hrest : ∀ t', t.Grows t' → t'.node dir = some .dir → Placed t' rest) :
      Placed t (.call (.mkdir dir) fun made : Bool => if made then rest else .pure LOG_FAIL)
  | fopen {t : Files} {path line : Bytes} (hfile : IsLogFile path)
      (hparent : t.node (parentPath path) = some .dir) : Placed t (appendLine path line)
  | fwrite {t : Files} {path line l : Bytes} (hfile : IsLogFile path)
      (hnode : t.node path = some (.file l)) :
      Placed t (.call (.fwrite path line) fun _ => .pure LOG_SUCCESSFUL)

variable {t t' : Files} {p : Logger} {path dir : Bytes}

/-- What the other threads do does not get in the way. -/
theorem Placed.grows (h : Placed t p) (hgrows : t.Grows t') : Placed t' p := by
  cases h with
  | done hret => exact .done hret
  | access hdir hparent hrest =>
      exact .access hdir (hgrows.dir _ hparent) fun t'' h => hrest t'' (hgrows.trans h)
  | mkdir hdir hparent hrest =>
      exact .mkdir hdir (hgrows.dir _ hparent) fun t'' h => hrest t'' (hgrows.trans h)
  | fopen hfile hparent => exact .fopen hfile (hgrows.dir _ hparent)
  | fwrite hfile hnode =>
      obtain ⟨l', hl'⟩ := hgrows.file _ _ hnode
      exact .fwrite hfile hl'

theorem placed_lineCalls {name : Bytes} (stm : Tm) (now : Int64) (text : Bytes) (htidy : Tidy t)
    (hmem : name ∈ log_level) : Placed t (lineCalls stm now name text) := by
  -- every directory is the parent of the next one
  refine .access ⟨stm, name, hmem, .inl rfl⟩ ?_ fun t₁ _ h₁ => ?_
  · rw [parentPath_interfaceDir hmem]
    exact htidy.root
  refine .access ⟨stm, name, hmem, .inr (.inl rfl)⟩ ?_ fun t₂ _ h₂ => ?_
  · rw [parentPath_yearDir]
    exact h₁
  refine .access ⟨stm, name, hmem, .inr (.inr rfl)⟩ ?_ fun t₃ _ h₃ => ?_
  · rw [parentPath_monthDir]
    exact h₂
  refine .fopen ⟨stm, name, hmem, rfl⟩ ?_
  rw [parentPath_dayFile stm hmem]
  exact h₃

theorem IsLogFile.ne_root (h : IsLogFile path) : LOG_ROOT_DIR ≠ path := by
  intro heq
  obtain ⟨stm, name, hname, rfl⟩ := h
  have hcount := congrArg (List.count 47) heq
  rw [dayFile, count_slash (slash_not_mem_day hname _), count_monthDir stm hname] at hcount
  exact absurd hcount (by decide)

theorem Tidy.mkdir (h : Tidy t) (hdir : IsLogDir dir) (hmkdir : t.mkdir dir = some t') :
    Tidy t' := by
  refine ⟨(Files.grows_mkdir hmkdir).dir _ h.root, fun p hp l => ?_, fun p hp => ?_⟩
  all_goals obtain ⟨-, -, rfl⟩ := Files.mkdir_eq_some.mp hmkdir
  · by_cases heq : p = dir
    · rw [heq, Files.node_set_self]
      exact fun hnode => nomatch hnode
    · rw [Files.node_set_ne t _ heq]
      exact h.dirs p hp l
  · have hne : p ≠ dir := fun heq => hdir.not_isLogFile (heq ▸ hp)
    rw [Files.node_set_ne t _ hne]
    exact h.files p hp

theorem Tidy.set_file (h : Tidy t) (hfile : IsLogFile path) (l : Bytes) :
    Tidy (t.set path (.file l)) := by
  refine ⟨?_, fun p hp l' => ?_, fun p hp => ?_⟩
  · rw [Files.node_set_ne t _ hfile.ne_root]
    exact h.root
  · have hne : p ≠ path := fun heq => hp.not_isLogFile (heq ▸ hfile)
    rw [Files.node_set_ne t _ hne]
    exact h.dirs p hp l'
  · by_cases heq : p = path
    · rw [heq, Files.node_set_self]
      exact fun hnode => nomatch hnode
    · rw [Files.node_set_ne t _ heq]
      exact h.files p hp

/-! ### One call -/

theorem fileCall_access {found : Bool} (h : fileCall t ⟨.access path, found⟩ = some t') :
    t' = t ∧ found = (t.node path).isSome := by
  rw [fileCall] at h
  split at h
  · rename_i hfound
    exact ⟨(Option.some.inj h).symm, hfound⟩
  · cases h

theorem fileCall_mkdir_false (h : fileCall t ⟨.mkdir path, false⟩ = some t') :
    t' = t ∧ t.mkdir path = none := by
  have hif : (if (t.mkdir path).isNone then some t else none) = some t' := h
  split at hif
  · rename_i hnone
    exact ⟨(Option.some.inj hif).symm, Option.isNone_iff_eq_none.mp hnone⟩
  · cases hif

theorem fileCall_fopen_false (h : fileCall t ⟨.fopen path, false⟩ = some t') :
    t' = t ∧ t.openAppend path = none := by
  have hif : (if (t.openAppend path).isNone then some t else none) = some t' := h
  split at hif
  · rename_i hnone
    exact ⟨(Option.some.inj hif).symm, Option.isNone_iff_eq_none.mp hnone⟩
  · cases hif

/-- **One call of a thread** keeps the tree tidy, takes nothing away from the other threads, and
leaves the thread somewhere in its `log_write`. -/
theorem Placed.step {c : LogCall} {k : c.Answer → Logger} {r : c.Answer}
    (h : Placed t (.call c k)) (htidy : Tidy t) (hr : fileCall t ⟨c, r⟩ = some t') :
    t.Grows t' ∧ Tidy t' ∧ Placed t' (k r) := by
  cases h with
  | access hdir hparent hrest =>
      rename_i dir rest
      obtain ⟨rfl, hfound⟩ := fileCall_access hr
      refine ⟨.refl _, htidy, ?_⟩
      cases hnode : t'.node dir with
      | none =>
          rw [hnode] at hfound
          obtain rfl : r = false := hfound
          exact .mkdir hdir hparent hrest
      | some n =>
          rw [hnode] at hfound
          obtain rfl : r = true := hfound
          -- what was found is a directory, since the tree is tidy
          cases n with
          | dir => exact hrest t' (.refl _) hnode
          | file l => exact absurd hnode (htidy.dirs dir hdir l)
  | mkdir hdir hparent hrest =>
      rename_i dir rest
      cases r with
      | true =>
          have hmkdir : t.mkdir dir = some t' := hr
          have hgrows := Files.grows_mkdir hmkdir
          have hnode : t'.node dir = some .dir := by
            obtain ⟨-, -, rfl⟩ := Files.mkdir_eq_some.mp hmkdir
            exact Files.node_set_self ..
          exact ⟨hgrows, htidy.mkdir hdir hmkdir, hrest t' hgrows hnode⟩
      | false =>
          obtain ⟨rfl, -⟩ := fileCall_mkdir_false hr
          exact ⟨.refl _, htidy, .done (.inr rfl)⟩
  | fopen hfile hparent =>
      rename_i path line
      cases r with
      | true =>
          have hopen : t.openAppend path = some t' := hr
          have hgrows := Files.grows_openAppend hopen
          rcases Files.openAppend_cases hopen with ⟨rfl, l, hl⟩ | ⟨-, rfl⟩
          · exact ⟨hgrows, htidy, .fwrite hfile hl⟩
          · exact ⟨hgrows, htidy.set_file hfile [], .fwrite hfile (Files.node_set_self ..)⟩
      | false =>
          -- the directory is there, so the file is opened
          exact absurd (fileCall_fopen_false hr).2
            (Files.openAppend_ne_none hparent (htidy.files path hfile))
  | fwrite hfile hnode =>
      rename_i path line l
      have happend : t.append path line = some t' := hr
      have hgrows := Files.grows_append happend
      obtain ⟨l', -, rfl⟩ := Files.append_cases happend
      exact ⟨hgrows, htidy.set_file hfile _, .done (.inl rfl)⟩

/-- **A thread that has not returned can make its next call.** -/
theorem Placed.goes {c : LogCall} {k : c.Answer → Logger} (h : Placed t (.call c k))
    (htidy : Tidy t) : ∃ r t', fileCall t ⟨c, r⟩ = some t' := by
  cases h with
  | access hdir hparent hrest => exact ⟨_, t, if_pos rfl⟩
  | mkdir hdir hparent hrest =>
      rename_i dir rest
      cases hmkdir : t.mkdir dir with
      | none => exact ⟨false, t, if_pos (by rw [hmkdir]; rfl)⟩
      | some t' => exact ⟨true, t', hmkdir⟩
  | fopen hfile hparent =>
      rename_i path line
      cases hopen : t.openAppend path with
      | none => exact absurd hopen (Files.openAppend_ne_none hparent (htidy.files path hfile))
      | some t' => exact ⟨true, t', hopen⟩
  | fwrite hfile hnode =>
      rename_i path line l
      have happend : t.append path line = some (t.set path (.file (l ++ line))) := by
        rw [Files.append, hnode]
      exact ⟨(), _, happend⟩

/-- A call of `log_write` relies on its directory being in one. -/
theorem Placed.mkdir_inv {k : Bool → Logger} (h : Placed t (.call (.mkdir dir) k)) :
    IsLogDir dir ∧ t.node (parentPath dir) = some .dir := by
  cases h with
  | mkdir hdir hparent _ => exact ⟨hdir, hparent⟩

/-- Only a `mkdir` puts something where a directory goes. -/
theorem Placed.made {c : LogCall} {k : c.Answer → Logger} {r : c.Answer}
    (h : Placed t (.call c k)) (hr : fileCall t ⟨c, r⟩ = some t') (hdir : IsLogDir path)
    (hnone : t.node path = none) (hsome : t'.node path ≠ none) :
    (⟨c, r⟩ : Event LogCall.Answer) = ⟨.mkdir path, true⟩ := by
  cases h with
  | access _ _ _ =>
      obtain ⟨rfl, -⟩ := fileCall_access hr
      exact absurd hnone hsome
  | mkdir hdir' hparent hrest =>
      rename_i dir rest
      cases r with
      | true =>
          obtain ⟨-, -, rfl⟩ := Files.mkdir_eq_some.mp (show t.mkdir dir = some t' from hr)
          by_cases heq : path = dir
          · rw [heq]
          · rw [Files.node_set_ne t _ heq] at hsome
            exact absurd hnone hsome
      | false =>
          obtain ⟨rfl, -⟩ := fileCall_mkdir_false hr
          exact absurd hnone hsome
  | fopen hfile hparent =>
      rename_i file line
      have hne : path ≠ file := fun heq => hdir.not_isLogFile (heq ▸ hfile)
      cases r with
      | true =>
          rcases Files.openAppend_cases (show t.openAppend file = some t' from hr) with
            ⟨rfl, -⟩ | ⟨-, rfl⟩
          · exact absurd hnone hsome
          · rw [Files.node_set_ne t _ hne] at hsome
            exact absurd hnone hsome
      | false =>
          obtain ⟨rfl, -⟩ := fileCall_fopen_false hr
          exact absurd hnone hsome
  | fwrite hfile hnode =>
      rename_i file line l
      have hne : path ≠ file := fun heq => hdir.not_isLogFile (heq ▸ hfile)
      obtain ⟨l', -, rfl⟩ := Files.append_cases (show t.append file line = some t' from hr)
      rw [Files.node_set_ne t _ hne] at hsome
      exact absurd hnone hsome

/-! ### Any number of threads -/

variable {ι : Type}

structure LogInv (s : Threads LogCall.Answer ι Files Int32) : Prop where
  tidy : Tidy s.shared
  placed : ∀ i, Placed s.shared (s.prog i)

variable {s s' : Threads LogCall.Answer ι Files Int32} {l : List (ι × Event LogCall.Answer)} {i : ι}

variable [DecidableEq ι]

/-- A step, taken apart. -/
theorem step_log_inv {σ : Type} {call : σ → Event LogCall.Answer → Option σ}
    {s s' : Threads LogCall.Answer ι σ Int32} {c : ι × Event LogCall.Answer}
    (h : Threads.step call s c = some s') :
    ∃ k r, s.prog c.1 = .call c.2.1 k ∧ c.2 = ⟨c.2.1, r⟩ ∧
      call s.shared c.2 = some s'.shared ∧ s'.prog = Function.update s.prog c.1 (k r) := by
  simp only [Threads.step, Option.bind_eq_bind, Option.bind_eq_some_iff] at h
  obtain ⟨p, hp, shared, hshared, hs⟩ := h
  obtain rfl := Option.some.inj hs
  obtain ⟨k, r, hprog, hevent, rfl⟩ := Prog.advance_inv hp
  exact ⟨k, r, hprog, hevent, hshared, rfl⟩

/-- **A step of a thread** keeps the others where they are. -/
theorem LogInv.grows_step {c : ι × Event LogCall.Answer} (hinv : LogInv s)
    (h : Threads.step fileCall s c = some s') : s.shared.Grows s'.shared ∧ LogInv s' := by
  obtain ⟨k, r, hprog, hevent, hshared, hupdate⟩ := step_log_inv h
  have hplaced := hinv.placed c.1
  rw [hprog] at hplaced
  rw [hevent] at hshared
  obtain ⟨hgrows, htidy, hnext⟩ := hplaced.step hinv.tidy hshared
  refine ⟨hgrows, htidy, fun j => ?_⟩
  rw [hupdate]
  by_cases hj : j = c.1
  · subst hj
    rw [Function.update_self]
    exact hnext
  · rw [Function.update_of_ne hj]
    exact (hinv.placed j).grows hgrows

theorem LogInv.step {c : ι × Event LogCall.Answer} (hinv : LogInv s)
    (h : Threads.step fileCall s c = some s') : LogInv s' :=
  (hinv.grows_step h).2

theorem logInv_of_exec (hinv : LogInv s) (h : exec (Threads.step fileCall) s l = some s') :
    LogInv s' :=
  exec_invariant (fun _ _ _ hinv hstep => hinv.step hstep) hinv h

/-- The tree only grows. -/
theorem LogInv.grows (hinv : LogInv s) (h : exec (Threads.step fileCall) s l = some s') :
    s.shared.Grows s'.shared := by
  induction l generalizing s with
  | nil => exact Option.some.inj h ▸ .refl _
  | cons c l ih =>
      obtain ⟨s₁, hs, h'⟩ := exec_cons.mp h
      obtain ⟨hgrows, hinv'⟩ := hinv.grows_step hs
      exact hgrows.trans (ih hinv' h')

/-! ### The lines -/

/-- What a call writes, and where. -/
def written : Event LogCall.Answer → Option (Bytes × Bytes)
  | ⟨.fwrite path text, _⟩ => some (path, text)
  | _ => none

def writesOf (es : List (Event LogCall.Answer)) : List (Bytes × Bytes) := es.filterMap written

/-- What is written to one file. -/
def textsTo (path : Bytes) (es : List (Event LogCall.Answer)) : List Bytes :=
  (writesOf es).filterMap fun w => if w.1 = path then some w.2 else none

theorem textsTo_cons (path : Bytes) (c : Event LogCall.Answer) (es : List (Event LogCall.Answer)) :
    textsTo path (c :: es) = textsTo path [c] ++ textsTo path es := by
  rw [textsTo, textsTo, textsTo, ← List.filterMap_append, writesOf, writesOf, writesOf,
    ← List.filterMap_append, List.singleton_append]

theorem content_fileCall {c : Event LogCall.Answer} (h : fileCall t c = some t') (path : Bytes) :
    t'.content path = t.content path ++ (textsTo path [c]).flatten := by
  obtain ⟨c, r⟩ := c
  cases c with
  | access p =>
      obtain ⟨rfl, -⟩ := fileCall_access h
      exact (List.append_nil _).symm
  | mkdir p =>
      cases r with
      | true => exact (Files.content_mkdir h path).trans (List.append_nil _).symm
      | false =>
          obtain ⟨rfl, -⟩ := fileCall_mkdir_false h
          exact (List.append_nil _).symm
  | fopen p =>
      cases r with
      | true => exact (Files.content_openAppend h path).trans (List.append_nil _).symm
      | false =>
          obtain ⟨rfl, -⟩ := fileCall_fopen_false h
          exact (List.append_nil _).symm
  | fwrite p text =>
      have hcontent := Files.content_append h path
      rw [hcontent]
      congr 1
      by_cases hp : path = p
      · subst hp
        rw [if_pos rfl]
        simp [textsTo, writesOf, written]
      · have hne : p ≠ path := fun heq => hp heq.symm
        rw [if_neg hp]
        simp [textsTo, writesOf, written, hne]
  | gmtime now => cases h
  | readStm => cases h
  | undefined => cases r

/-- A file holds what has been written to it, in the order of the writes. -/
theorem content_exec {es : List (Event LogCall.Answer)} (h : exec fileCall t es = some t')
    (path : Bytes) : t'.content path = t.content path ++ (textsTo path es).flatten := by
  induction es generalizing t with
  | nil =>
      obtain rfl := Option.some.inj h
      exact (List.append_nil _).symm
  | cons c es ih =>
      obtain ⟨t₁, hc, ht₁⟩ := exec_cons.mp h
      rw [ih ht₁, content_fileCall hc, textsTo_cons path c es, List.flatten_append,
      List.append_assoc]

/-- How a `log_write` can end: its line is written, or its last `mkdir` has failed. -/
def Ended (w : Bytes × Bytes) (es : List (Event LogCall.Answer)) (ret : Int32) : Prop :=
  (ret = LOG_SUCCESSFUL ∧ writesOf es = [w] ∧ ∀ dir, ⟨.mkdir dir, false⟩ ∉ es) ∨
    (ret = LOG_FAIL ∧ writesOf es = [] ∧
      ∃ pre dir, es = pre ++ [⟨.access dir, false⟩, ⟨.mkdir dir, false⟩])

theorem Ended.cons {w : Bytes × Bytes} {es : List (Event LogCall.Answer)} {ret : Int32}
    {c : Event LogCall.Answer} (h : Ended w es ret) (hc : written c = none)
    (hmkdir : ∀ dir, c ≠ ⟨.mkdir dir, false⟩) : Ended w (c :: es) ret := by
  have hwrites : writesOf (c :: es) = writesOf es := List.filterMap_cons_none hc
  rcases h with ⟨hret, hw, hnot⟩ | ⟨hret, hw, pre, dir, rfl⟩
  · refine .inl ⟨hret, hwrites.trans hw, fun dir hmem => ?_⟩
    rcases List.mem_cons.mp hmem with heq | hmem
    · exact hmkdir dir heq.symm
    · exact hnot dir hmem
  · exact .inr ⟨hret, hwrites.trans hw, c :: pre, dir, rfl⟩

theorem ended_makeDir {w : Bytes × Bytes} {rest : Logger} {ret : Int32}
    (hrest : ∀ es, rest.Runs es ret → Ended w es ret) {es : List (Event LogCall.Answer)}
    (h : (makeDir dir rest).Runs es ret) : Ended w es ret := by
  obtain ⟨found, es', rfl, h'⟩ := Prog.runs_call.mp h
  cases found with
  | true => exact (hrest es' h').cons rfl fun _ heq => nomatch heq
  | false =>
      obtain ⟨made, es'', rfl, h''⟩ := Prog.runs_call.mp h'
      cases made with
      | true =>
          refine ((hrest es'' h'').cons rfl fun dir' heq => ?_).cons rfl fun _ heq => nomatch heq
          cases heq
      | false =>
          obtain ⟨rfl, rfl⟩ := Prog.runs_pure'.mp h''
          exact .inr ⟨rfl, rfl, [], dir, rfl⟩

theorem ended_appendLine {line : Bytes} {ret : Int32} {es : List (Event LogCall.Answer)}
    (h : (appendLine path line).Runs es ret) : Ended (path, line) es ret := by
  obtain ⟨opened, es', rfl, h'⟩ := Prog.runs_call.mp h
  cases opened with
  | true =>
      obtain ⟨r, es'', rfl, h''⟩ := Prog.runs_call.mp h'
      obtain ⟨rfl, rfl⟩ := Prog.runs_pure'.mp h''
      refine .inl ⟨rfl, rfl, fun dir hmem => ?_⟩
      simp at hmem
  | false =>
      obtain ⟨r, -, -, -⟩ := Prog.runs_call.mp (show Prog.Runs (.call .undefined _) es' ret from h')
      cases r

theorem ended_lineCalls {stm : Tm} {now : Int64} {name text : Bytes} {ret : Int32}
    {es : List (Event LogCall.Answer)} (h : (lineCalls stm now name text).Runs es ret) :
    Ended (dayFile stm name, lineOf now name text) es ret :=
  ended_makeDir (fun _ => ended_makeDir fun _ => ended_makeDir fun _ => ended_appendLine) h

/-! ### Lines that are lost -/

/-- Between the `access` of a call, which does not find a directory, and the `mkdir` of it,
another call makes it. -/
def Overtaken (i : ι) (l : List (ι × Event LogCall.Answer)) : Prop :=
  ∃ dir la lb lc r, l = la ++ (i, ⟨.access dir, false⟩) :: (lb ++ (i, ⟨.mkdir dir, r⟩) :: lc) ∧
    ∃ j ≠ i, (j, ⟨.mkdir dir, true⟩) ∈ lb

/-- A directory that has come into being was made by one of the calls. -/
theorem LogInv.exists_mkdir (hinv : LogInv s) (h : exec (Threads.step fileCall) s l = some s')
    (hdir : IsLogDir dir) (hnone : s.shared.node dir = none) (hsome : s'.shared.node dir ≠ none) :
    ∃ j, (j, ⟨.mkdir dir, true⟩) ∈ l := by
  induction l generalizing s with
  | nil =>
      obtain rfl := Option.some.inj h
      exact absurd hnone hsome
  | cons c l ih =>
      obtain ⟨s₁, hc, hs'⟩ := exec_cons.mp h
      by_cases hnode : s₁.shared.node dir = none
      · obtain ⟨j, hj⟩ := ih (hinv.step hc) hs' hnode
        exact ⟨j, List.mem_cons_of_mem _ hj⟩
      · obtain ⟨k, r, hprog, hevent, hshared, -⟩ := step_log_inv hc
        have hplaced := hinv.placed c.1
        rw [hprog] at hplaced
        rw [hevent] at hshared
        have heq := hplaced.made hshared hdir hnone hnode
        rw [← hevent] at heq
        exact ⟨c.1, by rw [← heq]; exact List.mem_cons_self⟩

/-- A directory that another thread has made in between is not made again. -/
theorem LogInv.mkdir_fails {la lb lc : List (ι × Event LogCall.Answer)} {r : Bool} {j : ι}
    (hinv : LogInv s) (h : exec (Threads.step fileCall) s
      (la ++ (i, ⟨.access dir, false⟩) :: (lb ++ (i, ⟨.mkdir dir, r⟩) :: lc)) = some s')
    (hj : (j, ⟨.mkdir dir, true⟩) ∈ lb) : r = false := by
  obtain ⟨lb₁, lb₂, rfl⟩ := List.append_of_mem hj
  -- the states before the `access`, behind it, before the other `mkdir` and behind it
  obtain ⟨s₀, h₀, h⟩ := exec_append.mp h
  obtain ⟨s₁, h₁, h⟩ := exec_cons.mp h
  rw [List.append_assoc, List.cons_append] at h
  obtain ⟨s₂, h₂, h⟩ := exec_append.mp h
  obtain ⟨s₃, h₃, h⟩ := exec_cons.mp h
  obtain ⟨s₄, h₄, h⟩ := exec_append.mp h
  obtain ⟨s₅, h₅, -⟩ := exec_cons.mp h
  have hinv₃ : LogInv s₃ := (logInv_of_exec ((logInv_of_exec hinv h₀).step h₁) h₂).step h₃
  obtain ⟨-, -, -, -, hmade, -⟩ := step_log_inv h₃
  have hmkdir : s₂.shared.mkdir dir = some s₃.shared := hmade
  obtain ⟨-, -, hset⟩ := Files.mkdir_eq_some.mp hmkdir
  have hnode : s₃.shared.node dir = some .dir := by
    rw [hset]
    exact Files.node_set_self ..
  have hstill := (hinv₃.grows h₄).dir dir hnode
  cases r with
  | false => rfl
  | true =>
      obtain ⟨-, -, -, -, hagain, -⟩ := step_log_inv h₅
      obtain ⟨hnone, -⟩ :=
        Files.mkdir_eq_some.mp (show s₄.shared.mkdir dir = some s₅.shared from hagain)
      rw [hstill] at hnone
      cases hnone

/-- **When a line is lost.** -/
theorem LogInv.lost_iff {w : Bytes × Bytes} {ret : Int32} (hinv : LogInv s)
    (h : exec (Threads.step fileCall) s l = some s')
    (hended : Ended w (Threads.callsOf i l) ret) : ret = LOG_FAIL ↔ Overtaken i l := by
  constructor
  · intro hfail
    have hlast : ∃ pre dir, Threads.callsOf i l =
        pre ++ [⟨.access dir, false⟩, ⟨.mkdir dir, false⟩] := by
      rcases hended with ⟨hsuccess, -⟩ | ⟨-, -, hlast⟩
      · rw [hfail] at hsuccess
        exact absurd hsuccess (by decide)
      · exact hlast
    obtain ⟨pre, dir, hcalls⟩ := hlast
    obtain ⟨la, l', rfl, -, hl'⟩ := Threads.callsOf_split hcalls
    obtain ⟨lb, lc, rfl, hlb, -⟩ :=
      Threads.callsOf_split (show Threads.callsOf i l' = [] ++ _ :: [] from hl')
    refine ⟨dir, la, lb, lc, false, rfl, ?_⟩
    -- the states before the `access`, behind it, before the `mkdir` and behind it
    obtain ⟨s₀, h₀, h⟩ := exec_append.mp h
    obtain ⟨s₁, haccess, h⟩ := exec_cons.mp h
    obtain ⟨s₂, h₂, h⟩ := exec_append.mp h
    obtain ⟨s₃, hmkdir, -⟩ := exec_cons.mp h
    have hinv₁ := (logInv_of_exec hinv h₀).step haccess
    have hinv₂ := logInv_of_exec hinv₁ h₂
    obtain ⟨-, -, -, -, hshared₁, -⟩ := step_log_inv haccess
    obtain ⟨heq₁, hfound⟩ := fileCall_access hshared₁
    have hnone : s₁.shared.node dir = none := by
      rw [heq₁]
      exact Option.isNone_iff_eq_none.mp (Option.isSome_eq_false_iff.mp hfound.symm)
    obtain ⟨k, r, hprog, -, hshared₃, -⟩ := step_log_inv hmkdir
    have hplaced := hinv₂.placed i
    rw [hprog] at hplaced
    obtain ⟨hdir, hparent⟩ := hplaced.mkdir_inv
    have hsome : s₂.shared.node dir ≠ none := by
      rcases Files.mkdir_eq_none.mp (fileCall_mkdir_false hshared₃).2 with hsome | hno
      · exact hsome
      · exact absurd hparent hno
    obtain ⟨j, hj⟩ := hinv₁.exists_mkdir h₂ hdir hnone hsome
    refine ⟨j, fun heq => ?_, hj⟩
    subst heq
    have hmem := Threads.mem_callsOf.mpr hj
    rw [hlb] at hmem
    cases hmem
  · intro hovertaken
    obtain ⟨dir, la, lb, lc, r, rfl, j, -, hj⟩ := hovertaken
    obtain rfl := hinv.mkdir_fails h hj
    have hmem : (⟨.mkdir dir, false⟩ : Event LogCall.Answer) ∈ Threads.callsOf i
        (la ++ (i, ⟨.access dir, false⟩) :: (lb ++ (i, ⟨.mkdir dir, false⟩) :: lc)) :=
      Threads.mem_callsOf.mpr (by simp)
    rcases hended with ⟨-, -, hnot⟩ | ⟨hfail, -⟩
    · exact absurd hmem (hnot dir)
    · exact hfail

/-! ### A thread alone -/

variable {ret : Int32} {cs : List (Event LogCall.Answer)}

/-- Alone a thread gets its directory. -/
theorem alone_makeDir {rest : Logger} (htidy : Tidy t) (hdir : IsLogDir dir)
    (hparent : t.node (parentPath dir) = some .dir) (h : (makeDir dir rest).Runs cs ret)
    (hexec : exec fileCall t cs = some t') :
    ∃ cs' t₁, rest.Runs cs' ret ∧ exec fileCall t₁ cs' = some t' ∧ Tidy t₁ ∧
      t₁.node dir = some .dir ∧ ∀ path, t₁.content path = t.content path := by
  obtain ⟨found, cs₁, rfl, h₁⟩ := Prog.runs_call.mp h
  obtain ⟨t₁, haccess, hexec₁⟩ := exec_cons.mp hexec
  obtain ⟨rfl, hfound⟩ := fileCall_access haccess
  cases found with
  | true =>
      refine ⟨cs₁, t₁, h₁, hexec₁, htidy, ?_, fun _ => rfl⟩
      cases hnode : t₁.node dir with
      | none =>
          rw [hnode] at hfound
          cases hfound
      | some n =>
          cases n with
          | dir => rfl
          | file l => exact absurd hnode (htidy.dirs dir hdir l)
  | false =>
      obtain ⟨made, cs₂, rfl, h₂⟩ := Prog.runs_call.mp h₁
      obtain ⟨t₂, hmkdir, hexec₂⟩ := exec_cons.mp hexec₁
      cases made with
      | true =>
          have hmade : t₁.mkdir dir = some t₂ := hmkdir
          refine ⟨cs₂, t₂, h₂, hexec₂, htidy.mkdir hdir hmade, ?_, Files.content_mkdir hmade⟩
          obtain ⟨-, -, rfl⟩ := Files.mkdir_eq_some.mp hmade
          exact Files.node_set_self ..
      | false =>
          -- nothing was there a moment ago
          have hnone : t₁.node dir = none :=
            Option.isNone_iff_eq_none.mp (Option.isSome_eq_false_iff.mp hfound.symm)
          rcases Files.mkdir_eq_none.mp (fileCall_mkdir_false hmkdir).2 with hsome | hno
          · exact absurd hnone hsome
          · exact absurd hparent hno

theorem alone_appendLine {line : Bytes} (htidy : Tidy t) (hfile : IsLogFile path)
    (hparent : t.node (parentPath path) = some .dir) (h : (appendLine path line).Runs cs ret)
    (hexec : exec fileCall t cs = some t') :
    ret = LOG_SUCCESSFUL ∧ Tidy t' ∧
      ∀ p, t'.content p = t.content p ++ if path = p then line else [] := by
  obtain ⟨opened, cs₁, rfl, h₁⟩ := Prog.runs_call.mp h
  obtain ⟨t₁, hopen, hexec₁⟩ := exec_cons.mp hexec
  cases opened with
  | false =>
      exact absurd (fileCall_fopen_false hopen).2
        (Files.openAppend_ne_none hparent (htidy.files path hfile))
  | true =>
      obtain ⟨r, cs₂, rfl, h₂⟩ := Prog.runs_call.mp h₁
      obtain ⟨rfl, rfl⟩ := Prog.runs_pure'.mp h₂
      obtain ⟨t₂, hwrite, hexec₂⟩ := exec_cons.mp hexec₁
      obtain rfl := Option.some.inj hexec₂
      have hopened : t.openAppend path = some t₁ := hopen
      have happend : t₁.append path line = some t₂ := hwrite
      refine ⟨rfl, ?_, fun p => ?_⟩
      · obtain ⟨l, -, rfl⟩ := Files.append_cases happend
        rcases Files.openAppend_cases hopened with ⟨rfl, -⟩ | ⟨-, rfl⟩
        · exact htidy.set_file hfile _
        · exact (htidy.set_file hfile []).set_file hfile _
      · rw [Files.content_append happend, Files.content_openAppend hopened]
        congr 1
        exact if_congr eq_comm rfl rfl

/-- One call that nobody comes between writes its line. -/
theorem alone_lineCalls {stm : Tm} {now : Int64} {name text : Bytes} (htidy : Tidy t)
    (hname : name ∈ log_level) (h : (lineCalls stm now name text).Runs cs ret)
    (hexec : exec fileCall t cs = some t') :
    ret = LOG_SUCCESSFUL ∧ Tidy t' ∧ ∀ p, t'.content p =
      t.content p ++ if dayFile stm name = p then lineOf now name text else [] := by
  have hinterface : IsLogDir (interfaceDir name) := ⟨stm, name, hname, .inl rfl⟩
  have hyear : IsLogDir (yearDir stm name) := ⟨stm, name, hname, .inr (.inl rfl)⟩
  have hmonth : IsLogDir (monthDir stm name) := ⟨stm, name, hname, .inr (.inr rfl)⟩
  obtain ⟨cs₁, t₁, h₁, hexec₁, htidy₁, hnode₁, hcontent₁⟩ := alone_makeDir htidy hinterface
    (by rw [parentPath_interfaceDir hname]; exact htidy.root) h hexec
  obtain ⟨cs₂, t₂, h₂, hexec₂, htidy₂, hnode₂, hcontent₂⟩ := alone_makeDir htidy₁ hyear
    (by rw [parentPath_yearDir]; exact hnode₁) h₁ hexec₁
  obtain ⟨cs₃, t₃, h₃, hexec₃, htidy₃, hnode₃, hcontent₃⟩ := alone_makeDir htidy₂ hmonth
    (by rw [parentPath_monthDir]; exact hnode₂) h₂ hexec₂
  obtain ⟨hret, htidy', hcontent⟩ := alone_appendLine htidy₃ ⟨stm, name, hname, rfl⟩
    (by rw [parentPath_dayFile _ hname]; exact hnode₃) h₃ hexec₃
  refine ⟨hret, htidy', fun p => ?_⟩
  rw [hcontent, hcontent₃, hcontent₂, hcontent₁]

end SpiderChat.Log
