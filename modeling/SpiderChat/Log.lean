import SpiderChat.Lib.Files
import SpiderChat.Lib.Threads
import SpiderChat.Types

/-!
# SpiderChat.Log

`log.c`: `dir_exists` makes the directories of a month, and `log_write` appends a line to the
file of the day. Every thread of the server logs, and nothing but the calls of the system is
atomic: between the `access` and the `mkdir` of one thread another one can make the directory,
and then the line is not written.

`gmtime` returns a pointer to one `struct tm` for all threads. Both functions keep that pointer
and read the date through it later on, when another thread may have overwritten it.
-/

namespace SpiderChat.Log

open Lib

/-! ### Dates -/

/-- `struct tm`, as far as it is read. -/
structure Tm where
  tm_year : Int
  tm_mon : Int
  tm_mday : Int
  deriving Repr, DecidableEq

/-- The date of a day, counted from the first of January 1970. -/
def tmOfDay (day : Int) : Tm :=
  -- years start in March here, so that the leap day is the last one
  let z := day + 719468
  let era := z / 146097
  let doe := z % 146097
  let yoe := (doe - doe / 1460 + doe / 36524 - doe / 146096) / 365
  let doy := doe - (365 * yoe + yoe / 4 - yoe / 100)
  let mp := (5 * doy + 2) / 153
  let mon := if mp < 10 then mp + 2 else mp - 10
  { tm_year := yoe + era * 400 + (if mon ≤ 1 then 1 else 0) - 1900
    tm_mon := mon
    tm_mday := doy - (153 * mp + 2) / 5 + 1 }

/-- The fields and what is printed of them fit an `int`. -/
def Tm.Fits (stm : Tm) : Prop :=
  stm.tm_year + 1900 < 2 ^ 31 ∧ -2 ^ 31 ≤ stm.tm_year ∧
    -2 ^ 31 ≤ stm.tm_mon ∧ stm.tm_mon + 1 < 2 ^ 31 ∧
    -2 ^ 31 ≤ stm.tm_mday ∧ stm.tm_mday < 2 ^ 31

instance (stm : Tm) : Decidable stm.Fits := inferInstanceAs (Decidable (_ ∧ _))

/-- `gmtime`; `none` when the year is out of range. -/
def gmtime (t : Int64) : Option Tm :=
  let stm := tmOfDay (t.toInt / 86400)
  if stm.Fits then some stm else none

example : gmtime 1384041600 = some ⟨113, 10, 10⟩ := by decide

/-! ### Programs that log -/

def LOG_SUCCESSFUL : Int32 := 1
def LOG_FAIL : Int32 := 0

def LOG_ROOT_DIR : Bytes := ascii "./logs"

def log_level : List Bytes :=
  [ascii "emergency", ascii "alert", ascii "critical", ascii "error", ascii "warning",
    ascii "notice", ascii "info", ascii "debug"]

/-- The calls of `log.c`, and its reads of the date. -/
inductive LogCall
  /-- `stm = gmtime(&t)` -/
  | gmtime (t : Int64)
  /-- `*stm`, where `snprintf` is given fields of it -/
  | readStm
  | access (path : Bytes)
  | mkdir (path : Bytes)
  /-- `fopen(path, "a+")` -/
  | fopen (path : Bytes)
  /-- `fwrite` and `fclose` -/
  | fwrite (path text : Bytes)
  | undefined
  deriving DecidableEq

/-- Whether `stm` is not `NULL`, whether there is something, and whether it was made or opened. -/
abbrev LogCall.Answer : LogCall → Type
  | .readStm => Tm
  | .fwrite _ _ => Unit
  | .undefined => Empty
  | _ => Bool

abbrev Logger := Prog LogCall.Answer Int32

/-- `if (0 != access(dir, F_OK)) if (mkdir(dir, 0755) == -1) return LOG_FAIL;` -/
def makeDir (dir : Bytes) (rest : Logger) : Logger :=
  .call (.access dir) fun found : Bool =>
    if found then rest
    else .call (.mkdir dir) fun made : Bool => if made then rest else .pure LOG_FAIL

def undefined : Logger := .call .undefined nofun

/-- A read through `stm`; `found` is whether it is a pointer. -/
def readStm (found : Bool) (rest : Tm → Logger) : Logger :=
  if found then .call .readStm rest else undefined

/-- `dir_exists` -/
def dirExists (t : Int64) (interface : Bytes) : Logger :=
  .call (.gmtime t) fun stm : Bool =>
    let interface_dir := snprintf 100 (LOG_ROOT_DIR ++ 47 :: interface)
    makeDir interface_dir (readStm stm fun stm₁ =>
      let year_dir := snprintf 120
        (LOG_ROOT_DIR ++ 47 :: (interface ++ 47 :: decInt (stm₁.tm_year + 1900)))
      makeDir year_dir (readStm stm fun stm₂ =>
        let month_dir := snprintf 120 (year_dir ++ 47 :: decInt (1 + stm₂.tm_mon))
        makeDir month_dir (.pure LOG_SUCCESSFUL)))

/-- The part of `log_write` behind `dir_exists`. -/
def writeLine (t : Int64) (stm : Bool) (name text : Bytes) : Logger :=
  let log_contents := snprintf 512 (decInt t.toInt ++ 9 :: (name ++ [9]))
  let len := log_contents.length
  readStm stm fun stm =>
    let dir := snprintf 120 (LOG_ROOT_DIR ++ 47 :: (name ++ 47 :: (decInt (stm.tm_year + 1900) ++
      47 :: (decInt (1 + stm.tm_mon) ++ 47 :: (name ++ 95 :: decInt stm.tm_mday)))))
    .call (.fopen dir) fun opened : Bool =>
      if opened then
        .call (.fwrite dir (cstr (log_contents ++ snprintf (512 - len) text))) fun _ =>
          .pure LOG_SUCCESSFUL
      else undefined

/-- `log_write` at the time `t`; `text` is what `fmt` prints. -/
def logWrite (t : Int64) (level : Nat) (text : Bytes) : Logger :=
  .call (.gmtime t) fun stm : Bool =>
    match log_level[level]? with
    | some name => do
        let exists_dir ← dirExists t name
        if exists_dir = LOG_FAIL then pure LOG_FAIL else writeLine t stm name text
    | none => undefined

/-- What the threads share: the files, and the `struct tm` of `gmtime`. -/
structure Shared where
  files : Files
  stm : Tm

/-- What the file system does. It refuses nothing that it could do: a directory is made, and a
file is opened, wherever the names allow it. -/
def fileCall (t : Files) : Event LogCall.Answer → Option Files
  | ⟨.access path, (found : Bool)⟩ => if found = (t.node path).isSome then some t else none
  | ⟨.mkdir path, (made : Bool)⟩ =>
      if made then t.mkdir path else if (t.mkdir path).isNone then some t else none
  | ⟨.fopen path, (opened : Bool)⟩ =>
      if opened then t.openAppend path
      else if (t.openAppend path).isNone then some t else none
  | ⟨.fwrite path text, _⟩ => t.append path text
  | _ => none

/-- What a call does, and whether it can be answered like this. -/
def respond (s : Shared) : Event LogCall.Answer → Option Shared
  | ⟨.gmtime t, (found : Bool)⟩ =>
      match gmtime t with
      | some stm => if found then some { s with stm } else none
      | none => if found then none else some s
  | ⟨.readStm, stm⟩ => if stm = s.stm then some s else none
  | c => (fileCall s.files c).map fun files => { s with files }

end SpiderChat.Log
