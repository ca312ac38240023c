import Csf.Log.Model
import Mathlib.Data.List.Forall2

/-!
# The rotation of the log files

The time at which the file was opened is packed into one word, but `check_timepoint` compares one of its fields only: the
hour with the hour, the day with the day, the month with the month. It opens a new file exactly if this field has changed
since (`checkTimepoint_eq`). So a record goes to a file of another period if the last one was written at the same hour of
another day, on the same day of another month, or in the same month of another year; or, where libraries log too, at an
hour that looks the same in the time zones of the two copies of the logger.
-/

namespace Csf

open Lib

/-! ### Periods -/

/-- What the records of one file have in common: the month, the date, or the date and the hour. -/
def period : TimePerFile → Tm → List Int
  | .month, tm => [tm.year, tm.mon.val]
  | .day, tm => [tm.year, tm.mon.val, tm.mday.val]
  | .hour, tm => [tm.year, tm.mon.val, tm.mday.val, tm.hour.val]

def comparedField : TimePerFile → Tm → Nat
  | .month, tm => tm.mon.val
  | .day, tm => tm.mday.val
  | .hour, tm => tm.hour.val

/-! ### The packed time -/

/-- What `create_logfile` stores. -/
def timePoint (tm : Tm) : UInt32 := tpMonth tm ||| tpMday tm ||| tpHour tm

theorem and_or_or (a b c m : UInt32) : (a ||| b ||| c) &&& m = a &&& m ||| b &&& m ||| c &&& m := by
  apply UInt32.eq_of_toBitVec_eq
  simp only [UInt32.toBitVec_and, UInt32.toBitVec_or, BitVec.and_or_distrib_right]

theorem tpMonth_and (tm : Tm) :
    tpMonth tm &&& 0xFF000000 = tpMonth tm ∧ tpMonth tm &&& 0x00FF0000 = 0 ∧ tpMonth tm &&& 0x0000FF00 = 0 := by
  have hall : ∀ m : Fin 12, UInt32.ofNat m.val <<< 24 &&& (0xFF000000 : UInt32) = UInt32.ofNat m.val <<< 24 ∧
      UInt32.ofNat m.val <<< 24 &&& (0x00FF0000 : UInt32) = 0 ∧
      UInt32.ofNat m.val <<< 24 &&& (0x0000FF00 : UInt32) = 0 := by decide
  exact hall tm.mon

theorem tpMday_and (tm : Tm) :
    tpMday tm &&& 0xFF000000 = 0 ∧ tpMday tm &&& 0x00FF0000 = tpMday tm ∧ tpMday tm &&& 0x0000FF00 = 0 := by
  have hall : ∀ m : Fin 32, UInt32.ofNat m.val <<< 16 &&& (0xFF000000 : UInt32) = 0 ∧
      UInt32.ofNat m.val <<< 16 &&& (0x00FF0000 : UInt32) = UInt32.ofNat m.val <<< 16 ∧
      UInt32.ofNat m.val <<< 16 &&& (0x0000FF00 : UInt32) = 0 := by decide
  exact hall tm.mday

theorem tpHour_and (tm : Tm) :
    tpHour tm &&& 0xFF000000 = 0 ∧ tpHour tm &&& 0x00FF0000 = 0 ∧ tpHour tm &&& 0x0000FF00 = tpHour tm := by
  have hall : ∀ m : Fin 24, UInt32.ofNat m.val <<< 8 &&& (0xFF000000 : UInt32) = 0 ∧
      UInt32.ofNat m.val <<< 8 &&& (0x00FF0000 : UInt32) = 0 ∧
      UInt32.ofNat m.val <<< 8 &&& (0x0000FF00 : UInt32) = UInt32.ofNat m.val <<< 8 := by decide
  exact hall tm.hour

theorem timePoint_and (tm : Tm) :
    timePoint tm &&& 0xFF000000 = tpMonth tm ∧ timePoint tm &&& 0x00FF0000 = tpMday tm ∧
      timePoint tm &&& 0x0000FF00 = tpHour tm := by
  obtain ⟨hmonth, hmonth', hmonth''⟩ := tpMonth_and tm
  obtain ⟨hmday, hmday', hmday''⟩ := tpMday_and tm
  obtain ⟨hhour, hhour', hhour''⟩ := tpHour_and tm
  refine ⟨?_, ?_, ?_⟩
  · rw [timePoint, and_or_or, hmonth, hmday, hhour, UInt32.or_zero, UInt32.or_zero]
  · rw [timePoint, and_or_or, hmonth', hmday', hhour', UInt32.or_zero, UInt32.zero_or]
  · rw [timePoint, and_or_or, hmonth'', hmday'', hhour'', UInt32.or_zero, UInt32.zero_or]

theorem tpMonth_inj {a b : Tm} : tpMonth a = tpMonth b ↔ a.mon.val = b.mon.val := by
  have hall : ∀ m m' : Fin 12, UInt32.ofNat m.val <<< 24 = UInt32.ofNat m'.val <<< 24 ↔ m.val = m'.val := by decide
  exact hall a.mon b.mon

theorem tpMday_inj {a b : Tm} : tpMday a = tpMday b ↔ a.mday.val = b.mday.val := by
  have hall : ∀ m m' : Fin 32, UInt32.ofNat m.val <<< 16 = UInt32.ofNat m'.val <<< 16 ↔ m.val = m'.val := by
    decide +kernel
  exact hall a.mday b.mday

theorem tpHour_inj {a b : Tm} : tpHour a = tpHour b ↔ a.hour.val = b.hour.val := by
  have hall : ∀ m m' : Fin 24, UInt32.ofNat m.val <<< 8 = UInt32.ofNat m'.val <<< 8 ↔ m.val = m'.val := by
    decide +kernel
  exact hall a.hour b.hour

/-! ### The calls -/

/-- Where a call happens: the time zone of its copy, and the time. -/
abbrev Moment := Timezone × Nat

def LogCall.moment (call : LogCall) : Moment := (call.zone, call.now)

/-- What the copy that is called has in the field that is compared. -/
def fieldAt (env : LogEnv) (tpf : TimePerFile) (m : Moment) : Nat := comparedField tpf (env.brokenDown m.1 m.2)

def periodAt (env : LogEnv) (tz : Timezone) (tpf : TimePerFile) (m : Moment) : List Int :=
  period tpf (env.brokenDown tz m.2)

theorem checkTimepoint_eq (env : LogEnv) {lh : LogHandle} {tm : Tm} (hpoint : lh.currentTimePoint = timePoint tm)
    (zone : Timezone) (now : Nat) :
    checkTimepoint env zone now lh =
      if comparedField lh.csfLogTpf tm = fieldAt env lh.csfLogTpf (zone, now) then lh
      else (createLogfile env zone now lh).1 := by
  obtain ⟨hmonth, hmday, hhour⟩ := timePoint_and tm
  rw [checkTimepoint]
  cases htpf : lh.csfLogTpf with
  | month =>
    dsimp only
    rw [hpoint, hmonth, ite_not]
    exact if_congr tpMonth_inj rfl rfl
  | day =>
    dsimp only
    rw [hpoint, hmday, ite_not]
    exact if_congr tpMday_inj rfl rfl
  | hour =>
    dsimp only
    rw [hpoint, hhour, ite_not]
    exact if_congr tpHour_inj rfl rfl

/-- The handle writes to a file opened at this time, which was then `tm` for the copy that opened it. -/
structure Writing (lh : LogHandle) (opened : Nat) (tm : Tm) : Prop where
  method : lh.isSyslog = false
  point : lh.currentTimePoint = timePoint tm
  file : ∃ path, lh.logFd = some ⟨path, opened⟩

/-- The record of a call goes to a file of its period, by the time zone that is set. -/
def InPeriod (env : LogEnv) (tz : Timezone) (tpf : TimePerFile) (call : LogCall) (effect : LogEffect) : Prop :=
  ∃ file record, effect = .append file record ∧
    period tpf (env.brokenDown tz file.opened) = period tpf (env.brokenDown tz call.now)

section Calls

variable {env : LogEnv} {lh : LogHandle}

theorem createLogfile_of_fopen (hfopen : ∀ path now, env.fopen path now = true) (zone : Timezone) (now : Nat) :
    createLogfile env zone now lh =
      ({ lh with
          currentTimePoint := timePoint (env.brokenDown zone now)
          logFd := some ⟨filepath lh (env.brokenDown zone now), now⟩ }, true) :=
  if_pos (hfopen _ _)

theorem writeLog_step (hfopen : ∀ path now, env.fopen path now = true) {opened : Nat} {tm : Tm}
    (h : Writing lh opened tm) (call : LogCall) :
    ∃ lh' path record opened' tm', writeLog env call (some lh) = (some lh', .append ⟨path, opened'⟩ record) ∧
      Writing lh' opened' tm' ∧ lh'.csfLogTpf = lh.csfLogTpf ∧
      comparedField lh.csfLogTpf tm' = fieldAt env lh.csfLogTpf call.moment ∧
      opened' = if comparedField lh.csfLogTpf tm = fieldAt env lh.csfLogTpf call.moment then opened else call.now := by
  have hcheck := checkTimepoint_eq env h.point call.zone call.now
  rw [createLogfile_of_fopen hfopen, show (call.zone, call.now) = call.moment from rfl] at hcheck
  rw [writeLog, h.method, if_neg Bool.false_ne_true, hcheck]
  by_cases hsame : comparedField lh.csfLogTpf tm = fieldAt env lh.csfLogTpf call.moment
  · rw [if_pos hsame, if_pos hsame]
    obtain ⟨path, hfile⟩ := h.file
    dsimp only
    rw [hfile]
    exact ⟨lh, path, _, opened, tm, rfl, h, rfl, hsame, rfl⟩
  · rw [if_neg hsame, if_neg hsame]
    exact ⟨_, _, _, call.now, _, rfl, ⟨h.method, rfl, _, rfl⟩, rfl, rfl, rfl⟩

theorem inPeriod_append {tz : Timezone} {tpf : TimePerFile} {call : LogCall} {file : LogFile} {record : LogRecord} :
    InPeriod env tz tpf call (.append file record) ↔
      period tpf (env.brokenDown tz file.opened) = period tpf (env.brokenDown tz call.now) := by
  constructor
  · rintro ⟨file', record', heq, hperiod⟩
    obtain ⟨rfl, -⟩ := LogEffect.append.inj heq
    exact hperiod
  · exact fun hperiod => ⟨file, record, rfl, hperiod⟩

/-- Calls one after the other, by induction: the open file is always one of the period of the last call before, and has
its field. -/
theorem writeLogs_iff (hfopen : ∀ path now, env.fopen path now = true) {tz : Timezone} {tpf : TimePerFile}
    (htpf : lh.csfLogTpf = tpf) {opened : Nat} {tm : Tm} {last : Moment} (hwriting : Writing lh opened tm)
    (hfield : comparedField tpf tm = fieldAt env tpf last)
    (hlast : period tpf (env.brokenDown tz opened) = periodAt env tz tpf last) (calls : List LogCall) :
    List.Forall₂ (InPeriod env tz tpf) calls (writeLogs env (some lh) calls) ↔
      List.IsChain (fun m m' => fieldAt env tpf m = fieldAt env tpf m' →
        periodAt env tz tpf m = periodAt env tz tpf m') (last :: calls.map LogCall.moment) := by
  induction calls generalizing lh opened tm last with
  | nil => exact iff_of_true List.Forall₂.nil (List.IsChain.singleton last)
  | cons call calls ih =>
    obtain ⟨lh', path, record, opened', tm', hcall, hwriting', htpf', hfield', hopened⟩ :=
      writeLog_step hfopen hwriting call
    rw [writeLogs, hcall, List.map_cons, List.forall₂_cons, List.isChain_cons_cons, inPeriod_append]
    rw [htpf, hfield] at hopened
    rw [htpf] at hfield'
    rw [show period tpf (env.brokenDown tz call.now) = periodAt env tz tpf call.moment from rfl]
    by_cases hsame : fieldAt env tpf last = fieldAt env tpf call.moment
    · -- the file stays, and is right if the period is still the same
      rw [if_pos hsame] at hopened
      rw [hopened, hlast, forall_prop_of_true hsame]
      refine and_congr_right fun hperiod => ?_
      exact ih (htpf'.trans htpf) (hopened ▸ hwriting') hfield' (hlast.trans hperiod)
    · -- a new file, of the period of this call
      rw [if_neg hsame] at hopened
      rw [hopened] at hwriting' ⊢
      exact and_congr (iff_of_true rfl fun h => absurd h hsame) (ih (htpf'.trans htpf) hwriting' hfield' rfl)

theorem writing_loggerInit (hfopen : ∀ path now, env.fopen path now = true) {conf : LogConf} {ident : CString}
    {hostName : Option CString} {pid : UInt32} {now : Nat}
    (h : loggerInit env conf ident hostName pid now = some lh) (hmethod : lh.isSyslog = false) :
    Writing lh now (env.brokenDown lh.csfLogTimezone now) := by
  rw [loggerInit, createLogfile_of_fopen hfopen] at h
  split_ifs at h with hsyslog
  · obtain rfl := Option.some.inj h
    exact absurd hsyslog (ne_true_of_eq_false hmethod)
  · obtain rfl := Option.some.inj h
    exact ⟨hmethod, rfl, ⟨_, rfl⟩⟩

end Calls

/-- Every record goes to a file of its period exactly if, whenever two calls that follow each other, or the opening of
the first file and the first call, agree in the field that is compared, each in the time zone of the copy of the logger
that it goes through, they are in the same period of the time zone that is set. -/
theorem rotation_iff {env : LogEnv} (hfopen : ∀ path now, env.fopen path now = true) {conf : LogConf} {ident : CString}
    {hostName : Option CString} {pid : UInt32} {start : Nat} {lh : LogHandle}
    (hinit : loggerInit env conf ident hostName pid start = some lh) (hmethod : lh.isSyslog = false)
    (calls : List LogCall) :
    List.Forall₂ (InPeriod env lh.csfLogTimezone lh.csfLogTpf) calls (writeLogs env (some lh) calls) ↔
      List.IsChain (fun m m' => fieldAt env lh.csfLogTpf m = fieldAt env lh.csfLogTpf m' →
          periodAt env lh.csfLogTimezone lh.csfLogTpf m = periodAt env lh.csfLogTimezone lh.csfLogTpf m')
        ((lh.csfLogTimezone, start) :: calls.map LogCall.moment) :=
  writeLogs_iff hfopen rfl (writing_loggerInit hfopen hinit hmethod) rfl rfl calls

/-- Greenwich in January 1970. -/
def january1970 : LogEnv where
  brokenDown _ t := ⟨70, 0, Fin.ofNat 32 (t / 86400 % 31 + 1), Fin.ofNat 24 (t / 3600), (t / 86400 + 4) % 7⟩
  asctime _ _ := ⟨"Thu Jan  1 10:00:00 1970".toList, by decide⟩
  fopen _ _ := true

/-- `csflogger`, with one file for each hour. -/
def hourly : LogConf where
  logMethod := ⟨['c', 's', 'f', 'l', 'o', 'g', 'g', 'e', 'r'], by decide⟩
  logPath := ⟨['.', '/'], by decide⟩
  logFilenameprefix := ⟨['c', 's', 'f', 'l', 'o', 'g', '_'], by decide⟩
  logTimezone := ⟨['U', 'T', 'C'], by decide⟩
  logTimeperfile := ⟨['h', 'o', 'u', 'r'], by decide⟩

/-- The logger with these settings, opened at ten. -/
def hourlyLogger : Option LogHandle :=
  loggerInit january1970 hourly ⟨['c', 's', 'f'], by decide⟩ (some ⟨['h', 'o', 's', 't'], by decide⟩) 1 36000

def callAt (now : Nat) : LogCall := ⟨now, .utc, 6, ⟨['x'], by decide⟩, fun _ => nul⟩

/-- At half past ten and at eleven. -/
theorem rotation_run :
    ∃ lh, hourlyLogger = some lh ∧
      List.Forall₂ (InPeriod january1970 .utc .hour) [callAt 37800, callAt 39600]
        (writeLogs january1970 (some lh) [callAt 37800, callAt 39600]) := by
  have hinit : hourlyLogger = some (hourlyLogger.get rfl) := rfl
  exact ⟨_, hinit, (rotation_iff (fun _ _ => rfl) hinit rfl _).mpr (by decide)⟩

/-- At ten on the next day: the record goes to the file of the day before. -/
theorem rotation_missed :
    ∃ lh record, hourlyLogger = some lh ∧
      writeLogs january1970 (some lh) [callAt 122400] =
        [.append ⟨"./csflog__19700101_Thr_10.log".toList, 36000⟩ record] ∧
      period .hour (january1970.brokenDown .utc 36000) = [70, 0, 1, 10] ∧
      period .hour (january1970.brokenDown .utc 122400) = [70, 0, 2, 10] :=
  ⟨_, _, rfl, rfl, by decide, by decide⟩

/-- January 1970 where the local time is eight hours ahead. -/
def eightAhead : LogEnv where
  brokenDown zone t := january1970.brokenDown zone (if zone = .utc then t else t + 28800)
  asctime := january1970.asctime
  fopen _ _ := true

/-- The settings ask for local time. The file is opened at ten, and at half past six in the evening a library logs, whose
copy takes it for half past ten. -/
theorem rotation_missed_by_library :
    ∃ lh record, loggerInit eightAhead { hourly with logTimezone := ⟨['l', 'o', 'c', 'a', 'l'], by decide⟩ }
        ⟨['c', 's', 'f'], by decide⟩ (some ⟨['h', 'o', 's', 't'], by decide⟩) 1 7200 = some lh ∧
      writeLogs eightAhead (some lh) [callAt 37800] =
        [.append ⟨"./csflog__19700101_Thr_10.log".toList, 7200⟩ record] ∧
      period .hour (eightAhead.brokenDown .localTime 7200) = [70, 0, 1, 10] ∧
      period .hour (eightAhead.brokenDown .localTime 37800) = [70, 0, 1, 18] :=
  ⟨_, _, rfl, rfl, by decide, by decide⟩

end Csf
