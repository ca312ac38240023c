import Csf.Ini.Model
import Csf.Lib.Strings

/-!
# The logger

`log.c` writes records to a file of its own or to `syslog`. `logger_init` reads the settings and opens the first file,
`check_timepoint` opens another one when the hour, the day or the month has changed, as the setting says, and `write_log`
puts a record together in an array on the stack.

The worker and every library have a copy of `log.c`. They share the handle, but `get_time` reads the static variable
`csf_log_timezone` of the copy that it is in: `logger_init` sets it where it reads the settings, in the worker, and in a
library it keeps its initial value, which is UTC. So a call carries the time zone of its copy.

Times are seconds. What is outside of the repository is in `LogEnv`; the clock does not move during one call. Strings
have no NUL in them. The array `msg` is a memory without end, next to which the indexes are kept that are written or
read.
-/

namespace Csf

open Lib

/-- A string of C, without its NUL. -/
abbrev CString := { s : List Char // nul ∉ s }

def CString.takeWhile (s : CString) (p : Char → Bool) : CString :=
  ⟨s.1.takeWhile p, fun h => s.2 ((List.takeWhile_sublist p).subset h)⟩

/-- `strlcpy` into an array of `n + 1` bytes -/
def CString.cut (s : CString) (n : Nat) : CString := ⟨s.1.take n, fun h => s.2 (List.mem_of_mem_take h)⟩

def maxPathLen : Nat := 256
def maxMsgLen : Nat := 512

/-! ### Times -/

/-- The fields of `struct tm` that the logger reads, in the ranges of the standard. -/
structure Tm where
  /-- years since 1900 -/
  year : Int
  mon : Fin 12
  mday : Fin 32
  hour : Fin 24
  wday : Nat
  deriving DecidableEq

inductive Timezone
  | utc
  | localTime
  deriving DecidableEq

inductive TimePerFile
  | month
  | day
  | hour
  deriving DecidableEq

structure LogEnv where
  /-- `gmtime` and `localtime` -/
  brokenDown : Timezone → Nat → Tm
  /-- the text of `asctime`, without its newline -/
  asctime : Timezone → Nat → CString
  /-- the file can be opened -/
  fopen : List Char → Nat → Bool

/-! ### Files -/

/-- A file with the time at which it was opened. -/
structure LogFile where
  path : List Char
  opened : Nat
  deriving DecidableEq

structure LogHandle where
  /-- the setting; `get_time` does not read it -/
  csfLogTimezone : Timezone
  csfLogTpf : TimePerFile
  isSyslog : Bool
  pid : UInt32
  logFd : Option LogFile
  logPath : CString
  logFilenameprefix : CString
  logIdent : CString
  hostName : CString
  currentTimePoint : UInt32

/-- `"%d"` -/
def decimal (n : Int) : List Char :=
  if n < 0 then '-' :: Nat.toDigits 10 n.natAbs else Nat.toDigits 10 n.natAbs

/-- `"%02d"` of a number that is not negative -/
def decimal02 (n : Nat) : List Char := if n < 10 then '0' :: Nat.toDigits 10 n else Nat.toDigits 10 n

def weekday : Nat → List Char
  | 0 => ['S', 'u', 'n']
  | 1 => ['M', 'o', 'n']
  | 2 => ['T', 'u', 'e']
  | 3 => ['W', 'e', 'n']
  | 4 => ['T', 'h', 'r']
  | 5 => ['F', 'r', 'i']
  | 6 => ['S', 'a', 't']
  | _ => ['E', 'r', 'r']

/-- `"%s%s_%d%02d%02d_%s_%d.log"`, cut by `snprintf` -/
def filepath (lh : LogHandle) (tm : Tm) : List Char :=
  (lh.logPath.1 ++ lh.logFilenameprefix.1 ++ '_' :: decimal (tm.year + 1900) ++ decimal02 (tm.mon.val + 1) ++
    decimal02 tm.mday.val ++ '_' :: weekday tm.wday ++ '_' :: decimal tm.hour.val ++
    ['.', 'l', 'o', 'g']).take (maxPathLen - 1)

def tpMonth (tm : Tm) : UInt32 := UInt32.ofNat tm.mon.val <<< 24
def tpMday (tm : Tm) : UInt32 := UInt32.ofNat tm.mday.val <<< 16
def tpHour (tm : Tm) : UInt32 := UInt32.ofNat tm.hour.val <<< 8

/-- `create_logfile` in a copy with this `csf_log_timezone`, with its result. -/
def createLogfile (env : LogEnv) (zone : Timezone) (now : Nat) (lh : LogHandle) : LogHandle × Bool :=
  let tm := env.brokenDown zone now
  let path := filepath lh tm
  let lh := { lh with currentTimePoint := tpMonth tm ||| tpMday tm ||| tpHour tm }
  if env.fopen path now then ({ lh with logFd := some ⟨path, now⟩ }, true) else ({ lh with logFd := none }, false)

/-- `check_timepoint` in a copy with this `csf_log_timezone`; the result of `create_logfile` is not looked at. -/
def checkTimepoint (env : LogEnv) (zone : Timezone) (now : Nat) (lh : LogHandle) : LogHandle :=
  let tm := env.brokenDown zone now
  match lh.csfLogTpf with
  | .month => if lh.currentTimePoint &&& 0xFF000000 ≠ tpMonth tm then (createLogfile env zone now lh).1 else lh
  | .day => if lh.currentTimePoint &&& 0x00FF0000 ≠ tpMday tm then (createLogfile env zone now lh).1 else lh
  | .hour => if lh.currentTimePoint &&& 0x0000FF00 ≠ tpHour tm then (createLogfile env zone now lh).1 else lh

/-! ### `logger_init` -/

/-- The strings that `load_conf` leaves in the variables of the file. -/
structure LogConf where
  logMethod : CString
  logPath : CString
  logFilenameprefix : CString
  logTimezone : CString
  logTimeperfile : CString

/-- The handle as `logger_init` fills it in, before a file is open. The name of the host is `none` if `gethostname`
fails. -/
def newHandle (conf : LogConf) (ident : CString) (hostName : Option CString) (pid : UInt32) : LogHandle where
  csfLogTimezone := if conf.logTimezone.1.head? = some 'U' then .utc else .localTime
  csfLogTpf :=
    match conf.logTimeperfile.1.head? with
    | some 'm' => .month
    | some 'd' => .day
    | _ => .hour
  -- `strncmp` compares one character
  isSyslog := conf.logMethod.1.head? ≠ some 'c'
  pid := pid
  logFd := none
  logPath := conf.logPath
  logFilenameprefix := conf.logFilenameprefix
  logIdent := ident.cut maxMsgLen
  hostName := (hostName.map fun name => name.takeWhile (· != '.')).getD ⟨['N', 'U', 'L', 'L'], by decide⟩
  currentTimePoint := 0

/-- `logger_init` without a handle, once the configuration is read; `none` is `NULL`. -/
def loggerInit (env : LogEnv) (conf : LogConf) (ident : CString) (hostName : Option CString) (pid : UInt32)
    (now : Nat) : Option LogHandle :=
  let lh := newHandle conf ident hostName pid
  if lh.isSyslog then some lh
  else
    -- the variable of this copy was set with the field of the handle
    match createLogfile env lh.csfLogTimezone now lh with
    | (lh, true) => some lh
    | (_, false) => none

/-! ### `write_log` -/

/-- `snprintf(msg + off, n, ...)` of a text: the array, for `n` other than 0 -/
def snprintf (off n : Nat) (text : List Char) (msg : Nat → Char) : Nat → Char :=
  store msg off (text.take (n - 1) ++ [nul])

/-- The indexes that `snprintf` writes. -/
def snprintfWrites (off n : Nat) (text : List Char) : List Nat := List.range' off (min text.length (n - 1) + 1)

/-- `"%s %s %s[%u]: "` -/
def recordHeader (ascTime hostName logIdent : CString) (pid : UInt32) : List Char :=
  ascTime.1 ++ ' ' :: hostName.1 ++ ' ' :: logIdent.1 ++ '[' :: Nat.toDigits 10 pid.toNat ++ [']', ':', ' ']

/-- The header of a record that is written now, by a copy with this `csf_log_timezone`. -/
def LogHandle.header (env : LogEnv) (lh : LogHandle) (zone : Timezone) (now : Nat) : List Char :=
  recordHeader (env.asctime zone now) lh.hostName lh.logIdent lh.pid

/-- What `fwrite` appends, and the indexes of `msg` that were written and read. -/
structure LogRecord where
  bytes : List Char
  accesses : List Nat
  deriving DecidableEq

/-- The record of `write_log`, from the first print to `fwrite`. The second print leaves a NUL within `MAX_MSG_LEN` bytes
from its start, so `strlen` stops. -/
def writeRecord (header message : List Char) (msg : Nat → Char) : LogRecord :=
  let printedSize := header.length
  let msg := snprintf printedSize maxMsgLen message (snprintf 0 maxMsgLen header msg)
  let msgLen := lengthFrom nul msg (printedSize + maxMsgLen) 0
  let ended := msgLen > 0 ∧ msgLen < maxMsgLen
  let msg := if ended then store msg msgLen [newline] else msg
  { bytes := (List.range' 0 (msgLen + 1)).map msg
    accesses := snprintfWrites 0 maxMsgLen header ++ snprintfWrites printedSize maxMsgLen message ++
      -- `strlen`, the newline, `fwrite`
      List.range' 0 (msgLen + 1) ++ (if ended then [msgLen] else []) ++ List.range' 0 (msgLen + 1) }

inductive LogEffect
  /-- there is no handle -/
  | nothing
  | syslog (priority : Int32) (text : List Char)
  | append (file : LogFile) (record : LogRecord)
  /-- a write to a file that could not be opened -/
  | fault
  deriving DecidableEq

/-- A call of `write_log`, with what is in the array before. -/
structure LogCall where
  now : Nat
  /-- `csf_log_timezone` of the copy that is called -/
  zone : Timezone
  priority : Int32
  message : CString
  msg : Nat → Char

def writeLog (env : LogEnv) (call : LogCall) : Option LogHandle → Option LogHandle × LogEffect
  | none => (none, .nothing)
  | some lh =>
    if lh.isSyslog then (some lh, .syslog call.priority (call.message.1.take (maxMsgLen - 1)))
    else
      let lh := checkTimepoint env call.zone call.now lh
      match lh.logFd with
      | none => (some lh, .fault)
      | some file => (some lh, .append file (writeRecord (lh.header env call.zone call.now) call.message.1 call.msg))

/-- One call after the other, each through some copy; all copies have the handle. -/
def writeLogs (env : LogEnv) : Option LogHandle → List LogCall → List LogEffect
  | _, [] => []
  | lh, call :: calls => (writeLog env call lh).2 :: writeLogs env (writeLog env call lh).1 calls

end Csf
