import Csf.Lib.Reach
import Mathlib.Logic.Function.Basic

/-!
# The parent process

`main` (`main.c`) launches the worker, waits for it in `process_wait` and launches it again when it has ended. Signals
reach it through `signals_handler`, which runs on top of whatever the parent does: it tells the worker to leave, and waits
for children itself. On SIGHUP the worker is told to finish what it has, and the parent does not wait for it to end.

The machine has the steps of the parent, one per test or system call that another activation can observe, and the stack of
the handlers that are active. `errno` is one variable for all of them. Children end and stop on their own, which makes a
SIGCHLD pending; a second one is not queued. A signal is delivered between any two steps unless its handler is active. One
that is delivered while the parent is blocked in `waitpid` or `usleep` makes the call fail with `EINTR` when the handler is
over, since `SA_RESTART` is not set.

The model starts when the first worker is launched: before that `child_pid` is 0 and addresses the process group. Process
numbers are not used again. The interval of the sleep is not modelled, only which one it is.
-/

namespace Csf.Supervisor

/-- The signals for which `set_signals` installs the handler. -/
inductive Sig
  | hup
  | int
  | term
  | usr1
  | usr2
  | chld
  deriving DecidableEq

inductive Errno
  | eintr
  | echild
  | esrch
  | other
  deriving DecidableEq

/-- What `waitpid` stores. -/
inductive WaitStatus
  | exited (rc : Nat)
  | signaled (sig : Nat)
  deriving DecidableEq

inductive ChildState
  /-- not launched yet, or waited for -/
  | absent
  | running
  | zombie (status : WaitStatus)
  deriving DecidableEq

/-! ### Activations -/

/-- Where an activation of `process_wait` stands. -/
inductive WaitPc
  /-- at the call of `waitpid` -/
  | call (pid : Nat)
  /-- the call returned; `none` is a negative `re` -/
  | result (pid : Nat) (re : Option WaitStatus)
  /-- `errno` was `EINTR` -/
  | testGraceful (pid : Nat)
  /-- `errno` was not `EINTR` -/
  | testChild
  /-- behind the loop, with `exitcode` -/
  | examine (exitcode : WaitStatus)
  deriving DecidableEq

/-- Where `main` stands. -/
inductive MainPc
  | reset
  | fork
  | assign (pid : Nat)
  | wait (w : WaitPc)
  /-- in `usleep`, for `DELAY_RESTARTING` after `CSF_OK` -/
  | sleep (ok : Bool)
  deriving DecidableEq

/-- Where an activation of `signals_handler` stands. -/
inductive HandlerPc
  /-- at the first statement of its case -/
  | start
  /-- SIGHUP: at the `kill` -/
  | kill
  | wait (w : WaitPc)
  deriving DecidableEq

structure Frame where
  sig : Sig
  pc : HandlerPc
  /-- it interrupted a system call of the activation below it -/
  interrupts : Bool
  deriving DecidableEq

inductive Status
  | running
  | exited (code : Nat)
  deriving DecidableEq

structure State where
  status : Status
  gracefulRestart : Bool
  childPid : Nat
  errno : Errno
  main : MainPc
  /-- the active handlers, the latest first -/
  handlers : List Frame
  children : Nat → ChildState
  /-- the workers that were sent SIGHUP, SIGINT or SIGTERM -/
  told : Nat → Bool
  /-- the next process number -/
  npid : Nat
  /-- the `si_pid` of the pending SIGCHLD -/
  pendingChld : Option Nat

def State.init : State where
  status := .running
  gracefulRestart := false
  childPid := 1
  errno := .other
  main := .wait (.call 1)
  handlers := []
  children := Function.update (fun _ => .absent) 1 .running
  told _ := false
  npid := 2
  pendingChld := none

/-! ### System calls -/

/-- `kill(pid, sig)` with a signal that asks the worker to leave. -/
def tell (pid : Nat) (s : State) : State :=
  match s.children pid with
  | .absent => { s with errno := .esrch }
  | _ => { s with told := Function.update s.told pid true }

/-- `kill(pid, SIGUSR2)` -/
def forward (pid : Nat) (s : State) : State :=
  match s.children pid with
  | .absent => { s with errno := .esrch }
  | _ => s

/-! ### `process_wait` -/

inductive WaitNext
  | goto (w : WaitPc)
  | ret (ok : Bool)
  | exit (code : Nat)
  deriving DecidableEq

/-- A step of `process_wait`, `none` if it is blocked; `e` is what `printf` leaves in `errno`. -/
def processWait (s : State) (e : Errno) : WaitPc → Option (WaitNext × State)
  | .call pid =>
    match s.children pid with
    | .running => none
    | .zombie status =>
      some (.goto (.result pid (some status)), { s with children := Function.update s.children pid .absent })
    | .absent => some (.goto (.result pid none), { s with errno := .echild })
  | .result _ (some status) => some (.goto (.examine status), s)
  | .result pid none => some (.goto (if s.errno = .eintr then .testGraceful pid else .testChild), s)
  | .testGraceful pid => some (.goto (if s.gracefulRestart then .examine (.exited 0) else .call pid), s)
  | .testChild => some (.ret (decide (s.errno = .echild)), s)
  | .examine (.exited rc) => some (if rc = 2 then .exit 2 else .ret (decide (rc = 0)), { s with errno := e })
  | .examine (.signaled _) => some (.ret true, { s with errno := e })

/-! ### `main` -/

/-- A step of `main`; `launch` says whether `fork` succeeds. -/
def mainStep (s : State) (e : Errno) (launch : Bool) : Option State :=
  match s.main with
  | .reset => some { s with gracefulRestart := false, main := .fork }
  | .fork =>
    if launch then
      some { s with
        children := Function.update s.children s.npid .running
        npid := s.npid + 1
        main := .assign s.npid }
    else some { s with status := .exited 1 }
  | .assign pid => some { s with childPid := pid, errno := e, main := .wait (.call pid) }
  | .wait w =>
    match processWait s e w with
    | none => none
    | some (.goto w', s') => some { s' with main := .wait w' }
    | some (.ret ok, s') => some { s' with main := .sleep ok }
    | some (.exit code, s') => some { s' with status := .exited code }
  | .sleep _ => some { s with main := .reset }

/-! ### `signals_handler` -/

/-- The system call of an activation of `process_wait` fails. -/
def WaitPc.interrupt : WaitPc → WaitPc
  | .call pid => .result pid none
  | w => w

def handlerReturn (s : State) : State :=
  match s.handlers with
  | [] => s
  | top :: rest =>
    if top.interrupts then
      match rest with
      | [] =>
        match s.main with
        | .wait w => { s with handlers := [], errno := .eintr, main := .wait w.interrupt }
        | .sleep _ => { s with handlers := [], errno := .eintr, main := .reset }
        | _ => { s with handlers := [] }
      | below :: rest =>
        match below.pc with
        | .wait w => { s with handlers := { below with pc := .wait w.interrupt } :: rest, errno := .eintr }
        | _ => { s with handlers := below :: rest }
    else { s with handlers := rest }

def setPc (pc : HandlerPc) (s : State) : State :=
  match s.handlers with
  | [] => s
  | top :: rest => { s with handlers := { top with pc := pc } :: rest }

/-- What follows `process_wait` in the handler of a signal. -/
def afterWait (sig : Sig) (s : State) : State :=
  match sig with
  | .int | .term => { s with status := .exited 0 }
  | _ => handlerReturn s

def handlerStep (s : State) (e : Errno) (top : Frame) : Option State :=
  match top.pc with
  | .start =>
    match top.sig with
    | .hup => some (setPc .kill { s with gracefulRestart := true })
    | .usr1 | .int | .term => some (setPc (.wait (.call s.childPid)) (tell s.childPid s))
    | .usr2 => some (handlerReturn (forward s.childPid s))
    | .chld => none
  | .kill => some (handlerReturn (tell s.childPid s))
  | .wait w =>
    match processWait s e w with
    | none => none
    | some (.goto w', s') => some (setPc (.wait w') s')
    | some (.ret _, s') => some (afterWait top.sig s')
    | some (.exit code, s') => some { s' with status := .exited code }

/-! ### The machine -/

/-- The parent is blocked in a system call that a signal interrupts. -/
def blocked (s : State) : Bool :=
  match s.handlers with
  | [] =>
    match s.main with
    | .wait (.call pid) => decide (s.children pid ≠ .absent)
    | .sleep _ => true
    | _ => false
  | top :: _ =>
    match top.pc with
    | .wait (.call pid) => decide (s.children pid ≠ .absent)
    | _ => false

inductive Action
  /-- the activation on top makes a step -/
  | run (e : Errno) (launch : Bool)
  /-- a signal is delivered, while the parent is in a system call or before that -/
  | deliver (sig : Sig) (interrupts : Bool)
  | childEnds (pid : Nat) (status : WaitStatus)
  | childStops (pid : Nat)

def enter (sig : Sig) (pc : HandlerPc) (interrupts : Bool) (s : State) : State :=
  { s with handlers := ⟨sig, pc, interrupts⟩ :: s.handlers }

def notify (pid : Nat) (s : State) : State := { s with pendingChld := s.pendingChld.or (some pid) }

def step (s : State) (a : Action) : Option State :=
  if s.status ≠ .running then none
  else
    match a with
    | .run e launch =>
      match s.handlers with
      | [] => mainStep s e launch
      | top :: _ => handlerStep s e top
    | .deliver sig interrupts =>
      if (∃ f ∈ s.handlers, f.sig = sig) ∨ interrupts = true ∧ blocked s = false then none
      else
        match sig, s.pendingChld with
        | .chld, none => none
        | .chld, some pid => some (enter .chld (.wait (.call pid)) interrupts { s with pendingChld := none })
        | sig, _ => some (enter sig .start interrupts s)
    | .childEnds pid status =>
      if s.children pid = .running then
        some (notify pid { s with children := Function.update s.children pid (.zombie status) })
      else none
    | .childStops pid => if s.children pid = .running then some (notify pid s) else none

/-- The states that runs restricted by `R` reach. -/
abbrev Reachable (R : State → Action → State → Prop) : State → Prop := Lib.Reach step R State.init

end Csf.Supervisor
