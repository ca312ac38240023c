import Csf.Lib.Reach
import Mathlib.Algebra.GroupWithZero.Nat
import Mathlib.Data.List.FinRange

/-!
# The loop of the monitor

`monitor_start` (`monitor.c`) polls the listening socket and the clients in `fd_array`. Entry 0 is the listening socket;
a client gets the first free entry. An iteration of the loop first accepts a new client, and then goes over the other
entries and reads a command from each client that is ready.

A descriptor is a number, and `none` stands for `-1`. The state has the open descriptors of clients, as the kernel keeps
them, next to the variables of the loop, and a log of the calls of `close` and of the indices into `fd_array`. A
`Round` is one return of `poll` with everything that the system calls of the iteration return. The texts written to the
clients and to the log file are left out.
-/

namespace Csf

def maxOpenFd : Nat := 10

instance : NeZero maxOpenFd := ⟨by decide⟩

/-- An index of `fd_array`. -/
abbrev Slot := Fin maxOpenFd

inductive Cause
  /-- end of file or a reset on this descriptor -/
  | left (fd : Nat)
  /-- no free entry for a new client -/
  | refused
  /-- the command `stop` -/
  | stop
  deriving DecidableEq

inductive MonitorEvent
  /-- `close(fd)`, and whether the descriptor was open -/
  | close (fd : Option Nat) (cause : Cause) (wasOpen : Bool)
  /-- `fd_array[i]` -/
  | access (i : Nat)
  deriving DecidableEq

structure Monitor where
  fdArray : Slot → Option Nat
  connfd : Option Nat
  /-- the open descriptors of clients -/
  clients : List Nat
  /-- the listening socket is open -/
  listening : Bool
  /-- `switch_monitor_run` -/
  switchMonitorRun : Bool
  log : List MonitorEvent

def Monitor.initial (listenfd : Nat) : Monitor :=
  ⟨fun i => if i = 0 then some listenfd else none, none, [], true, true, []⟩

namespace Monitor

def note (s : Monitor) (e : MonitorEvent) : Monitor := { s with log := s.log ++ [e] }

def close (listenfd : Nat) (s : Monitor) (fd : Option Nat) (cause : Cause) : Monitor :=
  match fd with
  | none => s.note (.close none cause false)
  | some fd =>
    if fd = listenfd then
      { s.note (.close (some fd) cause s.listening) with listening := false }
    else
      { s.note (.close (some fd) cause (fd ∈ s.clients)) with clients := s.clients.erase fd }

def setFd (s : Monitor) (i : Slot) (fd : Option Nat) : Monitor :=
  { s with fdArray := fun j => if j = i then fd else s.fdArray j }

end Monitor

/-! ### Commands -/

inductive MonitorCommand
  | stat
  | help
  | stop
  | list
  | empty
  deriving DecidableEq

/-- The names in `cmd_func_array`. -/
def cmdFuncArray : List (List Char × MonitorCommand) := [
  (['s', 't', 'a', 't'], .stat), (['h', 'e', 'l', 'p'], .help), (['s', 't', 'o', 'p'], .stop),
  (['l', 'i', 's', 't'], .list), (['e', 'm', 'p', 't', 'y'], .empty)]

/-- The command that `command_distribute` runs for a line: the first whose name the line starts with. -/
def commandDistribute (line : List Char) : Option MonitorCommand :=
  (cmdFuncArray.find? fun entry => entry.1.isPrefixOf line).map Prod.snd

/-- The loop of `cmd_stop` over the entries. Its last index is `all_connfd_len` itself, and `beyond` is what stands in
memory behind the array. -/
def stopLoop (listenfd : Nat) (beyond : Option Nat) : List Nat → Monitor → Monitor
  | [], s => s
  | i :: is, s =>
    let acceptfd := if hi : i < maxOpenFd then s.fdArray ⟨i, hi⟩ else beyond
    let s := s.note (.access i)
    match acceptfd with
    | none => stopLoop listenfd beyond is s
    | some fd => stopLoop listenfd beyond is (s.close listenfd (some fd) .stop)

def cmdStop (listenfd : Nat) (beyond : Option Nat) (s : Monitor) : Monitor :=
  { stopLoop listenfd beyond (List.range (maxOpenFd + 1)) (s.close listenfd (some listenfd) .stop) with
    switchMonitorRun := false }

/-! ### One iteration -/

inductive LineResult
  | reset
  | error
  | eof
  | line (text : List Char)
  deriving DecidableEq

/-- One return of `poll`, and what the system calls after it return. -/
structure Round where
  nready : Int
  /-- the listening socket is readable -/
  listenReady : Bool
  /-- the descriptor of the new client, unless `accept` fails -/
  accepted : Option Nat
  /-- the clients that are ready, with what is read from them -/
  read : Slot → Option LineResult
  beyond : Option Nat

/-- `accept_new_client`, which gives `connfd`. -/
def acceptNewClient (listenfd : Nat) (accepted : Option Nat) (s : Monitor) : Monitor :=
  match accepted with
  | none => { s with connfd := none }
  | some fd =>
    let s := { s with clients := fd :: s.clients }
    match (List.finRange maxOpenFd).find? fun i => (s.fdArray i).isNone with
    | some i =>
      { (s.setFd i (some fd)) with connfd := some fd, log := s.log ++ (List.range (i.val + 1)).map MonitorEvent.access }
    | none =>
      { ({ s with log := s.log ++ (List.range maxOpenFd).map MonitorEvent.access }.close listenfd (some fd) .refused) with
        connfd := none }

/-- The first part of an iteration, and whether it goes on to the clients. -/
def acceptPart (listenfd : Nat) (r : Round) (s : Monitor) : Monitor × Bool :=
  let s := s.note (.access 0)
  if r.listenReady then
    let s := acceptNewClient listenfd r.accepted s
    if s.connfd = none then (s, false) else (s, decide (0 < r.nready - 1))
  else (s, true)

def readClient (listenfd : Nat) (r : Round) (s : Monitor) (i : Slot) : Monitor :=
  let s := s.note (.access i.val)
  match s.fdArray i with
  | none => s
  | some acceptfd =>
    match r.read i with
    | none => s
    | some .error => s
    -- the descriptor that is closed is the one accepted last
    | some .reset => (s.close listenfd s.connfd (.left acceptfd)).setFd i none
    | some .eof => (s.close listenfd s.connfd (.left acceptfd)).setFd i none
    | some (.line text) => if commandDistribute text = some .stop then cmdStop listenfd r.beyond s else s

/-- The entries of clients, in the order of the loop. -/
def clientSlots : List Slot := (List.finRange maxOpenFd).tail

def monitorRound (listenfd : Nat) (r : Round) (s : Monitor) : Monitor :=
  let start := acceptPart listenfd r s
  if start.2 then clientSlots.foldl (readClient listenfd r) start.1 else start.1

/-- A new descriptor is none of those that are open. -/
def Round.Fresh (listenfd : Nat) (s : Monitor) (r : Round) : Prop :=
  ∀ fd ∈ r.accepted, fd ≠ listenfd ∧ fd ∉ s.clients

instance (listenfd : Nat) (s : Monitor) (r : Round) : Decidable (r.Fresh listenfd s) :=
  Option.decidableForallMem r.accepted

/-- The loop goes on until a `stop`. -/
def monitorStep (listenfd : Nat) (s : Monitor) (r : Round) : Option Monitor :=
  if s.switchMonitorRun = true ∧ r.Fresh listenfd s then some (monitorRound listenfd r s) else none

end Csf
