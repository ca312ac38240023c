import Mathlib.Algebra.GroupWithZero.Nat
import Mathlib.Data.Fintype.Card
import Mathlib.Data.Fin.Basic
import Mathlib.Logic.Function.Basic

/-!
# The data of the pipeline

The shared memory of the server core (`pipeline_def.h`, `pipeline.h`, `server.h`, the globals of
`pipeline.c`, `server.c`, `worker.c`), the program counters of its threads and the static configuration
that `pipeline_init` leaves behind.

A `TAILQ` is the list of its elements, a `REQUEST *` or a `CONN_STATE *` is the number of the block it
points to. Blocks are numbered in the order they are allocated, so a number names one request for the
whole run even though the memory pool recycles the block's address. `pipeline_queue_len`, `queue_len`
and `ref_cnt` keep the widths of the source (`uint64_t`, `uint32_t`, `size_t`).

Left out: the counters that only statistics read (`rqst_num`, `request_count`, the thread `status`), the
`proctocl_data` pointer (it is only passed on) and the log texts.
-/

namespace Csf

/-! ### Constants -/

/-- `PIPELINE_SIZE`: the number of slots of `pcb[]`. -/
def pipelineSize : Nat := 16

instance : NeZero pipelineSize := ⟨by decide⟩

/-- An index of `pcb[]`. -/
abbrev Pipeline := Fin pipelineSize

def maxStageJump : Nat := 256

def maxModNameLen : Nat := 64

def pipelineFailed : Int := -1
def pipelineContinue : Int := 0
def pipelineBreak : Int := 1
def pipelineRequeue : Int := 2

/-- `REQUEST_LOOP`, the error left in a request that hopped too often. -/
def requestLoop : Int := -3

def submitGenericError : Int := -1
def submitQueueFull : Int := -2

def requestNone : UInt32 := 0
def requestForce : UInt32 := 1
def requestKickOut : UInt32 := 2
def requestTimeOut : UInt32 := 4

def hasFlag (flags flag : UInt32) : Bool := flags &&& flag != 0

/-- The size of `junk[]`, the buffer the done pipe is drained into. -/
def junkSize : Nat := 16

/-! ### Requests, queues and connections -/

/-- `REQUEST`. The two function pointers are kept as "is it set". -/
structure Request where
  requestResponder : Bool
  dataCleaner : Bool
  tid : UInt64
  nstage : Nat
  clock : Int
  csp : Option Nat
  flags : UInt32
  ret : Int
  err : Int
  cancelled : Bool
  deriving DecidableEq, Inhabited

structure Rqcb where
  requestHead : List Nat
  queueLen : UInt32
  deriving DecidableEq

/-- The variable part of a `PCB`. `activeQueueEntry` says that the entry is linked, that is, not in the
`TAILQ_ENTRY_INIT` state. -/
structure Pcb where
  tmpRequestHead : List Nat
  tmpQueueLen : UInt32
  activeQueueEntry : Bool
  counter : UInt64
  deriving DecidableEq

inductive ConnType
  | tcp
  | udp
  deriving DecidableEq

/-- `CONN_STATE`, with the history of its block: how often `connection_lost` was called for it, how often
it was given back to the pool, and whether a step touched it after that. -/
structure ConnState where
  type : ConnType
  /-- `ci.fd` is not `-1` -/
  fdOpen : Bool
  /-- `ev` is pending in libevent -/
  armed : Bool
  refCnt : UInt64
  lost : Nat
  freed : Nat
  touchedAfterFree : Bool
  deriving DecidableEq

/-! ### Program counters -/

/-- The queue `submit_next` hands a request to. -/
inductive Dest (Stage : Type)
  | stage (st : Stage)
  | done
  deriving DecidableEq

/-- The kind of event `done_requests_handler` is called with. -/
inductive PipeEvent
  | read
  | timeout
  deriving DecidableEq

/-- Where a worker is in `worker_thread`. The list that comes with a request holds the queues that
`submit_next` has still to insert it into after the current one. -/
inductive WorkerPc (Stage : Type)
  /-- about to lock `rqcbp->mutex` -/
  | top
  /-- holds the mutex, at the test of the wait loop -/
  | locked
  /-- found the queue empty and holds the mutex, about to call `pthread_cond_wait` -/
  | aboutToWait
  /-- blocked in `pthread_cond_wait` -/
  | waiting
  /-- released from the condition, about to take the mutex again -/
  | woken
  /-- took the graceful branch, about to call `thread_deinit` -/
  | leaving
  | gone
  /-- took a request off the queue; `cl` is its age as computed then -/
  | holding (r : Nat) (cl : Int)
  /-- inside `submit_next`, before the insertion into the first queue of the list -/
  | routing (r : Nat) (dests : List (Dest Stage))
  /-- `to_done_stage`: holds `done_rqcb.mutex` -/
  | doneLocked (r : Nat) (rest : List (Dest Stage))
  | doneInserted (r : Nat) (rest : List (Dest Stage))
  /-- `to_done_stage`: at `if (!done_signalled)` -/
  | doneTest (r : Nat) (rest : List (Dest Stage))
  | doneSet (r : Nat) (rest : List (Dest Stage))
  | doneWrite (r : Nat) (rest : List (Dest Stage))
  deriving DecidableEq

/-- Where the main thread is, outside of `submit_request`. -/
inductive MainPc (Stage : Type)
  /-- idle in the event loop -/
  | loop
  /-- in `tcp_conn_handler`, between two reads -/
  | session (c : Nat)
  /-- in `udp_socket_event_handler`, delivering the datagram -/
  | datagram (c : Nat)
  /-- `done_requests_handler`, at `if (done_signalled)` -/
  | drainTest (ev : PipeEvent)
  | drainRead (ev : PipeEvent)
  | drainReset (ev : PipeEvent)
  | kick (ev : PipeEvent)
  /-- at the test of the done queue -/
  | testDone (ev : PipeEvent)
  /-- in `get_done_requests`, at the try-lock -/
  | take
  /-- at the head of the loop over the final queue: `rqstp`, and the value of `rc` -/
  | iter (cur : Option Nat) (rc : BitVec 32)
  /-- the counter is decremented, at the test for the responder; `next` is `tmpreq` -/
  | respond (r : Nat) (next : Option Nat) (rc : BitVec 32)
  /-- inside the responder -/
  | calling (r : Nat) (next : Option Nat)
  /-- at the tests of the responder's result -/
  | dispose (r : Nat) (next : Option Nat) (rc : BitVec 32)
  /-- the request is cleaned up, at the test for the end of a graceful restart -/
  | testExit (next : Option Nat) (rc : BitVec 32)
  /-- in `broadcast_signal_to_allqueue` -/
  | broadcast (todo : List Stage) (next : Option Nat) (rc : BitVec 32)
  deriving DecidableEq

/-- Where the main thread is inside `submit_request`. -/
inductive SubmitPc (Stage : Type)
  | none
  /-- past the checks, before the try-lock in `send_to_pipeline` -/
  | checked (r : Nat) (p : Pipeline) (st : Stage) (flags : UInt32) (concat : Bool)
  /-- linked into the first stage, the mutex still held, not yet counted -/
  | inserted (r : Nat) (p : Pipeline) (st : Stage) (notice : Bool)
  /-- linked into the temporary queue, not yet counted -/
  | buffered (r : Nat) (p : Pipeline)
  /-- at `if (notice_flags && !done_signal)` with `notice_flags` set -/
  | noticeTest (r : Nat) (p : Pipeline)
  | noticeSet (r : Nat) (p : Pipeline)
  | noticeWrite (r : Nat) (p : Pipeline)
  /-- `send_to_pipeline` returned 0 -/
  | sent (r : Nat) (p : Pipeline)
  deriving DecidableEq

inductive SignalPc (Stage : Type)
  | idle
  | kick
  | testLen
  | broadcast (todo : List Stage)
  deriving DecidableEq

/-- The threads that can own a stage mutex between two steps. -/
inductive Owner (Worker : Type)
  | main
  | worker (w : Worker)
  deriving DecidableEq

/-- How the process stands: running, ended by `exit(0)` in `thread_deinit`, or dead of a NULL pointer. -/
inductive Status
  | running
  | exited
  | crashed
  deriving DecidableEq

/-! ### The history of a run -/

/-- What happened to a request. -/
inductive Event
  /-- allocated by `submit_request` for pipeline `p` -/
  | submitted (r : Nat) (p : Pipeline)
  /-- linked into a queue by `send_to_pipeline` -/
  | inserted (r : Nat)
  /-- added to `pipeline_queue_len` -/
  | counted (r : Nat)
  /-- `submit_request` returned its transaction id -/
  | accepted (r : Nat)
  /-- handed to a stage handler -/
  | handed (r : Nat)
  /-- moved from a first-stage queue to the final queue by `send_to_pipeline` -/
  | evicted (r : Nat)
  /-- taken by the loop of `done_requests_handler`, which decremented `pipeline_queue_len` -/
  | taken (r : Nat)
  /-- left in the final queue by that loop because it has no connection -/
  | passed (r : Nat)
  /-- its `request_responder` was called -/
  | responded (r : Nat)
  /-- its `data_cleaner` was called -/
  | cleaned (r : Nat)
  /-- freed by `cleanup_request` -/
  | freed (r : Nat)
  deriving DecidableEq

/-- The request whose way through submission and completion an event belongs to. -/
def Event.about : Event → Option Nat
  | .submitted _ _ | .handed _ => none
  | .inserted r | .counted r | .accepted r | .evicted r | .taken r | .passed r | .responded r | .cleaned r
  | .freed r => some r

/-! ### Configuration -/

/-- What `csf_init` leaves behind for the rest of the run. `chain p` lists the stages of pipeline `p` in
order (`first_rqcbp` and the `next_rqcb` links); `pcb[p]` is NULL when it is empty. -/
structure Config (Stage Worker : Type) where
  chain : Pipeline → List Stage
  chain_nodup : ((List.finRange pipelineSize).flatMap chain).Nodup
  chain_cover : ∀ st, st ∈ (List.finRange pipelineSize).flatMap chain
  modName : Stage → List Char
  delay : Stage → UInt32
  /-- `request_handler` is not NULL -/
  requestHandler : Stage → Bool
  /-- `threadp->rqcb` -/
  rqcb : Worker → Stage
  /-- `init_flag == PIPELINE_SUCCESS` -/
  initOk : Worker → Bool
  pipelineQueueSize : UInt64
  requestTimeout : Int
  /-- the write end of the done pipe; `server_init` opens the listening socket before the pipe, so
  descriptor 0 is in use when the pipe is created -/
  doneFd : Nat
  doneFd_pos : 0 < doneFd
  /-- bytes the done pipe holds before a write to it fails -/
  pipeCapacity : Nat
  pipeCapacity_pos : 0 < pipeCapacity
  /-- how many `REQUEST` blocks fit in memory; `smalloc` ends the process beyond that, and blocks have
  distinct 64-bit addresses. `sfree` need not make room: see `blocks`. -/
  maxBlocks : Nat
  maxBlocks_lt : maxBlocks + 1 < 2 ^ 64

/-! Values for the servers that runs are executed on. -/

def typicalDoneFd : Nat := 5
def typicalPipeCapacity : Nat := 65536
def typicalMaxBlocks : Nat := 1000

theorem typicalDoneFd_pos : 0 < typicalDoneFd := by decide

theorem typicalPipeCapacity_pos : 0 < typicalPipeCapacity := by decide

theorem typicalMaxBlocks_lt : typicalMaxBlocks + 1 < 2 ^ 64 := by decide

/-- The descriptor `request_info_init` stores in `REQUEST_INFO`: it runs before `event_handler_init`
creates the pipe, when the global `done_fd` still has its initial value. -/
def infoDoneFd : Nat := 0

variable {Stage Worker : Type}

/-- `TAILQ_NEXT`: the element after `x`, and what `next_rqcb` points to on a chain. -/
def tailqNext {α : Type} [DecidableEq α] (x : α) : List α → Option α
  | [] => none
  | y :: l => if y = x then l.head? else tailqNext x l

namespace Config

variable (cfg : Config Stage Worker)

def firstRqcb (p : Pipeline) : Option Stage := (cfg.chain p).head?

/-- All stages, in the order `broadcast_signal_to_allqueue` visits them. -/
def allRqcbs : List Stage := (List.finRange pipelineSize).flatMap cfg.chain

def nextRqcb [DecidableEq Stage] (st : Stage) : Option Stage :=
  (List.finRange pipelineSize).findSome? fun p => tailqNext st (cfg.chain p)

/-- `stage_find`: the tree orders stages by the first `MAX_MOD_NAME_LEN - 1` characters of their name. -/
def stageFind (name : List Char) : Option Stage :=
  cfg.allRqcbs.find? fun st => (cfg.modName st).take (maxModNameLen - 1) == name.take (maxModNameLen - 1)

end Config

/-! ### The state of the process -/

/-- The memory that the threads share, and where each of them is. A queue is the list that its links lead through, which
the links hold as long as a request is linked into one queue at a time (`Represents`). Past the loop limit `submit_next`
links a request into two, and only the links tell what the queues are; `pointerStep` reads them from there. -/
structure State (Stage Worker : Type) where
  /-- the `REQUEST` blocks -/
  heap : Nat → Request
  /-- the blocks that `submit_request` got from `smalloc` and that `cleanup_request` has not passed to `sfree`. The two
  calls run in different copies of the allocator (the library of the protocol and the worker), and the second gives the
  memory back to no pool: the blocks in memory are these and those of requests that are gone. -/
  blocks : List Nat
  /-- the number of the next block -/
  nreq : Nat
  rqcb : Stage → Rqcb
  mutex : Stage → Option (Owner Worker)
  pcb : Pipeline → Pcb
  apq : List Pipeline
  doneRqcb : Rqcb
  doneMutex : Option Worker
  finalRequestHead : List Nat
  pipelineQueueLen : UInt64
  /-- the static `inc` of `submit_request` -/
  inc : UInt64
  conns : Nat → ConnState
  nconn : Nat
  connectionCounter : Int
  doneSignalled : Bool
  /-- unread bytes in the done pipe -/
  donePipe : Nat
  gracefulRestart : Bool
  clockOff : Int
  /-- `wti.next_rqcbp` of each worker -/
  nextRqcbp : Worker → Option Stage
  wk : Worker → WorkerPc Stage
  main : MainPc Stage
  sub : SubmitPc Stage
  sig : SignalPc Stage
  pipelineWorkingThreads : Nat
  status : Status
  trace : List Event
  /-- the final queue as it was when the handler run in progress, or the last one, started on `EV_READ` -/
  batch : List Nat

/-- The state in which the event loop starts: every queue is empty, every worker has run
`worker_thread_init`. -/
def State.init [Fintype Worker] : State Stage Worker where
  heap _ := default
  blocks := []
  nreq := 0
  rqcb _ := ⟨[], 0⟩
  mutex _ := none
  pcb _ := ⟨[], 0, false, 0⟩
  apq := []
  doneRqcb := ⟨[], 0⟩
  doneMutex := none
  finalRequestHead := []
  pipelineQueueLen := 0
  inc := 0
  conns _ := ⟨.tcp, false, false, 0, 0, 0, false⟩
  nconn := 0
  connectionCounter := 0
  doneSignalled := false
  donePipe := 0
  gracefulRestart := false
  clockOff := 1
  nextRqcbp _ := none
  wk _ := .top
  main := .loop
  sub := .none
  sig := .idle
  pipelineWorkingThreads := Fintype.card Worker
  status := .running
  trace := []
  batch := []

end Csf
