import Csf.Lib.Reach
import Csf.Pipeline.Submit
import Csf.Pipeline.Route
import Csf.Pipeline.Complete
import Mathlib.Data.Fintype.Defs

/-!
# The threads as one machine

Main thread (event loop, protocol callbacks, `submit_request`, `done_requests_handler`), signal thread
(`HUP_process`) and any number of workers, interleaved step by step. An action names the thread, the
values its program counter carries and how every choice of the environment falls: the data that arrives,
what handlers and responders return, which waiter a condition variable releases. `Guard` says when an
action is enabled and `effect` what it does, so that `step` is their combination.

The cuts between steps:

* a critical section of a stage mutex is one step where nothing outside of the mutex depends on its
  inside; the insertion and the counter of `submit_request` are two steps under the mutex, and a worker
  that found its queue empty keeps the mutex until it blocks;
* `to_done_stage` is the steps lock, insert, unlock, test of `done_signalled`, set, write;
* `done_requests_handler` is the steps test, read and reset of the done signal, kick, test of the done
  queue, try-lock and take, and per request decrement, responder, clean-up and broadcast test;
* `kick_request_queue` is one step, also in the signal thread.

The try-lock on a first stage may fail at any time and succeeds only when the mutex is free; the one on
the done queue fails exactly when a worker holds the mutex. A wait on a condition may end spuriously.
-/

namespace Csf

variable {Stage Worker : Type}

/-! ### Condition variables -/

/-- The workers `ws` return from `pthread_cond_wait`. -/
def wake [DecidableEq Worker] (ws : List Worker) (wk : Worker → WorkerPc Stage) : Worker → WorkerPc Stage :=
  fun w => if w ∈ ws then .woken else wk w

/-- `pthread_cond_signal` on the condition of `st` releases the workers `ws`: some that are blocked on
it, and at least one if there is one. -/
def SignalOk (cfg : Config Stage Worker) (s : State Stage Worker) (st : Stage) (ws : List Worker) : Prop :=
  (∀ w ∈ ws, s.wk w = .waiting ∧ cfg.rqcb w = st) ∧
    (ws = [] → ∀ w, cfg.rqcb w = st → s.wk w ≠ .waiting)

instance [DecidableEq Stage] [Fintype Worker] (cfg : Config Stage Worker) (s : State Stage Worker)
    (st : Stage) (ws : List Worker) : Decidable (SignalOk cfg s st ws) :=
  inferInstanceAs (Decidable (_ ∧ _))

/-- `pthread_cond_broadcast` on the condition of `st` releases exactly the workers blocked on it. -/
def broadcastWake [DecidableEq Stage] (cfg : Config Stage Worker) (st : Stage)
    (wk : Worker → WorkerPc Stage) : Worker → WorkerPc Stage :=
  fun w => if cfg.rqcb w = st ∧ wk w = .waiting then .woken else wk w

/-! ### Workers -/

/-- The steps of a worker. -/
inductive WorkerAct (Stage Worker : Type)
  | lock
  | empty
  | wait
  | spurious
  /-- wakes and goes back to the test of the wait loop -/
  | retry
  /-- wakes and takes the graceful branch -/
  | leave
  /-- `thread_deinit` -/
  | exit
  | delay (r : Nat)
  | dequeue (r : Nat) (rest : List Nat)
  | timedOut (r : Nat) (cl : Int)
  | cancelled (r : Nat) (cl : Int)
  | noHandler (r : Nat) (cl : Int)
  /-- the handler makes the given calls of `set_next_stage`, returns `ret` and leaves `errno` -/
  | handle (r : Nat) (cl : Int) (calls : List (List Char)) (ret errno : Int)
  /-- `to_next_stage`; the signal releases `ws` -/
  | forward (r : Nat) (st : Stage) (rest : List (Dest Stage)) (ws : List Worker)
  | doneLock (r : Nat) (rest : List (Dest Stage))
  | doneInsert (r : Nat) (rest : List (Dest Stage))
  | doneUnlock (r : Nat) (rest : List (Dest Stage))
  /-- finds `done_signalled` set -/
  | doneSkip (r : Nat) (rest : List (Dest Stage))
  /-- finds `done_signalled` clear -/
  | doneClear (r : Nat) (rest : List (Dest Stage))
  | doneSet (r : Nat) (rest : List (Dest Stage))
  | doneWrite (r : Nat) (rest : List (Dest Stage))

/-- The age of a request, `clock_off - rqstp->clock`. -/
def age (s : State Stage Worker) (r : Nat) : Int := s.clockOff - (s.heap r).clock

/-- The request at the head has to wait for the stage's delay. -/
def tooEarly (cfg : Config Stage Worker) (s : State Stage Worker) (st : Stage) (r : Nat) : Prop :=
  cfg.delay st ≠ 0 ∧ age s r < (cfg.delay st).toNat

/-- The timeout test of a worker, for the age it computed when it took the request. -/
def workerTimedOut (cfg : Config Stage Worker) (s : State Stage Worker) (r : Nat) (cl : Int) : Prop :=
  cfg.requestTimeout ≠ 0 ∧ (s.heap r).clock ≠ 0 ∧ cfg.requestTimeout < cl

instance (cfg : Config Stage Worker) (s : State Stage Worker) (st : Stage) (r : Nat) :
    Decidable (tooEarly cfg s st r) := inferInstanceAs (Decidable (_ ∧ _))

instance (cfg : Config Stage Worker) (s : State Stage Worker) (r : Nat) (cl : Int) :
    Decidable (workerTimedOut cfg s r cl) := inferInstanceAs (Decidable (_ ∧ _))

/-- Both halves of the test for the end of a graceful restart. -/
def drained (s : State Stage Worker) : Prop := s.gracefulRestart = true ∧ s.pipelineQueueLen = 0

instance (s : State Stage Worker) : Decidable (drained s) := inferInstanceAs (Decidable (_ ∧ _))

/-- Where a worker continues after one insertion of `submit_next`. -/
def resume (r : Nat) : List (Dest Stage) → WorkerPc Stage
  | [] => .top
  | d :: rest => .routing r (d :: rest)

def workerGuard (cfg : Config Stage Worker) (s : State Stage Worker) (w : Worker) :
    WorkerAct Stage Worker → Prop
  | .lock => s.wk w = .top ∧ s.mutex (cfg.rqcb w) = none
  | .empty => s.wk w = .locked ∧ (s.rqcb (cfg.rqcb w)).requestHead = []
  | .wait => s.wk w = .aboutToWait
  | .spurious => s.wk w = .waiting
  | .retry => s.wk w = .woken ∧ s.mutex (cfg.rqcb w) = none ∧ ¬drained s
  | .leave => s.wk w = .woken ∧ s.mutex (cfg.rqcb w) = none ∧ drained s
  | .exit => s.wk w = .leaving
  | .delay r => s.wk w = .locked ∧ (s.rqcb (cfg.rqcb w)).requestHead.head? = some r ∧
      tooEarly cfg s (cfg.rqcb w) r
  | .dequeue r rest => s.wk w = .locked ∧ (s.rqcb (cfg.rqcb w)).requestHead = r :: rest ∧
      ¬tooEarly cfg s (cfg.rqcb w) r
  | .timedOut r cl => s.wk w = .holding r cl ∧ workerTimedOut cfg s r cl
  | .cancelled r cl => s.wk w = .holding r cl ∧ ¬workerTimedOut cfg s r cl ∧ (s.heap r).cancelled = true
  | .noHandler r cl => s.wk w = .holding r cl ∧ ¬workerTimedOut cfg s r cl ∧
      (s.heap r).cancelled = false ∧ ¬(cfg.requestHandler (cfg.rqcb w) = true ∧ cfg.initOk w = true)
  | .handle r cl _ _ _ => s.wk w = .holding r cl ∧ ¬workerTimedOut cfg s r cl ∧
      (s.heap r).cancelled = false ∧ cfg.requestHandler (cfg.rqcb w) = true ∧ cfg.initOk w = true
  | .forward r st rest ws => s.wk w = .routing r (.stage st :: rest) ∧ s.mutex st = none ∧
      SignalOk cfg s st ws
  | .doneLock r rest => s.wk w = .routing r (.done :: rest) ∧ s.doneMutex = none
  | .doneInsert r rest => s.wk w = .doneLocked r rest
  | .doneUnlock r rest => s.wk w = .doneInserted r rest
  | .doneSkip r rest => s.wk w = .doneTest r rest ∧ s.doneSignalled = true
  | .doneClear r rest => s.wk w = .doneTest r rest ∧ s.doneSignalled = false
  | .doneSet r rest => s.wk w = .doneSet r rest
  | .doneWrite r rest => s.wk w = .doneWrite r rest

section
variable [DecidableEq Stage]

instance [Fintype Worker] (cfg : Config Stage Worker) (s : State Stage Worker) (w : Worker)
    (a : WorkerAct Stage Worker) : Decidable (workerGuard cfg s w a) := by
  cases a <;> first
    | exact inferInstanceAs (Decidable (_ ∧ _))
    | exact inferInstanceAs (Decidable (_ = _))

variable [DecidableEq Worker]

/-- One byte is written to descriptor `fd`. -/
def writeByte (cfg : Config Stage Worker) (fd : Nat) (s : State Stage Worker) : State Stage Worker :=
  if fd = cfg.doneFd then { s with donePipe := min (s.donePipe + 1) cfg.pipeCapacity } else s

omit [DecidableEq Stage] [DecidableEq Worker] in
theorem writeByte_keeps {β : Type} (cfg : Config Stage Worker) (fd : Nat) (s : State Stage Worker)
    (f : State Stage Worker → β) (hf : ∀ t n, f { t with donePipe := n } = f t) :
    f (writeByte cfg fd s) = f s := by
  unfold writeByte
  split
  · exact hf s _
  · rfl

def setWk (w : Worker) (pc : WorkerPc Stage) (s : State Stage Worker) : State Stage Worker :=
  { s with wk := Function.update s.wk w pc }

def setMutex (st : Stage) (o : Option (Owner Worker)) (s : State Stage Worker) : State Stage Worker :=
  { s with mutex := Function.update s.mutex st o }

def setReq (r : Nat) (req : Request) (s : State Stage Worker) : State Stage Worker :=
  { s with heap := Function.update s.heap r req }

/-- The access to `rqstp->csp->ci` that every handler call makes. -/
def touchCsp (r : Nat) (s : State Stage Worker) : State Stage Worker :=
  match (s.heap r).csp with
  | some c => modifyConn c ConnState.touch s
  | none => s

omit [DecidableEq Stage] [DecidableEq Worker] in
@[simp] theorem offConns_touchCsp (r : Nat) (s : State Stage Worker) : offConns (touchCsp r s) = offConns s := by
  unfold touchCsp
  split <;> simp

/-- The handler returned: the request and the worker's `WTI` after `submit_next` has chosen the queues. -/
def handled (cfg : Config Stage Worker) (w : Worker) (r : Nat) (calls : List (List Char)) (ret errno : Int)
    (s : State Stage Worker) : State Stage Worker :=
  let routed := submitNext cfg (cfg.rqcb w) (afterCalls cfg (s.nextRqcbp w) calls) (s.heap r).nstage ret errno
  { setWk w (.routing r routed.dests) (setReq r { s.heap r with ret := ret, err := routed.err } s) with
    nextRqcbp := Function.update s.nextRqcbp w routed.nextRqcbp
    trace := .handed r :: s.trace }

/-- `to_next_stage`, without the signal. -/
def toNextStage (st : Stage) (r : Nat) (s : State Stage Worker) : State Stage Worker :=
  setReq r { s.heap r with nstage := (s.heap r).nstage + 1 }
    { s with rqcb := Function.update s.rqcb st ⟨(s.rqcb st).requestHead ++ [r], (s.rqcb st).queueLen + 1⟩ }

def workerEffect (cfg : Config Stage Worker) (s : State Stage Worker) (w : Worker) :
    WorkerAct Stage Worker → State Stage Worker
  | .lock => setWk w .locked (setMutex (cfg.rqcb w) (some (.worker w)) s)
  | .empty => setWk w .aboutToWait s
  | .wait => setWk w .waiting (setMutex (cfg.rqcb w) none s)
  | .spurious => setWk w .woken s
  | .retry => setWk w .locked (setMutex (cfg.rqcb w) (some (.worker w)) s)
  | .leave => setWk w .leaving s
  | .exit =>
    { setWk w .gone s with
      pipelineWorkingThreads := s.pipelineWorkingThreads - 1
      status := if s.pipelineWorkingThreads - 1 = 0 then .exited else s.status }
  | .delay _ => setWk w .top (setMutex (cfg.rqcb w) none s)
  | .dequeue r rest =>
    { setWk w (.holding r (age s r)) (setMutex (cfg.rqcb w) none s) with
      rqcb := Function.update s.rqcb (cfg.rqcb w) ⟨rest, (s.rqcb (cfg.rqcb w)).queueLen - 1⟩ }
  | .timedOut r _ => setWk w (.routing r [.done]) (setReq r { s.heap r with flags := requestTimeOut } s)
  | .cancelled r _ => setWk w (.routing r [.done]) (setReq r { s.heap r with ret := 0, err := 0 } s)
  | .noHandler r _ => setWk w (.routing r [.done]) s
  | .handle r _ calls ret errno => touchCsp r (handled cfg w r calls ret errno s)
  | .forward r st rest ws =>
    setWk w (resume r rest) { toNextStage st r s with wk := wake ws s.wk }
  | .doneLock r rest => { setWk w (.doneLocked r rest) s with doneMutex := some w }
  | .doneInsert r rest =>
    { setWk w (.doneInserted r rest) s with
      doneRqcb := ⟨s.doneRqcb.requestHead ++ [r], s.doneRqcb.queueLen + 1⟩ }
  | .doneUnlock r rest => { setWk w (.doneTest r rest) s with doneMutex := none }
  | .doneSkip r rest => setWk w (resume r rest) s
  | .doneClear r rest => setWk w (.doneSet r rest) s
  | .doneSet r rest => { setWk w (.doneWrite r rest) s with doneSignalled := true }
  | .doneWrite r rest => writeByte cfg cfg.doneFd (setWk w (resume r rest) s)

/-! ### Main thread -/

/-- Why `tcp_conn_handler` closes a connection while it reads from it. -/
inductive Hangup
  /-- `read` returned 0 -/
  | eof
  /-- `read` failed with `ECONNRESET` -/
  | reset
  /-- the protocol returned `PROTOCOL_DISCONNECT` -/
  | disconnect

/-- The steps of the main thread. -/
inductive MainAct (Stage Worker : Type)
  /-- `tcp_socket_event_handler` -/
  | accept
  /-- the event of `c` fires with `EV_READ`, and `tcp_conn_handler` starts to read -/
  | readable (c : Nat)
  /-- the event of `c` fires with `EV_WRITE`: `tcp_send_back_handler` -/
  | writable (c : Nat)
  /-- the event of `c` fires with `EV_TIMEOUT` -/
  | idleTimeout (c : Nat)
  | hangup (c : Nat) (why : Hangup)
  /-- `read` failed with `EWOULDBLOCK`, which is `EAGAIN`: the handler re-arms the event and returns -/
  | readBlocked (c : Nat)
  /-- `fcntl` or `read` failed otherwise: the handler returns -/
  | readDone (c : Nat)
  /-- `tcp_send_back` re-arms the event, in a callback for `c` -/
  | sendBack (c : Nat)
  /-- `udp_socket_event_handler` receives a datagram -/
  | datagram
  | datagramEnd (c : Nat)
  /-- `submit_request` passes its checks -/
  | submit (args : SubmitArgs) (p : Pipeline) (st : Stage)
  /-- `submit_request` returns an error code from its checks -/
  | refuse (args : SubmitArgs) (code : Int)
  /-- the try-lock succeeds -/
  | send (r : Nat) (p : Pipeline) (st : Stage) (flags : UInt32) (concat : Bool)
  /-- the try-lock fails -/
  | buffer (r : Nat) (p : Pipeline) (st : Stage) (flags : UInt32) (concat : Bool)
  | count (r : Nat) (p : Pipeline) (st : Stage) (notice : Bool) (ws : List Worker)
  | countBuffered (r : Nat) (p : Pipeline)
  | noticeSkip (r : Nat) (p : Pipeline)
  | noticeClear (r : Nat) (p : Pipeline)
  | noticeSet (r : Nat) (p : Pipeline)
  | noticeWrite (r : Nat) (p : Pipeline)
  /-- `submit_request` returns the transaction id -/
  | returnTid (r : Nat) (p : Pipeline)
  /-- libevent calls `done_requests_handler` -/
  | event (ev : PipeEvent)
  | drainHit (ev : PipeEvent)
  | drainMiss (ev : PipeEvent)
  | drainRead (ev : PipeEvent)
  | drainReset (ev : PipeEvent)
  | kick (ev : PipeEvent) (ok : Pipeline → Bool) (ws : Pipeline → List Worker)
  /-- nothing to take, or called on a timeout -/
  | skip (ev : PipeEvent)
  | enter
  | take
  /-- the try-lock on the done queue fails -/
  | takeBusy
  /-- the loop over the final queue ends -/
  | finish (rc : BitVec 32)
  /-- the loop takes a request without a connection, and leaves it where it is -/
  | takeNull (r : Nat) (rc : BitVec 32)
  | takeReq (r : Nat) (rc : BitVec 32)
  | respond (r : Nat) (next : Option Nat) (rc : BitVec 32)
  | noResponder (r : Nat) (next : Option Nat) (rc : BitVec 32)
  | responderRet (r : Nat) (next : Option Nat) (rc : BitVec 32)
  | dispose (r : Nat) (next : Option Nat) (rc : BitVec 32)
  | quiet (next : Option Nat) (rc : BitVec 32)
  | startBroadcast (next : Option Nat) (rc : BitVec 32)
  | broadcast (st : Stage) (todo : List Stage) (next : Option Nat) (rc : BitVec 32)
  | broadcastEnd (next : Option Nat) (rc : BitVec 32)

/-- The main thread runs code of the protocol module. -/
def inCallback : MainPc Stage → Bool
  | .session _ | .datagram _ | .calling _ _ => true
  | _ => false

/-- The main thread runs a callback of the protocol for connection `c`. -/
def callbackOf (s : State Stage Worker) (c : Nat) : Bool :=
  match s.main with
  | .session c' | .datagram c' => c' == c
  | .calling r _ => (s.heap r).csp == some c
  | _ => false

/-- The try-locks of `kick_request_queue` that succeed find the mutex free, and the signals release the
workers `ws`. -/
def KickOk (cfg : Config Stage Worker) (s : State Stage Worker) (ok : Pipeline → Bool)
    (ws : Pipeline → List Worker) : Prop :=
  ∀ p ∈ s.apq, ok p = true → (s.pcb p).tmpRequestHead ≠ [] →
    ∀ st ∈ cfg.firstRqcb p, s.mutex st = none ∧ SignalOk cfg s st (ws p)

instance [Fintype Worker] (cfg : Config Stage Worker) (s : State Stage Worker) (ok : Pipeline → Bool)
    (ws : Pipeline → List Worker) : Decidable (KickOk cfg s ok ws) :=
  inferInstanceAs (Decidable (∀ _ ∈ _, _))

/-- The workers that the signals of `kick_request_queue` release. -/
def kickWakes (cfg : Config Stage Worker) (s : State Stage Worker) (ok : Pipeline → Bool)
    (ws : Pipeline → List Worker) : List Worker :=
  (s.apq.filter fun p => ok p && (s.pcb p).tmpRequestHead != [] && (cfg.firstRqcb p).isSome).flatMap ws

def kickAll (cfg : Config Stage Worker) (ok : Pipeline → Bool) (ws : Pipeline → List Worker)
    (s : State Stage Worker) : State Stage Worker :=
  { kickRequestQueue cfg ok s with wk := wake (kickWakes cfg s ok ws) s.wk }

def mainGuard (cfg : Config Stage Worker) (s : State Stage Worker) : MainAct Stage Worker → Prop
  | .accept => s.main = .loop
  | .readable c => s.main = .loop ∧ (s.conns c).armed = true
  | .writable c => s.main = .loop ∧ (s.conns c).armed = true
  | .idleTimeout c => s.main = .loop ∧ (s.conns c).armed = true
  | .hangup c _ => s.main = .session c ∧ s.sub = .none
  | .readBlocked c => s.main = .session c ∧ s.sub = .none
  | .readDone c => s.main = .session c ∧ s.sub = .none
  | .sendBack c => callbackOf s c = true ∧ s.sub = .none ∧ (s.conns c).type = .tcp ∧
      (s.conns c).fdOpen = true
  | .datagram => s.main = .loop
  | .datagramEnd c => s.main = .datagram c ∧ s.sub = .none
  | .submit args p st => inCallback s.main = true ∧ s.sub = .none ∧
      submitCheck cfg args s = .ok (p, st) ∧ s.blocks.length < cfg.maxBlocks
  | .refuse args code => inCallback s.main = true ∧ s.sub = .none ∧
      submitCheck cfg args s = .error code
  | .send r p st flags concat => s.sub = .checked r p st flags concat ∧ s.mutex st = none
  | .buffer r p st flags concat => s.sub = .checked r p st flags concat
  | .count r p st notice ws => s.sub = .inserted r p st notice ∧ SignalOk cfg s st ws
  | .countBuffered r p => s.sub = .buffered r p
  | .noticeSkip r p => s.sub = .noticeTest r p ∧ s.doneSignalled = true
  | .noticeClear r p => s.sub = .noticeTest r p ∧ s.doneSignalled = false
  | .noticeSet r p => s.sub = .noticeSet r p
  | .noticeWrite r p => s.sub = .noticeWrite r p
  | .returnTid r p => s.sub = .sent r p
  | .event ev => s.main = .loop ∧ (ev = .read → 0 < s.donePipe)
  | .drainHit ev => s.main = .drainTest ev ∧ s.doneSignalled = true
  | .drainMiss ev => s.main = .drainTest ev ∧ s.doneSignalled = false
  | .drainRead ev => s.main = .drainRead ev
  | .drainReset ev => s.main = .drainReset ev
  | .kick ev ok ws => s.main = .kick ev ∧ KickOk cfg s ok ws
  | .skip ev => s.main = .testDone ev ∧ (s.doneRqcb.requestHead = [] ∨ ev = .timeout)
  | .enter => s.main = .testDone .read ∧ s.doneRqcb.requestHead ≠ []
  | .take => s.main = .take ∧ s.doneMutex = none
  | .takeBusy => s.main = .take ∧ s.doneMutex ≠ none
  | .finish rc => s.main = .iter none rc
  | .takeNull r rc => s.main = .iter (some r) rc ∧ (s.heap r).csp = none
  | .takeReq r rc => s.main = .iter (some r) rc ∧ (s.heap r).csp ≠ none
  | .respond r next rc => s.main = .respond r next rc ∧
      (s.heap r).cancelled = false ∧ (s.heap r).requestResponder = true
  | .noResponder r next rc => s.main = .respond r next rc ∧
      ¬((s.heap r).cancelled = false ∧ (s.heap r).requestResponder = true)
  | .responderRet r next _ => s.main = .calling r next ∧ s.sub = .none
  | .dispose r next rc => s.main = .dispose r next rc
  | .quiet next rc => s.main = .testExit next rc ∧ ¬drained s
  | .startBroadcast next rc => s.main = .testExit next rc ∧ drained s
  | .broadcast st todo next rc => s.main = .broadcast (st :: todo) next rc
  | .broadcastEnd next rc => s.main = .broadcast [] next rc

instance [Fintype Worker] (cfg : Config Stage Worker) (s : State Stage Worker) (a : MainAct Stage Worker) :
    Decidable (mainGuard cfg s a) := by
  cases a <;> first
    | exact inferInstanceAs (Decidable (_ ∧ _))
    | exact inferInstanceAs (Decidable (_ = _))

/-- `submit_request` between its checks and `send_to_pipeline`. -/
def submitPrepare (args : SubmitArgs) (p : Pipeline) (st : Stage) (s : State Stage Worker) :
    State Stage Worker :=
  let s' := { allocRequest args s with
    sub := .checked s.nreq p st args.flags (decide ((s.pcb p).tmpRequestHead ≠ []))
    trace := .submitted s.nreq p :: s.trace }
  match args.p with
  | some c => modifyConn c ConnState.hold s'
  | none => s'

/-- `send_to_pipeline` got the lock: the refusal that `submit_request` turns into
`SUBMIT_GENERIC_ERROR`, or the request is linked and the lock still held. -/
def sendLocked (cfg : Config Stage Worker) (r : Nat) (p : Pipeline) (st : Stage) (flags : UInt32)
    (concat : Bool) (s : State Stage Worker) : State Stage Worker :=
  match sendToPipeline cfg p st r flags concat s with
  | (s', .full) => { s' with sub := .none }
  | (s', .nullHead) => { s' with status := .crashed }
  | (s', .linked notice) => setMutex st (some .main) { s' with sub := .inserted r p st notice }

def takeDone (s : State Stage Worker) : State Stage Worker :=
  { s with
    finalRequestHead := s.finalRequestHead ++ s.doneRqcb.requestHead
    doneRqcb := ⟨[], 0⟩
    main := .iter (s.finalRequestHead ++ s.doneRqcb.requestHead).head? rcInit }

def takeRequest (r : Nat) (pc : MainPc Stage) (s : State Stage Worker) : State Stage Worker :=
  { s with
    pipelineQueueLen := s.pipelineQueueLen - 1
    trace := .taken r :: s.trace
    main := pc }

def mainEffect (cfg : Config Stage Worker) (s : State Stage Worker) :
    MainAct Stage Worker → State Stage Worker
  | .accept => connectionMade .tcp true s
  | .readable c => { modifyConn c ConnState.eventDel s with main := .session c }
  | .writable c => modifyConn c ConnState.eventAdd s
  | .idleTimeout c => connStateCleanup c (modifyConn c (fun cs => cs.eventDel.connClose) s)
  | .hangup c _ => { connStateCleanup c (modifyConn c ConnState.connClose s) with main := .loop }
  | .readBlocked c => { modifyConn c ConnState.eventAdd s with main := .loop }
  | .readDone _ => { s with main := .loop }
  | .sendBack c => modifyConn c ConnState.eventAdd s
  | .datagram => { connectionMade .udp false s with main := .datagram s.nconn }
  | .datagramEnd c =>
    { modifyConn c (fun cs => cs.connectionLost.rele) s with
      connectionCounter := s.connectionCounter - 1
      main := .loop }
  | .submit args p st => submitPrepare args p st s
  | .refuse _ _ => s
  | .send r p st flags concat => sendLocked cfg r p st flags concat s
  | .buffer r p _ _ _ => { bufferTmp p r s with sub := .buffered r p }
  | .count r p st notice ws =>
    setMutex st none { countInserted st r s with
      wk := wake ws s.wk
      sub := if notice then .noticeTest r p else .sent r p }
  | .countBuffered r p => { countBuffered p r s with sub := .sent r p }
  | .noticeSkip r p => { s with sub := .sent r p }
  | .noticeClear r p => { s with sub := .noticeSet r p }
  | .noticeSet r p => { s with sub := .noticeWrite r p, doneSignalled := true }
  | .noticeWrite r p => writeByte cfg infoDoneFd { s with sub := .sent r p }
  | .returnTid r p =>
    { s with
      sub := .none
      pcb := Function.update s.pcb p { s.pcb p with counter := (s.pcb p).counter + 1 }
      trace := .accepted r :: s.trace }
  | .event ev =>
    { s with
      main := .drainTest ev
      batch := match ev with
        | .read => s.finalRequestHead
        | .timeout => [] }
  | .drainHit ev => { s with main := .drainRead ev }
  | .drainMiss ev => { s with main := .kick ev }
  | .drainRead ev => { s with main := .drainReset ev, donePipe := s.donePipe - junkSize }
  | .drainReset ev => { s with main := .kick ev, doneSignalled := false }
  | .kick ev ok ws => { kickAll cfg ok ws s with main := .testDone ev }
  | .skip _ => { s with main := .loop }
  | .enter => { s with main := .take }
  | .take => takeDone s
  | .takeBusy => { s with main := .iter s.finalRequestHead.head? rcInit }
  | .finish _ => { s with main := .loop }
  | .takeNull r rc =>
    { takeRequest r (.iter (tailqNext r s.finalRequestHead) rc) s with
      trace := .passed r :: .taken r :: s.trace }
  | .takeReq r rc => takeRequest r (.respond r (tailqNext r s.finalRequestHead) rc) s
  | .respond r next _ => { touchCsp r s with main := .calling r next, trace := .responded r :: s.trace }
  | .noResponder r next rc => { s with main := .dispose r next rc }
  | .responderRet r next rc => { s with main := .dispose r next rc }
  | .dispose r next rc => { disposeRequest r rc s with main := .testExit next rc }
  | .quiet next rc => { s with main := .iter next rc }
  | .startBroadcast next rc => { s with main := .broadcast cfg.allRqcbs next rc }
  | .broadcast st todo next rc =>
    { s with main := .broadcast todo next rc, wk := broadcastWake cfg st s.wk }
  | .broadcastEnd next rc => { s with main := .iter next rc }

/-! ### Signal thread -/

/-- The steps of the signal thread in `HUP_process`. -/
inductive SignalAct (Stage Worker : Type)
  /-- a SIGHUP arrives, `graceful_restart` is set -/
  | hup
  | kick (ok : Pipeline → Bool) (ws : Pipeline → List Worker)
  | quiet
  | startBroadcast
  | broadcast (st : Stage) (todo : List Stage)
  | finish

def signalGuard (cfg : Config Stage Worker) (s : State Stage Worker) : SignalAct Stage Worker → Prop
  | .hup => s.sig = .idle
  | .kick ok ws => s.sig = .kick ∧ KickOk cfg s ok ws
  | .quiet => s.sig = .testLen ∧ s.pipelineQueueLen ≠ 0
  | .startBroadcast => s.sig = .testLen ∧ s.pipelineQueueLen = 0
  | .broadcast st todo => s.sig = .broadcast (st :: todo)
  | .finish => s.sig = .broadcast []

instance [Fintype Worker] (cfg : Config Stage Worker) (s : State Stage Worker)
    (a : SignalAct Stage Worker) : Decidable (signalGuard cfg s a) := by
  cases a <;> first
    | exact inferInstanceAs (Decidable (_ ∧ _))
    | exact inferInstanceAs (Decidable (_ = _))

def signalEffect (cfg : Config Stage Worker) (s : State Stage Worker) :
    SignalAct Stage Worker → State Stage Worker
  | .hup => { s with gracefulRestart := true, sig := .kick }
  | .kick ok ws => { kickAll cfg ok ws s with sig := .testLen }
  | .quiet => { s with sig := .idle }
  | .startBroadcast => { s with sig := .broadcast cfg.allRqcbs }
  | .broadcast st todo => { s with sig := .broadcast todo, wk := broadcastWake cfg st s.wk }
  | .finish => { s with sig := .idle }

/-! ### The machine -/

/-- A step of one of the threads, of the clock, or a call of `request_cancel`. -/
inductive Action (Stage Worker : Type)
  | worker (w : Worker) (a : WorkerAct Stage Worker)
  | main (a : MainAct Stage Worker)
  | signals (a : SignalAct Stage Worker)
  /-- the signal thread's timer advances `clock_off` -/
  | tick
  | cancel (r : Nat)

def Guard (cfg : Config Stage Worker) (s : State Stage Worker) : Action Stage Worker → Prop
  | .worker w a => workerGuard cfg s w a
  | .main a => mainGuard cfg s a
  | .signals a => signalGuard cfg s a
  | .tick => True
  | .cancel r => r ∈ s.blocks

instance [Fintype Worker] (cfg : Config Stage Worker) (s : State Stage Worker) :
    (a : Action Stage Worker) → Decidable (Guard cfg s a)
  | .worker w a => inferInstanceAs (Decidable (workerGuard cfg s w a))
  | .main a => inferInstanceAs (Decidable (mainGuard cfg s a))
  | .signals a => inferInstanceAs (Decidable (signalGuard cfg s a))
  | .tick => inferInstanceAs (Decidable True)
  | .cancel r => inferInstanceAs (Decidable (r ∈ s.blocks))

def effect (cfg : Config Stage Worker) (s : State Stage Worker) :
    Action Stage Worker → State Stage Worker
  | .worker w a => workerEffect cfg s w a
  | .main a => mainEffect cfg s a
  | .signals a => signalEffect cfg s a
  | .tick => { s with clockOff := s.clockOff + 1 }
  | .cancel r => setReq r { s.heap r with cancelled := true } s

variable [Fintype Worker]

/-- One step of the process. -/
def step (cfg : Config Stage Worker) (s : State Stage Worker) (a : Action Stage Worker) :
    Option (State Stage Worker) :=
  if s.status = .running ∧ Guard cfg s a then some (effect cfg s a) else none

/-- The states that runs restricted by `R` reach. -/
abbrev Reachable (cfg : Config Stage Worker)
    (R : State Stage Worker → Action Stage Worker → State Stage Worker → Prop) :
    State Stage Worker → Prop :=
  Lib.Reach (step cfg) R State.init

theorem step_eq_some {cfg : Config Stage Worker} {s s' : State Stage Worker} {a : Action Stage Worker}
    (h : step cfg s a = some s') : s.status = .running ∧ Guard cfg s a ∧ s' = effect cfg s a := by
  unfold step at h
  split_ifs at h with hg
  exact ⟨hg.1, hg.2, (Option.some.inj h).symm⟩

end

theorem exists_reachable [DecidableEq Stage] [DecidableEq Worker] [Fintype Worker] (cfg : Config Stage Worker)
    (R : State Stage Worker → Action Stage Worker → State Stage Worker → Prop)
    [∀ s a s', Decidable (R s a s')] (as : List (Action Stage Worker)) {P : State Stage Worker → Prop}
    [DecidablePred P]
    (h : (Lib.run (step cfg) (fun s a s' => decide (R s a s')) State.init as).any (fun s => decide (P s)) = true) :
    ∃ s, Reachable cfg R s ∧ P s :=
  Lib.exists_reach (step cfg) R State.init as h

/-! ### A small server -/

/-- One pipeline with one stage `a` and one worker. -/
def oneStage (size : UInt64) (timeout : Int) : Config (Fin 1) (Fin 1) where
  chain p := if p = 0 then [0] else []
  chain_nodup := by decide
  chain_cover := by decide
  modName _ := ['a']
  delay _ := 0
  requestHandler _ := true
  rqcb _ := 0
  initOk _ := true
  pipelineQueueSize := size
  requestTimeout := timeout
  doneFd := typicalDoneFd
  doneFd_pos := typicalDoneFd_pos
  pipeCapacity := typicalPipeCapacity
  pipeCapacity_pos := typicalPipeCapacity_pos
  maxBlocks := typicalMaxBlocks
  maxBlocks_lt := typicalMaxBlocks_lt

/-- A submission to pipeline 0 for connection 0, with a responder and a data cleaner. -/
def submitZero (flags : UInt32) : SubmitArgs := ⟨some 0, 0, true, true, flags, none⟩

/-- The steps of a submission whose try-lock succeeds and that evicts nothing. -/
def submitSteps (r : Nat) (flags : UInt32) : List (Action (Fin 1) (Fin 1)) :=
  [.main (.submit (submitZero flags) 0 0), .main (.send r 0 0 flags false), .main (.count r 0 0 false []),
    .main (.returnTid r 0)]

/-- The steps of a submission whose try-lock fails; `concat` says that there are buffered requests before it. -/
def bufferSteps (r : Nat) (concat : Bool) : List (Action (Fin 1) (Fin 1)) :=
  [.main (.submit (submitZero 0) 0 0), .main (.buffer r 0 0 0 concat), .main (.countBuffered r 0),
    .main (.returnTid r 0)]

/-- The steps of a forced submission that kicks out a request; `told` says that `done_signalled` is set. -/
def kickOutSteps (r : Nat) (told : Bool) : List (Action (Fin 1) (Fin 1)) :=
  [.main (.submit (submitZero (requestForce ||| requestKickOut)) 0 0),
    .main (.send r 0 0 (requestForce ||| requestKickOut) false), .main (.count r 0 0 true [])] ++
  (if told then [.main (.noticeSkip r 0)]
    else [.main (.noticeClear r 0), .main (.noticeSet r 0), .main (.noticeWrite r 0)]) ++
  [.main (.returnTid r 0)]

/-- The worker takes `r` off the queue, leaving `rest`, and its handler returns `ret`. -/
def handleSteps (r : Nat) (rest : List Nat) (ret : Int) : List (Action (Fin 1) (Fin 1)) :=
  [.worker 0 .lock, .worker 0 (.dequeue r rest), .worker 0 (.handle r 0 [] ret 0)]

/-- The worker handles request 0 once more, past the limit of stage jumps; `signalled` says that `done_signalled`
is set. -/
def pastLimitSteps (signalled : Bool) : List (Action (Fin 1) (Fin 1)) :=
  handleSteps 0 [] pipelineRequeue ++ [.worker 0 (.doneLock 0 [.stage 0]), .worker 0 (.doneInsert 0 [.stage 0]),
    .worker 0 (.doneUnlock 0 [.stage 0])] ++
  (if signalled then [.worker 0 (.doneSkip 0 [.stage 0])]
    else [.worker 0 (.doneClear 0 [.stage 0]), .worker 0 (.doneSet 0 [.stage 0]),
      .worker 0 (.doneWrite 0 [.stage 0])]) ++
  [.worker 0 (.forward 0 0 [] [])]

/-- The worker hands `r` to the done stage and writes to the done pipe. -/
def doneSteps (r : Nat) : List (Action (Fin 1) (Fin 1)) :=
  [.worker 0 (.doneLock r []), .worker 0 (.doneInsert r []), .worker 0 (.doneUnlock r []),
    .worker 0 (.doneClear r []), .worker 0 (.doneSet r []), .worker 0 (.doneWrite r [])]

/-- A submission to pipeline 0 without a connection, in a block that held `stale` in its place. -/
def submitNull (stale : Option Nat) : SubmitArgs := ⟨none, 0, true, true, 0, stale⟩

/-- A session submits a request without a connection and a worker handles it. -/
def nullSteps (stale : Option Nat) : List (Action (Fin 1) (Fin 1)) :=
  [.main .accept, .main (.readable 0), .main (.submit (submitNull stale) 0 0), .main (.send 0 0 0 0 false),
    .main (.count 0 0 0 false []), .main (.returnTid 0 0)] ++ handleSteps 0 [] 0 ++ doneSteps 0

/-- The done loop takes `r`, whose responder returns `rc`, and moves on to `next`. -/
def completeSteps (r : Nat) (next : Option Nat) (rc rc' : BitVec 32) : List (Action (Fin 1) (Fin 1)) :=
  [.main (.takeReq r rc), .main (.respond r next rc), .main (.responderRet r next rc'), .main (.dispose r next rc'),
    .main (.quiet next rc')]

/-- `done_requests_handler` on `EV_READ` up to the head of its loop. -/
def takeSteps : List (Action (Fin 1) (Fin 1)) :=
  [.main (.event .read), .main (.drainHit .read), .main (.drainRead .read), .main (.drainReset .read),
    .main (.kick .read (fun _ => false) fun _ => []), .main .enter, .main .take]

/-- The signal thread handles a SIGHUP while the counter is 0. -/
def restartSteps : List (Action (Fin 1) (Fin 1)) :=
  [.signals .hup, .signals (.kick (fun _ => true) fun _ => []), .signals .startBroadcast, .signals (.broadcast 0 []),
    .signals .finish]

/-! ### Two workers of one stage -/

/-- One pipeline with one stage `a` and two workers. -/
def twoWorkers : Config (Fin 1) (Fin 2) where
  chain p := if p = 0 then [0] else []
  chain_nodup := by decide
  chain_cover := by decide
  modName _ := ['a']
  delay _ := 0
  requestHandler _ := true
  rqcb _ := 0
  initOk _ := true
  pipelineQueueSize := 8
  requestTimeout := 0
  doneFd := typicalDoneFd
  doneFd_pos := typicalDoneFd_pos
  pipeCapacity := typicalPipeCapacity
  pipeCapacity_pos := typicalPipeCapacity_pos
  maxBlocks := typicalMaxBlocks
  maxBlocks_lt := typicalMaxBlocks_lt

/-- The steps of a submission whose try-lock succeeds. -/
def sharedSubmit (r : Nat) : List (Action (Fin 1) (Fin 2)) :=
  [.main (.submit (submitZero 0) 0 0), .main (.send r 0 0 0 false), .main (.count r 0 0 false []),
    .main (.returnTid r 0)]

/-- A worker takes `r` off the queue, leaving `rest`. -/
def sharedTake (w : Fin 2) (r : Nat) (rest : List Nat) : List (Action (Fin 1) (Fin 2)) :=
  [.worker w .lock, .worker w (.dequeue r rest)]

/-- The first worker takes request 0 and puts it back, `n` times. -/
def sharedRounds (n : Nat) (rest : List Nat) : List (Action (Fin 1) (Fin 2)) :=
  (List.replicate n (sharedTake 0 0 rest ++
    [.worker 0 (.handle 0 0 [] pipelineRequeue 0), .worker 0 (.forward 0 0 [] [])])).flatten

/-- The first worker takes request 0 and puts it back past the limit of stage jumps: on the done queue and on the queue
of the stage. -/
def sharedPastLimit : List (Action (Fin 1) (Fin 2)) :=
  sharedTake 0 0 [] ++ [.worker 0 (.handle 0 0 [] pipelineRequeue 0), .worker 0 (.doneLock 0 [.stage 0]),
    .worker 0 (.doneInsert 0 [.stage 0]), .worker 0 (.doneUnlock 0 [.stage 0]), .worker 0 (.doneClear 0 [.stage 0]),
    .worker 0 (.doneSet 0 [.stage 0]), .worker 0 (.doneWrite 0 [.stage 0]), .worker 0 (.forward 0 0 [] [])]

/-- The second worker finishes request 1 while `done_signalled` is set. -/
def sharedFinish : List (Action (Fin 1) (Fin 2)) :=
  [.worker 1 (.handle 1 0 [] 0 0), .worker 1 (.doneLock 1 []), .worker 1 (.doneInsert 1 []),
    .worker 1 (.doneUnlock 1 []), .worker 1 (.doneSkip 1 [])]

end Csf
