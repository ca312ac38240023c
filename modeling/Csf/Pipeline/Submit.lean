import Csf.Pipeline.Model
import Mathlib.Data.List.Basic

/-!
# Submission: `submit_request.c` and `kick_request_queue`

The functions of the main thread that link requests into the pipeline. `submit_request` is cut at the
points where other threads can observe it: `submitCheck` (the tests up to the full-queue test),
`submitPrepare` (the new `REQUEST` and its transaction id), `sendToPipeline` (the branch of
`send_to_pipeline` that holds the first stage's mutex, up to the insertion), `bufferTmp` (the branch that
failed the try-lock), and the counter updates, which the machine performs as steps of their own.
-/

namespace Csf

variable {Stage Worker : Type}

/-! ### Overflow queue -/

/-- `TAILQ_REMOVE` of a pipeline from `apq` and `TAILQ_ENTRY_INIT` of its entry. -/
def unlinkActive (p : Pipeline) (s : State Stage Worker) : State Stage Worker :=
  { s with
    apq := s.apq.erase p
    pcb := Function.update s.pcb p { s.pcb p with activeQueueEntry := false } }

variable [DecidableEq Stage]

/-- `TAILQ_CONCAT` of the temporary queue of `p` onto the queue of `st`, with the two lengths. -/
def concatTmp (p : Pipeline) (st : Stage) (s : State Stage Worker) : State Stage Worker :=
  { s with
    rqcb := Function.update s.rqcb st
      ⟨(s.rqcb st).requestHead ++ (s.pcb p).tmpRequestHead,
        (s.rqcb st).queueLen + (s.pcb p).tmpQueueLen⟩
    pcb := Function.update s.pcb p { s.pcb p with tmpRequestHead := [], tmpQueueLen := 0 } }

/-- The body of the loop of `kick_request_queue`; `ok p` says whether the try-lock on the first stage of
`p` succeeds. -/
def kickPcb (cfg : Config Stage Worker) (ok : Pipeline → Bool) (s : State Stage Worker) (p : Pipeline) :
    State Stage Worker :=
  if (s.pcb p).tmpRequestHead = [] then unlinkActive p s
  else
    match cfg.firstRqcb p with
    | some st => if ok p then unlinkActive p (concatTmp p st s) else s
    | none => s

/-- `kick_request_queue`, from one end of the list to the other while no other thread touches it. The main thread and the
signal thread both call it, without a lock: what happens when the two calls overlap is not described here. -/
def kickRequestQueue (cfg : Config Stage Worker) (ok : Pipeline → Bool) (s : State Stage Worker) :
    State Stage Worker :=
  s.apq.foldl (kickPcb cfg ok) s

/-! ### `send_to_pipeline` -/

/-- Move a request from a first-stage queue to the final queue, with the two counters. -/
def evict (st : Stage) (r : Nat) (s : State Stage Worker) : State Stage Worker :=
  { s with
    rqcb := Function.update s.rqcb st ⟨(s.rqcb st).requestHead.erase r, (s.rqcb st).queueLen - 1⟩
    pipelineQueueLen := s.pipelineQueueLen - 1
    finalRequestHead := s.finalRequestHead ++ [r]
    trace := .evicted r :: s.trace }

/-- The move of the buffered requests at the start of `send_to_pipeline`, when `concat` is set. -/
def concatBuffered (p : Pipeline) (st : Stage) (concat : Bool) (s : State Stage Worker) :
    State Stage Worker :=
  if concat then
    if (s.pcb p).activeQueueEntry then unlinkActive p (concatTmp p st s) else concatTmp p st s
  else s

/-- `first_rqcbp->queue_len >= req_info->pipeline_queue_size` -/
def stageFull (cfg : Config Stage Worker) (st : Stage) (s : State Stage Worker) : Bool :=
  decide (cfg.pipelineQueueSize ≤ (s.rqcb st).queueLen.toUInt64)

def kicksOut (cfg : Config Stage Worker) (st : Stage) (flags : UInt32) (s : State Stage Worker) : Bool :=
  hasFlag flags requestForce && hasFlag flags requestKickOut && stageFull cfg st s

def sweeps (cfg : Config Stage Worker) (flags : UInt32) : Bool :=
  hasFlag flags requestTimeOut && cfg.requestTimeout != 0

/-- The request is older than the request timeout. -/
def expired (cfg : Config Stage Worker) (s : State Stage Worker) (r : Nat) : Bool :=
  decide (cfg.requestTimeout < s.clockOff - (s.heap r).clock)

/-- The kick-out branch for the head `h` of the queue. -/
def kickOutHead (st : Stage) (h : Nat) (s : State Stage Worker) : State Stage Worker :=
  evict st h { s with heap := Function.update s.heap h { s.heap h with flags := requestKickOut } }

def sweepOne (cfg : Config Stage Worker) (st : Stage) (s : State Stage Worker) (r : Nat) :
    State Stage Worker :=
  if expired cfg s r then evict st r s else s

def sweepTimedOut (cfg : Config Stage Worker) (st : Stage) (flags : UInt32) (s : State Stage Worker) :
    State Stage Worker :=
  if sweeps cfg flags then (s.rqcb st).requestHead.foldl (sweepOne cfg st) s else s

def sweepHits (cfg : Config Stage Worker) (st : Stage) (flags : UInt32) (s : State Stage Worker) : Bool :=
  sweeps cfg flags && (s.rqcb st).requestHead.any (expired cfg s)

def insertTail (st : Stage) (r : Nat) (s : State Stage Worker) : State Stage Worker :=
  { s with
    rqcb := Function.update s.rqcb st ⟨(s.rqcb st).requestHead ++ [r], (s.rqcb st).queueLen⟩
    trace := .inserted r :: s.trace }

/-- How the locked branch of `send_to_pipeline` ends. -/
inductive SendResult
  /-- `SUBMIT_QUEUE_FULL` -/
  | full
  /-- `TAILQ_FIRST` of an empty queue was dereferenced -/
  | nullHead
  /-- the request is linked; `notice` is `notice_flags` -/
  | linked (notice : Bool)
  deriving DecidableEq

/-- The sweep and the insertion, the part of the locked branch after the kick-out. -/
def sweepAndInsert (cfg : Config Stage Worker) (st : Stage) (r : Nat) (flags : UInt32) (kicked : Bool)
    (s : State Stage Worker) : State Stage Worker × SendResult :=
  (insertTail st r (sweepTimedOut cfg st flags s), .linked (kicked || sweepHits cfg st flags s))

/-- The branch of `send_to_pipeline` that got the lock, up to the insertion of the request. -/
def sendToPipeline (cfg : Config Stage Worker) (p : Pipeline) (st : Stage) (r : Nat) (flags : UInt32)
    (concat : Bool) (s : State Stage Worker) : State Stage Worker × SendResult :=
  let s := concatBuffered p st concat s
  if !hasFlag flags requestForce && stageFull cfg st s then (s, .full)
  else if kicksOut cfg st flags s then
    match (s.rqcb st).requestHead with
    | [] => (s, .nullHead)
    | h :: _ => sweepAndInsert cfg st r flags true (kickOutHead st h s)
  else sweepAndInsert cfg st r flags false s

/-- The locked branch refuses the request: the first stage is full. -/
def refuses (cfg : Config Stage Worker) (p : Pipeline) (st : Stage) (flags : UInt32) (concat : Bool)
    (s : State Stage Worker) : Bool :=
  !hasFlag flags requestForce && stageFull cfg st (concatBuffered p st concat s)

/-- The locked branch moves a request to the final queue: the kick-out or the sweep finds one. -/
def evicts (cfg : Config Stage Worker) (p : Pipeline) (st : Stage) (flags : UInt32) (concat : Bool)
    (s : State Stage Worker) : Bool :=
  kicksOut cfg st flags (concatBuffered p st concat s) ||
    (!refuses cfg p st flags concat s && sweepHits cfg st flags (concatBuffered p st concat s))

theorem refuses_of_full {cfg : Config Stage Worker} {p : Pipeline} {st : Stage} {r : Nat} {flags : UInt32}
    {concat : Bool} {s : State Stage Worker} (h : (sendToPipeline cfg p st r flags concat s).2 = .full) :
    refuses cfg p st flags concat s = true := by
  unfold sendToPipeline at h
  simp only at h
  split at h
  · assumption
  · split at h
    · split at h <;> simp [sweepAndInsert] at h
    · simp [sweepAndInsert] at h

theorem evicts_of_linked {cfg : Config Stage Worker} {p : Pipeline} {st : Stage} {r : Nat} {flags : UInt32}
    {concat : Bool} {s : State Stage Worker} {notice : Bool}
    (h : (sendToPipeline cfg p st r flags concat s).2 = .linked notice) :
    notice = evicts cfg p st flags concat s := by
  unfold sendToPipeline at h
  simp only at h
  split at h
  · cases h
  · rename_i hroom
    split at h
    · rename_i hkick
      split at h
      · cases h
      · simp only [sweepAndInsert, Bool.true_or, SendResult.linked.injEq] at h
        simp [← h, evicts, hkick]
    · rename_i hkick
      simp only [sweepAndInsert, Bool.false_or, SendResult.linked.injEq] at h
      simp [← h, evicts, refuses, hkick, hroom]

/-- The branch of `send_to_pipeline` that failed the try-lock: the request goes to the temporary queue. -/
def bufferTmp (p : Pipeline) (r : Nat) (s : State Stage Worker) : State Stage Worker :=
  { s with
    pcb := Function.update s.pcb p
      { s.pcb p with
        tmpRequestHead := (s.pcb p).tmpRequestHead ++ [r]
        tmpQueueLen := (s.pcb p).tmpQueueLen + 1 }
    trace := .inserted r :: s.trace }

/-- The rest of that branch: the counter, and the pipeline goes on the active list. -/
def countBuffered (p : Pipeline) (r : Nat) (s : State Stage Worker) : State Stage Worker :=
  { s with
    pipelineQueueLen := s.pipelineQueueLen + 1
    apq := if (s.pcb p).activeQueueEntry then s.apq else s.apq ++ [p]
    pcb := Function.update s.pcb p { s.pcb p with activeQueueEntry := true }
    trace := .counted r :: s.trace }

/-- The rest of the locked branch: the two counters. -/
def countInserted (st : Stage) (r : Nat) (s : State Stage Worker) : State Stage Worker :=
  { s with
    pipelineQueueLen := s.pipelineQueueLen + 1
    rqcb := Function.update s.rqcb st ⟨(s.rqcb st).requestHead, (s.rqcb st).queueLen + 1⟩
    trace := .counted r :: s.trace }

/-! ### `submit_request` -/

/-- The arguments of `submit_request`. `stale` is what the recycled block held in `csp` before: the
function does not write the field when `p` is NULL. -/
structure SubmitArgs where
  p : Option Nat
  pipelineId : UInt32
  dataCleaner : Bool
  responder : Bool
  flags : UInt32
  stale : Option Nat

/-- The tests at the start of `submit_request`: the return code of a refusal, or the pipeline and its
first stage. -/
def submitCheck (cfg : Config Stage Worker) (args : SubmitArgs) (s : State Stage Worker) :
    Except Int (Pipeline × Stage) :=
  if h : args.pipelineId.toNat < pipelineSize then
    if s.gracefulRestart then .error submitGenericError
    else
      match cfg.firstRqcb ⟨args.pipelineId.toNat, h⟩ with
      | none => .error submitGenericError
      | some st =>
        if !hasFlag args.flags requestForce && decide (cfg.pipelineQueueSize ≤ s.pipelineQueueLen) then
          .error submitQueueFull
        else .ok (⟨args.pipelineId.toNat, h⟩, st)
  else .error submitGenericError

omit [DecidableEq Stage] in
theorem submitCheck_eq_ok_iff {cfg : Config Stage Worker} {args : SubmitArgs} {s : State Stage Worker} {p : Pipeline}
    {st : Stage} :
    submitCheck cfg args s = .ok (p, st) ↔ args.pipelineId.toNat = p ∧ s.gracefulRestart = false ∧
      cfg.firstRqcb p = some st ∧
      (hasFlag args.flags requestForce = true ∨ s.pipelineQueueLen < cfg.pipelineQueueSize) := by
  have hroom : (!hasFlag args.flags requestForce && decide (cfg.pipelineQueueSize ≤ s.pipelineQueueLen)) = false ↔
      hasFlag args.flags requestForce = true ∨ s.pipelineQueueLen < cfg.pipelineQueueSize := by
    rw [Bool.and_eq_false_iff, Bool.not_eq_false', decide_eq_false_iff_not, UInt64.not_le]
  rw [← hroom]
  unfold submitCheck
  constructor
  · intro h
    split_ifs at h with hid hgraceful hfull
    · split at h <;> exact absurd h (by simp only [reduceCtorEq, not_false_iff])
    · split at h
      · exact absurd h (by simp only [reduceCtorEq, not_false_iff])
      next st' hfirst =>
        obtain ⟨rfl, rfl⟩ := Prod.mk.inj (Except.ok.inj h)
        exact ⟨rfl, Bool.eq_false_iff.mpr hgraceful, hfirst, Bool.eq_false_iff.mpr hfull⟩
  · rintro ⟨hp, hgraceful, hfirst, hfull⟩
    have hid : args.pipelineId.toNat < pipelineSize := hp ▸ p.isLt
    obtain rfl : ⟨args.pipelineId.toNat, hid⟩ = p := Fin.ext hp
    rw [dif_pos hid, hgraceful, if_neg Bool.false_ne_true, hfirst]
    dsimp only
    rw [hfull, if_neg Bool.false_ne_true]

omit [DecidableEq Stage] in
theorem code_of_submitCheck {cfg : Config Stage Worker} {args : SubmitArgs} {s : State Stage Worker} {code : Int}
    (h : submitCheck cfg args s = .error code) :
    code = submitQueueFull ∨ code = submitGenericError ∧
      (s.gracefulRestart = false → ∀ hid, cfg.firstRqcb ⟨args.pipelineId.toNat, hid⟩ = none) := by
  unfold submitCheck at h
  split_ifs at h with hid hgraceful
  · exact .inr ⟨(Except.error.inj h).symm, fun hno => absurd hgraceful (Bool.eq_false_iff.mp hno)⟩
  · split at h
    next hfirst => exact .inr ⟨(Except.error.inj h).symm, fun _ _ => hfirst⟩
    next st hfirst => exact .inl (Except.error.inj h).symm
  · split at h
    next hfirst => exact .inr ⟨(Except.error.inj h).symm, fun _ _ => hfirst⟩
    next st hfirst => exact absurd h (by simp only [reduceCtorEq, not_false_iff])
  · exact .inr ⟨(Except.error.inj h).symm, fun _ hid' => absurd hid' hid⟩

def newRequest (args : SubmitArgs) (s : State Stage Worker) : Request where
  requestResponder := args.responder
  dataCleaner := args.dataCleaner
  tid := ((args.pipelineId &&& 0x7f).toUInt64 <<< 56) + (s.inc + 1)
  nstage := 0
  clock := s.clockOff
  csp := match args.p with
    | some c => some c
    | none => args.stale
  flags := requestNone
  ret := -1
  err := 0
  cancelled := false

def allocRequest (args : SubmitArgs) (s : State Stage Worker) : State Stage Worker :=
  { s with
    heap := Function.update s.heap s.nreq (newRequest args s)
    blocks := s.nreq :: s.blocks
    nreq := s.nreq + 1
    inc := s.inc + 1 }

end Csf
