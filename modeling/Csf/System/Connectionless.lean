import Csf.System.Counter

/-!
# Requests without a connection

`submit_request` accepts `p == NULL` and then leaves `rqstp->csp` as the recycled block had it. `Alike` relates two
states of the process that differ only in what such blocks held (and in the ghost flag of a connection that a stray
pointer may have touched). No step tells alike states apart until the loop of `done_requests_handler` comes to a
request without a connection (`alike_step`); there the field decides what the loop does.
-/

namespace Csf

open Lib

variable {Stage Worker : Type}

/-- The blocks that a step allocates for a submission without a connection, and whether it has a data cleaner. -/
def nullSubmits (s : State Stage Worker) : Action Stage Worker → List (Nat × Bool)
  | .main (.submit args _ _) => if args.p.isNone then [(s.nreq, args.dataCleaner)] else []
  | _ => []

/-- A step without the former content of the block it allocates. -/
def forget : Action Stage Worker → Action Stage Worker
  | .main (.submit args p st) => .main (.submit { args with stale := none } p st)
  | a => a

def ConnState.untouched (cs : ConnState) : ConnState := { cs with touchedAfterFree := false }

/-- Two contents of block `r` that differ at most in the connection, and only if the block is one of `N`. -/
structure SameReq (N : List Nat) (r : Nat) (q q' : Request) : Prop where
  rest : q' = { q with csp := q'.csp }
  csp : r ∉ N → q'.csp = q.csp

def withBlocks (h : Nat → Request) (k : Nat → ConnState) (s : State Stage Worker) : State Stage Worker :=
  { s with heap := h, conns := k }

/-- Two states that differ only in the connections of the requests `N`, and in what is recorded about touching
connections. -/
structure Alike (N : List Nat) (s s' : State Stage Worker) : Prop where
  rest : s' = withBlocks s'.heap s'.conns s
  heap : ∀ r, SameReq N r (s.heap r) (s'.heap r)
  conns : ∀ c, (s'.conns c).untouched = (s.conns c).untouched

/-! ### Connections -/

/-- An operation on connections that does not read the ghost flag. -/
def Blind (f : ConnState → ConnState) : Prop :=
  ∀ cs cs' : ConnState, cs'.untouched = cs.untouched → (f cs').untouched = (f cs).untouched

theorem blind_of_untouched {f : ConnState → ConnState}
    (h : ∀ cs : ConnState, (f cs).untouched = (f cs.untouched).untouched) : Blind f := by
  intro cs cs' hcs
  rw [h cs', h cs, hcs]

theorem blind_hold : Blind ConnState.hold := blind_of_untouched fun _ => rfl

theorem blind_rele : Blind ConnState.rele := blind_of_untouched fun _ => rfl

theorem blind_eventAdd : Blind ConnState.eventAdd := blind_of_untouched fun _ => rfl

theorem blind_eventDel : Blind ConnState.eventDel := blind_of_untouched fun _ => rfl

theorem blind_connClose : Blind ConnState.connClose := blind_of_untouched fun cs => by
  rcases cs with ⟨type, _⟩
  cases type <;> rfl

theorem blind_connectionLost : Blind ConnState.connectionLost := blind_of_untouched fun _ => rfl

theorem Blind.comp {f g : ConnState → ConnState} (hf : Blind f) (hg : Blind g) : Blind fun cs => g (f cs) :=
  fun cs cs' h => hg _ _ (hf cs cs' h)

theorem blind_stateCleanup : Blind ConnState.stateCleanup :=
  (blind_connectionLost.comp blind_eventDel).comp blind_rele

theorem SameReq.refl (N : List Nat) (r : Nat) (q : Request) : SameReq N r q q := ⟨rfl, fun _ => rfl⟩

theorem SameReq.mono {N N' : List Nat} {r : Nat} {q q' : Request} (h : SameReq N r q q') (hN : N ⊆ N') :
    SameReq N' r q q' := ⟨h.rest, fun hr => h.csp fun hin => hr (hN hin)⟩

theorem SameReq.symm {N : List Nat} {r : Nat} {q q' : Request} (h : SameReq N r q q') : SameReq N r q' q where
  rest := by
    rw [h.rest]
  csp hr := (h.csp hr).symm

theorem SameReq.trans {N : List Nat} {r : Nat} {q q' q'' : Request} (h : SameReq N r q q') (h' : SameReq N r q' q'') :
    SameReq N r q q'' where
  rest := by
    rw [h'.rest, h.rest]
  csp hr := (h'.csp hr).trans (h.csp hr)

theorem SameReq.map {N : List Nat} {r : Nat} {q q' : Request} (h : SameReq N r q q') (g : Request → Request)
    (hg : ∀ q c, g { q with csp := c } = { g q with csp := c }) : SameReq N r (g q) (g q') := by
  have hcsp : ∀ q, (g q).csp = q.csp := fun q => (congrArg Request.csp (hg q q.csp)).trans rfl
  refine ⟨?_, fun hr => ?_⟩
  · rw [hcsp, ← hg q, ← h.rest]
  · rw [hcsp, hcsp]
    exact h.csp hr

namespace Alike

variable {N : List Nat} {s s' s'' : State Stage Worker}

theorem refl (N : List Nat) (s : State Stage Worker) : Alike N s s := ⟨rfl, fun r => .refl N r _, fun _ => rfl⟩

theorem symm (h : Alike N s s') : Alike N s' s where
  rest := by
    rw [h.rest]
    rfl
  heap r := (h.heap r).symm
  conns c := (h.conns c).symm

theorem trans (h : Alike N s s') (h' : Alike N s' s'') : Alike N s s'' where
  rest := by
    rw [h'.rest, h.rest]
    rfl
  heap r := (h.heap r).trans (h'.heap r)
  conns c := (h'.conns c).trans (h.conns c)

theorem mono (h : Alike N s s') {N' : List Nat} (hN : N ⊆ N') : Alike N' s s' :=
  ⟨h.rest, fun r => (h.heap r).mono hN, h.conns⟩

theorem keeps {β : Type} (h : Alike N s s') (f : State Stage Worker → β)
    (hf : ∀ t h k, f (withBlocks h k t) = f t) : f s' = f s := by
  rw [h.rest, hf]

theorem req {β : Type} (h : Alike N s s') (f : Request → β) (hf : ∀ q c, f { q with csp := c } = f q) (r : Nat) :
    f (s'.heap r) = f (s.heap r) := by
  rw [(h.heap r).rest, hf]

theorem heap_update (h : ∀ r, SameReq N r (s.heap r) (s'.heap r)) {r : Nat} {q q' : Request} (hq : SameReq N r q q')
    (x : Nat) : SameReq N x (Function.update s.heap r q x) (Function.update s'.heap r q' x) := by
  by_cases hx : x = r
  · subst hx
    simpa using hq
  · rw [Function.update_of_ne hx, Function.update_of_ne hx]
    exact h x

theorem conns_update (h : ∀ c, (s'.conns c).untouched = (s.conns c).untouched) {f : ConnState → ConnState}
    (hf : Blind f) (c x : Nat) :
    (Function.update s'.conns c (f (s'.conns c)) x).untouched =
      (Function.update s.conns c (f (s.conns c)) x).untouched := by
  by_cases hx : x = c
  · subst hx
    rw [Function.update_self, Function.update_self]
    exact hf _ _ (h x)
  · rw [Function.update_of_ne hx, Function.update_of_ne hx]
    exact h x

theorem modifyConn (h : Alike N s s') {f : ConnState → ConnState} (hf : Blind f) (c : Nat) :
    Alike N (modifyConn c f s) (modifyConn c f s') where
  rest := by
    rw [h.rest]
    rfl
  heap := h.heap
  conns := conns_update h.conns hf c

theorem setReq (h : Alike N s s') {r : Nat} {q q' : Request} (hq : SameReq N r q q') :
    Alike N (setReq r q s) (setReq r q' s') where
  rest := by
    rw [h.rest]
    rfl
  heap := heap_update h.heap hq
  conns := h.conns

theorem of_touchCsp (N : List Nat) (r : Nat) (s : State Stage Worker) : Alike N s (touchCsp r s) := by
  unfold touchCsp
  split
  · rename_i c hc
    refine ⟨rfl, fun x => .refl N x _, fun x => ?_⟩
    by_cases hx : x = c
    · subst hx; simp [Csf.modifyConn, ConnState.touch, ConnState.untouched]
    · simp [Csf.modifyConn, Function.update_of_ne hx]
  · exact refl N s

theorem touchCsp (h : Alike N s s') (r : Nat) : Alike N (touchCsp r s) (touchCsp r s') :=
  ((of_touchCsp N r s).symm.trans h).trans (of_touchCsp N r s')

theorem of_update (h : Alike N s s') (f : State Stage Worker → State Stage Worker)
    (hf : ∀ t h k, f (withBlocks h k t) = withBlocks h k (f t)) : Alike N (f s) (f s') := by
  have hself : ∀ t, f t = withBlocks t.heap t.conns (f t) := fun t => hf t t.heap t.conns
  have hheap : ∀ t, (f t).heap = t.heap := fun t => (congrArg State.heap (hself t)).trans rfl
  have hconns : ∀ t, (f t).conns = t.conns := fun t => (congrArg State.conns (hself t)).trans rfl
  refine ⟨?_, fun r => ?_, fun c => ?_⟩
  · rw [hheap, hconns, ← hf s, ← h.rest]
  · rw [hheap, hheap]
    exact h.heap r
  · rw [hconns, hconns]
    exact h.conns c

end Alike

/-! ### Workers -/

theorem Alike.exists_blocks {N : List Nat} {s s' : State Stage Worker} (h : Alike N s s') :
    ∃ b k, s' = withBlocks b k s := ⟨_, _, h.rest⟩

variable [DecidableEq Stage]

omit [DecidableEq Stage] in
theorem workerGuard_alike {cfg : Config Stage Worker} {N : List Nat} {s s' : State Stage Worker} {w : Worker}
    {a : WorkerAct Stage Worker} (h : Alike N s s') (hg : workerGuard cfg s w a) : workerGuard cfg s' w a := by
  have hclock := h.req Request.clock fun _ _ => rfl
  have hcancelled := h.req Request.cancelled fun _ _ => rfl
  obtain ⟨b, k, rfl⟩ := h.exists_blocks
  have hage : ∀ r, age (withBlocks b k s) r = age s r := fun r => by
    unfold age
    rw [hclock r]
    rfl
  have hearly : ∀ st r, tooEarly cfg (withBlocks b k s) st r ↔ tooEarly cfg s st r := fun st r => by
    unfold tooEarly
    rw [hage r]
  have htimed : ∀ r cl, workerTimedOut cfg (withBlocks b k s) r cl ↔ workerTimedOut cfg s r cl := fun r cl => by
    unfold workerTimedOut
    rw [hclock r]
  cases a with
  | delay r => exact ⟨hg.1, hg.2.1, (hearly _ r).mpr hg.2.2⟩
  | dequeue r rest => exact ⟨hg.1, hg.2.1, mt (hearly _ r).mp hg.2.2⟩
  | timedOut r cl => exact ⟨hg.1, (htimed r cl).mpr hg.2⟩
  | cancelled r cl => exact ⟨hg.1, mt (htimed r cl).mp hg.2.1, (hcancelled r).trans hg.2.2⟩
  | noHandler r cl => exact ⟨hg.1, mt (htimed r cl).mp hg.2.1, (hcancelled r).trans hg.2.2.1, hg.2.2.2⟩
  | handle r cl calls ret errno =>
    exact ⟨hg.1, mt (htimed r cl).mp hg.2.1, (hcancelled r).trans hg.2.2.1, hg.2.2.2⟩
  | _ => exact hg

variable [DecidableEq Worker]

theorem alike_worker (cfg : Config Stage Worker) {N : List Nat} {s s' : State Stage Worker} (h : Alike N s s')
    (w : Worker) (a : WorkerAct Stage Worker) : Alike N (workerEffect cfg s w a) (workerEffect cfg s' w a) := by
  cases a with
  | dequeue r rest =>
    have hage : age s' r = age s r := by
      unfold age
      rw [h.req Request.clock (fun _ _ => rfl) r, h.keeps State.clockOff fun _ _ _ => rfl]
    simp only [workerEffect, hage]
    exact h.of_update (fun t => { setWk w (.holding r (age s r)) (setMutex (cfg.rqcb w) none t) with
      rqcb := Function.update t.rqcb (cfg.rqcb w) ⟨rest, (t.rqcb (cfg.rqcb w)).queueLen - 1⟩ }) fun _ _ _ => rfl
  | timedOut r cl =>
    have hreq := (h.heap r).map (fun q => { q with flags := requestTimeOut }) fun _ _ => rfl
    exact (h.setReq hreq).of_update (setWk w (.routing r [.done])) fun _ _ _ => rfl
  | cancelled r cl =>
    have hreq := (h.heap r).map (fun q => { q with ret := 0, err := 0 }) fun _ _ => rfl
    exact (h.setReq hreq).of_update (setWk w (.routing r [.done])) fun _ _ _ => rfl
  | handle r cl calls ret errno =>
    have hrouted : submitNext cfg (cfg.rqcb w) (afterCalls cfg (s'.nextRqcbp w) calls) (s'.heap r).nstage ret errno =
        submitNext cfg (cfg.rqcb w) (afterCalls cfg (s.nextRqcbp w) calls) (s.heap r).nstage ret errno := by
      rw [h.req Request.nstage (fun _ _ => rfl) r, h.keeps State.nextRqcbp fun _ _ _ => rfl]
    simp only [workerEffect, handled]
    rw [hrouted]
    generalize submitNext cfg _ _ _ _ _ = routed
    have hreq := (h.heap r).map (fun q => { q with ret := ret, err := routed.err }) fun _ _ => rfl
    refine ((h.setReq hreq).of_update (fun t => { setWk w (.routing r routed.dests) t with
      nextRqcbp := Function.update t.nextRqcbp w routed.nextRqcbp
      trace := .handed r :: t.trace }) fun _ _ _ => rfl).touchCsp r
  | forward r st rest ws =>
    have hreq := (h.heap r).map (fun q => { q with nstage := q.nstage + 1 }) fun _ _ => rfl
    exact (h.setReq hreq).of_update (fun t => setWk w (resume r rest) { t with
      rqcb := Function.update t.rqcb st ⟨(t.rqcb st).requestHead ++ [r], (t.rqcb st).queueLen + 1⟩
      wk := wake ws t.wk }) fun _ _ _ => rfl
  | doneWrite r rest =>
    refine h.of_update (fun t => writeByte cfg cfg.doneFd (setWk w (resume r rest) t)) fun t b k => ?_
    simp [writeByte, setWk, withBlocks]
  | _ => exact h.of_update (fun t => workerEffect cfg t w _) fun _ _ _ => rfl

/-! ### Queues -/

omit [DecidableEq Worker] in
theorem Alike.kickRequestQueue {N : List Nat} {s s' : State Stage Worker} (h : Alike N s s')
    (cfg : Config Stage Worker) (ok : Pipeline → Bool) :
    Alike N (kickRequestQueue cfg ok s) (kickRequestQueue cfg ok s') := by
  unfold Csf.kickRequestQueue
  rw [h.keeps State.apq fun _ _ _ => rfl]
  generalize s.apq = l
  induction l generalizing s s' with
  | nil => exact h
  | cons p l ih =>
    refine ih (h.of_update (fun t => kickPcb cfg ok t p) fun t b k => ?_)
    unfold kickPcb
    split
    · rename_i htmp
      rw [if_pos (show (t.pcb p).tmpRequestHead = [] from htmp)]
      rfl
    · rename_i htmp
      rw [if_neg (show ¬(t.pcb p).tmpRequestHead = [] from htmp)]
      split
      · split <;> rfl
      · rfl

omit [DecidableEq Worker] in
theorem Alike.concatBuffered {N : List Nat} {s s' : State Stage Worker} (h : Alike N s s') (p : Pipeline) (st : Stage)
    (concat : Bool) : Alike N (concatBuffered p st concat s) (concatBuffered p st concat s') := by
  refine h.of_update (Csf.concatBuffered p st concat) fun t b k => ?_
  unfold Csf.concatBuffered
  split
  · split
    · rename_i hentry
      rw [if_pos (show (t.pcb p).activeQueueEntry = true from hentry)]
      rfl
    · rename_i hentry
      rw [if_neg (show ¬(t.pcb p).activeQueueEntry = true from hentry)]
      rfl
  · rfl

omit [DecidableEq Worker] in
theorem Alike.sweepTimedOut {N : List Nat} {s s' : State Stage Worker} (h : Alike N s s')
    (cfg : Config Stage Worker) (st : Stage) (flags : UInt32) :
    Alike N (sweepTimedOut cfg st flags s) (sweepTimedOut cfg st flags s') := by
  unfold Csf.sweepTimedOut
  split
  · rw [h.keeps (fun t => (t.rqcb st).requestHead) fun _ _ _ => rfl]
    generalize (s.rqcb st).requestHead = l
    induction l generalizing s s' with
    | nil => exact h
    | cons r l ih =>
      refine ih ?_
      have hexp : expired cfg s' r = expired cfg s r := by
        unfold expired
        rw [h.req Request.clock (fun _ _ => rfl) r, h.keeps State.clockOff fun _ _ _ => rfl]
      unfold sweepOne
      rw [hexp]
      split
      · exact h.of_update (evict st r) fun _ _ _ => rfl
      · exact h
  · exact h

omit [DecidableEq Worker] in
theorem Alike.sendToPipeline {N : List Nat} {s s' : State Stage Worker} (h : Alike N s s')
    (cfg : Config Stage Worker) (p : Pipeline) (st : Stage) (r : Nat) (flags : UInt32) (concat : Bool) :
    Alike N (sendToPipeline cfg p st r flags concat s).1 (sendToPipeline cfg p st r flags concat s').1 ∧
      (sendToPipeline cfg p st r flags concat s').2 = (sendToPipeline cfg p st r flags concat s).2 := by
  have hc := h.concatBuffered p st concat
  unfold Csf.sendToPipeline
  simp only
  generalize Csf.concatBuffered p st concat s = t at hc ⊢
  generalize Csf.concatBuffered p st concat s' = t' at hc ⊢
  have hfull : stageFull cfg st t' = stageFull cfg st t := hc.keeps _ fun _ _ _ => rfl
  have hkick : kicksOut cfg st flags t' = kicksOut cfg st flags t := hc.keeps _ fun _ _ _ => rfl
  have hhead : (t'.rqcb st).requestHead = (t.rqcb st).requestHead :=
    hc.keeps (fun t => (t.rqcb st).requestHead) fun _ _ _ => rfl
  -- the sweep and the insertion, from any two alike states
  have hrest : ∀ {u u' : State Stage Worker} (kicked : Bool), Alike N u u' →
      Alike N (sweepAndInsert cfg st r flags kicked u).1 (sweepAndInsert cfg st r flags kicked u').1 ∧
        (sweepAndInsert cfg st r flags kicked u').2 = (sweepAndInsert cfg st r flags kicked u).2 := by
    intro u u' kicked hu
    refine ⟨(hu.sweepTimedOut cfg st flags).of_update (insertTail st r) fun _ _ _ => rfl, ?_⟩
    have hexp : expired cfg u' = expired cfg u := by
      funext x
      unfold expired
      rw [hu.req Request.clock (fun _ _ => rfl) x, hu.keeps State.clockOff fun _ _ _ => rfl]
    simp only [sweepAndInsert, sweepHits, hexp, hu.keeps (fun t => (t.rqcb st).requestHead) fun _ _ _ => rfl]
  rw [hfull, hkick, hhead]
  split
  · exact ⟨hc, rfl⟩
  · split
    · split
      · exact ⟨hc, rfl⟩
      · rename_i x rest _
        have hreq := (hc.heap x).map (fun q => { q with flags := requestKickOut }) fun _ _ => rfl
        exact hrest true ((hc.setReq hreq).of_update (evict st x) fun _ _ _ => rfl)
    · exact hrest false hc

omit [DecidableEq Worker] in
theorem Alike.sendLocked {N : List Nat} {s s' : State Stage Worker} (h : Alike N s s') (cfg : Config Stage Worker)
    (r : Nat) (p : Pipeline) (st : Stage) (flags : UInt32) (concat : Bool) :
    Alike N (sendLocked cfg r p st flags concat s) (sendLocked cfg r p st flags concat s') := by
  obtain ⟨hsend, hres⟩ := h.sendToPipeline cfg p st r flags concat
  unfold Csf.sendLocked
  generalize Csf.sendToPipeline cfg p st r flags concat s = out at hsend hres ⊢
  generalize Csf.sendToPipeline cfg p st r flags concat s' = out' at hsend hres ⊢
  obtain ⟨t, res⟩ := out
  obtain ⟨t', res'⟩ := out'
  obtain rfl : res' = res := hres
  cases res' with
  | full => exact hsend.of_update (fun t => { t with sub := .none }) fun _ _ _ => rfl
  | nullHead => exact hsend.of_update (fun t => { t with status := .crashed }) fun _ _ _ => rfl
  | linked notice =>
    exact hsend.of_update (fun t => setMutex st (some .main) { t with sub := .inserted r p st notice }) fun _ _ _ => rfl

/-! ### Submission and clean-up -/

omit [DecidableEq Stage] [DecidableEq Worker] in
theorem Alike.submitPrepare {N : List Nat} {s s' : State Stage Worker} (h : Alike N s s') (args : SubmitArgs)
    (stale : Option Nat) (p : Pipeline) (st : Stage) :
    Alike (if args.p.isNone then s.nreq :: N else N) (submitPrepare args p st s)
      (submitPrepare { args with stale := stale } p st s') := by
  have hreq : SameReq (if args.p.isNone then s.nreq :: N else N) s.nreq (newRequest args s)
      (newRequest { args with stale := stale } s') := by
    refine ⟨?_, fun hnot => ?_⟩
    · simp only [newRequest, h.keeps State.inc fun _ _ _ => rfl, h.keeps State.clockOff fun _ _ _ => rfl]
    · cases hargp : args.p with
      | none => simp [hargp] at hnot
      | some c => simp [newRequest, hargp]
  have hN : N ⊆ if args.p.isNone then s.nreq :: N else N := by
    split
    · exact List.subset_cons_self _ _
    · exact List.Subset.refl _
  have hnreq : s'.nreq = s.nreq := h.keeps State.nreq fun _ _ _ => rfl
  have hprepared := ((h.mono hN).setReq hreq).of_update (fun t => { t with
    blocks := s.nreq :: t.blocks
    nreq := s.nreq + 1
    inc := t.inc + 1
    sub := .checked s.nreq p st args.flags (decide ((t.pcb p).tmpRequestHead ≠ []))
    trace := .submitted s.nreq p :: t.trace }) fun _ _ _ => rfl
  unfold Csf.submitPrepare
  simp only [hnreq, allocRequest]
  obtain ⟨conn, pipelineId, dataCleaner, responder, flags, content⟩ := args
  cases conn with
  | none => exact hprepared
  | some c => exact hprepared.modifyConn blind_hold c

omit [DecidableEq Stage] [DecidableEq Worker] in
theorem Alike.disposeRequest {N : List Nat} {s s' : State Stage Worker} (h : Alike N s s') {r : Nat} (hr : r ∉ N)
    (rc : BitVec 32) : Alike N (disposeRequest r rc s) (disposeRequest r rc s') := by
  have hdisconnect : Alike N (disconnectConn r rc s) (disconnectConn r rc s') := by
    unfold disconnectConn
    rw [(h.heap r).csp hr]
    split
    · split
      · exact ((h.modifyConn blind_connClose _).modifyConn blind_stateCleanup _).of_update
          (fun t => { t with connectionCounter := t.connectionCounter - 1 }) fun _ _ _ => rfl
      · exact h
    · exact h
  have hdrop : Alike N (dropCleaner r rc (disconnectConn r rc s)) (dropCleaner r rc (disconnectConn r rc s')) := by
    unfold dropCleaner
    split
    · exact hdisconnect
    · exact hdisconnect.setReq ((hdisconnect.heap r).map (fun q => { q with dataCleaner := false }) fun _ _ => rfl)
  unfold Csf.disposeRequest
  generalize dropCleaner r rc (disconnectConn r rc s) = t at hdrop ⊢
  generalize dropCleaner r rc (disconnectConn r rc s') = t' at hdrop ⊢
  have hcleaner := hdrop.req Request.dataCleaner (fun _ _ => rfl) r
  have hcsp := (hdrop.heap r).csp hr
  have hlists := hdrop.of_update (fun u => { u with
    finalRequestHead := u.finalRequestHead.erase r
    trace := .freed r :: ((if (t.heap r).dataCleaner then [.cleaned r] else []) ++ u.trace)
    blocks := u.blocks.erase r }) fun _ _ _ => rfl
  unfold cleanupRequest
  rw [hcleaner, hcsp]
  cases (t.heap r).csp with
  | none => exact hlists
  | some c => exact hlists.modifyConn blind_rele c

/-! ### The main thread -/

/-- The request that the loop of `done_requests_handler` has taken and not yet cleaned up. -/
def MainPc.held : MainPc Stage → Option Nat
  | .respond r .. | .calling r _ | .dispose r .. => some r
  | _ => none

omit [DecidableEq Stage] [DecidableEq Worker] in
theorem Alike.conn {β : Type} {N : List Nat} {s s' : State Stage Worker} (h : Alike N s s') (f : ConnState → β)
    (hf : ∀ cs : ConnState, f cs.untouched = f cs) (c : Nat) : f (s'.conns c) = f (s.conns c) := by
  rw [← hf (s'.conns c), h.conns c, hf]

omit [DecidableEq Stage] [DecidableEq Worker] in
theorem callbackOf_alike {N : List Nat} {s s' : State Stage Worker} (h : Alike N s s')
    (hloop : ∀ r, s.main.held = some r → r ∉ N) (c : Nat) : callbackOf s' c = callbackOf s c := by
  unfold callbackOf
  rw [h.keeps State.main fun _ _ _ => rfl]
  split
  · rfl
  · rfl
  · rename_i r next hm
    rw [(h.heap r).csp (hloop r (by rw [hm]; rfl))]
  · rfl

omit [DecidableEq Stage] [DecidableEq Worker] in
theorem mainGuard_alike {cfg : Config Stage Worker} {N : List Nat} {s s' : State Stage Worker}
    {a : MainAct Stage Worker} (h : Alike N s s') (hloop : ∀ r, s.main.held = some r → r ∉ N)
    (htakes : ∀ r ∈ takes (.main a : Action Stage Worker), r ∉ N) (hg : mainGuard cfg s a) : mainGuard cfg s' a := by
  have hcsp : ∀ r, r ∉ N → (s'.heap r).csp = (s.heap r).csp := fun r => (h.heap r).csp
  have hcancelled := h.req Request.cancelled fun _ _ => rfl
  have hresponder := h.req Request.requestResponder fun _ _ => rfl
  have harmed := h.conn ConnState.armed fun _ => rfl
  have htype := h.conn ConnState.type fun _ => rfl
  have hopen := h.conn ConnState.fdOpen fun _ => rfl
  have hcallback := callbackOf_alike h hloop
  obtain ⟨b, k, rfl⟩ := h.exists_blocks
  cases a with
  | readable c | writable c | idleTimeout c => exact ⟨hg.1, (harmed c).trans hg.2⟩
  | sendBack c =>
    exact ⟨(hcallback c).trans hg.1, hg.2.1, (htype c).trans hg.2.2.1, (hopen c).trans hg.2.2.2⟩
  | takeNull r rc => exact ⟨hg.1, (hcsp r (htakes r (by simp [takes]))).trans hg.2⟩
  | takeReq r rc => exact ⟨hg.1, (hcsp r (htakes r (by simp [takes]))) ▸ hg.2⟩
  | respond r next rc => exact ⟨hg.1, (hcancelled r).trans hg.2.1, (hresponder r).trans hg.2.2⟩
  | noResponder r next rc =>
    refine ⟨hg.1, ?_⟩
    rw [hcancelled r, hresponder r]
    exact hg.2
  | _ => exact hg

omit [DecidableEq Stage] [DecidableEq Worker] in
theorem Alike.connectionMade {N : List Nat} {s s' : State Stage Worker} (h : Alike N s s') (type : ConnType)
    (armed : Bool) : Alike N (connectionMade type armed s) (connectionMade type armed s') := by
  have hnew : Blind fun _ => ⟨type, true, armed, 1, 0, 0, false⟩ := fun _ _ _ => rfl
  have hmade := (h.modifyConn hnew s.nconn).of_update (fun t => { t with
    nconn := s.nconn + 1
    connectionCounter := t.connectionCounter + 1 }) fun _ _ _ => rfl
  unfold Csf.connectionMade
  rw [h.keeps State.nconn fun _ _ _ => rfl]
  exact hmade

omit [DecidableEq Stage] [DecidableEq Worker] in
theorem Alike.connStateCleanup {N : List Nat} {s s' : State Stage Worker} (h : Alike N s s') (c : Nat) :
    Alike N (connStateCleanup c s) (connStateCleanup c s') :=
  (h.modifyConn blind_stateCleanup c).of_update (fun t => { t with connectionCounter := t.connectionCounter - 1 })
    fun _ _ _ => rfl

theorem Alike.kickAll {N : List Nat} {s s' : State Stage Worker} (h : Alike N s s') (cfg : Config Stage Worker)
    (ok : Pipeline → Bool) (ws : Pipeline → List Worker) : Alike N (kickAll cfg ok ws s) (kickAll cfg ok ws s') := by
  have hwakes : kickWakes cfg s' ok ws = kickWakes cfg s ok ws := h.keeps (fun t => kickWakes cfg t ok ws) fun _ _ _ => rfl
  unfold Csf.kickAll
  rw [hwakes, h.keeps State.wk fun _ _ _ => rfl]
  exact (h.kickRequestQueue cfg ok).of_update (fun t => { t with wk := wake (kickWakes cfg s ok ws) s.wk }) fun _ _ _ => rfl

theorem alike_main (cfg : Config Stage Worker) {N : List Nat} {s s' : State Stage Worker} {a : MainAct Stage Worker}
    (h : Alike N s s') (hloop : ∀ r, s.main.held = some r → r ∉ N) (hg : mainGuard cfg s a)
    (hsubmit : ∀ args p st, a ≠ .submit args p st) : Alike N (mainEffect cfg s a) (mainEffect cfg s' a) := by
  have hmain : ∀ {t t' : State Stage Worker} (pc : MainPc Stage), Alike N t t' →
      Alike N { t with main := pc } { t' with main := pc } := fun pc ht =>
    ht.of_update (fun t => { t with main := pc }) fun _ _ _ => rfl
  cases a with
  | submit args p st => exact absurd rfl (hsubmit args p st)
  | accept => exact h.connectionMade .tcp true
  | datagram =>
    have hmade := hmain (.datagram s.nconn) (h.connectionMade .udp false)
    simp only [mainEffect]
    rw [h.keeps State.nconn fun _ _ _ => rfl]
    exact hmade
  | readable c => exact hmain _ (h.modifyConn blind_eventDel c)
  | writable c | sendBack c => exact h.modifyConn blind_eventAdd c
  | readBlocked c => exact hmain _ (h.modifyConn blind_eventAdd c)
  | idleTimeout c => exact (h.modifyConn (blind_eventDel.comp blind_connClose) c).connStateCleanup c
  | hangup c why => exact hmain _ ((h.modifyConn blind_connClose c).connStateCleanup c)
  | datagramEnd c =>
    exact (h.modifyConn (blind_connectionLost.comp blind_rele) c).of_update (fun t => { t with
      connectionCounter := t.connectionCounter - 1
      main := .loop }) fun _ _ _ => rfl
  | send r p st flags concat => exact h.sendLocked cfg r p st flags concat
  | kick ev ok ws => exact hmain _ (h.kickAll cfg ok ws)
  | respond r next rc =>
    have htouch := (h.touchCsp r).of_update (fun t => { t with
      main := .calling r next
      trace := .responded r :: s.trace }) fun _ _ _ => rfl
    simp only [mainEffect]
    rw [h.keeps State.trace fun _ _ _ => rfl]
    exact htouch
  | dispose r next rc => exact hmain _ (h.disposeRequest (hloop r (by rw [show s.main = _ from hg]; rfl)) rc)
  | noticeWrite r p =>
    refine h.of_update (fun t => writeByte cfg infoDoneFd { t with sub := .sent r p }) fun t b k => ?_
    unfold writeByte
    split <;> rfl
  | _ => exact h.of_update (fun t => mainEffect cfg t _) fun _ _ _ => rfl

theorem alike_signals (cfg : Config Stage Worker) {N : List Nat} {s s' : State Stage Worker} (h : Alike N s s')
    (a : SignalAct Stage Worker) : Alike N (signalEffect cfg s a) (signalEffect cfg s' a) := by
  cases a with
  | kick ok ws => exact (h.kickAll cfg ok ws).of_update (fun t => { t with sig := .testLen }) fun _ _ _ => rfl
  | _ => exact h.of_update (fun t => signalEffect cfg t _) fun _ _ _ => rfl

/-! ### Steps -/

variable [Fintype Worker]

omit [DecidableEq Stage] [DecidableEq Worker] [Fintype Worker] in
theorem forget_eq_self {a a' : Action Stage Worker} (hsubmit : ∀ args p st, a ≠ .main (.submit args p st))
    (h : forget a = forget a') : a' = a := by
  unfold forget at h
  split at h
  · exact absurd rfl (hsubmit _ _ _)
  · split at h
    · exact absurd h (hsubmit _ _ _)
    · exact h.symm

omit [DecidableEq Stage] [DecidableEq Worker] [Fintype Worker] in
theorem forget_eq_submit {args : SubmitArgs} {p : Pipeline} {st : Stage} {a' : Action Stage Worker}
    (h : forget (.main (.submit args p st)) = forget a') :
    ∃ stale, a' = .main (.submit { args with stale := stale } p st) := by
  unfold forget at h
  simp only at h
  split at h
  · rename_i args' p' st'
    simp only [Action.main.injEq, MainAct.submit.injEq, SubmitArgs.mk.injEq, and_true] at h
    obtain ⟨⟨h₁, h₂, h₃, h₄, h₅⟩, rfl, rfl⟩ := h
    refine ⟨args'.stale, ?_⟩
    rw [h₁, h₂, h₃, h₄, h₅]
  · exact ⟨none, h.symm⟩

/-- **Alike states take the same steps**, unless the loop of `done_requests_handler` takes a request without a
connection. -/
theorem alike_step {cfg : Config Stage Worker} {N : List Nat} {s s' t : State Stage Worker} {a a' : Action Stage Worker}
    (h : Alike N s s') (hloop : ∀ r, s.main.held = some r → r ∉ N) (htakes : ∀ r ∈ takes a, r ∉ N)
    (ha : forget a = forget a') (hs : step cfg s a = some t) :
    ∃ t', step cfg s' a' = some t' ∧ Alike ((nullSubmits s a).map Prod.fst ++ N) t t' := by
  obtain ⟨hrun, hg, rfl⟩ := step_eq_some hs
  have hstatus : s'.status = .running := (h.keeps State.status fun _ _ _ => rfl).trans hrun
  suffices hstep : Guard cfg s' a' ∧ Alike ((nullSubmits s a).map Prod.fst ++ N) (effect cfg s a) (effect cfg s' a') from
    ⟨_, by rw [step, if_pos ⟨hstatus, hstep.1⟩], hstep.2⟩
  cases a with
  | worker w a =>
    obtain rfl : a' = .worker w a := forget_eq_self (by simp) ha
    exact ⟨workerGuard_alike h hg, alike_worker cfg h w a⟩
  | main a =>
    by_cases hsubmit : ∃ args p st, a = .submit args p st
    · obtain ⟨args, p, st, rfl⟩ := hsubmit
      obtain ⟨stale, rfl⟩ := forget_eq_submit ha
      have hN : (nullSubmits s (.main (.submit args p st))).map Prod.fst ++ N =
          if args.p.isNone then s.nreq :: N else N := by
        change (if args.p.isNone then [(s.nreq, args.dataCleaner)] else []).map Prod.fst ++ N = _
        split <;> rfl
      rw [hN]
      refine ⟨?_, h.submitPrepare args stale p st⟩
      obtain ⟨b, k, rfl⟩ := h.exists_blocks
      exact hg
    · push Not at hsubmit
      obtain rfl : a' = .main a := forget_eq_self (by simpa using hsubmit) ha
      have hnone : nullSubmits s (.main a) = [] := by
        cases a with
        | submit args p st => exact absurd rfl (hsubmit args p st)
        | _ => rfl
      rw [hnone]
      exact ⟨mainGuard_alike h hloop htakes hg, alike_main cfg h hloop hg hsubmit⟩
  | signals a =>
    obtain rfl : a' = .signals a := forget_eq_self (by simp) ha
    refine ⟨?_, alike_signals cfg h a⟩
    obtain ⟨b, k, rfl⟩ := h.exists_blocks
    cases a <;> exact hg
  | tick =>
    obtain rfl : a' = .tick := forget_eq_self (by simp) ha
    exact ⟨trivial, h.of_update (fun t => { t with clockOff := t.clockOff + 1 }) fun _ _ _ => rfl⟩
  | cancel r =>
    obtain rfl : a' = .cancel r := forget_eq_self (by simp) ha
    have hblocks : s'.blocks = s.blocks := h.keeps State.blocks fun _ _ _ => rfl
    refine ⟨show r ∈ s'.blocks by rw [hblocks]; exact hg, ?_⟩
    exact h.setReq ((h.heap r).map (fun q => { q with cancelled := true }) fun _ _ => rfl)

/-! ### Runs -/

/-- Execute labels next to the list of submissions without a connection. -/
def runs (cfg : Config Stage Worker) (x : State Stage Worker × List (Nat × Bool)) (as : List (Action Stage Worker)) :
    Option (State Stage Worker × List (Nat × Bool)) :=
  run (withHistory (step cfg) nullSubmits) (fun _ _ _ => true) x as

theorem runs_cons {cfg : Config Stage Worker} {s : State Stage Worker} {N : List (Nat × Bool)}
    {a : Action Stage Worker} {as : List (Action Stage Worker)} {y : State Stage Worker × List (Nat × Bool)} :
    runs cfg (s, N) (a :: as) = some y ↔
      ∃ t, step cfg s a = some t ∧ runs cfg (t, nullSubmits s a ++ N) as = some y := by
  unfold runs
  rw [run_cons_eq_some]
  constructor
  · rintro ⟨⟨t, M⟩, hx, -, hrun⟩
    obtain ⟨hs, rfl : M = _⟩ := withHistory_eq_some hx
    exact ⟨t, hs, hrun⟩
  · rintro ⟨t, hs, hrun⟩
    exact ⟨_, by simp [withHistory, hs], rfl, hrun⟩

variable [Fintype Stage]

theorem runs_mono {cfg : Config Stage Worker} {as : List (Action Stage Worker)} {s t : State Stage Worker}
    {N M : List (Nat × Bool)} (h : runs cfg (s, N) as = some (t, M)) :
    (∀ r, .taken r ∈ s.trace → .taken r ∈ t.trace) ∧ N ⊆ M := by
  induction as generalizing s N with
  | nil =>
    obtain ⟨rfl, rfl⟩ := Prod.mk.inj (Option.some.inj h)
    exact ⟨fun _ => id, List.Subset.refl _⟩
  | cons a as ih =>
    obtain ⟨u, hs, hrun⟩ := runs_cons.mp h
    obtain ⟨htaken, hsub⟩ := ih hrun
    exact ⟨fun r hr => htaken r (mem_step hs (by simp) (by simp) hr), fun x hx => hsub (List.mem_append_right _ hx)⟩

def HeldTaken (s : State Stage Worker) : Prop := ∀ r, s.main.held = some r → .taken r ∈ s.trace

theorem held_mainEffect {cfg : Config Stage Worker} {s : State Stage Worker} {a : MainAct Stage Worker} {r : Nat}
    (hg : mainGuard cfg s a) (h : (mainEffect cfg s a).main.held = some r) :
    s.main.held = some r ∨ r ∈ takes (.main a : Action Stage Worker) := by
  rw [mainEffect_plain cfg s a (fun t => t.main.held) fun _ => rfl] at h
  cases a with
  | takeReq q rc => exact .inr (List.mem_singleton.mpr (Option.some.inj h).symm)
  | send q p st flags concat =>
    have hmain : (sendLocked cfg q p st flags concat s).main = s.main :=
      sendLocked_keeps cfg q p st flags concat s State.main fun _ => rfl
    exact .inl (hmain ▸ h)
  | respond | noResponder | responderRet =>
    rw [hg.1]
    exact .inl h
  | accept | writable | sendBack | refuse | buffer | count | countBuffered | noticeSkip | noticeClear | noticeSet
  | noticeWrite | returnTid | idleTimeout | submit => exact .inl h
  | _ => exact absurd h (by simp [mainPlain, mainEffect, takeDone, takeRequest, disposedPlain, MainPc.held])

theorem taken_of_takes {cfg : Config Stage Worker} {s t : State Stage Worker} {a : Action Stage Worker}
    (hs : step cfg s a = some t) {r : Nat} (hr : r ∈ takes a) : .taken r ∈ t.trace := by
  obtain ⟨ev, hmove, -⟩ := lenMove_step hs
  have htaken := hmove.taken r
  have hpos := List.count_pos_iff.mpr hr
  exact List.count_pos_iff.mp (by omega)

theorem heldTaken_step {cfg : Config Stage Worker} {s t : State Stage Worker} {a : Action Stage Worker}
    (h : HeldTaken s) (hs : step cfg s a = some t) : HeldTaken t := by
  intro r hr
  have hkept : s.main.held = some r → .taken r ∈ t.trace := fun hheld => mem_step hs (by simp) (by simp) (h r hheld)
  have hmoved := taken_of_takes (r := r) hs
  obtain ⟨-, hg, rfl⟩ := step_eq_some hs
  cases a with
  | worker w a =>
    rw [effect, workerEffect_keeps cfg s w a State.main fun _ => rfl] at hr
    exact hkept hr
  | main a => exact (held_mainEffect hg hr).elim hkept hmoved
  | signals a =>
    rw [effect, signalEffect_keeps cfg s a State.main fun _ => rfl] at hr
    exact hkept hr
  | tick | cancel => exact hkept hr

omit [DecidableEq Stage] [DecidableEq Worker] [Fintype Stage] [Fintype Worker] in
theorem nullSubmits_alike {N : List Nat} {s s' : State Stage Worker} {a a' : Action Stage Worker} (h : Alike N s s')
    (ha : forget a = forget a') : nullSubmits s' a' = nullSubmits s a := by
  by_cases hsubmit : ∃ args p st, a = .main (.submit args p st)
  · obtain ⟨args, p, st, rfl⟩ := hsubmit
    obtain ⟨stale, rfl⟩ := forget_eq_submit ha
    simp only [nullSubmits, h.keeps State.nreq fun _ _ _ => rfl]
  · push Not at hsubmit
    obtain rfl : a' = a := forget_eq_self hsubmit ha
    exact h.keeps (fun t => nullSubmits t a') fun t _ _ => by cases a' <;> rfl

/-- Two runs that differ only in the former content of blocks go the same way, as long as the loop takes none of
the requests in these blocks. -/
theorem alike_run {cfg : Config Stage Worker} {as as' : List (Action Stage Worker)} {s s' t : State Stage Worker}
    {N M : List (Nat × Bool)} (h : Alike (N.map Prod.fst) s s') (hheld : HeldTaken s)
    (hrun : runs cfg (s, N) as = some (t, M)) (hnot : ∀ r ∈ M.map Prod.fst, .taken r ∉ t.trace)
    (ha : as'.map forget = as.map forget) :
    ∃ t', runs cfg (s', N) as' = some (t', M) ∧ Alike (M.map Prod.fst) t t' := by
  induction as generalizing s s' N as' with
  | nil =>
    obtain rfl : as' = [] := by simpa using ha
    obtain ⟨rfl, rfl⟩ := Prod.mk.inj (Option.some.inj hrun)
    exact ⟨s', rfl, h⟩
  | cons a as ih =>
    obtain ⟨a', as', rfl⟩ : ∃ a' as'', as' = a' :: as'' := List.exists_cons_of_ne_nil (by rintro rfl; simp at ha)
    obtain ⟨hhead, htail⟩ := List.cons.inj ha
    obtain ⟨hin, hsub⟩ := runs_mono hrun
    obtain ⟨u, hs, hrest⟩ := runs_cons.mp hrun
    have hfree : ∀ r, .taken r ∈ u.trace → r ∉ N.map Prod.fst := fun r hr hN =>
      hnot r (List.map_subset _ hsub hN) ((runs_mono hrest).1 r hr)
    obtain ⟨u', hs', halike⟩ := alike_step h
      (fun r hr => hfree r (mem_step hs (by simp) (by simp) (hheld r hr)))
      (fun r hr => hfree r (taken_of_takes hs hr)) hhead.symm hs
    rw [← List.map_append] at halike
    obtain ⟨t', hrun', ht'⟩ := ih halike (heldTaken_step hheld hs) hrest htail
    refine ⟨t', runs_cons.mpr ⟨u', hs', ?_⟩, ht'⟩
    rw [nullSubmits_alike h hhead.symm]
    exact hrun'

/-! ### The content decides

In a run in which every block without a connection held `x` before, the loop finds `x`. -/

/-- The step with content `x` in the block it allocates. -/
def refill (x : Option Nat) : Action Stage Worker → Action Stage Worker
  | .main (.submit args p st) => .main (.submit { args with stale := x } p st)
  | a => a

omit [DecidableEq Stage] [DecidableEq Worker] [Fintype Stage] [Fintype Worker] in
@[simp] theorem forget_refill (x : Option Nat) (a : Action Stage Worker) : forget (refill x a) = forget a := by
  unfold refill
  split <;> rfl

omit [DecidableEq Stage] [DecidableEq Worker] [Fintype Stage] [Fintype Worker] in
@[simp] theorem takes_refill (x : Option Nat) (a : Action Stage Worker) : takes (refill x a) = takes a := by
  unfold refill
  split <;> rfl

omit [DecidableEq Stage] [DecidableEq Worker] [Fintype Stage] [Fintype Worker] in
theorem map_forget_refill (x : Option Nat) (as : List (Action Stage Worker)) :
    (as.map (refill x)).map forget = as.map forget := by
  rw [List.map_map]
  exact List.map_congr_left fun a _ => forget_refill x a

/-- The requests `N` are allocated and have `x` for their connection. -/
def Filled (x : Option Nat) (N : List (Nat × Bool)) (s : State Stage Worker) : Prop :=
  ∀ r ∈ N.map Prod.fst, r < s.nreq ∧ (s.heap r).csp = x

omit [DecidableEq Stage] [DecidableEq Worker] [Fintype Stage] [Fintype Worker] in
theorem refill_eq_submit {x : Option Nat} {a : Action Stage Worker} {args : SubmitArgs} {p : Pipeline} {st : Stage}
    (h : refill x a = .main (.submit args p st)) : args.stale = x := by
  unfold refill at h
  split at h
  · cases h
    rfl
  · rename_i hsubmit
    exact absurd h (hsubmit _ _ _)

omit [DecidableEq Stage] [DecidableEq Worker] [Fintype Stage] [Fintype Worker] in
theorem submit_of_mem_nullSubmits {s : State Stage Worker} {a : Action Stage Worker} {r : Nat}
    (h : r ∈ (nullSubmits s a).map Prod.fst) :
    r = s.nreq ∧ ∃ args p st, a = .main (.submit args p st) ∧ args.p = none := by
  unfold nullSubmits at h
  split at h
  · split_ifs at h with hp
    · exact ⟨by simpa using h, _, _, _, rfl, Option.isNone_iff_eq_none.mp hp⟩
    · exact absurd h List.not_mem_nil
  · exact absurd h List.not_mem_nil

theorem filled_step {cfg : Config Stage Worker} {x : Option Nat} {N : List (Nat × Bool)} {s t : State Stage Worker}
    {a : Action Stage Worker} (h : Filled x N s) (hs : step cfg s (refill x a) = some t) :
    Filled x (nullSubmits s (refill x a) ++ N) t := by
  intro r hr
  rw [List.map_append, List.mem_append] at hr
  rcases hr with hnew | hold
  · obtain ⟨rfl, args, p, st, hsubmit, hnone⟩ := submit_of_mem_nullSubmits hnew
    have hstale := refill_eq_submit hsubmit
    obtain ⟨-, -, rfl⟩ := step_eq_some hs
    rw [hsubmit]
    simp [effect, mainEffect, submitPrepare, hnone, allocRequest, newRequest, hstale]
  · obtain ⟨hlt, hcsp⟩ := h r hold
    exact ⟨hlt.trans_le (nreq_step_le hs), (heap_step hs hlt.ne).1.trans hcsp⟩

omit [Fintype Stage] in
theorem not_takes_of_filled {cfg : Config Stage Worker} {N : List (Nat × Bool)} {s s' t t' : State Stage Worker}
    {a : Action Stage Worker} (h : Filled none N s) (h' : Filled (some 0) N s')
    (hs : step cfg s (refill none a) = some t) (hs' : step cfg s' (refill (some 0) a) = some t') :
    ∀ r ∈ takes a, r ∉ N.map Prod.fst := by
  intro r hr hN
  obtain ⟨-, hg, -⟩ := step_eq_some hs
  obtain ⟨-, hg', -⟩ := step_eq_some hs'
  unfold takes at hr
  split at hr
  · obtain rfl := List.mem_singleton.mp hr
    exact hg.2 (h r hN).2
  · obtain rfl := List.mem_singleton.mp hr
    exact absurd ((h' r hN).2.symm.trans hg'.2) (by simp)
  · exact absurd hr List.not_mem_nil

theorem not_taken_of_filled {cfg : Config Stage Worker} {as : List (Action Stage Worker)}
    {s s' t t' : State Stage Worker} {N M M' : List (Nat × Bool)} (h : Alike (N.map Prod.fst) s s')
    (hheld : HeldTaken s) (hunborn : Unborn s) (hfilled : Filled none N s) (hfilled' : Filled (some 0) N s')
    (hnot : ∀ r ∈ N.map Prod.fst, .taken r ∉ s.trace)
    (hrun : runs cfg (s, N) (as.map (refill none)) = some (t, M))
    (hrun' : runs cfg (s', N) (as.map (refill (some 0))) = some (t', M')) :
    ∀ r ∈ M.map Prod.fst, .taken r ∉ t.trace := by
  induction as generalizing s s' N with
  | nil =>
    obtain ⟨rfl, rfl⟩ := Prod.mk.inj (Option.some.inj hrun)
    exact hnot
  | cons a as ih =>
    obtain ⟨u, hs, hrest⟩ := runs_cons.mp hrun
    obtain ⟨u', hs', hrest'⟩ := runs_cons.mp hrun'
    have htakes := not_takes_of_filled hfilled hfilled' hs hs'
    have hforget : forget (refill none a) = forget (refill (some 0) a) := by rw [forget_refill, forget_refill]
    obtain ⟨v, hv, halike⟩ := alike_step h (fun r hr hN => hnot r hN (hheld r hr)) (by simpa using htakes) hforget hs
    obtain rfl : v = u' := Option.some.inj (hv.symm.trans hs')
    rw [← List.map_append] at halike
    rw [nullSubmits_alike h hforget] at hrest'
    have hfilled₁' := filled_step hfilled' hs'
    rw [nullSubmits_alike h hforget] at hfilled₁'
    refine ih halike (heldTaken_step hheld hs) (unborn_step hunborn hs) (filled_step hfilled hs) hfilled₁' ?_ hrest
      hrest'
    intro r hr htaken
    obtain ⟨ev, hmove, -⟩ := lenMove_step hs
    have hcount := hmove.taken r
    rw [takes_refill] at hcount
    rw [List.map_append, List.mem_append] at hr
    -- neither a new block nor an old one was taken by this step or before
    have hbefore : .taken r ∉ s.trace ∧ r ∉ takes a := by
      rcases hr with hnew | hold
      · obtain ⟨rfl, args, p, st, hsubmit, -⟩ := submit_of_mem_nullSubmits hnew
        refine ⟨hunborn.not_taken le_rfl, ?_⟩
        rw [← takes_refill none a, hsubmit]
        exact List.not_mem_nil
      · exact ⟨hnot r hold, fun hr => htakes r hr hold⟩
    rw [List.count_eq_zero_of_not_mem hbefore.1, List.count_eq_zero_of_not_mem hbefore.2] at hcount
    exact List.count_eq_zero.mp hcount htaken

/-! ### Requests without a connection -/

/-- What is asked of a request without a connection in one state: the loop took it at most once, and when it is
through with it the request has left the final queue and is freed, by its data cleaner too if it has one. Every
taking is one subtraction from `pipeline_queue_len`. -/
structure ServedOnce (s : State Stage Worker) (r : Nat) (cleaner : Bool) : Prop where
  once : s.trace.count (.taken r) ≤ 1
  leaves : .taken r ∈ s.trace → s.main.held = some r ∨
    .freed r ∈ s.trace ∧ r ∉ s.finalRequestHead ∧ (cleaner = true → .cleaned r ∈ s.trace)

/-- What is asked of a run: requests without a connection are served once in every state on the way, and the run
goes the same way whatever their blocks held before. -/
structure Connectionless (cfg : Config Stage Worker) (as : List (Action Stage Worker)) (s : State Stage Worker)
    (N : List (Nat × Bool)) : Prop where
  served : ∀ as₁ as₂ s₁ N₁, as = as₁ ++ as₂ → runs cfg (State.init, []) as₁ = some (s₁, N₁) →
    ∀ r cleaner, (r, cleaner) ∈ N₁ → ServedOnce s₁ r cleaner
  same : ∀ as', as'.map forget = as.map forget →
    ∃ s', runs cfg (State.init, []) as' = some (s', N) ∧ Alike (N.map Prod.fst) s s'

/-- **Requests without a connection.** In every run: they are served once and independently of what their blocks held
before, if and only if the loop of `done_requests_handler` takes none of them. -/
theorem connectionless_iff (cfg : Config Stage Worker) {as : List (Action Stage Worker)} {s : State Stage Worker}
    {N : List (Nat × Bool)} (h : runs cfg (State.init, []) as = some (s, N)) :
    Connectionless cfg as s N ↔ ∀ r ∈ N.map Prod.fst, .taken r ∉ s.trace := by
  have hheld : HeldTaken (State.init : State Stage Worker) := fun r hr => absurd hr (by simp [State.init, MainPc.held])
  constructor
  · rintro ⟨-, hsame⟩
    obtain ⟨s₀, hrun₀, halike₀⟩ := hsame _ (map_forget_refill none as)
    obtain ⟨s₁, hrun₁, -⟩ := hsame _ (map_forget_refill (some 0) as)
    have htrace : s₀.trace = s.trace := halike₀.keeps State.trace fun _ _ _ => rfl
    rw [← htrace]
    exact not_taken_of_filled (N := []) (.refl _ State.init) hheld unborn_init (by simp [Filled]) (by simp [Filled]) (by simp)
      hrun₀ hrun₁
  · intro hnot
    refine ⟨fun as₁ as₂ s₁ N₁ has hrun₁ r cleaner hr => ?_, fun as' ha => alike_run (.refl [] State.init) hheld h hnot ha⟩
    subst has
    obtain ⟨⟨t, M⟩, ht, hrest⟩ := run_append_eq_some.mp h
    obtain ⟨rfl, rfl⟩ := Prod.mk.inj (Option.some.inj (ht.symm.trans hrun₁))
    obtain ⟨hmono, hsub⟩ := runs_mono hrest
    have hnone : .taken r ∉ t.trace := fun htaken => hnot r (List.mem_map_of_mem (hsub hr)) (hmono r htaken)
    exact ⟨by rw [List.count_eq_zero_of_not_mem hnone]; exact Nat.zero_le _, fun htaken => absurd htaken hnone⟩

omit [Fintype Stage] in
theorem exists_runs (cfg : Config Stage Worker) (as : List (Action Stage Worker))
    {P : State Stage Worker × List (Nat × Bool) → Prop} [DecidablePred P]
    (h : (runs cfg (State.init, []) as).any (fun x => decide (P x)) = true) :
    ∃ x, runs cfg (State.init, []) as = some x ∧ P x := exists_run as h

/-- The request without a connection is in the done queue: so far nothing depended on its block. -/
theorem connectionless_run : ∃ s, runs (oneStage 8 0) (State.init, []) (nullSteps none) = some (s, [(0, true)]) ∧
    s.doneRqcb.requestHead = [0] ∧ Connectionless (oneStage 8 0) (nullSteps none) s [(0, true)] := by
  obtain ⟨⟨s, N⟩, hs, rfl, hdone, hnot⟩ := exists_runs (oneStage 8 0) (nullSteps none)
    (P := fun x => x.2 = [(0, true)] ∧ x.1.doneRqcb.requestHead = [0] ∧ .taken 0 ∉ x.1.trace) (by decide +kernel)
  exact ⟨s, hs, hdone, (connectionless_iff (oneStage 8 0) hs).mpr (by simpa using hnot)⟩

/-- The block of request 0 held no connection. The loop passes over the request, leaves it in the final queue and
takes it again when request 1 is done: it is never freed, and `pipeline_queue_len` has gone below zero. -/
theorem connectionless_request_stays :
    ∃ as s, runs (oneStage 8 0) (State.init, []) as = some (s, [(0, true)]) ∧
      s.trace.count (.taken 0) = 2 ∧ s.pipelineQueueLen = 0 - 1 ∧ s.finalRequestHead = [0] ∧
      .freed 0 ∉ s.trace ∧ .cleaned 0 ∉ s.trace ∧ s.main = .loop ∧
      ¬Connectionless (oneStage 8 0) as s [(0, true)] := by
  obtain ⟨⟨s, N⟩, hs, rfl, htwice, hlen, hfinal, hfreed, hcleaned, hmain⟩ := exists_runs (oneStage 8 0)
    (nullSteps none ++ [.main (.readBlocked 0)] ++ takeSteps ++ [.main (.takeNull 0 rcInit), .main (.finish rcInit),
      .main (.readable 0)] ++ submitSteps 1 0 ++ [.main (.readBlocked 0)] ++ handleSteps 1 [] 0 ++ doneSteps 1 ++
      takeSteps ++ [.main (.takeNull 0 rcInit)] ++ completeSteps 1 none rcInit rcInit ++ [.main (.finish rcInit)])
    (P := fun x => x.2 = [(0, true)] ∧ x.1.trace.count (.taken 0) = 2 ∧ x.1.pipelineQueueLen = 0 - 1 ∧
      x.1.finalRequestHead = [0] ∧ .freed 0 ∉ x.1.trace ∧ .cleaned 0 ∉ x.1.trace ∧ x.1.main = .loop)
    (by decide +kernel)
  refine ⟨_, s, hs, htwice, hlen, hfinal, hfreed, hcleaned, hmain, fun h => ?_⟩
  have honce := (h.served _ [] s _ (List.append_nil _).symm hs 0 true (by simp)).once
  rw [show s.trace.count (.taken 0) = 2 from htwice] at honce
  omega

end Csf
