import Csf.Pipeline.Eviction
import Csf.System.Lengths

/-!
# Evictions from a first stage

`sendComplete` is `send_to_pipeline` with the lock as one function, from its first statement to its return. It does
what the steps of the machine do (`run_sendComplete`). As long as the queue fits into its 32-bit counter it evicts
exactly the requests that its conditions name.

The kick-out takes `TAILQ_FIRST` after a test of the counter. In every run the counter is the length of the list, so
the list has an element if `pipeline_queue_size` is not 0, and only then in every run.
-/

namespace Csf

open Lib

variable {Stage Worker : Type} [DecidableEq Stage]

/-! ### The whole call -/

/-- The end of `send_to_pipeline`: if something was evicted, the done signal is set and a byte written. -/
def notifyEvicted (cfg : Config Stage Worker) (notice : Bool) (s : State Stage Worker) : State Stage Worker :=
  if notice && !s.doneSignalled then writeByte cfg infoDoneFd { s with doneSignalled := true } else s

/-- `send_to_pipeline` for a stage whose mutex it has got, with its return code; `none` is the access through `NULL`.
`pthread_cond_signal` and `pthread_mutex_unlock` succeed. -/
def sendComplete (cfg : Config Stage Worker) (p : Pipeline) (st : Stage) (r : Nat) (flags : UInt32) (concat : Bool)
    (s : State Stage Worker) : State Stage Worker × Option Int :=
  match sendToPipeline cfg p st r flags concat s with
  | (s', .full) => (s', some submitQueueFull)
  | (s', .nullHead) => (s', none)
  | (s', .linked notice) => (notifyEvicted cfg notice (countInserted st r s'), some 0)

theorem exists_of_sendComplete {cfg : Config Stage Worker} {p : Pipeline} {st : Stage} {r : Nat} {flags : UInt32}
    {concat : Bool} {s s' : State Stage Worker} (h : sendComplete cfg p st r flags concat s = (s', some 0)) :
    ∃ s₁ notice, sendToPipeline cfg p st r flags concat s = (s₁, .linked notice) ∧
      s' = notifyEvicted cfg notice (countInserted st r s₁) := by
  unfold sendComplete at h
  rcases hsend : sendToPipeline cfg p st r flags concat s with ⟨s₁, result⟩
  rw [hsend] at h
  cases result with
  | full => exact absurd (Prod.mk.inj h).2 (by decide)
  | nullHead => cases h
  | linked notice => exact ⟨s₁, notice, rfl, (Prod.mk.inj h).1.symm⟩

omit [DecidableEq Stage] in
theorem notifyEvicted_keeps {β : Type} (cfg : Config Stage Worker) (notice : Bool) (s : State Stage Worker)
    (f : State Stage Worker → β) (hf : ∀ t b n, f { t with doneSignalled := b, donePipe := n } = f t) :
    f (notifyEvicted cfg notice s) = f s := by
  unfold notifyEvicted
  split_ifs
  · exact (writeByte_keeps cfg infoDoneFd _ f fun t n => hf t t.doneSignalled n).trans (hf s true s.donePipe)
  · rfl

omit [DecidableEq Stage] in
theorem doneSignalled_notifyEvicted (cfg : Config Stage Worker) (s : State Stage Worker) :
    (notifyEvicted cfg true s).doneSignalled = true := by
  unfold notifyEvicted
  split_ifs with hclear
  · exact writeByte_keeps cfg infoDoneFd _ State.doneSignalled fun _ _ => rfl
  · simpa using hclear

section
variable [DecidableEq Worker] [Fintype Stage] [Fintype Worker]

def sendActs (p : Pipeline) (st : Stage) (r : Nat) (flags : UInt32) (concat notice told : Bool) (ws : List Worker) :
    List (Action Stage Worker) :=
  [.main (.send r p st flags concat), .main (.count r p st notice ws)] ++
    if notice then
      if told then [.main (.noticeSkip r p)]
      else [.main (.noticeClear r p), .main (.noticeSet r p), .main (.noticeWrite r p)]
    else []

omit [Fintype Stage] in
theorem run_main_cons (cfg : Config Stage Worker) {s : State Stage Worker} (a : MainAct Stage Worker)
    (as : List (Action Stage Worker)) (hrunning : s.status = .running) (hg : mainGuard cfg s a) :
    run (step cfg) (fun _ _ _ => true) s (.main a :: as) =
      run (step cfg) (fun _ _ _ => true) (mainEffect cfg s a) as := by
  have hstep : step cfg s (.main a) = some (mainEffect cfg s a) := if_pos ⟨hrunning, hg⟩
  rw [run, hstep]
  rfl

/-- The machine takes these steps to the state that the call leaves, with the workers awake that the signal has
released. -/
theorem run_sendComplete {cfg : Config Stage Worker} {p : Pipeline} {st : Stage} {r : Nat} {flags : UInt32}
    {concat notice : Bool} {s s₁ : State Stage Worker} {ws : List Worker} (hrunning : s.status = .running)
    (hsub : s.sub = .checked r p st flags concat) (hfree : s.mutex st = none) (hws : SignalOk cfg s st ws)
    (hsend : sendToPipeline cfg p st r flags concat s = (s₁, .linked notice)) :
    run (step cfg) (fun _ _ _ => true) s (sendActs p st r flags concat notice s.doneSignalled ws) =
      some { (sendComplete cfg p st r flags concat s).1 with sub := .sent r p, wk := wake ws s.wk } := by
  have hmove := QueueMove.sendToPipeline cfg p st r flags concat s
  rw [hsend] at hmove
  obtain ⟨-, hfalse | hfalse⟩ | ⟨ev, -, -, hmove, -⟩ := hmove
  · cases hfalse
  · cases hfalse
  dsimp only at hmove
  have hstatus : s₁.status = .running := (hmove.keeps State.status fun _ => rfl).trans hrunning
  have hmutex : s₁.mutex = s.mutex := hmove.keeps State.mutex fun _ => rfl
  have hwk : s₁.wk = s.wk := hmove.keeps State.wk fun _ => rfl
  have htold : s₁.doneSignalled = s.doneSignalled := hmove.keeps State.doneSignalled fun _ => rfl
  have hlinked : mainEffect cfg s (.send r p st flags concat) =
      setMutex st (some .main) { s₁ with sub := .inserted r p st notice } := by
    rw [mainEffect, sendLocked, hsend]
  have hsignal : SignalOk cfg (setMutex st (some .main) { s₁ with sub := .inserted r p st notice }) st ws := by
    simpa only [SignalOk, setMutex, hwk] using hws
  have hcount : mainEffect cfg (setMutex st (some .main) { s₁ with sub := .inserted r p st notice })
      (.count r p st notice ws) = { countInserted st r s₁ with
        wk := wake ws s.wk, sub := if notice then .noticeTest r p else .sent r p } := by
    have hunlock : Function.update (Function.update s₁.mutex st (some .main)) st none = s₁.mutex := by
      rw [Function.update_idem, Function.update_eq_self_iff, hmutex, hfree]
    simp only [mainEffect, countInserted, setMutex, hunlock, hwk]
  have hrest : (sendComplete cfg p st r flags concat s).1 = notifyEvicted cfg notice (countInserted st r s₁) := by
    rw [sendComplete, hsend]
  refine (run_main_cons cfg (.send r p st flags concat) _ hrunning ⟨hsub, hfree⟩).trans ?_
  rw [hlinked]
  refine (run_main_cons cfg (.count r p st notice ws) _ (by exact hstatus) (by exact ⟨rfl, hsignal⟩)).trans ?_
  rw [hcount, hrest]
  cases notice with
  | false => rfl
  | true =>
    rw [if_pos rfl]
    cases htell : s.doneSignalled with
    | true =>
      refine (run_main_cons cfg (.noticeSkip r p) [] (by exact hstatus) (by exact ⟨rfl, htold.trans htell⟩)).trans ?_
      rw [run, notifyEvicted, if_neg (by simp [countInserted, htold, htell])]
      rfl
    | false =>
      refine (run_main_cons cfg (.noticeClear r p) _ (by exact hstatus) (by exact ⟨rfl, htold.trans htell⟩)).trans ?_
      refine (run_main_cons cfg (.noticeSet r p) _ (by exact hstatus) (by exact rfl)).trans ?_
      refine (run_main_cons cfg (.noticeWrite r p) _ (by exact hstatus) (by exact rfl)).trans ?_
      rw [run, notifyEvicted, if_pos (by simp [countInserted, htold, htell])]
      simp only [mainEffect, writeByte]
      split_ifs <;> rfl

end

/-! ### Exact eviction -/

/-- What the call is to do: `s'` is the state that it leaves. -/
structure ExactEviction (cfg : Config Stage Worker) (p : Pipeline) (st : Stage) (r : Nat) (flags : UInt32)
    (concat : Bool) (s s' : State Stage Worker) : Prop where
  requestHead : (s'.rqcb st).requestHead = kept cfg flags s (waitingQueue p st concat s) ++ [r]
  finalRequestHead : s'.finalRequestHead = s.finalRequestHead ++
    (kicked cfg flags (waitingQueue p st concat s) ++ swept cfg flags s (waitingQueue p st concat s))
  marked : ∀ h ∈ kicked cfg flags (waitingQueue p st concat s), (s'.heap h).flags = requestKickOut
  unmarked : ∀ x, x ∉ kicked cfg flags (waitingQueue p st concat s) → s'.heap x = s.heap x
  queueLen : (s'.rqcb st).queueLen.toNat = (s'.rqcb st).requestHead.length
  stages : ∀ st', st' ≠ st → s'.rqcb st' = s.rqcb st'
  pipelines : ∀ q, q ≠ p → s'.pcb q = s.pcb q
  doneSignal : s'.finalRequestHead ≠ s.finalRequestHead → s'.doneSignalled = true

/-- The parts of the state after the lists are changed: the stage holds `rest` and the new request, `ks` are marked and
`ev` is at the end of `final_request_queue`. -/
structure Evicted (p : Pipeline) (st : Stage) (r : Nat) (rest ks ev : List Nat) (s t : State Stage Worker) : Prop where
  stage : t.rqcb st = ⟨rest ++ [r], UInt32.ofNat (rest.length + 1)⟩
  final : t.finalRequestHead = s.finalRequestHead ++ ev
  heap : ∀ x, t.heap x = if x ∈ ks then { s.heap x with flags := requestKickOut } else s.heap x
  stages : ∀ st', st' ≠ st → t.rqcb st' = s.rqcb st'
  pipelines : ∀ q, q ≠ p → t.pcb q = s.pcb q

section
variable {p : Pipeline} {st : Stage} {rest ev : List Nat} {s t : State Stage Worker}

theorem evicted_countInserted (r : Nat) (ks : List Nat) {concat : Bool} {n : Nat}
    (hcounter : ((concatBuffered p st concat s).rqcb st).queueLen = UInt32.ofNat n)
    (hparts : ev.length + rest.length = n) :
    Evicted p st r rest ks ev s
      (countInserted st r (insertTail st r (moveToFinal st rest ev (markKicked ks (concatBuffered p st concat s))))) where
  stage := by
    have hlast : UInt32.ofNat n - UInt32.ofNat ev.length + 1 = UInt32.ofNat (rest.length + 1) := by
      rw [← hparts, UInt32.ofNat_add, UInt32.ofNat_add]
      grind
    simp only [countInserted, insertTail, moveToFinal, markKicked, Function.update_self, hcounter, hlast]
  final := congrArg (· ++ ev) (concatBuffered_keeps p st concat s State.finalRequestHead fun _ _ _ _ => rfl)
  heap x := by
    have hheap : (concatBuffered p st concat s).heap = s.heap :=
      concatBuffered_keeps p st concat s State.heap fun _ _ _ _ => rfl
    simp only [countInserted, insertTail, moveToFinal, markKicked, hheap]
  stages st' hst := by
    simp only [countInserted, insertTail, moveToFinal, markKicked, Function.update_of_ne hst]
    exact rqcb_concatBuffered p hst concat s
  pipelines q hq := pcb_concatBuffered hq st concat s

omit [DecidableEq Stage] in
theorem Evicted.notify {r : Nat} {ks : List Nat} (h : Evicted p st r rest ks ev s t) (cfg : Config Stage Worker)
    (notice : Bool) : Evicted p st r rest ks ev s (notifyEvicted cfg notice t) := by
  have hrqcb : (notifyEvicted cfg notice t).rqcb = t.rqcb := notifyEvicted_keeps cfg notice t State.rqcb fun _ _ _ => rfl
  have hpcb : (notifyEvicted cfg notice t).pcb = t.pcb := notifyEvicted_keeps cfg notice t State.pcb fun _ _ _ => rfl
  have hheap : (notifyEvicted cfg notice t).heap = t.heap := notifyEvicted_keeps cfg notice t State.heap fun _ _ _ => rfl
  have hfinal : (notifyEvicted cfg notice t).finalRequestHead = t.finalRequestHead :=
    notifyEvicted_keeps cfg notice t State.finalRequestHead fun _ _ _ => rfl
  refine ⟨?_, ?_, ?_, ?_, ?_⟩
  · rw [hrqcb, h.stage]
  · rw [hfinal, h.final]
  · intro x
    rw [hheap, h.heap]
  · intro st' hst
    rw [hrqcb, h.stages st' hst]
  · intro q hq
    rw [hpcb, h.pipelines q hq]

end

/-- **Eviction is exact.** If the counters of the waiting and of the buffered requests are right and fewer than
2 ^ 32 requests wait, then a call that returns 0 does what it is to do as long as the new request can be counted, too. -/
theorem eviction_exact_iff (cfg : Config Stage Worker) {s s' : State Stage Worker} {p : Pipeline} {st : Stage} (r : Nat)
    {flags : UInt32} {concat : Bool} (hlen : (s.rqcb st).queueLen.toNat = (s.rqcb st).requestHead.length)
    (htmp : concat = true → (s.pcb p).tmpQueueLen.toNat = (s.pcb p).tmpRequestHead.length)
    (hfits : (waitingQueue p st concat s).length < 2 ^ 32)
    (hret : sendComplete cfg p st r flags concat s = (s', some 0)) :
    ExactEviction cfg p st r flags concat s s' ↔
      (kept cfg flags s (waitingQueue p st concat s)).length + 1 < 2 ^ 32 := by
  obtain ⟨s₁, notice, hsend, rfl⟩ := exists_of_sendComplete hret
  have hcounter : ((concatBuffered p st concat s).rqcb st).queueLen =
      UInt32.ofNat (waitingQueue p st concat s).length :=
    queueLen_concatBuffered (eq_ofNat_of_toNat_eq hlen) fun hc => eq_ofNat_of_toNat_eq (htmp hc)
  obtain ⟨rfl, rfl⟩ := sendToPipeline_eq (toNat_of_eq_ofNat hcounter hfits) hsend
  have hparts := length_parts cfg flags s (waitingQueue p st concat s)
  generalize hev : kicked cfg flags (waitingQueue p st concat s) ++ swept cfg flags s (waitingQueue p st concat s) = ev
    at hparts ⊢
  have hlists := evicted_countInserted r (kicked cfg flags (waitingQueue p st concat s)) hcounter hparts
  have hleft := hlists.notify cfg (!ev.isEmpty)
  constructor
  · -- the counter is the length of the queue, and it is a 32-bit number
    intro h
    have hcount := h.queueLen
    rw [hleft.stage, List.length_append, List.length_singleton] at hcount
    rw [← hcount]
    exact UInt32.toNat_lt _
  · intro hroom
    refine ⟨?_, ?_, ?_, ?_, ?_, hleft.stages, hleft.pipelines, ?_⟩
    · rw [hleft.stage]
    · rw [hleft.final, hev]
    · intro h hh
      rw [hleft.heap, if_pos hh]
    · intro x hx
      rw [hleft.heap, if_neg hx]
    · rw [hleft.stage, List.length_append, List.length_singleton]
      exact UInt32.toNat_ofNat_of_lt' hroom
    · intro hne
      rw [hleft.final] at hne
      have hev' : ev.isEmpty = false := by
        cases ev with
        | nil => exact absurd (List.append_nil _) hne
        | cons x ev => rfl
      rw [hev']
      exact doneSignalled_notifyEvicted cfg _

/-- Two requests wait and two are buffered; the requests 1 and 3 are older than the timeout. -/
def crowded : State (Fin 1) (Fin 1) :=
  { (State.init : State (Fin 1) (Fin 1)) with
    heap := fun r => { (default : Request) with clock := if r = 2 then 9 else 1 }
    rqcb := fun _ => ⟨[0, 1], 2⟩
    pcb := fun _ => ⟨[2, 3], 2, true, 0⟩
    clockOff := 9 }

/-- All three conditions at once: 0 is kicked out, 1 and 3 are swept, 2 stays in front of the new request. -/
theorem crowded_eviction :
    ∃ s', sendComplete (oneStage 4 5) 0 0 4 (requestForce ||| requestKickOut ||| requestTimeOut) true crowded =
        (s', some 0) ∧
      (s'.rqcb 0).requestHead = [2, 4] ∧ s'.finalRequestHead = [0, 1, 3] ∧
      ExactEviction (oneStage 4 5) 0 0 4 (requestForce ||| requestKickOut ||| requestTimeOut) true crowded s' :=
  ⟨_, rfl, by decide, by decide, (eviction_exact_iff (oneStage 4 5) 4 (by decide) (by decide) (by decide) rfl).mpr
    (by decide)⟩

/-- The queue `l` in a stage, with the counter `n`. -/
def queued (l : List Nat) (n : UInt32) : State (Fin 1) (Fin 1) :=
  { (State.init : State (Fin 1) (Fin 1)) with rqcb := fun _ => ⟨l, n⟩ }

theorem sendComplete_force (l : List Nat) (n : UInt32) (r : Nat) :
    ∃ s', sendComplete (oneStage 8 0) 0 0 r requestForce false (queued l n) = (s', some 0) ∧
      s'.rqcb 0 = ⟨l ++ [r], n + 1⟩ :=
  ⟨_, rfl, rfl⟩

/-- The counter is at its limit: the request is linked, the call returns 0, and `queue_len` is 0. -/
theorem queue_len_wraps :
    ((queued (List.range 4294967295) 4294967295).rqcb 0).queueLen.toNat =
        ((queued (List.range 4294967295) 4294967295).rqcb 0).requestHead.length ∧
      ∃ s', sendComplete (oneStage 8 0) 0 0 7 requestForce false (queued (List.range 4294967295) 4294967295) =
          (s', some 0) ∧
        (s'.rqcb 0).requestHead.length = 4294967296 ∧ (s'.rqcb 0).queueLen = 0 ∧
        ¬ ExactEviction (oneStage 8 0) 0 0 7 requestForce false (queued (List.range 4294967295) 4294967295) s' := by
  refine ⟨?_, ?_⟩
  · simp only [queued, List.length_range]
    rfl
  · obtain ⟨s', hret, hstage⟩ := sendComplete_force (List.range 4294967295) 4294967295 7
    have hlen : (s'.rqcb 0).requestHead.length = 4294967296 := by
      rw [hstage, List.length_append, List.length_range]
      rfl
    have hcount : (s'.rqcb 0).queueLen = 0 := by
      rw [hstage]
      rfl
    refine ⟨s', hret, hlen, hcount, fun h => ?_⟩
    have hexact := h.queueLen
    rw [hlen, hcount] at hexact
    exact absurd hexact (by decide)

/-! ### The victim of a kick-out -/

section
variable [DecidableEq Worker] [Fintype Stage] [Fintype Worker]

/-- `send_to_pipeline` is called in this state, gets the lock and takes the branch of `REQUEST_KICK_OUT`. -/
def TakesKickOut (cfg : Config Stage Worker) (s : State Stage Worker) (r : Nat) (p : Pipeline) (st : Stage)
    (flags : UInt32) (concat : Bool) : Prop :=
  Guard cfg s (.main (.send r p st flags concat)) ∧ kicksOut cfg st flags (concatBuffered p st concat s) = true

omit [DecidableEq Worker] [Fintype Stage] [Fintype Worker] in
theorem sendToPipeline_nullHead {cfg : Config Stage Worker} {s : State Stage Worker} (r : Nat) {p : Pipeline}
    {st : Stage} {flags : UInt32} {concat : Bool} (hkick : kicksOut cfg st flags (concatBuffered p st concat s) = true)
    (hempty : ((concatBuffered p st concat s).rqcb st).requestHead = []) :
    (sendToPipeline cfg p st r flags concat s).2 = .nullHead := by
  have hflags := hkick
  rw [kicksOut, Bool.and_eq_true, Bool.and_eq_true] at hflags
  unfold sendToPipeline
  simp [hflags.1.1, hkick, hempty]

theorem queueLen_of_checked {cfg : Config Stage Worker} {s : State Stage Worker}
    (h : Reachable cfg (fun s a _ => Regular s a) s) {r : Nat} {p : Pipeline} {st : Stage} {flags : UInt32} {concat : Bool}
    (hsub : s.sub = .checked r p st flags concat) :
    ((concatBuffered p st concat s).rqcb st).queueLen =
      UInt32.ofNat ((concatBuffered p st concat s).rqcb st).requestHead.length := by
  have hcounted : Counted (uncounted s.sub) s :=
    h.invariant (I := fun s => Counted (uncounted s.sub) s) counted_init fun _ _ _ hI _ hs => counted_step hI hs
  rw [hsub] at hcounted
  have hstage := (hcounted.concatBuffered p st concat).stage st
  have hzero : uncounted (.checked r p st flags concat) st = 0 := rfl
  rwa [hzero, Rqcb.Behind, UInt32.add_zero] at hstage

omit [DecidableEq Stage] [DecidableEq Worker] [Fintype Stage] [Fintype Worker] in
theorem submitCheck_force {cfg : Config Stage Worker} {s : State Stage Worker} {p : Pipeline} {st : Stage}
    (hfirst : cfg.firstRqcb p = some st) (hrestart : s.gracefulRestart = false) {args : SubmitArgs}
    (hid : args.pipelineId = UInt32.ofNat p) (hforce : hasFlag args.flags requestForce = true) :
    submitCheck cfg args s = .ok (p, st) := by
  have hp : args.pipelineId.toNat = p := by
    rw [hid]
    exact UInt32.toNat_ofNat_of_lt' (p.isLt.trans (by decide))
  exact submitCheck_eq_ok_iff.mpr ⟨hp, hrestart, hfirst, .inl hforce⟩

omit [Fintype Stage] in
theorem exists_takesKickOut {cfg : Config Stage Worker} {p : Pipeline} {st : Stage}
    (hfirst : cfg.firstRqcb p = some st) (hroom : 0 < cfg.maxBlocks) (hsize : cfg.pipelineQueueSize = 0) :
    ∃ s, Reachable cfg (fun s a _ => Regular s a) s ∧
      TakesKickOut cfg s 0 p st (requestForce ||| requestKickOut) false ∧ (s.rqcb st).requestHead = [] := by
  have hforce : hasFlag (requestForce ||| requestKickOut) requestForce = true := by decide
  have hdatagram : Reachable cfg (fun s a _ => Regular s a) (mainEffect cfg State.init .datagram) :=
    Reach.init.next (a := .main .datagram) trivial (if_pos ⟨rfl, rfl⟩)
  have hsubmit : Reachable cfg (fun s a _ => Regular s a) (mainEffect cfg (mainEffect cfg State.init .datagram)
      (.submit ⟨some 0, UInt32.ofNat p, true, true, requestForce ||| requestKickOut, none⟩ p st)) :=
    hdatagram.next (a := .main (.submit ⟨some 0, UInt32.ofNat p, true, true, requestForce ||| requestKickOut, none⟩ p
      st)) trivial (if_pos ⟨rfl, rfl, rfl, submitCheck_force hfirst rfl rfl hforce, hroom⟩)
  refine ⟨_, hsubmit, ⟨⟨rfl, rfl⟩, ?_⟩, rfl⟩
  have hfull : ∀ n : UInt64, cfg.pipelineQueueSize ≤ n := fun n => hsize ▸ UInt64.zero_le
  rw [kicksOut, stageFull, decide_eq_true (hfull _)]
  decide

/-- **Kick-out always finds a victim** exactly if `pipeline_queue_size` is not 0, in a server with a pipeline that has
a stage and with memory for a request, and in runs in which no handler passes on a request past the loop limit. Past it
a request is linked into two queues at once, and `TAILQ_FIRST` of the stage is not what its counter says. -/
theorem kick_out_finds_victim_iff (cfg : Config Stage Worker) (hchain : ∃ p, cfg.chain p ≠ [])
    (hroom : 0 < cfg.maxBlocks) :
    (∀ s, Reachable cfg (fun s a _ => Regular s a) s → ∀ r p st flags concat, TakesKickOut cfg s r p st flags concat →
      ((concatBuffered p st concat s).rqcb st).requestHead ≠ []) ↔ 0 < cfg.pipelineQueueSize := by
  constructor
  · intro hvictim
    by_contra hzero
    have hsize : cfg.pipelineQueueSize = 0 := UInt64.le_zero_iff.mp (UInt64.not_lt.mp hzero)
    obtain ⟨p, hp⟩ := hchain
    obtain ⟨st, rest, hst⟩ := List.exists_cons_of_ne_nil hp
    have hfirst : cfg.firstRqcb p = some st := by rw [Config.firstRqcb, hst, List.head?_cons]
    obtain ⟨s, hs, htakes, hempty⟩ := exists_takesKickOut hfirst hroom hsize
    exact hvictim s hs 0 p st _ false htakes hempty
  · rintro hsize s hs r p st flags concat ⟨hguard, hkick⟩ hempty
    have hlen := queueLen_of_checked hs hguard.1
    rw [hempty] at hlen
    rw [kicksOut, Bool.and_eq_true, stageFull, decide_eq_true_iff, hlen] at hkick
    exact absurd (UInt64.lt_of_lt_of_le hsize hkick.2) (by decide)

end

/-- With a single place the head is there in every such run. -/
theorem kick_out_finds_victim_one :
    ((oneStage 1 0).chain 0 ≠ [] ∧ 0 < (oneStage 1 0).maxBlocks ∧ (oneStage 1 0).pipelineQueueSize = 1) ∧
      ∀ s, Reachable (oneStage 1 0) (fun s a _ => Regular s a) s → ∀ r p st flags concat,
        TakesKickOut (oneStage 1 0) s r p st flags concat →
          ((concatBuffered p st concat s).rqcb st).requestHead ≠ [] :=
  ⟨by decide, (kick_out_finds_victim_iff (oneStage 1 0) ⟨0, by decide⟩ (by decide)).mpr (by decide)⟩

/-- The default size is 0: the first forced submission of a run takes the branch on the empty queue, and the process
ends. -/
theorem kick_out_empty_queue :
    ∃ s, Reachable (oneStage 0 0) (fun s a _ => Regular s a) s ∧
      TakesKickOut (oneStage 0 0) s 0 0 0 (requestForce ||| requestKickOut) false ∧ (s.rqcb 0).requestHead = [] ∧
      (sendToPipeline (oneStage 0 0) 0 0 0 (requestForce ||| requestKickOut) false s).2 = .nullHead := by
  have hfirst : (oneStage 0 0).firstRqcb 0 = some 0 := rfl
  obtain ⟨s, hs, htakes, hempty⟩ := exists_takesKickOut hfirst (by decide) rfl
  exact ⟨s, hs, htakes, hempty, sendToPipeline_nullHead 0 htakes.2 hempty⟩

end Csf
