import Csf.System.Attend

/-!
# A full server that lost its completion signal never recovers

When `done_requests_handler` runs on `EV_TIMEOUT` it reads the done pipe and clears `done_signalled` without taking the done
queue. The requests in it then wait for the next completion. If they are as many as the pipeline may hold there is no next
one: `submit_request` refuses whatever is not forced, so no request reaches a worker, no worker writes to the pipe and the
handler is called with `EV_TIMEOUT` only. `Stalled` is that situation, `stalled_step` says that no step leaves it and
`stall_is_final` that nothing is accepted, handled or answered any more, also not after a SIGHUP.
-/

namespace Csf

open Lib

variable {Stage Worker : Type}

/-- The worker has no request in hand and does not leave. -/
def idles : WorkerPc Stage → Bool
  | .top | .locked | .aboutToWait | .waiting | .woken | .gone => true
  | _ => false

/-- The main thread is not on the way to the done queue. -/
def awaits : MainPc Stage → Bool
  | .loop | .session _ | .datagram _ | .drainTest .timeout | .kick .timeout | .testDone .timeout => true
  | _ => false

/-- The counter is at its limit, no request is where a worker could find it, and nothing tells the main thread to take
those that are done. -/
structure Stalled (cfg : Config Stage Worker) (s : State Stage Worker) : Prop where
  full : cfg.pipelineQueueSize ≤ s.pipelineQueueLen
  busy : s.pipelineQueueLen ≠ 0
  sub : s.sub = .none
  main : awaits s.main = true
  workers : ∀ w, idles (s.wk w) = true
  stages : ∀ st, (s.rqcb st).requestHead = []
  tmp : ∀ p, (s.pcb p).tmpRequestHead = []
  flag : s.doneSignalled = false
  pipe : s.donePipe = 0

/-- No request is accepted, handled, taken or answered between the two states. -/
structure Unmoved (s s' : State Stage Worker) : Prop where
  trace : s'.trace = s.trace
  doneRqcb : s'.doneRqcb = s.doneRqcb
  final : s'.finalRequestHead = s.finalRequestHead
  status : s'.status = s.status

theorem Unmoved.trans {s s' s'' : State Stage Worker} (h : Unmoved s s') (h' : Unmoved s' s'') : Unmoved s s'' :=
  ⟨h'.trace.trans h.trace, h'.doneRqcb.trans h.doneRqcb, h'.final.trans h.final, h'.status.trans h.status⟩

variable {cfg : Config Stage Worker} {s s' : State Stage Worker}

theorem stalled_offConns : (Stalled cfg (offConns s') ∧ Unmoved s (offConns s')) ↔ Stalled cfg s' ∧ Unmoved s s' := by
  constructor <;> rintro ⟨h, hu⟩
  · exact ⟨⟨h.full, h.busy, h.sub, h.main, h.workers, h.stages, h.tmp, h.flag, h.pipe⟩,
      hu.trace, hu.doneRqcb, hu.final, hu.status⟩
  · exact ⟨⟨h.full, h.busy, h.sub, h.main, h.workers, h.stages, h.tmp, h.flag, h.pipe⟩,
      hu.trace, hu.doneRqcb, hu.final, hu.status⟩

theorem Stalled.not_drained (h : Stalled cfg s) : ¬drained s := fun hd => h.busy hd.2

theorem Stalled.set_wk (h : Stalled cfg s) (hwk : ∀ w, idles (s'.wk w) = true) (hlen : s'.pipelineQueueLen = s.pipelineQueueLen)
    (hsub : s'.sub = s.sub) (hmain : awaits s'.main = true) (hrqcb : ∀ st, (s'.rqcb st).requestHead = [])
    (htmp : ∀ p, (s'.pcb p).tmpRequestHead = []) (hflag : s'.doneSignalled = s.doneSignalled)
    (hpipe : s'.donePipe = s.donePipe) : Stalled cfg s' where
  full := hlen ▸ h.full
  busy := hlen ▸ h.busy
  sub := hsub.trans h.sub
  main := hmain
  workers := hwk
  stages := hrqcb
  tmp := htmp
  flag := hflag.trans h.flag
  pipe := hpipe.trans h.pipe

theorem idles_of_wake {pc pc' : WorkerPc Stage} (h : pc' = pc ∨ pc' = .woken ∧ pc = .waiting) (hpc : idles pc = true) :
    idles pc' = true := by
  rcases h with rfl | ⟨rfl, -⟩
  · exact hpc
  · rfl

section
variable [DecidableEq Stage] [DecidableEq Worker]

theorem stalled_workerEffect {w : Worker} {a : WorkerAct Stage Worker} (h : Stalled cfg s) (hg : workerGuard cfg s w a) :
    Stalled cfg (workerEffect cfg s w a) ∧ Unmoved s (workerEffect cfg s w a) := by
  have hwk : ∀ pc, idles pc = true → ∀ v, idles (Function.update s.wk w pc v) = true := by
    intro pc hpc v
    by_cases hv : v = w
    · rw [hv, Function.update_self]
      exact hpc
    · rw [Function.update_of_ne hv]
      exact h.workers v
  have hidle := h.workers w
  cases a with
  | lock | empty | retry =>
    exact ⟨h.set_wk (hwk _ rfl) rfl rfl h.main h.stages h.tmp rfl rfl, rfl, rfl, rfl, rfl⟩
  | wait | spurious => exact ⟨h.set_wk (hwk _ rfl) rfl rfl h.main h.stages h.tmp rfl rfl, rfl, rfl, rfl, rfl⟩
  | leave => exact absurd hg.2.2 h.not_drained
  | delay r =>
    rw [workerGuard, h.stages] at hg
    cases hg.2.1
  | dequeue r rest =>
    rw [workerGuard, h.stages] at hg
    cases hg.2.1
  | exit | doneInsert | doneUnlock | doneSet | doneWrite =>
    rw [show s.wk w = _ from hg] at hidle
    cases hidle
  | _ =>
    rw [hg.1] at hidle
    cases hidle

omit [DecidableEq Worker] in
theorem stalled_kickRequestQueue (h : Stalled cfg s) (ok : Pipeline → Bool) :
    (∀ st, ((kickRequestQueue cfg ok s).rqcb st).requestHead = []) ∧
      ∀ p, ((kickRequestQueue cfg ok s).pcb p).tmpRequestHead = [] := by
  constructor
  · intro st
    by_contra hne
    rcases filled_kickRequestQueue hne with hold | ⟨p, -, -, hp, -⟩
    · exact hold (h.stages st)
    · exact hp (h.tmp p)
  · intro p
    by_contra hne
    exact tmp_kickRequestQueue hne (h.tmp p)

theorem Stalled.kicked (h : Stalled cfg s) {ok : Pipeline → Bool} {ws : Pipeline → List Worker} (hkick : KickOk cfg s ok ws)
    (hrest : { s' with main := s.main, sig := s.sig } = { kickAll cfg ok ws s with main := s.main, sig := s.sig })
    (hmain : awaits s'.main = true) : Stalled cfg s' ∧ Unmoved s s' := by
  have hkeep : ∀ {β : Type} (f : State Stage Worker → β), (∀ t main sig, f { t with main := main, sig := sig } = f t) →
      (∀ t wk, f { t with wk := wk } = f t) →
      (∀ t rqcb pcb apq, f { t with rqcb := rqcb, pcb := pcb, apq := apq } = f t) → f s' = f s := by
    intro β f hpc hwk hf
    rw [← hpc s' s.main s.sig, hrest, hpc, kickAll, hwk]
    exact kickRequestQueue_keeps cfg ok s f hf
  have hrqcb := congrArg State.rqcb hrest
  have hpcb := congrArg State.pcb hrest
  have hwk := congrArg State.wk hrest
  obtain ⟨hstages, htmp⟩ := stalled_kickRequestQueue h ok
  constructor
  · apply h.set_wk _ (hkeep State.pipelineQueueLen (fun _ _ _ => rfl) (fun _ _ => rfl) fun _ _ _ _ => rfl)
      (hkeep State.sub (fun _ _ _ => rfl) (fun _ _ => rfl) fun _ _ _ _ => rfl) hmain
    · rw [show s'.rqcb = _ from hrqcb]
      exact hstages
    · rw [show s'.pcb = _ from hpcb]
      exact htmp
    · exact hkeep State.doneSignalled (fun _ _ _ => rfl) (fun _ _ => rfl) fun _ _ _ _ => rfl
    · exact hkeep State.donePipe (fun _ _ _ => rfl) (fun _ _ => rfl) fun _ _ _ _ => rfl
    · intro w
      rw [show s'.wk = _ from hwk]
      exact idles_of_wake (wake_cases (fun v => waiting_of_mem_kickWakes hkick) w) (h.workers w)
  · constructor
    · exact hkeep State.trace (fun _ _ _ => rfl) (fun _ _ => rfl) fun _ _ _ _ => rfl
    · exact hkeep State.doneRqcb (fun _ _ _ => rfl) (fun _ _ => rfl) fun _ _ _ _ => rfl
    · exact hkeep State.finalRequestHead (fun _ _ _ => rfl) (fun _ _ => rfl) fun _ _ _ _ => rfl
    · exact hkeep State.status (fun _ _ _ => rfl) (fun _ _ => rfl) fun _ _ _ _ => rfl

theorem stalled_mainEffect {a : MainAct Stage Worker} (h : Stalled cfg s) (hg : mainGuard cfg s a)
    (hplain : unflagged (Action.main a) = true) : Stalled cfg (mainEffect cfg s a) ∧ Unmoved s (mainEffect cfg s a) := by
  rw [mainEffect_plain cfg s a (fun t => Stalled cfg t ∧ Unmoved s t) fun t => propext stalled_offConns.symm]
  have hmove : ∀ main, awaits main = true → Stalled cfg { s with main := main } ∧ Unmoved s { s with main := main } :=
    fun main hmain => ⟨h.set_wk h.workers rfl rfl hmain h.stages h.tmp rfl rfl, rfl, rfl, rfl, rfl⟩
  have hawaits := h.main
  have hsub := h.sub
  cases a with
  | accept | writable | idleTimeout | sendBack | refuse =>
    exact ⟨h.set_wk h.workers rfl rfl h.main h.stages h.tmp rfl rfl, rfl, rfl, rfl, rfl⟩
  | readable c => exact hmove (.session c) rfl
  | hangup | readBlocked | readDone | datagramEnd => exact hmove .loop rfl
  | datagram => exact ⟨h.set_wk h.workers rfl rfl rfl h.stages h.tmp rfl rfl, rfl, rfl, rfl, rfl⟩
  | submit args p st =>
    -- the counter is at its limit, and the request is not forced
    have hflags : args.flags = requestNone := by simpa [unflagged] using hplain
    obtain ⟨-, -, -, hforce | hroom⟩ := submitCheck_eq_ok_iff.mp hg.2.2.1
    · rw [hflags] at hforce
      cases hforce
    · exact absurd h.full (UInt64.not_le.mpr hroom)
  | send | count | noticeSkip | noticeClear =>
    rw [hg.1] at hsub
    cases hsub
  | buffer | countBuffered | noticeSet | noticeWrite | returnTid =>
    rw [show s.sub = _ from hg] at hsub
    cases hsub
  | event ev =>
    cases ev with
    | read => exact absurd h.pipe (Nat.ne_of_gt (hg.2 rfl))
    | timeout => exact ⟨h.set_wk h.workers rfl rfl rfl h.stages h.tmp rfl rfl, rfl, rfl, rfl, rfl⟩
  | drainHit ev =>
    rw [mainGuard, h.flag] at hg
    cases hg.2
  | drainMiss ev =>
    rw [hg.1] at hawaits
    cases ev with
    | read => cases hawaits
    | timeout => exact hmove (.kick .timeout) rfl
  | kick ev ok ws =>
    rw [hg.1] at hawaits
    cases ev with
    | read => cases hawaits
    | timeout => exact h.kicked hg.2 rfl rfl
  | skip ev => exact hmove .loop rfl
  | enter | take | takeBusy | takeNull | takeReq | respond | noResponder | responderRet | quiet | startBroadcast =>
    rw [hg.1] at hawaits
    cases hawaits
  | drainRead | drainReset | finish | dispose | broadcast | broadcastEnd =>
    rw [show s.main = _ from hg] at hawaits
    cases hawaits

variable [Fintype Worker]

theorem stalled_step {a : Action Stage Worker} (h : Stalled cfg s) (hs : step cfg s a = some s')
    (hplain : unflagged a = true) : Stalled cfg s' ∧ Unmoved s s' := by
  obtain ⟨-, hg, rfl⟩ := step_eq_some hs
  cases a with
  | worker w a => exact stalled_workerEffect h hg
  | main a => exact stalled_mainEffect h hg hplain
  | signals a =>
    cases a with
    | hup | quiet | finish => exact ⟨h.set_wk h.workers rfl rfl h.main h.stages h.tmp rfl rfl, rfl, rfl, rfl, rfl⟩
    | kick ok ws =>
      have hmain : (effect cfg s (.signals (.kick ok ws))).main = s.main :=
        kickRequestQueue_keeps cfg ok s State.main fun _ _ _ _ => rfl
      refine h.kicked hg.2 ?_ (hmain ▸ h.main)
      rw [effect, signalEffect]
    | startBroadcast => exact absurd hg.2 h.busy
    | broadcast st todo =>
      have hwk : ∀ w, idles (broadcastWake cfg st s.wk w) = true := fun w =>
        idles_of_wake (broadcastWake_cases cfg st s.wk w) (h.workers w)
      exact ⟨h.set_wk hwk rfl rfl h.main h.stages h.tmp rfl rfl, rfl, rfl, rfl, rfl⟩
  | tick | cancel => exact ⟨h.set_wk h.workers rfl rfl h.main h.stages h.tmp rfl rfl, rfl, rfl, rfl, rfl⟩

/-- A full server that has lost its completion signal never recovers by itself: whatever the threads do afterwards, as long
as no submission is forced, it stays stalled, no request is accepted, handed to a stage, taken or answered, the done queue
stays as it is and the process does not end. -/
theorem stall_is_final (cfg : Config Stage Worker) {s t : State Stage Worker} (hstall : Stalled cfg s)
    (h : Reach (step cfg) (fun _ a _ => unflagged a = true) s t) : Stalled cfg t ∧ Unmoved s t :=
  h.invariant (I := fun t => Stalled cfg t ∧ Unmoved s t) ⟨hstall, rfl, rfl, rfl, rfl⟩ fun _ _ _ hinv hplain hs => by
    obtain ⟨hnext, hmoved⟩ := stalled_step hinv.1 hs hplain
    exact ⟨hnext, hinv.2.trans hmoved⟩

end

/-- Two requests fill the server and are done when the handler is called on `EV_TIMEOUT`: it answers nothing any more. -/
theorem stall_is_final_run : ∃ s, Reachable (oneStage 2 0) (fun _ a _ => unflagged a = true) s ∧
    s.doneRqcb.requestHead = [0, 1] ∧
      ∀ t, Reach (step (oneStage 2 0)) (fun _ a _ => unflagged a = true) s t → t.trace = s.trace ∧ t.status = s.status := by
  obtain ⟨s, hs, hlen, hsub, hmain, hwk, hqueue, htmp, hflag, hpipe, hdone⟩ := exists_reachable (oneStage 2 0)
    (fun _ a _ => unflagged a = true)
    ([.main .accept, .main (.readable 0)] ++ submitSteps 0 0 ++ submitSteps 1 0 ++ [.main (.readBlocked 0)] ++
      handleSteps 0 [1] pipelineBreak ++ doneSteps 0 ++ handleSteps 1 [] pipelineBreak ++
      [.worker 0 (.doneLock 1 []), .worker 0 (.doneInsert 1 []), .worker 0 (.doneUnlock 1 []),
        .worker 0 (.doneSkip 1 []), .main (.event .timeout), .main (.drainHit .timeout), .main (.drainRead .timeout),
        .main (.drainReset .timeout), .main (.kick .timeout (fun _ => true) fun _ => []), .main (.skip .timeout)])
    (P := fun s => s.pipelineQueueLen = 2 ∧ s.sub = .none ∧ s.main = .loop ∧ s.wk 0 = .top ∧
      (s.rqcb 0).requestHead = [] ∧ (∀ p, (s.pcb p).tmpRequestHead = []) ∧ s.doneSignalled = false ∧ s.donePipe = 0 ∧
      s.doneRqcb.requestHead = [0, 1]) (by decide +kernel)
  have hstall : Stalled (oneStage 2 0) s := by
    refine ⟨?_, ?_, hsub, ?_, fun w => ?_, fun st => ?_, htmp, hflag, hpipe⟩
    · rw [hlen]
      decide
    · rw [hlen]
      decide
    · rw [hmain]
      rfl
    · rw [Subsingleton.elim w 0, hwk]
      rfl
    · rw [Subsingleton.elim st 0, hqueue]
  refine ⟨s, hs, hdone, fun t ht => ?_⟩
  have hmoved := (stall_is_final (oneStage 2 0) hstall ht).2
  exact ⟨hmoved.trace, hmoved.status⟩

end Csf
