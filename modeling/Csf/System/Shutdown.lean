import Csf.System.Counter
import Csf.System.Evict

/-!
# The graceful restart

A SIGHUP sets `graceful_restart`. From then on `submit_request` refuses, a worker that wakes up while
`pipeline_queue_len` is 0 leaves, and the last worker ends the process. Two things go by the counter: that
nothing is left to do when the workers leave (`RestartInv`), and that every worker is told to look at it
(`WakeInv`).

The counter is behind at both ends of a request's way. A submission that passed its check of the flag is not
counted yet, and a request that the done loop took is not counted any more while its responder runs. The
broadcasts are sent without the mutexes of the stages, so they are lost on a worker that is not blocked yet.
-/

namespace Csf

open Lib

variable {Stage Worker : Type} [DecidableEq Stage] [DecidableEq Worker] [Fintype Stage] [Fintype Worker]

/-! ### The two gaps of the counter -/

/-- The done loop has counted a request down and not freed it. -/
def unfreedReply : MainPc Stage → Bool
  | .respond .. | .calling .. | .dispose .. => true
  | _ => false

omit [DecidableEq Stage] [Fintype Stage] in
theorem held_eq_zero {m : MainPc Stage} (h : unfreedReply m = false) (r : Nat) : (loopPhase m r).held = 0 := by
  cases m <;> simp only [unfreedReply, Bool.true_eq_false] at h <;> rfl

omit [DecidableEq Stage] [DecidableEq Worker] in
theorem CalmInv.settled {cfg : Config Stage Worker} {s : State Stage Worker} (h : CalmInv cfg s)
    (hlen : s.pipelineQueueLen = 0) (hsub : uncountedSubmit s.sub = false) {r : Nat} (hr : .inserted r ∈ s.trace) :
    0 < s.trace.count (.freed r) + (loopPhase s.main r).held := by
  have hcounted := (h.flow.life r).counted_eq
  have htaken := (h.flow.life r).taken_eq
  have huncounted : (subPhase s.sub r).uncounted = 0 := by
    rcases subPhase_of_counted hsub r with hphase | hphase <;> rw [hphase] <;> rfl
  simp only [life, h.counter.passed r, huncounted] at hcounted htaken
  rw [← List.count_pos_iff] at hr
  have hin : .counted r ∈ s.trace := List.count_pos_iff.mp (by omega)
  have hpos := List.count_pos_iff.mpr (h.taken_of_len hlen hin)
  omega

theorem CalmInv.final_of_mem {cfg : Config Stage Worker} {s : State Stage Worker} (h : CalmInv cfg s)
    (hlen : s.pipelineQueueLen = 0) (hsub : uncountedSubmit s.sub = false) {r : Nat} {pl : Place Stage Worker}
    (hr : r ∈ places s pl) : pl = .final ∧ (loopPhase s.main r).held = 1 := by
  have hcons := (h.flow.life r).conserved
  have hheld := (h.flow.life r).held_final
  have hphase : (loopPhase s.main r).held ≤ 1 := by cases loopPhase s.main r <;> decide
  simp only [life] at hcons hheld
  have hpos := List.count_pos_iff.mpr hr
  have hle := count_le_occ (places s) pl r
  have hinserted : .inserted r ∈ s.trace := List.count_pos_iff.mp (by omega)
  have hsettled := h.settled hlen hsub hinserted
  have hfreed := List.count_eq_zero.mpr (h.flow.not_freed_of_mem hr)
  have hin : r ∈ places s .final := List.count_pos_iff.mp (show 0 < s.finalRequestHead.count r by omega)
  exact ⟨h.flow.place_unique hr hin, by omega⟩

theorem CalmInv.len_step {cfg : Config Stage Worker} {s s' : State Stage Worker} {a : Action Stage Worker}
    (h : CalmInv cfg s) (hlen : s.pipelineQueueLen = 0) (hsub : uncountedSubmit s.sub = false)
    (hev : evicting cfg s a = false) (hs : step cfg s a = some s') : s'.pipelineQueueLen = 0 := by
  obtain ⟨-, hg, -⟩ := step_eq_some hs
  have hcounts : counts a = [] := by
    unfold counts
    split
    · rw [hg.1] at hsub
      cases hsub
    · rw [show s.sub = _ from hg] at hsub
      cases hsub
    · rfl
  have htakes : takes a = [] := by
    -- the request that the loop is to take would be in its hands already
    have hnot : ∀ r rc, s.main ≠ .iter (some r) rc := fun r rc hm => by
      have hheld := (h.final_of_mem hlen hsub (h.flow.final_of_current hm rfl)).2
      rw [hm] at hheld
      cases hheld
    unfold takes
    split
    · exact absurd hg.1 (hnot _ _)
    · exact absurd hg.1 (hnot _ _)
    · rfl
  have hmove := (lenMove_of_not_evicting hev hs).len
  simpa [hcounts, htakes, hlen] using hmove

/-! ### What the steps do to the flag, the submission and the workers -/

theorem gracefulRestart_step {cfg : Config Stage Worker} {s s' : State Stage Worker} {a : Action Stage Worker}
    (hs : step cfg s a = some s') :
    s'.gracefulRestart = s.gracefulRestart ∨ a = .signals .hup ∧ s'.gracefulRestart = true := by
  obtain ⟨-, -, rfl⟩ := step_eq_some hs
  cases a with
  | worker w a => exact .inl (workerEffect_keeps cfg s w a State.gracefulRestart fun _ => rfl)
  | main a => exact .inl (mainEffect_keeps cfg s a State.gracefulRestart fun _ => rfl)
  | signals a =>
    cases a with
    | hup => exact .inr ⟨rfl, rfl⟩
    | kick ok ws => exact .inl ((QueueMove.kickRequestQueue cfg ok s).keeps State.gracefulRestart fun _ => rfl)
    | _ => exact .inl rfl
  | tick | cancel => exact .inl rfl

theorem uncountedSubmit_step {cfg : Config Stage Worker} {s s' : State Stage Worker} {a : Action Stage Worker}
    (hgraceful : s.gracefulRestart = true) (hsub : uncountedSubmit s.sub = false) (hs : step cfg s a = some s') :
    uncountedSubmit s'.sub = false := by
  by_contra h
  rw [Bool.not_eq_false] at h
  rcases uncountedSubmit_of_step hs h with ⟨hbefore, -⟩ | ⟨args, p, st, rfl⟩
  · rw [hsub] at hbefore
    cases hbefore
  · obtain ⟨-, hg, -⟩ := step_eq_some hs
    rw [(submitCheck_eq_ok_iff.mp hg.2.2.1).2.1] at hgraceful
    cases hgraceful

/-- The worker took the graceful branch. -/
def departed : WorkerPc Stage → Bool
  | .leaving | .gone => true
  | _ => false

omit [DecidableEq Stage] [Fintype Stage] in
theorem departed_resume (r : Nat) (rest : List (Dest Stage)) : departed (resume r rest) = false := by
  cases rest <;> rfl

theorem departed_step {cfg : Config Stage Worker} {s s' : State Stage Worker} {a : Action Stage Worker}
    (hs : step cfg s a = some s') {w : Worker} (hw : departed (s'.wk w) = true) :
    departed (s.wk w) = true ∨ a = .worker w .leave := by
  obtain ⟨-, hg, rfl⟩ := step_eq_some hs
  cases a with
  | worker v a =>
    by_cases hv : w = v
    · subst hv
      cases a with
      | leave => exact .inr rfl
      | exit =>
        rw [show s.wk w = _ from hg]
        exact .inl rfl
      | handle r cl calls ret errno =>
        rw [effect, (workerEffect_handle cfg s w r cl calls ret errno).1] at hw
        cases hw
      | doneWrite r rest =>
        rw [effect, workerEffect, writeByte_keeps cfg cfg.doneFd _ State.wk fun _ _ => rfl] at hw
        simp [setWk, departed_resume] at hw
      | forward | doneSkip => simp [effect, workerEffect, setWk, departed_resume] at hw
      | _ => simp [effect, workerEffect, setWk, departed] at hw
    · exact .inl (eq_of_wake departed rfl (wk_workerEffect hg hv) ▸ hw)
  | main a => exact .inl (eq_of_wake departed rfl (wk_mainEffect hg w) ▸ hw)
  | signals a => exact .inl (eq_of_wake departed rfl (wk_signalEffect hg w) ▸ hw)
  | tick | cancel => exact .inl hw

theorem exited_step {cfg : Config Stage Worker} {s s' : State Stage Worker} {a : Action Stage Worker}
    (hs : step cfg s a = some s') (hexit : s'.status = .exited) :
    ∃ w, a = .worker w .exit ∧ s.pipelineWorkingThreads - 1 = 0 := by
  obtain ⟨hrun, hg, rfl⟩ := step_eq_some hs
  have hsame : (effect cfg s a).status ≠ s.status := by
    rw [hexit, hrun]
    simp
  cases a with
  | worker w a =>
    cases a with
    | exit =>
      simp only [effect, workerEffect] at hexit
      split_ifs at hexit with hlast
      · exact ⟨w, rfl, hlast⟩
      · rw [hrun] at hexit
        cases hexit
    | handle r cl calls ret errno =>
      exact absurd (keeps_of_offConns (offConns_touchCsp r _) State.status fun _ => rfl) hsame
    | doneWrite r rest => exact absurd (writeByte_keeps cfg cfg.doneFd _ State.status fun _ _ => rfl) hsame
    | _ => exact absurd rfl hsame
  | main a =>
    rw [effect, mainEffect_plain cfg s a State.status fun _ => rfl] at hsame hexit
    cases a with
    | send q p st flags concat =>
      simp only [mainPlain, mainEffect] at hsame hexit
      rcases sendLocked_cases cfg q p st flags concat s with
        ⟨s₁, hmove, -, heq⟩ | ⟨s₁, hmove, heq⟩ | ⟨s₁, ev, hmove, -, heq⟩ <;> rw [heq] at hsame hexit
      · exact absurd (hmove.keeps State.status fun _ => rfl) hsame
      · cases hexit
      · exact absurd (hmove.keeps State.status fun _ => rfl) hsame
    | kick ev ok ws => exact absurd ((QueueMove.kickRequestQueue cfg ok s).keeps State.status fun _ => rfl) hsame
    | _ => exact absurd rfl hsame
  | signals a => exact absurd (signalEffect_keeps cfg s a State.status fun _ => rfl) hsame
  | tick | cancel => exact absurd rfl hsame

/-! ### Nothing is dropped -/

/-- Workers leave only while no submission is uncounted, and the last one ends the process only while the done
loop has nothing in its hands. -/
def LeavesClear (s : State Stage Worker) : Action Stage Worker → Prop
  | .worker _ .leave => uncountedSubmit s.sub = false
  | .worker _ .exit => s.pipelineWorkingThreads - 1 = 0 → unfreedReply s.main = false
  | _ => True

instance (s : State Stage Worker) (a : Action Stage Worker) : Decidable (LeavesClear s a) := by
  unfold LeavesClear
  induction a using Action.casesOn with
  | worker w a => induction a using WorkerAct.casesOn <;> infer_instance
  | _ => infer_instance

structure RestartInv (s : State Stage Worker) : Prop where
  departed : ∀ w, departed (s.wk w) = true → drained s ∧ uncountedSubmit s.sub = false
  exited : s.status = .exited → (∃ w, Csf.departed (s.wk w) = true) ∧ unfreedReply s.main = false

theorem restartInv_step {cfg : Config Stage Worker} {s s' : State Stage Worker} {a : Action Stage Worker}
    (hcalm : CalmInv cfg s) (h : RestartInv s) (hev : evicting cfg s a = false) (ha : LeavesClear s a)
    (hs : step cfg s a = some s') : RestartInv s' where
  departed w hw := by
    have hold : drained s ∧ uncountedSubmit s.sub = false := by
      rcases departed_step hs hw with hbefore | rfl
      · exact h.departed w hbefore
      · obtain ⟨-, ⟨-, -, hdrained⟩, -⟩ := step_eq_some hs
        exact ⟨hdrained, ha⟩
    obtain ⟨⟨hgraceful, hlen⟩, hsub⟩ := hold
    refine ⟨⟨?_, hcalm.len_step hlen hsub hev hs⟩, uncountedSubmit_step hgraceful hsub hs⟩
    rcases gracefulRestart_step hs with hsame | ⟨-, hset⟩
    · rw [hsame, hgraceful]
    · exact hset
  exited hexit := by
    obtain ⟨w, rfl, hlast⟩ := exited_step hs hexit
    obtain ⟨-, -, rfl⟩ := step_eq_some hs
    exact ⟨⟨w, by simp [effect, workerEffect, setWk, Csf.departed]⟩, ha hlast⟩

/-- **A graceful restart drops nothing.** In every calm run in which workers leave only while no submission is
uncounted, and the last one only while the done loop has nothing in its hands: when the process has ended,
every request that `submit_request` linked or was about to link has been answered and freed; and once a worker
has left, no request is anywhere but in the hands of the done loop. -/
theorem graceful_drops_nothing (cfg : Config Stage Worker) {s : State Stage Worker}
    (h : Reachable cfg (fun s a _ => Calm cfg s a ∧ LeavesClear s a) s) :
    (s.status = .exited → ∀ r, .inserted r ∈ s.trace ∨ subPhase s.sub r = .checked →
      .freed r ∈ s.trace ∧ Answered s r) ∧
    ∀ w, departed (s.wk w) = true → ∀ r pl, r ∈ places s pl → pl = .final ∧ unfreedReply s.main = true := by
  have hinv : CalmInv cfg s ∧ RespInv s ∧ RestartInv s := by
    refine h.invariant (I := fun s => CalmInv cfg s ∧ RespInv s ∧ RestartInv s) ?_ ?_
    · exact ⟨calmInv_init cfg, respInv_init, ⟨fun w hw => (by cases hw), fun hexit => (by cases hexit)⟩⟩
    · rintro s a s' ⟨hcalm, hresp, hrestart⟩ ⟨ha, hclear⟩ hs
      exact ⟨calmInv_step hcalm ha hs, respInv_step hcalm.flow hresp hs,
        restartInv_step hcalm hrestart ha.2.2 hclear hs⟩
  obtain ⟨hcalm, hresp, hrestart⟩ := hinv
  refine ⟨fun hexit r hr => ?_, fun w hw r pl hr => ?_⟩
  · obtain ⟨⟨w, hw⟩, hreply⟩ := hrestart.exited hexit
    obtain ⟨⟨-, hlen⟩, hsub⟩ := hrestart.departed w hw
    have hinserted : .inserted r ∈ s.trace := hr.resolve_right fun hchecked => by
      rcases subPhase_of_counted hsub r with hphase | hphase <;> rw [hphase] at hchecked <;> cases hchecked
    have hsettled := hcalm.settled hlen hsub hinserted
    rw [held_eq_zero hreply] at hsettled
    have hfreed : .freed r ∈ s.trace := List.count_pos_iff.mp hsettled
    exact ⟨hfreed, hresp.freed r hfreed⟩
  · obtain ⟨⟨-, hlen⟩, hsub⟩ := hrestart.departed w hw
    obtain ⟨hfinal, hheld⟩ := hcalm.final_of_mem hlen hsub hr
    refine ⟨hfinal, ?_⟩
    by_contra hreply
    rw [held_eq_zero (by simpa using hreply)] at hheld
    cases hheld

/-- A request is completed, then the server is told to restart. -/
theorem graceful_drops_nothing_run :
    ∃ s, Reachable (oneStage 8 0) (fun s a _ => Calm (oneStage 8 0) s a ∧ LeavesClear s a) s ∧
      s.status = .exited ∧ .accepted 0 ∈ s.trace ∧ .freed 0 ∈ s.trace ∧ Answered s 0 := by
  obtain ⟨s, hs, hexit, hacc, hinserted⟩ := exists_reachable (oneStage 8 0)
    (fun s a _ => Calm (oneStage 8 0) s a ∧ LeavesClear s a)
    ([.main .accept, .main (.readable 0)] ++ submitSteps 0 0 ++ [.main (.readBlocked 0)] ++ handleSteps 0 [] 0 ++
      doneSteps 0 ++ [.worker 0 .lock, .worker 0 .empty, .worker 0 .wait] ++ takeSteps ++
      completeSteps 0 none rcInit 1 ++ restartSteps ++ [.worker 0 .leave, .worker 0 .exit])
    (P := fun s => s.status = .exited ∧ .accepted 0 ∈ s.trace ∧ .inserted 0 ∈ s.trace) (by decide +kernel)
  have hdone := (graceful_drops_nothing (oneStage 8 0) hs).1 hexit 0 (.inl hinserted)
  exact ⟨s, hs, hexit, hacc, hdone⟩

/-- The signal arrives between the check of `submit_request` and its insertion: the worker leaves, the request
is accepted, and the process ends with the request in the queue. -/
theorem graceful_drops_request :
    ∃ s, Reachable (oneStage 8 0) (fun s a _ => Calm (oneStage 8 0) s a) s ∧ s.status = .exited ∧
      .accepted 0 ∈ s.trace ∧ .freed 0 ∉ s.trace ∧ .responded 0 ∉ s.trace ∧ (s.heap 0).cancelled = false ∧
      (s.rqcb 0).requestHead = [0] :=
  exists_reachable (oneStage 8 0) (fun s a _ => Calm (oneStage 8 0) s a)
    ([.worker 0 .lock, .worker 0 .empty, .worker 0 .wait, .main .accept, .main (.readable 0),
      .main (.submit (submitZero 0) 0 0)] ++ restartSteps ++ [.worker 0 .leave, .main (.send 0 0 0 0 false),
      .main (.count 0 0 0 false []), .main (.returnTid 0 0), .worker 0 .exit])
    (by decide +kernel)

/-! ### Every worker is told -/

/-- The signal thread is on its way to the broadcast to stage `st`. -/
def sigBroadcasts (st : Stage) : SignalPc Stage → Bool
  | .kick | .testLen => true
  | .broadcast todo => decide (st ∈ todo)
  | .idle => false

/-- The main thread is on its way to the broadcast to stage `st`. -/
def mainBroadcasts (st : Stage) : MainPc Stage → Bool
  | .respond .. | .calling .. | .dispose .. | .testExit .. => true
  | .broadcast todo _ _ => decide (st ∈ todo)
  | _ => false

/-- The worker is past its wait, and looks at the counter next. -/
def released : WorkerPc Stage → Bool
  | .woken | .leaving | .gone => true
  | _ => false

/-- The broadcast that is the last one for its stage finds every worker of the stage blocked or past its wait. -/
def BroadcastHeard (cfg : Config Stage Worker) (s : State Stage Worker) : Action Stage Worker → Prop
  | .main (.broadcast st _ _ _) => drained s → sigBroadcasts st s.sig = false →
      ∀ w, cfg.rqcb w = st → s.wk w = .waiting ∨ released (s.wk w) = true
  | .signals (.broadcast st _) => drained s → mainBroadcasts st s.main = false →
      ∀ w, cfg.rqcb w = st → s.wk w = .waiting ∨ released (s.wk w) = true
  | _ => True

instance (cfg : Config Stage Worker) (s : State Stage Worker) (a : Action Stage Worker) :
    Decidable (BroadcastHeard cfg s a) := by
  unfold BroadcastHeard
  induction a using Action.casesOn with
  | main a => induction a using MainAct.casesOn <;> infer_instance
  | signals a => induction a using SignalAct.casesOn <;> infer_instance
  | _ => infer_instance

/-- While the counter is 0 every worker is past its wait, or a broadcast to its stage is still to come. -/
def WakeInv (cfg : Config Stage Worker) (s : State Stage Worker) : Prop :=
  drained s → ∀ w, released (s.wk w) = true ∨ sigBroadcasts (cfg.rqcb w) s.sig = true ∨
    mainBroadcasts (cfg.rqcb w) s.main = true

omit [DecidableEq Stage] [Fintype Stage] in
theorem released_of_wake {pc pc' : WorkerPc Stage} (h : pc' = pc ∨ pc' = .woken ∧ pc = .waiting)
    (hpc : released pc = true) : released pc' = true := by
  rcases h with rfl | ⟨rfl, -⟩
  · exact hpc
  · rfl

theorem released_step {cfg : Config Stage Worker} {s s' : State Stage Worker} {a : Action Stage Worker}
    (hs : step cfg s a = some s') (hdrained : drained s) {w : Worker} (hw : released (s.wk w) = true) :
    released (s'.wk w) = true := by
  obtain ⟨-, hg, rfl⟩ := step_eq_some hs
  cases a with
  | worker v a =>
    by_cases hv : w = v
    · subst hv
      cases a with
      | retry => exact absurd hdrained hg.2.2
      | leave | exit => simp [effect, workerEffect, setWk, released]
      | wait | spurious | doneInsert | doneUnlock | doneSet | doneWrite =>
        rw [show s.wk w = _ from hg] at hw
        cases hw
      | _ =>
        rw [hg.1] at hw
        cases hw
    · exact released_of_wake (wk_workerEffect hg hv) hw
  | main a => exact released_of_wake (wk_mainEffect hg w) hw
  | signals a => exact released_of_wake (wk_signalEffect hg w) hw
  | tick | cancel => exact hw

omit [DecidableEq Worker] [Fintype Stage] [Fintype Worker] in
theorem released_broadcastWake (cfg : Config Stage Worker) {wk : Worker → WorkerPc Stage} {w : Worker}
    (h : wk w = .waiting ∨ released (wk w) = true) : released (broadcastWake cfg (cfg.rqcb w) wk w) = true := by
  rcases h with hwait | hrel
  · simp [broadcastWake, hwait, released]
  · exact released_of_wake (broadcastWake_cases cfg _ wk w) hrel

theorem mainBroadcasts_mainEffect {cfg : Config Stage Worker} {s : State Stage Worker} {a : MainAct Stage Worker}
    (hdrained : drained s) (hheard : BroadcastHeard cfg s (.main a)) (hg : mainGuard cfg s a) {w : Worker}
    (hsig : sigBroadcasts (cfg.rqcb w) s.sig = false) (h : mainBroadcasts (cfg.rqcb w) s.main = true) :
    released ((mainEffect cfg s a).wk w) = true ∨ mainBroadcasts (cfg.rqcb w) (mainEffect cfg s a).main = true := by
  rw [mainEffect_plain cfg s a State.main fun _ => rfl]
  cases a with
  | send q p st flags concat =>
    exact .inr ((congrArg _ (sendLocked_keeps cfg q p st flags concat s State.main fun _ => rfl)).trans h)
  | quiet next rc => exact absurd hdrained hg.2
  | startBroadcast next rc => exact .inr (decide_eq_true (cfg.chain_cover _))
  | broadcast st todo next rc =>
    rw [show s.main = _ from hg] at h
    rcases List.mem_cons.mp (of_decide_eq_true h) with hst | htodo
    · exact .inl (hst ▸ released_broadcastWake cfg (hheard hdrained (hst ▸ hsig) w hst))
    · exact .inr (decide_eq_true htodo)
  | accept | writable | idleTimeout | sendBack | refuse | submit | buffer | count | countBuffered | noticeSkip
  | noticeClear | noticeSet | noticeWrite | returnTid => exact .inr h
  | respond | noResponder | responderRet | dispose => exact .inr rfl
  | datagram | drainRead | drainReset | finish | broadcastEnd =>
    rw [show s.main = _ from hg] at h
    cases h
  | _ =>
    rw [hg.1] at h
    cases h

omit [Fintype Stage] [Fintype Worker] in
theorem sigBroadcasts_signalEffect {cfg : Config Stage Worker} {s : State Stage Worker} {a : SignalAct Stage Worker}
    (hdrained : drained s) (hheard : BroadcastHeard cfg s (.signals a)) (hg : signalGuard cfg s a) {w : Worker}
    (hmain : mainBroadcasts (cfg.rqcb w) s.main = false) (h : sigBroadcasts (cfg.rqcb w) s.sig = true) :
    released ((signalEffect cfg s a).wk w) = true ∨
      sigBroadcasts (cfg.rqcb w) (signalEffect cfg s a).sig = true := by
  cases a with
  | hup | kick => exact .inr rfl
  | quiet => exact absurd hdrained.2 hg.2
  | startBroadcast => exact .inr (decide_eq_true (cfg.chain_cover _))
  | broadcast st todo =>
    rw [show s.sig = _ from hg] at h
    rcases List.mem_cons.mp (of_decide_eq_true h) with hst | htodo
    · exact .inl (hst ▸ released_broadcastWake cfg (hheard hdrained (hst ▸ hmain) w hst))
    · exact .inr (decide_eq_true htodo)
  | finish =>
    rw [show s.sig = _ from hg] at h
    cases h

/-- While the flag is set the counter comes down to 0 only where the done loop looks at it afterwards: nothing is
evicted, the counter does not wrap, and the last request has a connection. -/
def ZeroTested (cfg : Config Stage Worker) (s : State Stage Worker) (a : Action Stage Worker) : Prop :=
  s.gracefulRestart = true → evicting cfg s a = false ∧ (counts a ≠ [] → s.pipelineQueueLen + 1 ≠ 0) ∧
    (meetsNull a = true → s.pipelineQueueLen ≠ 1)

instance (cfg : Config Stage Worker) (s : State Stage Worker) (a : Action Stage Worker) :
    Decidable (ZeroTested cfg s a) := inferInstanceAs (Decidable (_ → _))

theorem broadcasts_of_drained {cfg : Config Stage Worker} {s s' : State Stage Worker} {a : Action Stage Worker}
    (ha : ZeroTested cfg s a) (hs : step cfg s a = some s') (hbefore : ¬drained s) (hdrained : drained s')
    (st : Stage) : sigBroadcasts st s'.sig = true ∨ mainBroadcasts st s'.main = true := by
  obtain ⟨hgraceful', hlen'⟩ := hdrained
  rcases gracefulRestart_step hs with hsame | ⟨rfl, -⟩
  · have hgraceful : s.gracefulRestart = true := hsame ▸ hgraceful'
    obtain ⟨hev, hwrap, hnull⟩ := ha hgraceful
    have hlen : s.pipelineQueueLen ≠ 0 := fun hlen => hbefore ⟨hgraceful, hlen⟩
    have hmove := (lenMove_of_not_evicting hev hs).len
    rw [hlen'] at hmove
    have htakes : takes a ≠ [] := by
      intro hnone
      rcases counts_step hs with hcounts | ⟨-, hcounts, -⟩
      · exact hlen (by simpa [hnone, hcounts] using hmove.symm)
      · exact hwrap (List.ne_nil_of_length_eq_add_one hcounts) (by simpa [hnone, hcounts] using hmove.symm)
    obtain ⟨-, -, rfl⟩ := step_eq_some hs
    unfold takes at htakes
    split at htakes
    · exact .inr rfl
    · exact absurd (by simpa [counts, takes] using hmove.symm) (hnull rfl)
    · exact absurd rfl htakes
  · obtain ⟨-, -, rfl⟩ := step_eq_some hs
    exact .inl rfl

theorem wakeInv_step {cfg : Config Stage Worker} {s s' : State Stage Worker} {a : Action Stage Worker}
    (h : WakeInv cfg s) (ha : ZeroTested cfg s a) (hheard : BroadcastHeard cfg s a)
    (hs : step cfg s a = some s') : WakeInv cfg s' := by
  intro hdrained' w
  by_cases hdrained : drained s
  · rcases h hdrained w with hrel | hleft
    · exact .inl (released_step hs hdrained hrel)
    · obtain ⟨-, hg, rfl⟩ := step_eq_some hs
      cases a with
      | worker v a =>
        rw [effect, workerEffect_keeps cfg s v a State.sig fun _ => rfl,
          workerEffect_keeps cfg s v a State.main fun _ => rfl]
        exact .inr hleft
      | main a =>
        rw [effect, mainEffect_keeps cfg s a State.sig fun _ => rfl]
        by_cases hsig : sigBroadcasts (cfg.rqcb w) s.sig = true
        · exact .inr (.inl hsig)
        · exact (mainBroadcasts_mainEffect hdrained hheard hg (by simpa using hsig)
            (hleft.resolve_left hsig)).imp_right .inr
      | signals a =>
        rw [effect, signalEffect_keeps cfg s a State.main fun _ => rfl]
        by_cases hbroad : mainBroadcasts (cfg.rqcb w) s.main = true
        · exact .inr (.inr hbroad)
        · exact (sigBroadcasts_signalEffect hdrained hheard hg (by simpa using hbroad)
            (hleft.resolve_right hbroad)).imp_right .inl
      | tick | cancel => exact .inr hleft
  · exact .inr (broadcasts_of_drained ha hs hdrained hdrained' _)

/-- **No lost wake-up.** In every run in which the counter comes down to 0 only where it is tested and the last
broadcast to a stage finds the workers of the stage blocked or past their wait: when `graceful_restart` is set,
the counter is 0 and no broadcast to a stage is left to be performed, no worker of the stage is blocked on its
condition or about to block. -/
theorem no_lost_wakeup (cfg : Config Stage Worker) {s : State Stage Worker}
    (h : Reachable cfg (fun s a _ => ZeroTested cfg s a ∧ BroadcastHeard cfg s a) s) (hdrained : drained s)
    (w : Worker) (hsig : sigBroadcasts (cfg.rqcb w) s.sig = false)
    (hmain : mainBroadcasts (cfg.rqcb w) s.main = false) : s.wk w ≠ .waiting ∧ s.wk w ≠ .aboutToWait := by
  have hinv : WakeInv cfg s := by
    refine h.invariant (fun hdrained => by cases hdrained.1) ?_
    rintro s a s' hwake ⟨ha, hheard⟩ hs
    exact wakeInv_step hwake ha hheard hs
  have hrel : released (s.wk w) = true := by
    rcases hinv hdrained w with hrel | hleft | hleft
    · exact hrel
    · rw [hsig] at hleft
      cases hleft
    · rw [hmain] at hleft
      cases hleft
  constructor <;> intro hpc <;> rw [hpc] at hrel <;> cases hrel

/-- The worker is blocked when the broadcast comes. -/
theorem no_lost_wakeup_run :
    ∃ s, Reachable (oneStage 8 0)
        (fun s a _ => ZeroTested (oneStage 8 0) s a ∧ BroadcastHeard (oneStage 8 0) s a) s ∧
      drained s ∧ s.sig = .idle ∧ s.main = .loop ∧ s.wk 0 ≠ .waiting ∧ s.wk 0 ≠ .aboutToWait := by
  obtain ⟨s, hs, hdrained, hsig, hmain⟩ := exists_reachable (oneStage 8 0)
    (fun s a _ => ZeroTested (oneStage 8 0) s a ∧ BroadcastHeard (oneStage 8 0) s a)
    ([.worker 0 .lock, .worker 0 .empty, .worker 0 .wait] ++ restartSteps)
    (P := fun s => drained s ∧ s.sig = .idle ∧ s.main = .loop) (by decide +kernel)
  exact ⟨s, hs, hdrained, hsig, hmain,
    no_lost_wakeup (oneStage 8 0) hs hdrained 0 (by rw [hsig]; rfl) (by rw [hmain]; rfl)⟩

/-- The worker has found its queue empty and is about to block when the broadcast comes; then it blocks. -/
theorem wakeup_lost :
    ∃ s, Reachable (oneStage 8 0) (fun s a _ => ZeroTested (oneStage 8 0) s a) s ∧ drained s ∧ s.sig = .idle ∧
      s.main = .loop ∧ s.wk 0 = .waiting :=
  exists_reachable (oneStage 8 0) (fun s a _ => ZeroTested (oneStage 8 0) s a)
    ([.worker 0 .lock, .worker 0 .empty] ++ restartSteps ++ [.worker 0 .wait])
    (by decide +kernel)

end Csf
