import Csf.System.Attend
import Csf.System.Signal

/-!
# A server that has come to rest

Work is handed on through three kinds of notice: the condition of a stage, the byte in the done pipe, and the loop of
`done_requests_handler`, which goes through the final queue before it returns. If none of them gets lost, a server that
has nothing to do has nothing left undone either: with the main thread in its event loop, no byte in the done pipe, every
worker blocked on its condition and nothing buffered, `cleanup_request` has run for every request.
-/

namespace Csf

open Lib

variable {Stage Worker : Type}

/-- The main thread is in the event loop, no byte is in the done pipe, all workers are blocked and nothing is buffered. -/
structure Resting (s : State Stage Worker) : Prop where
  main : s.main = .loop
  pipe : s.donePipe = 0
  workers : ∀ w, s.wk w = .waiting
  buffered : ∀ p, (s.pcb p).tmpRequestHead = []

/-! ### The loop over the final queue -/

/-- Without evictions the final queue has requests only while `done_requests_handler` goes through it, and the loop is at
its head. -/
def AtHead (final : List Nat) : MainPc Stage → Prop
  | .iter cur _ => cur = final.head?
  | .respond r next _ | .calling r next | .dispose r next _ => ∃ rest, final = r :: rest ∧ next = rest.head?
  | .testExit next _ | .broadcast _ next _ => next = final.head?
  | _ => final = []

variable [DecidableEq Stage] [DecidableEq Worker] [Fintype Stage] [Fintype Worker]
  {cfg : Config Stage Worker} {s s' : State Stage Worker}

theorem final_sendLocked {p : Pipeline} {st : Stage} {flags : UInt32} {concat : Bool}
    (hev : evicts cfg p st flags concat s = false) (r : Nat) :
    (sendLocked cfg r p st flags concat s).finalRequestHead = s.finalRequestHead := by
  rcases sendLocked_cases cfg r p st flags concat s with
    ⟨s₁, hmove, -, heq⟩ | ⟨s₁, hmove, heq⟩ | ⟨s₁, ev, hmove, hiff, heq⟩ <;> rw [heq]
  · exact hmove.final.trans (List.append_nil _)
  · exact hmove.final.trans (List.append_nil _)
  · obtain rfl : ev = [] := by
      by_contra hne
      rw [hiff.mpr hne] at hev
      cases hev
    exact hmove.final.trans (List.append_nil _)

theorem atHead_mainEffect {a : MainAct Stage Worker} (h : AtHead s.finalRequestHead s.main)
    (hev : evicting cfg s (.main a) = false) (hnull : meetsNull (.main a : Action Stage Worker) = false)
    (hg : mainGuard cfg s a) : AtHead (mainEffect cfg s a).finalRequestHead (mainEffect cfg s a).main := by
  rw [mainEffect_plain cfg s a State.main fun _ => rfl, mainEffect_plain cfg s a State.finalRequestHead fun _ => rfl]
  cases a with
  | take => rfl
  | takeBusy => rfl
  | takeNull r rc => cases hnull
  | takeReq r rc =>
    rw [hg.1] at h
    obtain ⟨rest, hqueue⟩ := List.head?_eq_some_iff.mp (Eq.symm h)
    refine ⟨rest, hqueue, ?_⟩
    rw [hqueue, tailqNext, if_pos rfl]
  | dispose r next rc =>
    rw [show s.main = _ from hg] at h
    obtain ⟨rest, hqueue, hnext⟩ := h
    show next = (s.finalRequestHead.erase r).head?
    rw [hqueue, List.erase_cons_head, hnext]
  | finish rc =>
    rw [show s.main = _ from hg] at h
    exact List.head?_eq_none_iff.mp (Eq.symm h)
  | send r p st flags concat =>
    rw [show (mainPlain cfg s (.send r p st flags concat)).finalRequestHead = _ from final_sendLocked hev r,
      show (mainPlain cfg s (.send r p st flags concat)).main = s.main from
        sendLocked_keeps cfg r p st flags concat s State.main fun _ => rfl]
    exact h
  | kick ev ok ws =>
    rw [hg.1] at h
    exact ((QueueMove.kickRequestQueue cfg ok s).final.trans (List.append_nil _)).trans h
  | accept | writable | idleTimeout | sendBack | submit | refuse | buffer | count | countBuffered | noticeSkip
  | noticeClear | noticeSet | noticeWrite | returnTid => exact h
  | datagram | drainRead | drainReset | broadcast | broadcastEnd =>
    rw [show s.main = _ from hg] at h
    exact h
  | _ =>
    rw [hg.1] at h
    exact h

theorem atHead_step {a : Action Stage Worker} (h : AtHead s.finalRequestHead s.main) (hev : evicting cfg s a = false)
    (hnull : meetsNull a = false) (hs : step cfg s a = some s') : AtHead s'.finalRequestHead s'.main := by
  obtain ⟨-, hg, rfl⟩ := step_eq_some hs
  cases a with
  | worker w a =>
    rw [effect, workerEffect_keeps cfg s w a State.main fun _ => rfl,
      workerEffect_keeps cfg s w a State.finalRequestHead fun _ => rfl]
    exact h
  | main a => exact atHead_mainEffect h hev hnull hg
  | signals a =>
    cases a with
    | kick ok ws =>
      have hmove := QueueMove.kickRequestQueue cfg ok s
      have hmain : (effect cfg s (.signals (.kick ok ws))).main = s.main := hmove.keeps State.main fun _ => rfl
      rw [hmain, show (effect cfg s (.signals (.kick ok ws))).finalRequestHead = _ from hmove.final, List.append_nil]
      exact h
    | _ => exact h
  | tick | cancel => exact h

/-! ### Submissions -/

/-- Every request that got a block was counted, or is about to be. -/
def Launched (s : State Stage Worker) : Prop :=
  ∀ r < s.nreq, .counted r ∈ s.trace ∨ uncountedSubmit s.sub = true ∧ s.sub.req = some r

theorem launched_step {a : Action Stage Worker} (h : Launched s) (hs : step cfg s a = some s')
    (hroom : ∀ r p st flags concat, s.sub = .checked r p st flags concat →
      (sendToPipeline cfg p st r flags concat s).2 ≠ .full) : Launched s' := by
  have hgrows : ∀ r, .counted r ∈ s.trace → .counted r ∈ s'.trace := fun r => mem_step hs (by simp) (by simp)
  obtain ⟨-, hg, rfl⟩ := step_eq_some hs
  -- the steps that leave the submission where it is
  have hsame : (effect cfg s a).nreq = s.nreq → (effect cfg s a).sub = s.sub → Launched (effect cfg s a) := by
    intro hnreq hsub r hr
    rw [hsub]
    exact (h r (hnreq ▸ hr)).imp_left (hgrows r)
  -- the steps that take the submission of `q` further
  have hnext : ∀ q, (effect cfg s a).nreq = s.nreq → s.sub.req = some q →
      .counted q ∈ (effect cfg s a).trace ∨ uncountedSubmit (effect cfg s a).sub = true ∧ (effect cfg s a).sub.req = some q →
      Launched (effect cfg s a) := by
    intro q hnreq hreq hq r hr
    rcases h r (hnreq ▸ hr) with hcounted | ⟨-, hr'⟩
    · exact .inl (hgrows r hcounted)
    · obtain rfl := Option.some.inj (hreq.symm.trans hr')
      exact hq
  -- the submission was counted before
  have hlate : (effect cfg s a).nreq = s.nreq → uncountedSubmit s.sub = false → Launched (effect cfg s a) := by
    intro hnreq hsub r hr
    refine .inl (hgrows r ((h r (hnreq ▸ hr)).resolve_right ?_))
    rw [hsub]
    simp
  cases a with
  | worker w a =>
    exact hsame (workerEffect_keeps cfg s w a State.nreq fun _ => rfl) (workerEffect_keeps cfg s w a State.sub fun _ => rfl)
  | signals a =>
    exact hsame (signalEffect_keeps cfg s a State.nreq fun _ => rfl) (signalEffect_keeps cfg s a State.sub fun _ => rfl)
  | tick | cancel => exact hsame rfl rfl
  | main a =>
    have hnreq := mainEffect_plain cfg s a State.nreq fun _ => rfl
    have hsub := mainEffect_plain cfg s a State.sub fun _ => rfl
    cases a with
    | submit args p st =>
      intro r hr
      rw [effect, hnreq] at hr
      rcases Nat.lt_succ_iff_lt_or_eq.mp hr with hr | rfl
      · refine .inl (hgrows r ((h r hr).resolve_right ?_))
        rw [hg.2.1]
        simp [uncountedSubmit]
      · rw [effect, hsub]
        exact .inr ⟨rfl, rfl⟩
    | send q p st flags concat =>
      have hfit := hroom q p st flags concat hg.1
      refine hnext q (sendLocked_keeps cfg q p st flags concat s State.nreq fun _ => rfl) (by rw [hg.1]; rfl) (.inr ?_)
      rw [show effect cfg s (.main (.send q p st flags concat)) = sendLocked cfg q p st flags concat s from rfl]
      rcases sendLocked_cases cfg q p st flags concat s with ⟨s₁, -, hrefuse, -⟩ | ⟨s₁, hmove, heq⟩ | ⟨s₁, ev, -, -, heq⟩
      · exact absurd (full_of_refuses hrefuse q) hfit
      · rw [heq, show s₁.sub = s.sub from hmove.keeps State.sub fun _ => rfl, hg.1]
        exact ⟨rfl, rfl⟩
      · rw [heq]
        exact ⟨rfl, rfl⟩
    | buffer q p st flags concat =>
      exact hnext q hnreq (by rw [show s.sub = _ from hg]; rfl) (.inr (by rw [effect, hsub]; exact ⟨rfl, rfl⟩))
    | count q p st notice ws =>
      refine hnext q hnreq (by rw [hg.1]; rfl) (.inl ?_)
      exact (mem_mainEffect cfg s _ (by simp) (by simp)).mpr (.inl List.mem_cons_self)
    | countBuffered q p =>
      refine hnext q hnreq (by rw [show s.sub = _ from hg]; rfl) (.inl ?_)
      exact (mem_mainEffect cfg s _ (by simp) (by simp)).mpr (.inl List.mem_cons_self)
    | noticeSkip | noticeClear => exact hlate hnreq (by rw [hg.1]; rfl)
    | noticeSet | noticeWrite | returnTid => exact hlate hnreq (by rw [show s.sub = _ from hg]; rfl)
    | kick ev ok ws =>
      have hmove := QueueMove.kickRequestQueue cfg ok s
      exact hsame (hmove.keeps State.nreq fun _ => rfl) (hmove.keeps State.sub fun _ => rfl)
    | _ => exact hsame hnreq hsub

/-! ### At rest -/

omit [DecidableEq Stage] [DecidableEq Worker] in
theorem FlowInv.freed_of_empty (h : FlowInv s) (hempty : ∀ pl, places s pl = []) {r : Nat}
    (hr : .counted r ∈ s.trace) : .freed r ∈ s.trace := by
  have hok := h.life r
  have hcons := hok.conserved
  have hcounted := hok.counted_eq
  have hocc : occ (places s) r = 0 := occ_eq_zero_iff.mpr fun pl => by rw [hempty pl]; exact List.not_mem_nil
  simp only [Csf.life] at hcons hcounted
  rw [← List.count_pos_iff] at hr ⊢
  omega

/-- What holds throughout the runs considered here. -/
structure RestInv (cfg : Config Stage Worker) (s : State Stage Worker) : Prop where
  plain : PlainInv cfg s
  attend : AttendInv cfg s
  signal : SignalInv s
  head : AtHead s.finalRequestHead s.main
  launched : Launched s

omit [DecidableEq Worker] in
theorem restInv_init (cfg : Config Stage Worker) : RestInv cfg State.init where
  plain := plainInv_init cfg
  attend := attendInv_init cfg
  signal := signalInv_init
  head := rfl
  launched r hr := absurd hr (Nat.not_lt_zero r)

theorem restInv_step {a : Action Stage Worker} (h : RestInv cfg s) (hbenign : Benign a s') (hplain : unflagged a = true)
    (hresets : ResetsEmpty s a) (hs : step cfg s a = some s') : RestInv cfg s' := by
  have hcalm := h.plain.calm
  have hev := h.plain.room.calm hs
  have hnull := meetsNull_eq_false hcalm.flow hcalm.connected hs
  exact {
    plain := plainInv_step h.plain hbenign hplain hs
    attend := attendInv_step h.attend hs (h.plain.abandons_eq_false hs)
    signal := signalInv_step h.signal hev hresets hs
    head := atHead_step h.head hev hnull hs
    launched := launched_step h.launched hs fun _ _ _ _ _ => not_full_of_room hcalm h.plain.room h.plain.counted }

omit [DecidableEq Worker] in
theorem RestInv.places_eq_nil (h : RestInv cfg s) (hstaffed : ∀ st, ∃ w, cfg.rqcb w = st) (hrest : Resting s)
    (pl : Place Stage Worker) : places s pl = [] := by
  have hsub : s.sub = .none := by
    by_contra hne
    have hin := h.plain.calm.flow.callback hne
    rw [hrest.main] at hin
    cases hin
  cases pl with
  | tmp p => exact hrest.buffered p
  | hand w =>
    show inHand (s.wk w) = []
    rw [hrest.workers w]
    rfl
  | stage st =>
    show (s.rqcb st).requestHead = []
    by_contra hne
    rcases h.attend.attended st (hstaffed st) hne with ⟨w, -, hpc⟩ | ⟨r, p, n, hins⟩ | ⟨w, -, hpc⟩
    · rw [hrest.workers w] at hpc
      cases hpc
    · rw [hsub] at hins
      cases hins
    · rw [hrest.workers w] at hpc
      cases hpc
  | done =>
    show s.doneRqcb.requestHead = []
    by_contra hne
    rcases h.signal.queue hne with hbyte | ⟨w, hpc⟩ | hmain | hmain
    · exact absurd hrest.pipe hbyte.ne'
    · rw [hrest.workers w] at hpc
      cases hpc
    · rw [hrest.main] at hmain
      cases hmain
    · rw [hrest.main] at hmain
      cases hmain
  | final =>
    have hhead := h.head
    rw [hrest.main] at hhead
    exact hhead

/-- The steps of the runs considered here: submissions name their connection and carry no flags, no request passes the
jump limit, the handler clears the flag on `EV_TIMEOUT` only when the done queue is empty, and the signal thread does not
run `kick_request_queue` beside the main thread. -/
def Settles (s : State Stage Worker) (a : Action Stage Worker) (s' : State Stage Worker) : Prop :=
  Benign a s' ∧ unflagged a = true ∧ ResetsEmpty s a ∧ signalKicks a = false

instance (s : State Stage Worker) (a : Action Stage Worker) (s' : State Stage Worker) : Decidable (Settles s a s') :=
  inferInstanceAs (Decidable (_ ∧ _))

/-- **A server at rest has nothing left to do.** With a worker for every stage, whenever the server rests in such a run,
no queue holds a request, the counter is 0, and `cleanup_request` has run for every request that was submitted. -/
theorem rest_is_clean (cfg : Config Stage Worker) (hstaffed : ∀ st, ∃ w, cfg.rqcb w = st) {s : State Stage Worker}
    (h : Reachable cfg Settles s) (hrest : Resting s) :
    (∀ pl, places s pl = []) ∧ s.pipelineQueueLen = 0 ∧ ∀ r < s.nreq, .freed r ∈ s.trace := by
  have hinv : RestInv cfg s := h.invariant (restInv_init cfg) fun _ _ _ hI hr hs => restInv_step hI hr.1 hr.2.1 hr.2.2.1 hs
  have hflow := hinv.plain.calm.flow
  have hempty := hinv.places_eq_nil hstaffed hrest
  have hfreed : ∀ r < s.nreq, .freed r ∈ s.trace := by
    intro r hr
    refine hflow.freed_of_empty hempty ((hinv.launched r hr).resolve_right ?_)
    rintro ⟨hunc, -⟩
    have hin := hflow.callback (by rintro hnone; rw [hnone] at hunc; cases hunc)
    rw [hrest.main] at hin
    cases hin
  refine ⟨hempty, ?_, hfreed⟩
  rw [← UInt64.toNat_inj, hinv.plain.calm.toNat_len, UInt64.toNat_zero, Finset.card_eq_zero, untaken,
    Finset.filter_eq_empty_iff]
  rintro r hr ⟨-, hnot⟩
  have heq := (hflow.life r).taken_eq
  have hfree := List.count_pos_iff.mpr (hfreed r (Finset.mem_range.mp hr))
  have htaken := List.count_eq_zero.mpr hnot
  simp only [life] at heq
  omega

/-- One request is buffered and moved to its stage by a timeout of the done event, a second one is answered in the same
batch, and the worker goes back to sleep. -/
theorem rest_is_clean_run : ∃ s, Reachable (oneStage 8 0) Settles s ∧ Resting s ∧ s.nreq = 2 ∧
    (s.rqcb 0).requestHead = [] ∧ .freed 0 ∈ s.trace ∧ .freed 1 ∈ s.trace := by
  obtain ⟨s, hs, hmain, hpipe, hworkers, hbuffered, hnreq⟩ := exists_reachable (oneStage 8 0) Settles
    ([.main .accept, .main (.readable 0)] ++ bufferSteps 0 false ++ [.main (.readBlocked 0), .main (.event .timeout),
      .main (.drainMiss .timeout), .main (.kick .timeout (fun _ => true) fun _ => []), .main (.skip .timeout),
      .main (.readable 0)] ++ submitSteps 1 0 ++ [.main (.readBlocked 0)] ++ handleSteps 0 [1] 0 ++ doneSteps 0 ++
      handleSteps 1 [] 0 ++ [.worker 0 (.doneLock 1 []), .worker 0 (.doneInsert 1 []), .worker 0 (.doneUnlock 1 []),
      .worker 0 (.doneSkip 1 [])] ++ takeSteps ++ completeSteps 0 (some 1) rcInit 1 ++ completeSteps 1 none 1 1 ++
      [.main (.finish 1), .worker 0 .lock, .worker 0 .empty, .worker 0 .wait])
    (P := fun s => s.main = .loop ∧ s.donePipe = 0 ∧ (∀ w, s.wk w = .waiting) ∧ (∀ p, (s.pcb p).tmpRequestHead = []) ∧
      s.nreq = 2) (by decide +kernel)
  have hrest : Resting s := ⟨hmain, hpipe, hworkers, hbuffered⟩
  obtain ⟨hplaces, -, hfreed⟩ := rest_is_clean (oneStage 8 0) (by decide) hs hrest
  exact ⟨s, hs, hrest, hnreq, hplaces (.stage 0), hfreed 0 (by rw [hnreq]; decide), hfreed 1 (by rw [hnreq]; decide)⟩

end Csf
