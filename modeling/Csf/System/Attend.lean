import Csf.Pipeline.Eviction
import Csf.System.Admission
import Csf.System.Fifo
import Csf.System.Lengths
import Csf.System.Shutdown

/-!
# Stages do not fall asleep over their work

A worker blocks in `pthread_cond_wait` only while it finds the queue of its stage empty. Whoever fills the queue does so
under the mutex of the stage and signals its condition, so a worker that is blocked while there is work is released, or
another one of the stage is on its way to the queue. One path of `send_to_pipeline` breaks the rule: when it has moved the
buffered requests into the queue and then finds the queue full, it gives the mutex back without a signal.
`stage_attended` says that this is the only way; `stage_unattended` is a run that takes it.
-/

namespace Csf

variable {Stage Worker : Type}

/-- The worker will look at the queue of its stage without being woken. -/
def attends : WorkerPc Stage → Bool
  | .aboutToWait | .waiting | .leaving | .gone => false
  | _ => true

/-- Somebody looks after the queue of a stage: a worker of it is not blocked, the main thread is about to signal, or a
graceful restart has begun to take the workers away. -/
def Attended (cfg : Config Stage Worker) (s : State Stage Worker) (st : Stage) : Prop :=
  (∃ w, cfg.rqcb w = st ∧ attends (s.wk w) = true) ∨ (∃ r p n, s.sub = .inserted r p st n) ∨
    ∃ w, cfg.rqcb w = st ∧ departed (s.wk w) = true

/-- The refusal that leaves buffered requests behind in the queue of the stage. -/
def abandons [DecidableEq Stage] (cfg : Config Stage Worker) (s : State Stage Worker) : Action Stage Worker → Bool
  | .main (.send _ p st flags concat) =>
    concat && refuses cfg p st flags concat s && decide ((s.pcb p).tmpRequestHead ≠ [])
  | _ => false

/-- Where the workers stand: a worker that is about to block has seen an empty queue, and a queue with requests is
attended. -/
structure AttendInv (cfg : Config Stage Worker) (s : State Stage Worker) : Prop where
  owned : Owned cfg s
  empty : ∀ w, s.wk w = .aboutToWait → (s.rqcb (cfg.rqcb w)).requestHead = []
  attended : ∀ st, (∃ w, cfg.rqcb w = st) → (s.rqcb st).requestHead ≠ [] → Attended cfg s st

theorem attends_or (pc : WorkerPc Stage) : attends pc = true ∨ departed pc = true ∨ pc = .waiting ∨ pc = .aboutToWait := by
  cases pc <;> simp [attends, departed]

theorem attends_of_wake {pc pc' : WorkerPc Stage} (h : pc' = pc ∨ pc' = .woken ∧ pc = .waiting)
    (hpc : attends pc = true) : attends pc' = true := by
  rcases h with rfl | ⟨rfl, -⟩
  · exact hpc
  · rfl

theorem attends_resume (r : Nat) (rest : List (Dest Stage)) : attends (resume r rest) = true := by
  cases rest <;> rfl

section
variable [DecidableEq Stage] [DecidableEq Worker] {cfg : Config Stage Worker} {s s' : State Stage Worker}

/-! ### How a queue is filled -/

/-- The condition of the stage is signalled while nobody holds its mutex: the released workers are up. -/
def Signalled (cfg : Config Stage Worker) (s s' : State Stage Worker) (st : Stage) : Prop :=
  ∃ ws, SignalOk cfg s st ws ∧ ∀ w ∈ ws, attends (s'.wk w) = true

omit [DecidableEq Worker] in
theorem kickPcb_cases (cfg : Config Stage Worker) (ok : Pipeline → Bool) (s : State Stage Worker) (p : Pipeline) :
    kickPcb cfg ok s p = s ∨ kickPcb cfg ok s p = unlinkActive p s ∨
      ∃ st, cfg.firstRqcb p = some st ∧ ok p = true ∧ (s.pcb p).tmpRequestHead ≠ [] ∧
        kickPcb cfg ok s p = unlinkActive p (concatTmp p st s) := by
  unfold kickPcb
  by_cases htmp : (s.pcb p).tmpRequestHead = []
  · rw [if_pos htmp]
    exact .inr (.inl rfl)
  · rw [if_neg htmp]
    cases hfirst : cfg.firstRqcb p with
    | none => exact .inl rfl
    | some st =>
      dsimp only
      by_cases hok : ok p = true
      · rw [if_pos hok]
        exact .inr (.inr ⟨st, rfl, hok, htmp, rfl⟩)
      · rw [if_neg hok]
        exact .inl rfl

omit [DecidableEq Worker] in
theorem kickRequestQueue_keeps {β : Type} (cfg : Config Stage Worker) (ok : Pipeline → Bool) (s : State Stage Worker)
    (f : State Stage Worker → β) (hf : ∀ t rqcb pcb apq, f { t with rqcb := rqcb, pcb := pcb, apq := apq } = f t) :
    f (kickRequestQueue cfg ok s) = f s := by
  have hround : ∀ t p, f (kickPcb cfg ok t p) = f t := by
    intro t p
    rcases kickPcb_cases cfg ok t p with heq | heq | ⟨st, -, -, -, heq⟩ <;> rw [heq]
    · exact hf t t.rqcb _ _
    · exact hf t _ _ _
  unfold kickRequestQueue
  generalize s.apq = l
  induction l generalizing s with
  | nil => rfl
  | cons p l ih => exact (ih _).trans (hround s p)

omit [DecidableEq Worker] in
theorem filled_kickPcb {ok : Pipeline → Bool} {p : Pipeline} {st : Stage}
    (h : ((kickPcb cfg ok s p).rqcb st).requestHead ≠ []) : (s.rqcb st).requestHead ≠ [] ∨
      ok p = true ∧ (s.pcb p).tmpRequestHead ≠ [] ∧ cfg.firstRqcb p = some st := by
  rcases kickPcb_cases cfg ok s p with heq | heq | ⟨st', hfirst, hok, htmp, heq⟩ <;> rw [heq] at h
  · exact .inl h
  · exact .inl h
  · by_cases hst : st = st'
    · exact .inr ⟨hok, htmp, hst ▸ hfirst⟩
    · refine .inl ?_
      simpa [unlinkActive, concatTmp, Function.update_of_ne hst] using h

omit [DecidableEq Worker] in
theorem tmp_kickPcb {ok : Pipeline → Bool} {p q : Pipeline}
    (h : ((kickPcb cfg ok s p).pcb q).tmpRequestHead ≠ []) : (s.pcb q).tmpRequestHead ≠ [] := by
  rcases kickPcb_cases cfg ok s p with heq | heq | ⟨st', -, -, -, heq⟩ <;> rw [heq] at h
  · exact h
  · by_cases hq : q = p
    · subst hq
      simpa [unlinkActive] using h
    · simpa [unlinkActive, Function.update_of_ne hq] using h
  · by_cases hq : q = p
    · subst hq
      simp [unlinkActive, concatTmp] at h
    · simpa [unlinkActive, concatTmp, Function.update_of_ne hq] using h

omit [DecidableEq Worker] in
theorem tmp_kickRequestQueue {ok : Pipeline → Bool} {q : Pipeline}
    (h : ((kickRequestQueue cfg ok s).pcb q).tmpRequestHead ≠ []) : (s.pcb q).tmpRequestHead ≠ [] := by
  unfold kickRequestQueue at h
  generalize s.apq = l at h
  induction l generalizing s with
  | nil => exact h
  | cons p l ih => exact tmp_kickPcb (ih h)

omit [DecidableEq Worker] in
theorem filled_kickRequestQueue {ok : Pipeline → Bool} {st : Stage}
    (h : ((kickRequestQueue cfg ok s).rqcb st).requestHead ≠ []) : (s.rqcb st).requestHead ≠ [] ∨
      ∃ p ∈ s.apq, ok p = true ∧ (s.pcb p).tmpRequestHead ≠ [] ∧ cfg.firstRqcb p = some st := by
  unfold kickRequestQueue at h
  generalize s.apq = l at h ⊢
  induction l generalizing s with
  | nil => exact .inl h
  | cons p l ih =>
    rcases ih h with hqueue | ⟨q, hq, hok, htmp, hfirst⟩
    · exact (filled_kickPcb hqueue).imp_right fun hp => ⟨p, List.mem_cons_self, hp⟩
    · exact .inr ⟨q, List.mem_cons_of_mem p hq, hok, tmp_kickPcb htmp, hfirst⟩

theorem signalled_kickAll {ok : Pipeline → Bool} {ws : Pipeline → List Worker} {st : Stage}
    (hkick : KickOk cfg s ok ws) (hwk : s'.wk = (kickAll cfg ok ws s).wk)
    (hqueue : (s'.rqcb st).requestHead = ((kickRequestQueue cfg ok s).rqcb st).requestHead)
    (hempty : (s.rqcb st).requestHead = []) (hne : (s'.rqcb st).requestHead ≠ []) :
    s.mutex st = none ∧ Signalled cfg s s' st := by
  rw [hqueue] at hne
  rcases filled_kickRequestQueue hne with hold | ⟨p, hp, hok, htmp, hfirst⟩
  · exact absurd hempty hold
  · obtain ⟨hfree, hsignal⟩ := hkick p hp hok htmp st hfirst
    refine ⟨hfree, ws p, hsignal, fun w hw => ?_⟩
    have hmem : w ∈ kickWakes cfg s ok ws := by
      refine List.mem_flatMap.mpr ⟨p, List.mem_filter.mpr ⟨hp, ?_⟩, hw⟩
      simp [hok, htmp, hfirst]
    rw [hwk]
    simp [kickAll, wake, hmem, attends]

/-! ### `send_to_pipeline` -/

omit [DecidableEq Worker] in
theorem rqcb_sendToPipeline {p : Pipeline} {st st' : Stage} (hst : st' ≠ st) (r : Nat) (flags : UInt32) (concat : Bool) :
    (sendToPipeline cfg p st r flags concat s).1.rqcb st' = s.rqcb st' := by
  have hinsert : ∀ hit t, (sweepAndInsert cfg st r flags hit t).1.rqcb st' = t.rqcb st' := by
    intro hit t
    rw [sweepAndInsert_eq]
    simp [insertTail, moveToFinal, Function.update_of_ne hst]
  have hconcat := rqcb_concatBuffered p hst concat s
  unfold sendToPipeline
  dsimp only
  generalize concatBuffered p st concat s = t at hconcat ⊢
  split_ifs
  · exact hconcat
  · cases (t.rqcb st).requestHead with
    | nil => exact hconcat
    | cons h rest =>
      refine (hinsert _ _).trans (Eq.trans ?_ hconcat)
      simp [kickOutHead, evict, Function.update_of_ne hst]
  · exact (hinsert _ _).trans hconcat

omit [DecidableEq Worker] in
theorem filled_sendLocked {p : Pipeline} {st st' : Stage} {r : Nat} {flags : UInt32} {concat : Bool}
    (hkeep : abandons cfg s (.main (.send r p st flags concat)) = false) (hempty : (s.rqcb st').requestHead = [])
    (hne : ((sendLocked cfg r p st flags concat s).rqcb st').requestHead ≠ []) :
    st' = st ∧ ∃ n, (sendLocked cfg r p st flags concat s).sub = .inserted r p st n := by
  have hrqcb : (sendLocked cfg r p st flags concat s).rqcb = (sendToPipeline cfg p st r flags concat s).1.rqcb := by
    unfold sendLocked
    split <;> (rename_i heq; simp only [heq, setMutex])
  rw [hrqcb] at hne
  obtain rfl : st' = st := by
    by_contra hst
    rw [rqcb_sendToPipeline hst] at hne
    exact hne hempty
  refine ⟨rfl, ?_⟩
  have hqueue := requestHead_concatBuffered p st' concat s
  unfold sendLocked
  unfold sendToPipeline at hne ⊢
  dsimp only at hne ⊢
  by_cases hfull : (!hasFlag flags requestForce && stageFull cfg st' (concatBuffered p st' concat s)) = true
  · -- the refusal: the queue has what was buffered
    rw [if_pos hfull, hqueue, waitingQueue, hempty, List.nil_append] at hne
    simp only [abandons, refuses, hfull, Bool.and_true, Bool.and_eq_false_iff, decide_eq_false_iff_not, not_not] at hkeep
    rcases hkeep with hno | hnone
    · exact absurd (by rw [hno]; rfl) hne
    · exact absurd (by rw [hnone]; split <;> rfl) hne
  · rw [if_neg hfull] at hne ⊢
    split_ifs at hne ⊢ with hkick
    · cases hhead : ((concatBuffered p st' concat s).rqcb st').requestHead with
      | nil =>
        rw [hhead] at hne
        exact absurd hhead hne
      | cons h rest => exact ⟨_, rfl⟩
    · exact ⟨_, rfl⟩

variable [Fintype Stage] [Fintype Worker]

omit [Fintype Stage] in
/-- A queue is filled under the free mutex of its stage, and the condition is signalled then or will be before the mutex
is given back. -/
theorem fills_step {a : Action Stage Worker} {st : Stage} (hs : step cfg s a = some s') (hkeep : abandons cfg s a = false)
    (hempty : (s.rqcb st).requestHead = []) (hne : (s'.rqcb st).requestHead ≠ []) :
    s.mutex st = none ∧ ((∃ r p n, s'.sub = .inserted r p st n) ∨ Signalled cfg s s' st) := by
  obtain ⟨-, hg, rfl⟩ := step_eq_some hs
  have hsame : (effect cfg s a).rqcb = s.rqcb → s.mutex st = none ∧
      ((∃ r p n, (effect cfg s a).sub = .inserted r p st n) ∨ Signalled cfg s (effect cfg s a) st) := by
    intro heq
    rw [heq] at hne
    exact absurd hempty hne
  -- the queues of the other stages stay as they are
  have hother : ∀ st', (st ≠ st' → ((effect cfg s a).rqcb st).requestHead = (s.rqcb st).requestHead) → st = st' := by
    intro st' heq
    by_contra hst
    rw [heq hst] at hne
    exact hne hempty
  cases a with
  | worker w a =>
    cases a with
    | forward r st' rest ws =>
      obtain rfl : st = st' := hother st' fun hst => by
        simp [effect, workerEffect, setWk, toNextStage, setReq, Function.update_of_ne hst]
      refine ⟨hg.2.1, .inr ⟨ws, hg.2.2, fun v hv => ?_⟩⟩
      by_cases hvw : v = w
      · subst hvw
        simp [effect, workerEffect, setWk, attends_resume]
      · simp [effect, workerEffect, setWk, Function.update_of_ne hvw, wake, hv, attends]
    | dequeue r rest =>
      obtain rfl : st = cfg.rqcb w := hother _ fun hst => by
        simp [effect, workerEffect, setWk, setMutex, Function.update_of_ne hst]
      rw [hg.2.1] at hempty
      cases hempty
    | _ => exact hsame (rqcb_workerEffect cfg s w (by simp) (by simp))
  | main a =>
    have hplain := mainEffect_plain cfg s a State.rqcb fun _ => rfl
    cases a with
    | send r p st' flags concat =>
      obtain ⟨rfl, n, hsub⟩ := filled_sendLocked hkeep hempty hne
      exact ⟨hg.2, .inl ⟨r, p, n, hsub⟩⟩
    | count r p st' notice ws =>
      refine absurd ?_ hne
      by_cases hst : st = st'
      · subst hst
        simpa [effect, mainEffect, setMutex, countInserted] using hempty
      · simpa [effect, mainEffect, setMutex, countInserted, Function.update_of_ne hst] using hempty
    | kick ev ok ws =>
      obtain ⟨hfree, hsignal⟩ := signalled_kickAll hg.2 rfl rfl hempty hne
      exact ⟨hfree, .inr hsignal⟩
    | _ => exact hsame hplain
  | signals a =>
    cases a with
    | kick ok ws =>
      obtain ⟨hfree, hsignal⟩ := signalled_kickAll hg.2 rfl rfl hempty hne
      exact ⟨hfree, .inr hsignal⟩
    | _ => exact hsame rfl
  | tick | cancel => exact hsame rfl

/-! ### The invariant -/

theorem attends_step {a : Action Stage Worker} (hs : step cfg s a = some s') {w : Worker} (hw : attends (s.wk w) = true) :
    attends (s'.wk w) = true ∨ departed (s'.wk w) = true ∨
      a = .worker w .empty ∧ (s.rqcb (cfg.rqcb w)).requestHead = [] := by
  obtain ⟨-, hg, rfl⟩ := step_eq_some hs
  cases a with
  | worker v a =>
    by_cases hv : w = v
    · subst hv
      cases a with
      | empty => exact .inr (.inr ⟨rfl, hg.2⟩)
      | wait | spurious | exit =>
        rw [show s.wk w = _ from hg] at hw
        cases hw
      | leave => exact .inr (.inl (by simp [effect, workerEffect, setWk, departed]))
      | handle r cl calls ret errno =>
        left
        have hwk := keeps_of_offConns (offConns_touchCsp r (handled cfg w r calls ret errno s)) State.wk fun _ => rfl
        rw [show (effect cfg s (.worker w (.handle r cl calls ret errno))).wk = _ from hwk]
        simp [handled, setWk, attends]
      | doneWrite r rest =>
        left
        rw [show (effect cfg s (.worker w (.doneWrite r rest))).wk = _ from
          writeByte_keeps cfg cfg.doneFd _ State.wk fun _ _ => rfl]
        simp [setWk, attends_resume]
      | forward | doneSkip => exact .inl (by simp [effect, workerEffect, setWk, attends_resume])
      | _ => exact .inl (by simp [effect, workerEffect, setWk, attends])
    · exact .inl (attends_of_wake (wk_workerEffect hg hv) hw)
  | main a => exact .inl (attends_of_wake (wk_mainEffect hg w) hw)
  | signals a => exact .inl (attends_of_wake (wk_signalEffect hg w) hw)
  | tick | cancel => exact .inl hw

theorem departed_of_departed {a : Action Stage Worker} (hs : step cfg s a = some s') {w : Worker}
    (hw : departed (s.wk w) = true) : departed (s'.wk w) = true := by
  obtain ⟨-, hg, rfl⟩ := step_eq_some hs
  have hwake : ∀ {pc' : WorkerPc Stage}, (pc' = s.wk w ∨ pc' = .woken ∧ s.wk w = .waiting) → departed pc' = true := by
    rintro pc' (rfl | ⟨-, hwait⟩)
    · exact hw
    · rw [hwait] at hw
      cases hw
  cases a with
  | worker v a =>
    by_cases hv : w = v
    · subst hv
      cases a with
      | exit => simp [effect, workerEffect, setWk, departed]
      | wait | spurious | doneInsert | doneUnlock | doneSet | doneWrite =>
        rw [show s.wk w = _ from hg] at hw
        cases hw
      | _ =>
        rw [hg.1] at hw
        cases hw
    · exact hwake (wk_workerEffect hg hv)
  | main a => exact hwake (wk_mainEffect hg w)
  | signals a => exact hwake (wk_signalEffect hg w)
  | tick | cancel => exact hw

theorem aboutToWait_step {a : Action Stage Worker} (hs : step cfg s a = some s') {w : Worker}
    (hw : s'.wk w = .aboutToWait) : s.wk w = .aboutToWait ∨ a = .worker w .empty := by
  obtain ⟨-, hg, rfl⟩ := step_eq_some hs
  have hwake : ∀ {pc' : WorkerPc Stage}, (pc' = s.wk w ∨ pc' = .woken ∧ s.wk w = .waiting) → pc' = .aboutToWait →
      s.wk w = .aboutToWait := by
    rintro pc' (rfl | ⟨rfl, -⟩) heq
    · exact heq
    · cases heq
  have hresume : ∀ (r : Nat) (rest : List (Dest Stage)), resume r rest ≠ .aboutToWait := by
    intro r rest
    cases rest <;> simp [resume]
  cases a with
  | worker v a =>
    by_cases hv : w = v
    · subst hv
      cases a with
      | empty => exact .inr rfl
      | handle r cl calls ret errno =>
        have hwk := keeps_of_offConns (offConns_touchCsp r (handled cfg w r calls ret errno s)) State.wk fun _ => rfl
        rw [show (effect cfg s (.worker w (.handle r cl calls ret errno))).wk = _ from hwk] at hw
        simp [handled, setWk] at hw
      | doneWrite r rest =>
        rw [show (effect cfg s (.worker w (.doneWrite r rest))).wk = _ from
          writeByte_keeps cfg cfg.doneFd _ State.wk fun _ _ => rfl] at hw
        simp [setWk, hresume] at hw
      | forward | doneSkip => simp [effect, workerEffect, setWk, hresume] at hw
      | _ => simp [effect, workerEffect, setWk] at hw
    · exact .inl (hwake (wk_workerEffect hg hv) hw)
  | main a => exact .inl (hwake (wk_mainEffect hg w) hw)
  | signals a => exact .inl (hwake (wk_signalEffect hg w) hw)
  | tick | cancel => exact .inl hw

theorem inserted_step {a : Action Stage Worker} (hs : step cfg s a = some s') {r : Nat} {p : Pipeline} {st : Stage}
    {n : Bool} (hsub : s.sub = .inserted r p st n) : s'.sub = s.sub ∨ ∃ ws, a = .main (.count r p st n ws) := by
  obtain ⟨-, hg, rfl⟩ := step_eq_some hs
  cases a with
  | worker w a => exact .inl (workerEffect_keeps cfg s w a State.sub fun _ => rfl)
  | signals a => exact .inl (signalEffect_keeps cfg s a State.sub fun _ => rfl)
  | tick | cancel => exact .inl rfl
  | main a =>
    have hplain := mainEffect_plain cfg s a State.sub fun _ => rfl
    cases a with
    | count r' p' st' n' ws =>
      obtain ⟨rfl, rfl, rfl, rfl⟩ := SubmitPc.inserted.inj (hsub.symm.trans hg.1)
      exact .inr ⟨ws, rfl⟩
    | kick ev ok ws => exact .inl (hplain.trans ((QueueMove.kickRequestQueue cfg ok s).keeps State.sub fun _ => rfl))
    | submit | refuse => exact absurd (hsub.symm.trans hg.2.1) (by simp)
    | send | noticeSkip | noticeClear => exact absurd (hsub.symm.trans hg.1) (by simp)
    | buffer | countBuffered | noticeSet | noticeWrite | returnTid =>
      exact absurd (hsub.symm.trans (show s.sub = _ from hg)) (by simp)
    | _ => exact .inl hplain

theorem attended_of_signal {a : Action Stage Worker} {st : Stage} (hs : step cfg s a = some s')
    (hsignal : Signalled cfg s s' st) (hnobody : ∀ w, cfg.rqcb w = st → s.wk w ≠ .aboutToWait)
    (hworker : ∃ w, cfg.rqcb w = st) (hne : ∀ w, cfg.rqcb w = st → a ≠ .worker w .empty) : Attended cfg s' st := by
  obtain ⟨ws, ⟨hwaiting, hall⟩, hup⟩ := hsignal
  cases ws with
  | cons w ws => exact .inl ⟨w, (hwaiting w List.mem_cons_self).2, hup w List.mem_cons_self⟩
  | nil =>
    obtain ⟨w, hw⟩ := hworker
    rcases attends_or (s.wk w) with hpc | hpc | hpc | hpc
    · rcases attends_step hs hpc with h | h | ⟨h, -⟩
      · exact .inl ⟨w, hw, h⟩
      · exact .inr (.inr ⟨w, hw, h⟩)
      · exact absurd h (hne w hw)
    · exact .inr (.inr ⟨w, hw, departed_of_departed hs hpc⟩)
    · exact absurd hpc (hall rfl w hw)
    · exact absurd hpc (hnobody w hw)

theorem attendInv_step {a : Action Stage Worker} (h : AttendInv cfg s) (hs : step cfg s a = some s')
    (hkeep : abandons cfg s a = false) : AttendInv cfg s' := by
  have hfree : ∀ {w}, s.mutex (cfg.rqcb w) = none → s.wk w ≠ .aboutToWait := by
    intro w hnone hpc
    have hown := h.owned.worker w (by rw [hpc]; rfl)
    rw [hnone] at hown
    cases hown
  refine ⟨owned_step h.owned hs, fun w hw => ?_, fun st hworker hqueue => ?_⟩
  · by_contra hne
    rcases aboutToWait_step hs hw with hpc | rfl
    · exact hfree (fills_step hs hkeep (h.empty w hpc) hne).1 hpc
    · obtain ⟨-, hg, rfl⟩ := step_eq_some hs
      exact hne hg.2
  · -- the step of a worker that finds the queue empty does not fill it
    have hnotEmpty : ∀ w, cfg.rqcb w = st → a ≠ .worker w .empty := by
      rintro w rfl rfl
      obtain ⟨-, hg, rfl⟩ := step_eq_some hs
      exact hqueue hg.2
    by_cases hempty : (s.rqcb st).requestHead = []
    · obtain ⟨hnone, hsub | hsignal⟩ := fills_step hs hkeep hempty hqueue
      · exact .inr (.inl hsub)
      · refine attended_of_signal hs hsignal (fun w hw => ?_) hworker hnotEmpty
        subst hw
        exact hfree hnone
    · rcases h.attended st hworker hempty with ⟨w, hw, hpc⟩ | ⟨r, p, n, hsub⟩ | ⟨w, hw, hpc⟩
      · rcases attends_step hs hpc with hup | hgone | ⟨heq, -⟩
        · exact .inl ⟨w, hw, hup⟩
        · exact .inr (.inr ⟨w, hw, hgone⟩)
        · exact absurd heq (hnotEmpty w hw)
      · rcases inserted_step hs hsub with hsame | ⟨ws, rfl⟩
        · exact .inr (.inl ⟨r, p, n, hsame.trans hsub⟩)
        · obtain ⟨-, hg, rfl⟩ := step_eq_some hs
          have hown := h.owned.main r p st n hsub
          refine attended_of_signal hs ⟨ws, hg.2, fun w hw => ?_⟩ (fun w hw hpc => ?_) hworker hnotEmpty
          · simp [effect, mainEffect, setMutex, wake, hw, attends]
          · have hown' := h.owned.worker w (by rw [hpc]; rfl)
            rw [hw, hown] at hown'
            cases hown'
      · exact .inr (.inr ⟨w, hw, departed_of_departed hs hpc⟩)

omit [DecidableEq Stage] [DecidableEq Worker] [Fintype Stage] in
theorem attendInv_init (cfg : Config Stage Worker) : AttendInv cfg (State.init : State Stage Worker) where
  owned := owned_init cfg
  empty _ h := by cases h
  attended _ _ h := absurd rfl h

/-- What holds throughout a run whose submissions name connections and carry no flags. -/
structure PlainInv (cfg : Config Stage Worker) (s : State Stage Worker) : Prop where
  calm : CalmInv cfg s
  room : Room cfg s
  counted : Counted (uncounted s.sub) s

omit [DecidableEq Worker] in
theorem plainInv_init (cfg : Config Stage Worker) : PlainInv cfg State.init :=
  ⟨calmInv_init cfg, room_init cfg, counted_init⟩

theorem plainInv_step {a : Action Stage Worker} (h : PlainInv cfg s) (hbenign : Benign a s') (hplain : unflagged a = true)
    (hs : step cfg s a = some s') : PlainInv cfg s' := by
  have hregular := regular_of_benign h.calm.flow hbenign hs
  have hcalm' := calmInv_step h.calm ⟨hregular, hbenign.1, h.room.calm hs⟩ hs
  exact ⟨hcalm', room_step h.room h.calm hcalm' hplain hs, counted_step h.counted hs⟩

omit [DecidableEq Worker] [Fintype Stage] [Fintype Worker] in
theorem full_of_refuses {p : Pipeline} {st : Stage} {flags : UInt32} {concat : Bool}
    (h : refuses cfg p st flags concat s = true) (r : Nat) : (sendToPipeline cfg p st r flags concat s).2 = .full := by
  unfold sendToPipeline
  dsimp only
  rw [if_pos (by simpa [refuses] using h)]

theorem PlainInv.abandons_eq_false {a : Action Stage Worker} (h : PlainInv cfg s) (hs : step cfg s a = some s') :
    abandons cfg s a = false := by
  obtain ⟨-, hg, -⟩ := step_eq_some hs
  unfold abandons
  split
  · rename_i r p st flags concat
    have hnot : refuses cfg p st flags concat s = false := by
      by_contra hrefuse
      exact not_full_of_room h.calm h.room h.counted hg.1 (full_of_refuses (by simpa using hrefuse) r)
    rw [hnot, Bool.and_false, Bool.false_and]
  · rfl

/-- The steps that keep every queue attended: no request is copied, the signal thread does not run
`kick_request_queue` beside the main thread, and no refusal abandons buffered requests. -/
def Attentive (cfg : Config Stage Worker) (s : State Stage Worker) (a : Action Stage Worker) : Prop :=
  Regular s a ∧ signalKicks a = false ∧ abandons cfg s a = false

instance (cfg : Config Stage Worker) (s : State Stage Worker) (a : Action Stage Worker) :
    Decidable (Attentive cfg s a) := inferInstanceAs (Decidable (_ ∧ _))

theorem attentive_of_unflagged {s : State Stage Worker}
    (h : Reachable cfg (fun _ a s' => Benign a s' ∧ unflagged a = true ∧ signalKicks a = false) s) :
    Reachable cfg (fun s a _ => Attentive cfg s a) s :=
  (h.strengthen (fun s a _ => Attentive cfg s a) (PlainInv cfg) (plainInv_init cfg)
    (fun _ _ _ hinv hr hs => ⟨regular_of_benign hinv.calm.flow hr.1 hs, hr.2.2, hinv.abandons_eq_false hs⟩)
    fun _ _ _ hinv hr _ hs => plainInv_step hinv hr.1 hr.2.1 hs).1

/-- A stage that has workers and requests is attended, in every run in which no handler passes on a request past the
loop limit, the signal thread has not run `kick_request_queue` and no refusal abandons buffered requests; a run whose
submissions name connections and carry no flags abandons none. -/
theorem stage_attended (cfg : Config Stage Worker) {s : State Stage Worker}
    (h : Reachable cfg (fun s a _ => Attentive cfg s a) s ∨
      Reachable cfg (fun _ a s' => Benign a s' ∧ unflagged a = true ∧ signalKicks a = false) s)
    (st : Stage) (hworker : ∃ w, cfg.rqcb w = st) (hqueue : (s.rqcb st).requestHead ≠ []) : Attended cfg s st := by
  have hkept : Reachable cfg (fun s a _ => Attentive cfg s a) s := h.elim id attentive_of_unflagged
  have hinv : AttendInv cfg s :=
    hkept.invariant (attendInv_init cfg) fun _ _ _ hinv hkeep hs => attendInv_step hinv hs hkeep.2.2
  exact hinv.attended st hworker hqueue

end

/-- The only worker was blocked when a request arrived. -/
theorem stage_attended_run : ∃ s, Reachable (oneStage 2 0) (fun s a _ => Attentive (oneStage 2 0) s a) s ∧
    (s.rqcb 0).requestHead = [0] ∧ Attended (oneStage 2 0) s 0 := by
  obtain ⟨s, hs, hqueue⟩ := exists_reachable (oneStage 2 0) (fun s a _ => Attentive (oneStage 2 0) s a)
    [.worker 0 .lock, .worker 0 .empty, .worker 0 .wait, .main .accept, .main (.readable 0),
      .main (.submit (submitZero 0) 0 0), .main (.send 0 0 0 0 false), .main (.count 0 0 0 false [0])]
    (P := fun s => (s.rqcb 0).requestHead = [0]) (by decide +kernel)
  exact ⟨s, hs, hqueue, stage_attended (oneStage 2 0) (.inl hs) 0 ⟨0, rfl⟩ (by rw [hqueue]; simp)⟩

/-- Two buffered requests end in the queue of a stage whose only worker is blocked. The kick-out of request 1 is counted
twice, so request 6 passes the test for room, joins the buffer to the queue and is refused under the lock. -/
theorem stage_unattended : ∃ s, Reachable (oneStage 2 0) (fun s a _ => Regular s a ∧ signalKicks a = false) s ∧
    (s.rqcb 0).requestHead = [4, 5] ∧ (s.pcb 0).tmpRequestHead = [] ∧ s.mutex 0 = none ∧ s.sub = .none ∧
    s.wk 0 = .waiting :=
  exists_reachable (oneStage 2 0) (fun s a _ => Regular s a ∧ signalKicks a = false)
    ([.main .accept, .main (.readable 0)] ++ submitSteps 0 0 ++ handleSteps 0 [] pipelineBreak ++ doneSteps 0 ++
      submitSteps 1 0 ++ submitSteps 2 requestForce ++ kickOutSteps 3 true ++ [.main (.readBlocked 0)] ++
      takeSteps ++ completeSteps 1 (some 0) rcInit 0 ++ completeSteps 0 none 0 0 ++ [.main (.finish 0)] ++
      handleSteps 2 [3] pipelineBreak ++ doneSteps 2 ++ takeSteps ++ completeSteps 2 none rcInit 0 ++
      [.main (.finish 0), .main (.readable 0)] ++ bufferSteps 4 false ++ bufferSteps 5 true ++
      [.main (.readBlocked 0)] ++ handleSteps 3 [] pipelineBreak ++ doneSteps 3 ++ takeSteps ++
      completeSteps 3 none rcInit 0 ++ [.main (.finish 0), .worker 0 .lock, .worker 0 .empty, .worker 0 .wait,
        .main (.readable 0), .main (.submit (submitZero 0) 0 0), .main (.send 6 0 0 0 true)])
    (P := fun s => (s.rqcb 0).requestHead = [4, 5] ∧ (s.pcb 0).tmpRequestHead = [] ∧ s.mutex 0 = none ∧
      s.sub = .none ∧ s.wk 0 = .waiting) (by decide +kernel)

end Csf
