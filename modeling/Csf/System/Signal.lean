import Csf.System.Flow

/-!
# The signal to the main thread

A worker that put a request on the done queue tests `done_signalled`, sets it and writes a byte to the done
pipe. `done_requests_handler` reads the pipe, clears the flag and takes the queue, unless it was called on
`EV_TIMEOUT`. The flag is tested, set and cleared outside of the lock of the queue, so the argument is about
the order of the steps: while the flag is set a byte is in the pipe, or about to be written, or being read
(`SignalInv.flag`); while the queue is not empty a byte is in the pipe, or a worker is still before its test or
its write, or the handler is on its way to the queue (`SignalInv.queue`).

On `EV_TIMEOUT` the handler reads the byte and clears the flag too, and does not go to the queue.
-/

namespace Csf

open Lib

variable {Stage Worker : Type}

/-- The worker is in `to_done_stage`, past the lock. -/
def inDoneStage : WorkerPc Stage → Bool
  | .doneLocked .. | .doneInserted .. | .doneTest .. | .doneSet .. | .doneWrite .. => true
  | _ => false

def holdsDone : WorkerPc Stage → Bool
  | .doneLocked .. | .doneInserted .. => true
  | _ => false

def writing : WorkerPc Stage → Bool
  | .doneWrite .. => true
  | _ => false

/-- The handler is between the test and the reset of `done_signalled`. -/
def draining : MainPc Stage → Bool
  | .drainRead _ | .drainReset _ => true
  | _ => false

/-- The handler, called on `EV_READ`, is past the reset and goes to the done queue. -/
def collecting : MainPc Stage → Bool
  | .kick .read | .testDone .read | .take => true
  | _ => false

def unnoticed : SubmitPc Stage → Bool
  | .inserted _ _ _ notice => !notice
  | .noticeTest .. | .noticeSet .. | .noticeWrite .. => false
  | _ => true

structure SignalInv (s : State Stage Worker) : Prop where
  flag : s.doneSignalled = true → 0 < s.donePipe ∨ (∃ w, writing (s.wk w) = true) ∨ draining s.main = true
  queue : s.doneRqcb.requestHead ≠ [] → 0 < s.donePipe ∨ (∃ w, inDoneStage (s.wk w) = true) ∨
    draining s.main = true ∨ collecting s.main = true
  mutex : ∀ w, s.doneMutex = some w → holdsDone (s.wk w) = true
  notice : unnoticed s.sub = true

theorem signalInv_init [Fintype Worker] : SignalInv (State.init : State Stage Worker) where
  flag h := by cases h
  queue h := absurd rfl h
  mutex w h := by cases h
  notice := rfl

/-! ### Workers -/

theorem inDoneStage_of_writing {pc : WorkerPc Stage} (h : writing pc = true) : inDoneStage pc = true := by
  cases pc <;> simp_all [writing, inDoneStage]

theorem inDoneStage_of_holdsDone {pc : WorkerPc Stage} (h : holdsDone pc = true) : inDoneStage pc = true := by
  cases pc <;> simp_all [holdsDone, inDoneStage]

theorem SignalInv.of_outside {s s' : State Stage Worker} {w : Worker} (h : SignalInv s)
    (hw : inDoneStage (s.wk w) = false)
    (hothers : ∀ v, v ≠ w → s'.wk v = s.wk v ∨ s'.wk v = .woken ∧ s.wk v = .waiting)
    (hflag : s'.doneSignalled = s.doneSignalled) (hpipe : s'.donePipe = s.donePipe)
    (hqueue : s'.doneRqcb = s.doneRqcb) (hmutex : ∀ v, v ≠ w → s'.doneMutex = some v → s.doneMutex = some v)
    (hown : s'.doneMutex = some w → holdsDone (s'.wk w) = true) (hmain : s'.main = s.main) (hsub : s'.sub = s.sub) :
    SignalInv s' := by
  have hne : ∀ v, inDoneStage (s.wk v) = true → v ≠ w := by
    rintro v hv rfl
    rw [hw] at hv
    cases hv
  refine ⟨fun hf => ?_, fun hq => ?_, fun v hv => ?_, hsub ▸ h.notice⟩
  · rw [hpipe, hmain]
    refine (h.flag (hflag ▸ hf)).imp_right (Or.imp_left ?_)
    rintro ⟨v, hv⟩
    exact ⟨v, by rw [eq_of_wake writing rfl (hothers v (hne v (inDoneStage_of_writing hv))), hv]⟩
  · rw [hpipe, hmain]
    refine (h.queue (hqueue ▸ hq)).imp_right (Or.imp_left ?_)
    rintro ⟨v, hv⟩
    exact ⟨v, by rw [eq_of_wake inDoneStage rfl (hothers v (hne v hv)), hv]⟩
  · by_cases hvw : v = w
    · exact hvw ▸ hown (hvw ▸ hv)
    · have hold := h.mutex v (hmutex v hvw hv)
      rw [eq_of_wake holdsDone rfl (hothers v hvw), hold]

variable [DecidableEq Stage] [DecidableEq Worker]

omit [DecidableEq Stage] in
theorem SignalInv.of_inside {s s' : State Stage Worker} {w : Worker} {pc : WorkerPc Stage} (h : SignalInv s)
    (hwk : s'.wk = Function.update s.wk w pc) (hpc : inDoneStage pc = true)
    (hflag : s'.doneSignalled = true → writing pc = true ∨ s.doneSignalled = true)
    (hpipe : s'.donePipe = s.donePipe) (hwriting : writing (s.wk w) = false)
    (hmutex : ∀ v, s'.doneMutex = some v → s.doneMutex = some v ∧ (v = w → holdsDone pc = true))
    (hmain : s'.main = s.main) (hsub : s'.sub = s.sub) : SignalInv s' := by
  have hself : s'.wk w = pc := by rw [hwk, Function.update_self]
  refine ⟨fun hf => ?_, fun _ => .inr (.inl ⟨w, by rw [hself, hpc]⟩), fun v hv => ?_, hsub ▸ h.notice⟩
  · rw [hpipe, hmain]
    rcases hflag hf with hnow | hold
    · exact .inr (.inl ⟨w, by rw [hself, hnow]⟩)
    · refine (h.flag hold).imp_right (Or.imp_left ?_)
      rintro ⟨v, hv⟩
      have hvw : v ≠ w := by
        rintro rfl
        rw [hwriting] at hv
        cases hv
      exact ⟨v, by rw [hwk, Function.update_of_ne hvw, hv]⟩
  · obtain ⟨hold, hholds⟩ := hmutex v hv
    by_cases hvw : v = w
    · rw [hvw, hself]
      exact hholds hvw
    · rw [hwk, Function.update_of_ne hvw]
      exact h.mutex v hold

omit [DecidableEq Stage] in
/-- A worker leaves `to_done_stage` with a byte in the pipe, or with somebody else in charge of one. -/
theorem SignalInv.of_leaving {s s' : State Stage Worker} {w : Worker} {r : Nat} {rest : List (Dest Stage)}
    (h : SignalInv s) (hwk : s'.wk = Function.update s.wk w (resume r rest)) (hw : holdsDone (s.wk w) = false)
    (hpipe : 0 < s'.donePipe ∨ (∃ v, v ≠ w ∧ writing (s.wk v) = true) ∨ draining s.main = true)
    (hmutex : s'.doneMutex = s.doneMutex) (hmain : s'.main = s.main) (hsub : s'.sub = s.sub) : SignalInv s' := by
  have hbyte : 0 < s'.donePipe ∨ (∃ v, writing (s'.wk v) = true) ∨ draining s'.main = true := by
    rw [hmain]
    refine hpipe.imp_right (Or.imp_left ?_)
    rintro ⟨v, hvw, hv⟩
    exact ⟨v, by rw [hwk, Function.update_of_ne hvw, hv]⟩
  refine ⟨fun _ => hbyte, fun _ => ?_, fun v hv => ?_, hsub ▸ h.notice⟩
  · refine hbyte.imp_right (Or.imp ?_ .inl)
    rintro ⟨v, hv⟩
    exact ⟨v, inDoneStage_of_writing hv⟩
  · have hold := h.mutex v (hmutex ▸ hv)
    have hvw : v ≠ w := by
      rintro rfl
      rw [hw] at hold
      cases hold
    rw [hwk, Function.update_of_ne hvw]
    exact hold

theorem signalInv_workerEffect {cfg : Config Stage Worker} {s : State Stage Worker} {w : Worker}
    {a : WorkerAct Stage Worker} (h : SignalInv s) (hg : workerGuard cfg s w a) :
    SignalInv (workerEffect cfg s w a) := by
  have hothers := fun v (hv : v ≠ w) => wk_workerEffect hg hv
  have hmain := workerEffect_keeps cfg s w a State.main fun _ => rfl
  have hsub := workerEffect_keeps cfg s w a State.sub fun _ => rfl
  have hmutex : holdsDone (s.wk w) = false → s.doneMutex ≠ some w := by
    intro hw hm
    rw [h.mutex w hm] at hw
    cases hw
  cases a with
  | doneLock r rest =>
    obtain ⟨hpc, hfree⟩ := hg
    refine h.of_outside (by rw [hpc]; rfl) hothers rfl rfl rfl (fun v hv hm => ?_) (fun _ => ?_) hmain hsub
    · simp only [workerEffect, Option.some.injEq] at hm
      exact absurd hm.symm hv
    · simp [workerEffect, setWk, holdsDone]
  | doneInsert r rest =>
    have hpc : s.wk w = .doneLocked r rest := hg
    exact h.of_inside (w := w) rfl rfl .inr rfl (by rw [hpc]; rfl) (fun v hv => ⟨hv, fun _ => rfl⟩) rfl rfl
  | doneUnlock r rest =>
    have hpc : s.wk w = .doneInserted r rest := hg
    exact h.of_inside (w := w) rfl rfl .inr rfl (by rw [hpc]; rfl) (fun v hv => by cases hv) rfl rfl
  | doneClear r rest =>
    obtain ⟨hpc, -⟩ := hg
    refine h.of_inside (w := w) rfl rfl .inr rfl (by rw [hpc]; rfl) (fun v hv => ⟨hv, ?_⟩) rfl rfl
    rintro rfl
    exact absurd hv (hmutex (by rw [hpc]; rfl))
  | doneSet r rest =>
    have hpc : s.wk w = .doneSet r rest := hg
    refine h.of_inside (w := w) rfl rfl (fun _ => .inl rfl) rfl (by rw [hpc]; rfl) (fun v hv => ⟨hv, ?_⟩) rfl rfl
    rintro rfl
    exact absurd hv (hmutex (by rw [hpc]; rfl))
  | doneSkip r rest =>
    obtain ⟨hpc, hset⟩ := hg
    refine h.of_leaving rfl (by rw [hpc]; rfl) ((h.flag hset).imp_right (Or.imp_left ?_)) rfl rfl rfl
    rintro ⟨v, hv⟩
    refine ⟨v, ?_, hv⟩
    rintro rfl
    rw [hpc] at hv
    cases hv
  | doneWrite r rest =>
    have hpc : s.wk w = .doneWrite r rest := hg
    have heq : workerEffect cfg s w (.doneWrite r rest) =
        { setWk w (resume r rest) s with donePipe := min (s.donePipe + 1) cfg.pipeCapacity } := if_pos rfl
    have hcap := cfg.pipeCapacity_pos
    rw [heq]
    refine h.of_leaving (w := w) rfl (by rw [hpc]; rfl) (.inl ?_) rfl rfl rfl
    simp only [lt_min_iff]
    omega
  | handle r cl calls ret errno =>
    obtain ⟨hpc, -⟩ := hg
    have hoff := offConns_touchCsp r (handled cfg w r calls ret errno s)
    have hmutex' : (workerEffect cfg s w (.handle r cl calls ret errno)).doneMutex = s.doneMutex :=
      keeps_of_offConns hoff State.doneMutex fun _ => rfl
    refine h.of_outside (by rw [hpc]; rfl) hothers (keeps_of_offConns hoff State.doneSignalled fun _ => rfl)
      (keeps_of_offConns hoff State.donePipe fun _ => rfl) (keeps_of_offConns hoff State.doneRqcb fun _ => rfl)
      (fun v _ hv => hmutex' ▸ hv) (fun hv => ?_) hmain hsub
    exact absurd (hmutex' ▸ hv) (hmutex (by rw [hpc]; rfl))
  | wait | spurious | exit =>
    have hpc : s.wk w = _ := hg
    refine h.of_outside (by rw [hpc]; rfl) hothers rfl rfl rfl (fun v _ hv => hv) (fun hv => ?_) hmain hsub
    exact absurd hv (hmutex (by rw [hpc]; rfl))
  | _ =>
    obtain ⟨hpc, -⟩ := hg
    refine h.of_outside (by rw [hpc]; rfl) hothers rfl rfl rfl (fun v _ hv => hv) (fun hv => ?_) hmain hsub
    exact absurd hv (hmutex (by rw [hpc]; rfl))

/-! ### The main thread -/

/-- The handler clears `done_signalled` on `EV_TIMEOUT` only when the done queue is empty. -/
def ResetsEmpty (s : State Stage Worker) : Action Stage Worker → Prop
  | .main (.drainReset .timeout) => s.doneRqcb.requestHead = []
  | _ => True

instance (s : State Stage Worker) (a : Action Stage Worker) : Decidable (ResetsEmpty s a) := by
  unfold ResetsEmpty
  induction a using Action.casesOn with
  | main a =>
    induction a using MainAct.casesOn with
    | drainReset ev => induction ev using PipeEvent.casesOn <;> infer_instance
    | _ => infer_instance
  | _ => infer_instance

omit [DecidableEq Stage] [DecidableEq Worker] in
theorem SignalInv.of_main {s s' : State Stage Worker} (h : SignalInv s)
    (hwk : ∀ w, s'.wk w = s.wk w ∨ s'.wk w = .woken ∧ s.wk w = .waiting)
    (hflag : s'.doneSignalled = s.doneSignalled) (hpipe : s'.donePipe = s.donePipe)
    (hqueue : s'.doneRqcb = s.doneRqcb) (hmutex : s'.doneMutex = s.doneMutex)
    (hdrain : draining s.main = true → draining s'.main = true)
    (hcollect : s.doneRqcb.requestHead ≠ [] → collecting s.main = true →
      (∃ w, inDoneStage (s.wk w) = true) ∨ draining s'.main = true ∨ collecting s'.main = true)
    (hnotice : unnoticed s'.sub = true) : SignalInv s' := by
  have hstage : ∀ {w}, inDoneStage (s.wk w) = true → inDoneStage (s'.wk w) = true := fun {w} hw => by
    rw [eq_of_wake inDoneStage rfl (hwk w), hw]
  refine ⟨fun hf => ?_, fun hq => ?_, fun w hw => ?_, hnotice⟩
  · rw [hpipe]
    refine (h.flag (hflag ▸ hf)).imp_right (Or.imp ?_ hdrain)
    rintro ⟨w, hw⟩
    exact ⟨w, by rw [eq_of_wake writing rfl (hwk w), hw]⟩
  · rw [hpipe]
    rcases h.queue (hqueue ▸ hq) with hbyte | ⟨w, hw⟩ | hd | hc
    · exact .inl hbyte
    · exact .inr (.inl ⟨w, hstage hw⟩)
    · exact .inr (.inr (.inl (hdrain hd)))
    · refine .inr ((hcollect (hqueue ▸ hq) hc).imp_left ?_)
      rintro ⟨w, hw⟩
      exact ⟨w, hstage hw⟩
  · rw [eq_of_wake holdsDone rfl (hwk w)]
    exact h.mutex w (hmutex ▸ hw)

variable [Fintype Stage] [Fintype Worker]

theorem signalInv_mainEffect {cfg : Config Stage Worker} {s : State Stage Worker} {a : MainAct Stage Worker}
    (h : SignalInv s) (hev : evicting cfg s (.main a) = false) (hR : ResetsEmpty s (.main a))
    (hg : mainGuard cfg s a) : SignalInv (mainEffect cfg s a) := by
  have hwk := wk_mainEffect hg
  -- no other step touches the signal, the queue or its mutex
  have hsame : (mainPlain cfg s a).doneSignalled = s.doneSignalled → (mainPlain cfg s a).donePipe = s.donePipe →
      (mainPlain cfg s a).doneRqcb = s.doneRqcb → (mainPlain cfg s a).doneMutex = s.doneMutex →
      draining s.main = false ∧ collecting s.main = false ∨ (mainPlain cfg s a).main = s.main →
      unnoticed (mainPlain cfg s a).sub = true → SignalInv (mainEffect cfg s a) := by
    intro hflag hpipe hqueue hmutex hmain hnotice
    rw [← mainEffect_plain cfg s a State.main fun _ => rfl] at hmain
    rw [← mainEffect_plain cfg s a State.sub fun _ => rfl] at hnotice
    refine h.of_main hwk ((mainEffect_plain cfg s a State.doneSignalled fun _ => rfl).trans hflag)
      ((mainEffect_plain cfg s a State.donePipe fun _ => rfl).trans hpipe)
      ((mainEffect_plain cfg s a State.doneRqcb fun _ => rfl).trans hqueue)
      ((mainEffect_plain cfg s a State.doneMutex fun _ => rfl).trans hmutex)
      (fun hd => ?_) (fun _ hc => .inr ?_) hnotice
    · rcases hmain with ⟨hd', -⟩ | hmain
      · rw [hd'] at hd
        cases hd
      · rw [hmain, hd]
    · rcases hmain with ⟨-, hc'⟩ | hmain
      · rw [hc'] at hc
        cases hc
      · exact .inr (hmain ▸ hc)
  have hnotice := h.notice
  cases a with
  | drainRead ev =>
    exact ⟨fun _ => .inr (.inr rfl), fun _ => .inr (.inr (.inl rfl)), h.mutex, hnotice⟩
  | drainReset ev =>
    refine ⟨fun hf => (by cases hf), fun hq => ?_, h.mutex, hnotice⟩
    cases ev with
    | read => exact .inr (.inr (.inr rfl))
    | timeout => exact absurd hR hq
  | take =>
    obtain ⟨hm, -⟩ := hg
    refine ⟨fun hf => ?_, fun hq => absurd rfl hq, h.mutex, hnotice⟩
    refine (h.flag hf).imp_right (Or.imp_right fun hd => ?_)
    rw [hm] at hd
    cases hd
  | takeBusy =>
    obtain ⟨hm, hbusy⟩ := hg
    refine h.of_main hwk rfl rfl rfl rfl (by simp [hm, draining]) (fun _ _ => .inl ?_) hnotice
    -- the owner of the mutex has its test of the flag still to come
    obtain ⟨w, hw⟩ := Option.ne_none_iff_exists'.mp hbusy
    exact ⟨w, inDoneStage_of_holdsDone (h.mutex w hw)⟩
  | kick ev ok ws =>
    obtain ⟨hm, -⟩ := hg
    have hmove := QueueMove.kickRequestQueue cfg ok s
    have hsub : (mainEffect cfg s (.kick ev ok ws)).sub = s.sub := hmove.keeps State.sub fun _ => rfl
    refine h.of_main hwk (hmove.keeps State.doneSignalled fun _ => rfl) (hmove.keeps State.donePipe fun _ => rfl)
      (hmove.keeps State.doneRqcb fun _ => rfl) (hmove.keeps State.doneMutex fun _ => rfl) (by simp [hm, draining])
      (fun _ hc => .inr (.inr ?_)) (hsub ▸ hnotice)
    rw [hm] at hc
    cases ev with
    | read => rfl
    | timeout => cases hc
  | skip ev =>
    obtain ⟨hm, hskip⟩ := hg
    refine h.of_main hwk rfl rfl rfl rfl (by simp [hm, draining]) (fun hq hc => ?_) hnotice
    rcases hskip with hempty | rfl
    · exact absurd hempty hq
    · rw [hm] at hc
      cases hc
  | enter =>
    obtain ⟨hm, -⟩ := hg
    exact h.of_main hwk rfl rfl rfl rfl (by simp [hm, draining]) (fun _ _ => .inr (.inr rfl)) hnotice
  | drainHit ev =>
    obtain ⟨hm, -⟩ := hg
    exact h.of_main hwk rfl rfl rfl rfl (fun _ => rfl) (by simp [hm, collecting]) hnotice
  | drainMiss ev =>
    obtain ⟨hm, -⟩ := hg
    exact h.of_main hwk rfl rfl rfl rfl (by simp [hm, draining]) (by simp [hm, collecting]) hnotice
  | send q p st flags concat =>
    have hev : evicts cfg p st flags concat s = false := hev
    rcases sendLocked_cases cfg q p st flags concat s with
      ⟨s₁, hmove, -, heq⟩ | ⟨s₁, hmove, heq⟩ | ⟨s₁, ev, hmove, -, heq⟩ <;>
    · have hmain := hmove.keeps State.main fun _ => rfl
      have hsub := hmove.keeps State.sub fun _ => rfl
      rw [show mainEffect cfg s (.send q p st flags concat) = _ from heq] at hwk ⊢
      refine h.of_main hwk (hmove.keeps State.doneSignalled fun _ => rfl) (hmove.keeps State.donePipe fun _ => rfl)
        (hmove.keeps State.doneRqcb fun _ => rfl) (hmove.keeps State.doneMutex fun _ => rfl) (hmain ▸ id)
        (fun _ hc => .inr (.inr (hmain ▸ hc))) ?_
      first
        | rfl
        | exact hsub ▸ hnotice
        | simp [setMutex, unnoticed, hev]
  | noticeSkip | noticeClear =>
    rw [hg.1] at hnotice
    cases hnotice
  | noticeSet | noticeWrite =>
    have hsub : s.sub = _ := hg
    rw [hsub] at hnotice
    cases hnotice
  | count q p st notice ws =>
    rw [hg.1] at hnotice
    refine hsame rfl rfl rfl rfl (.inr rfl) ?_
    cases notice with
    | false => rfl
    | true => cases hnotice
  | accept | writable | idleTimeout | sendBack | refuse => exact hsame rfl rfl rfl rfl (.inr rfl) hnotice
  | submit | buffer | countBuffered | returnTid => exact hsame rfl rfl rfl rfl (.inr rfl) rfl
  | datagram | finish | dispose | broadcast | broadcastEnd =>
    have hm : s.main = _ := hg
    exact hsame rfl rfl rfl rfl (.inl (by rw [hm]; exact ⟨rfl, rfl⟩)) hnotice
  | _ =>
    obtain ⟨hm, -⟩ := hg
    exact hsame rfl rfl rfl rfl (.inl (by rw [hm]; exact ⟨rfl, rfl⟩)) hnotice

theorem signalInv_step {cfg : Config Stage Worker} {s s' : State Stage Worker} {a : Action Stage Worker}
    (h : SignalInv s) (hev : evicting cfg s a = false) (hR : ResetsEmpty s a) (hs : step cfg s a = some s') :
    SignalInv s' := by
  obtain ⟨-, hg, rfl⟩ := step_eq_some hs
  cases a with
  | worker w a => exact signalInv_workerEffect h hg
  | main a => exact signalInv_mainEffect h hev hR hg
  | signals a =>
    have hwk := wk_signalEffect hg
    have hmain := signalEffect_keeps cfg s a State.main fun _ => rfl
    have hsub := signalEffect_keeps cfg s a State.sub fun _ => rfl
    exact h.of_main hwk (signalEffect_keeps cfg s a State.doneSignalled fun _ => rfl)
      (signalEffect_keeps cfg s a State.donePipe fun _ => rfl) (signalEffect_keeps cfg s a State.doneRqcb fun _ => rfl)
      (signalEffect_keeps cfg s a State.doneMutex fun _ => rfl) (hmain ▸ id) (fun _ hc => .inr (.inr (hmain ▸ hc)))
      (hsub ▸ h.notice)
  | tick | cancel => exact ⟨h.flag, h.queue, h.mutex, h.notice⟩

/-- The steps that copy no request, evict none, and clear the flag on `EV_TIMEOUT` only when the done queue is
empty. A request that a handler passes on past the loop limit is linked into the done queue and into a stage at
once, and the next request of that stage hangs itself on the done queue. -/
def SignalKept (cfg : Config Stage Worker) (s : State Stage Worker) (a : Action Stage Worker) : Prop :=
  Regular s a ∧ evicting cfg s a = false ∧ ResetsEmpty s a

instance (cfg : Config Stage Worker) (s : State Stage Worker) (a : Action Stage Worker) :
    Decidable (SignalKept cfg s a) := inferInstanceAs (Decidable (_ ∧ _))

/-- **No lost completion.** In every run without evictions in which no handler passes on a request past the loop limit
and `done_requests_handler` clears the flag on `EV_TIMEOUT` only when the done queue is empty, in every state in which
the main thread is idle and no worker is in `to_done_stage`, a non-empty done queue means an unread byte in the done
pipe. -/
theorem no_lost_completion (cfg : Config Stage Worker) {s : State Stage Worker}
    (h : Reachable cfg (fun s a _ => SignalKept cfg s a) s) (hidle : s.main = .loop)
    (hworkers : ∀ w, inDoneStage (s.wk w) = false) (hqueue : s.doneRqcb.requestHead ≠ []) : 0 < s.donePipe := by
  have hinv : SignalInv s := h.invariant signalInv_init fun _ _ _ hI hr hs => signalInv_step hI hr.2.1 hr.2.2 hs
  rcases hinv.queue hqueue with hbyte | ⟨w, hw⟩ | hd | hc
  · exact hbyte
  · rw [hworkers w] at hw
    cases hw
  · rw [hidle] at hd
    cases hd
  · rw [hidle] at hc
    cases hc

/-- The handler runs on `EV_TIMEOUT` before anything is done, and then a request completes. -/
theorem no_lost_completion_run :
    ∃ s, Reachable (oneStage 8 0) (fun s a _ => SignalKept (oneStage 8 0) s a) s ∧
      s.main = .loop ∧ s.doneRqcb.requestHead = [0] ∧ 0 < s.donePipe := by
  obtain ⟨s, hs, hmain, hwk, hqueue⟩ := exists_reachable (oneStage 8 0)
    (fun s a _ => SignalKept (oneStage 8 0) s a)
    ([.main (.event .timeout), .main (.drainMiss .timeout), .main (.kick .timeout (fun _ => true) fun _ => []),
      .main (.skip .timeout), .main .accept, .main (.readable 0)] ++ submitSteps 0 0 ++ [.main (.readBlocked 0)] ++
      handleSteps 0 [] 0 ++ doneSteps 0)
    (P := fun s => s.main = .loop ∧ s.wk 0 = .top ∧ s.doneRqcb.requestHead = [0]) (by decide +kernel)
  refine ⟨s, hs, hmain, hqueue, no_lost_completion (oneStage 8 0) hs hmain (fun w => ?_) (by simp [hqueue])⟩
  rw [Subsingleton.elim w 0, hwk]
  rfl

/-- The handler is called on `EV_TIMEOUT` when a request is done: it reads the byte, clears the flag and leaves
the request on the done queue. -/
theorem completion_lost :
    ∃ s, Reachable (oneStage 8 0) (fun s a _ => Regular s a ∧ evicting (oneStage 8 0) s a = false) s ∧ s.main = .loop ∧
      (∀ w, inDoneStage (s.wk w) = false) ∧ s.doneRqcb.requestHead ≠ [] ∧ s.donePipe = 0 :=
  exists_reachable (oneStage 8 0) (fun s a _ => Regular s a ∧ evicting (oneStage 8 0) s a = false)
    ([.main .accept, .main (.readable 0)] ++ submitSteps 0 0 ++ [.main (.readBlocked 0)] ++ handleSteps 0 [] 0 ++
      doneSteps 0 ++ [.main (.event .timeout), .main (.drainHit .timeout), .main (.drainRead .timeout),
      .main (.drainReset .timeout), .main (.kick .timeout (fun _ => true) fun _ => []), .main (.skip .timeout)])
    (by decide +kernel)

end Csf
