import Csf.Pipeline.Lengths
import Csf.System.Flow

/-!
# The queues and their counters along a run

The main thread links a request under the mutex of the first stage and counts it under the same mutex, so a
stage whose mutex is free has an exact counter (`counted_step`, `owned_step`). The active list belongs to the
main thread alone: as long as the signal thread does not run `kick_request_queue`, it agrees with the temporary
queues whenever `send_to_pipeline` is not about to link the pipeline (`active_step`).
-/

namespace Csf

open Lib

variable {Stage Worker : Type}

/-! ### Counters -/

section
variable [DecidableEq Stage]

/-- How far the counter of each stage is behind: `send_to_pipeline` has linked a request and not counted it. -/
def uncounted : SubmitPc Stage → Stage → UInt32
  | .inserted _ _ st _ => Function.update (fun _ => 0) st 1
  | _ => fun _ => 0

omit [DecidableEq Stage] in
theorem Counted.of_same {off : Stage → UInt32} {s s' : State Stage Worker} (h : Counted off s)
    (hrqcb : s'.rqcb = s.rqcb) (hpcb : s'.pcb = s.pcb) (hdone : s'.doneRqcb = s.doneRqcb) : Counted off s' := by
  refine ⟨?_, ?_, ?_⟩
  · rw [hrqcb]
    exact h.stage
  · rw [hpcb]
    exact h.tmp
  · rw [hdone]
    exact h.done

variable [DecidableEq Worker]

theorem counted_workerEffect {cfg : Config Stage Worker} {off : Stage → UInt32} {s : State Stage Worker} {w : Worker}
    {a : WorkerAct Stage Worker} (h : Counted off s) (hg : workerGuard cfg s w a) :
    Counted off (workerEffect cfg s w a) := by
  cases a with
  | dequeue r rest => exact ⟨h.setRqcb ((h.stage _).tail hg.2.1), h.tmp, h.done⟩
  | forward r st rest ws => exact ⟨h.setRqcb ((h.stage st).append [r]), h.tmp, h.done⟩
  | doneInsert r rest => exact ⟨h.stage, h.tmp, h.done.append [r]⟩
  | handle r cl calls ret errno =>
    have hoff := offConns_touchCsp r (handled cfg w r calls ret errno s)
    exact h.of_same (keeps_of_offConns hoff State.rqcb fun _ => rfl) (keeps_of_offConns hoff State.pcb fun _ => rfl)
      (keeps_of_offConns hoff State.doneRqcb fun _ => rfl)
  | doneWrite r rest =>
    exact h.of_same (writeByte_keeps cfg cfg.doneFd _ State.rqcb fun _ _ => rfl)
      (writeByte_keeps cfg cfg.doneFd _ State.pcb fun _ _ => rfl)
      (writeByte_keeps cfg cfg.doneFd _ State.doneRqcb fun _ _ => rfl)
  | _ => exact ⟨h.stage, h.tmp, h.done⟩

variable [Fintype Stage] [Fintype Worker]

theorem counted_sendLocked {cfg : Config Stage Worker} {s : State Stage Worker} {r : Nat} {p : Pipeline} {st : Stage}
    {flags : UInt32} {concat : Bool} (h : Counted (uncounted s.sub) s) (hsub : s.sub = .checked r p st flags concat) :
    Counted (uncounted (sendLocked cfg r p st flags concat s).sub) (sendLocked cfg r p st flags concat s) := by
  rw [hsub] at h
  have hsend := h.sendToPipeline cfg p st r flags concat
  have hkeep := (QueueMove.sendToPipeline cfg p st r flags concat s)
  have hsame : (sendToPipeline cfg p st r flags concat s).1.sub = s.sub := by
    rcases hkeep with ⟨hmove, -⟩ | ⟨ev, notice, -, hmove, -⟩ <;> exact hmove.keeps State.sub fun _ => rfl
  unfold sendLocked
  generalize sendToPipeline cfg p st r flags concat s = out at hsend hsame ⊢
  obtain ⟨s₁, res⟩ := out
  rcases hsend with ⟨hcounted, hres | hres⟩ | ⟨hcounted, notice, hres⟩ <;> obtain rfl : res = _ := hres
  · exact hcounted.of_same rfl rfl rfl
  · simp only at hsame ⊢
    rw [hsame, hsub]
    exact hcounted.of_same rfl rfl rfl
  · exact hcounted.of_same rfl rfl rfl

theorem counted_mainEffect {cfg : Config Stage Worker} {s : State Stage Worker} {a : MainAct Stage Worker}
    (h : Counted (uncounted s.sub) s) (hg : mainGuard cfg s a) :
    Counted (uncounted (mainEffect cfg s a).sub) (mainEffect cfg s a) := by
  rw [mainEffect_plain cfg s a State.sub fun _ => rfl]
  suffices hplain : Counted (uncounted (mainPlain cfg s a).sub) (mainPlain cfg s a) from
    hplain.of_same (mainEffect_plain cfg s a State.rqcb fun _ => rfl) (mainEffect_plain cfg s a State.pcb fun _ => rfl)
      (mainEffect_plain cfg s a State.doneRqcb fun _ => rfl)
  cases a with
  | send r p st flags concat => exact counted_sendLocked h hg.1
  | submit args p st =>
    rw [hg.2.1] at h
    exact ⟨h.stage, h.tmp, h.done⟩
  | buffer r p st flags concat =>
    have hsub : s.sub = _ := hg
    rw [hsub] at h
    refine ⟨h.stage, ?_, h.done⟩
    refine (Function.forall_update_iff s.pcb fun _ b => b.Exact).mpr ⟨?_, fun q _ => h.tmp q⟩
    have htmp : (s.pcb p).tmpQueueLen = _ := h.tmp p
    simp only [Pcb.Exact, htmp, List.length_append, List.length_singleton, UInt32.ofNat_add]
    rfl
  | count r p st notice ws =>
    rw [hg.1] at h
    have hoff : uncounted (mainPlain cfg s (.count r p st notice ws)).sub = fun _ => 0 := by
      cases notice <;> rfl
    rw [hoff]
    refine ⟨fun st' => ?_, h.tmp, h.done⟩
    have hbehind := h.stage st'
    by_cases hst : st' = st
    · subst hst
      simp only [uncounted, Function.update_self, Rqcb.Behind] at hbehind
      simpa [mainPlain, mainEffect, setMutex, countInserted, Rqcb.Behind] using hbehind
    · simp only [uncounted, Function.update_of_ne hst] at hbehind
      simpa [mainPlain, mainEffect, setMutex, countInserted, Function.update_of_ne hst] using hbehind
  | countBuffered r p =>
    have hsub : s.sub = _ := hg
    rw [hsub] at h
    exact ⟨h.stage, (Function.forall_update_iff s.pcb fun _ b => b.Exact).mpr ⟨h.tmp p, fun q _ => h.tmp q⟩, h.done⟩
  | noticeSet | noticeWrite =>
    have hsub : s.sub = _ := hg
    rw [hsub] at h
    exact ⟨h.stage, h.tmp, h.done⟩
  | noticeSkip | noticeClear =>
    rw [hg.1] at h
    exact ⟨h.stage, h.tmp, h.done⟩
  | returnTid r p =>
    have hsub : s.sub = _ := hg
    rw [hsub] at h
    exact ⟨h.stage, (Function.forall_update_iff s.pcb fun _ b => b.Exact).mpr ⟨h.tmp p, fun q _ => h.tmp q⟩, h.done⟩
  | kick ev ok ws =>
    have hsub : (mainPlain cfg s (.kick ev ok ws)).sub = s.sub :=
      (QueueMove.kickRequestQueue cfg ok s).keeps State.sub fun _ => rfl
    rw [hsub]
    exact (h.kickRequestQueue cfg ok).of_same rfl rfl rfl
  | take => exact ⟨h.stage, h.tmp, rfl⟩
  | _ => exact ⟨h.stage, h.tmp, h.done⟩

theorem counted_step {cfg : Config Stage Worker} {s s' : State Stage Worker} {a : Action Stage Worker}
    (h : Counted (uncounted s.sub) s) (hs : step cfg s a = some s') : Counted (uncounted s'.sub) s' := by
  obtain ⟨-, hg, rfl⟩ := step_eq_some hs
  cases a with
  | worker w a =>
    rw [effect, workerEffect_keeps cfg s w a State.sub fun _ => rfl]
    exact counted_workerEffect h hg
  | main a => exact counted_mainEffect h hg
  | signals a =>
    rw [effect, signalEffect_keeps cfg s a State.sub fun _ => rfl]
    cases a with
    | kick ok ws => exact (h.kickRequestQueue cfg ok).of_same rfl rfl rfl
    | _ => exact ⟨h.stage, h.tmp, h.done⟩
  | tick | cancel => exact ⟨h.stage, h.tmp, h.done⟩

omit [DecidableEq Worker] [Fintype Stage] in
theorem counted_init : Counted (uncounted (State.init : State Stage Worker).sub) (State.init : State Stage Worker) :=
  ⟨fun _ => rfl, fun _ => rfl, rfl⟩

end

/-! ### Mutexes -/

/-- The worker holds the mutex of its stage between two steps. -/
def holdsMutex : WorkerPc Stage → Bool
  | .locked | .aboutToWait => true
  | _ => false

/-- The main thread between the insertion and the count, and the workers inside their critical section own the
mutex. -/
structure Owned (cfg : Config Stage Worker) (s : State Stage Worker) : Prop where
  main : ∀ r p st n, s.sub = .inserted r p st n → s.mutex st = some .main
  worker : ∀ w, holdsMutex (s.wk w) = true → s.mutex (cfg.rqcb w) = some (.worker w)

theorem Owned.of_same {cfg : Config Stage Worker} {s s' : State Stage Worker} (h : Owned cfg s)
    (hmutex : s'.mutex = s.mutex)
    (hmain : ∀ r p st n, s'.sub = .inserted r p st n → s.sub = .inserted r p st n)
    (hwk : ∀ w, holdsMutex (s'.wk w) = true → holdsMutex (s.wk w) = true) : Owned cfg s' := by
  refine ⟨fun r p st n hsub => ?_, fun w hw => ?_⟩
  · rw [hmutex]
    exact h.main r p st n (hmain r p st n hsub)
  · rw [hmutex]
    exact h.worker w (hwk w hw)

theorem owned_init [Fintype Worker] (cfg : Config Stage Worker) : Owned cfg (State.init : State Stage Worker) :=
  ⟨fun _ _ _ _ h => (by cases h), fun _ h => (by cases h)⟩

section
variable [DecidableEq Stage] [DecidableEq Worker]

theorem Owned.lock {cfg : Config Stage Worker} {s s' : State Stage Worker} (h : Owned cfg s) {w : Worker}
    (hfree : s.mutex (cfg.rqcb w) = none) (hsub : s'.sub = s.sub)
    (hmutex : s'.mutex = Function.update s.mutex (cfg.rqcb w) (some (.worker w)))
    (hwk : ∀ v, v ≠ w → s'.wk v = s.wk v) : Owned cfg s' := by
  refine ⟨fun r p st n hin => ?_, fun v hv => ?_⟩
  · have hown := h.main r p st n (hsub ▸ hin)
    have hne : st ≠ cfg.rqcb w := by
      rintro rfl
      rw [hown] at hfree
      cases hfree
    rw [hmutex, Function.update_of_ne hne]
    exact hown
  · by_cases hvw : v = w
    · rw [hmutex, hvw, Function.update_self]
    · have hown := h.worker v (hwk v hvw ▸ hv)
      have hne : cfg.rqcb v ≠ cfg.rqcb w := by
        intro heq
        rw [heq, hfree] at hown
        cases hown
      rw [hmutex, Function.update_of_ne hne]
      exact hown

omit [DecidableEq Worker] in
theorem Owned.unlock {cfg : Config Stage Worker} {s s' : State Stage Worker} (h : Owned cfg s) {w : Worker}
    (hhold : holdsMutex (s.wk w) = true) (hsub : s'.sub = s.sub)
    (hmutex : s'.mutex = Function.update s.mutex (cfg.rqcb w) none) (hwk : ∀ v, v ≠ w → s'.wk v = s.wk v)
    (hw : holdsMutex (s'.wk w) = false) : Owned cfg s' := by
  have hmine := h.worker w hhold
  refine ⟨fun r p st n hin => ?_, fun v hv => ?_⟩
  · have hown := h.main r p st n (hsub ▸ hin)
    have hne : st ≠ cfg.rqcb w := by
      rintro rfl
      rw [hown] at hmine
      cases hmine
    rw [hmutex, Function.update_of_ne hne]
    exact hown
  · have hvw : v ≠ w := by
      rintro rfl
      rw [hw] at hv
      cases hv
    have hown := h.worker v (hwk v hvw ▸ hv)
    have hne : cfg.rqcb v ≠ cfg.rqcb w := by
      intro heq
      rw [heq, hmine] at hown
      exact hvw (by simpa using hown.symm)
    rw [hmutex, Function.update_of_ne hne]
    exact hown

theorem owned_workerEffect {cfg : Config Stage Worker} {s : State Stage Worker} {w : Worker}
    {a : WorkerAct Stage Worker} (h : Owned cfg s) (hg : workerGuard cfg s w a) :
    Owned cfg (workerEffect cfg s w a) := by
  -- the worker itself ends up outside of its critical section, the other ones at most wake
  have hleave : (workerEffect cfg s w a).mutex = s.mutex → holdsMutex ((workerEffect cfg s w a).wk w) = false →
      Owned cfg (workerEffect cfg s w a) := by
    intro hmutex hw
    have hsub := workerEffect_keeps cfg s w a State.sub fun _ => rfl
    apply h.of_same hmutex
    · rw [hsub]
      exact fun _ _ _ _ hin => hin
    · intro v hv
      have hvw : v ≠ w := by
        rintro rfl
        rw [hw] at hv
        cases hv
      rw [← eq_of_wake holdsMutex rfl (wk_workerEffect hg hvw)]
      exact hv
  have hother : ∀ pc v, v ≠ w → Function.update s.wk w pc v = s.wk v := fun pc v hv => Function.update_of_ne hv _ _
  have hresume : ∀ (r : Nat) (rest : List (Dest Stage)), holdsMutex (resume r rest) = false := by
    intro r rest
    cases rest <;> rfl
  cases a with
  | lock => exact h.lock hg.2 rfl rfl (hother _)
  | retry => exact h.lock hg.2.1 rfl rfl (hother _)
  | empty =>
    refine h.of_same rfl (fun _ _ _ _ hin => hin) ?_
    intro v hv
    by_cases hvw : v = w
    · rw [hvw, hg.1]
      rfl
    · simpa [workerEffect, setWk, hvw] using hv
  | wait =>
    have hpc : s.wk w = .aboutToWait := hg
    exact h.unlock (by rw [hpc]; rfl) rfl rfl (hother _) (by simp [workerEffect, setWk, holdsMutex])
  | delay r => exact h.unlock (by rw [hg.1]; rfl) rfl rfl (hother _) (by simp [workerEffect, setWk, holdsMutex])
  | dequeue r rest =>
    exact h.unlock (by rw [hg.1]; rfl) rfl rfl (hother _) (by simp [workerEffect, setWk, holdsMutex])
  | handle r cl calls ret errno =>
    have hoff := offConns_touchCsp r (handled cfg w r calls ret errno s)
    apply hleave (keeps_of_offConns hoff State.mutex fun _ => rfl)
    rw [show (workerEffect cfg s w (.handle r cl calls ret errno)).wk = _ from
      keeps_of_offConns hoff State.wk fun _ => rfl]
    simp [handled, setWk, holdsMutex]
  | doneWrite r rest =>
    apply hleave (writeByte_keeps cfg cfg.doneFd _ State.mutex fun _ _ => rfl)
    rw [show (workerEffect cfg s w (.doneWrite r rest)).wk = _ from
      writeByte_keeps cfg cfg.doneFd _ State.wk fun _ _ => rfl]
    simp [setWk, hresume]
  | forward r st rest ws => exact hleave rfl (by simp [workerEffect, setWk, hresume])
  | doneSkip r rest => exact hleave rfl (by simp [workerEffect, setWk, hresume])
  | _ => exact hleave rfl (by simp [workerEffect, setWk, holdsMutex])

variable [Fintype Stage] [Fintype Worker]

theorem owned_mainEffect {cfg : Config Stage Worker} {s : State Stage Worker} {a : MainAct Stage Worker}
    (h : Owned cfg s) (hg : mainGuard cfg s a) : Owned cfg (mainEffect cfg s a) := by
  have hwk : ∀ w, holdsMutex ((mainEffect cfg s a).wk w) = true → holdsMutex (s.wk w) = true := by
    intro w hw
    rw [← eq_of_wake holdsMutex rfl (wk_mainEffect hg w)]
    exact hw
  have hmutex := mainEffect_plain cfg s a State.mutex fun _ => rfl
  have hsub := mainEffect_plain cfg s a State.sub fun _ => rfl
  -- the steps that leave the mutexes alone do not link a request under a lock
  have hquiet : (mainPlain cfg s a).mutex = s.mutex →
      ((mainPlain cfg s a).sub = s.sub ∨ ∀ r p st n, (mainPlain cfg s a).sub ≠ .inserted r p st n) →
      Owned cfg (mainEffect cfg s a) := by
    intro hm hs
    refine h.of_same (hmutex.trans hm) (fun r p st n hin => ?_) hwk
    rw [hsub] at hin
    rcases hs with hs | hs
    · exact hs ▸ hin
    · exact absurd hin (hs r p st n)
  cases a with
  | send r p st flags concat =>
    rcases sendLocked_cases cfg r p st flags concat s with
      ⟨s₁, hmove, -, heq⟩ | ⟨s₁, hmove, heq⟩ | ⟨s₁, ev, hmove, -, heq⟩
    · have hnone : (mainPlain cfg s (.send r p st flags concat)).sub = .none := congrArg State.sub heq
      apply hquiet
      · exact (congrArg State.mutex heq).trans (hmove.keeps State.mutex fun _ => rfl)
      · exact .inr (by simp [hnone])
    · apply hquiet
      · exact (congrArg State.mutex heq).trans (hmove.keeps State.mutex fun _ => rfl)
      · exact .inl ((congrArg State.sub heq).trans (hmove.keeps State.sub fun _ => rfl))
    · have hm : (mainEffect cfg s (.send r p st flags concat)).mutex = Function.update s.mutex st (some .main) := by
        rw [mainEffect, heq, setMutex, hmove.keeps State.mutex fun _ => rfl]
      refine ⟨fun r' p' st' n' hin => ?_, fun w hw => ?_⟩
      · rw [mainEffect, heq] at hin
        obtain ⟨rfl, rfl, rfl, rfl⟩ : r = r' ∧ p = p' ∧ st = st' ∧ evicts cfg p st flags concat s = n' := by
          simpa [setMutex] using hin
        rw [hm, Function.update_self]
      · have hown := h.worker w (hwk w hw)
        have hne : cfg.rqcb w ≠ st := by
          rintro rfl
          rw [hg.2] at hown
          cases hown
        rw [hm, Function.update_of_ne hne]
        exact hown
  | count r p st notice ws =>
    have hmine := h.main r p st notice hg.1
    refine ⟨fun r' p' st' n' hin => ?_, fun w hw => ?_⟩
    · cases notice <;> simp [mainEffect, setMutex] at hin
    · have hown := h.worker w (hwk w hw)
      have hne : cfg.rqcb w ≠ st := by
        rintro rfl
        rw [hmine] at hown
        cases hown
      simp only [mainEffect, setMutex, Function.update_of_ne hne]
      exact hown
  | kick ev ok ws =>
    have hmove := QueueMove.kickRequestQueue cfg ok s
    exact hquiet (hmove.keeps State.mutex fun _ => rfl) (.inl (hmove.keeps State.sub fun _ => rfl))
  | submit | buffer | countBuffered | noticeSkip | noticeClear | noticeSet | noticeWrite | returnTid =>
    exact hquiet rfl (.inr (by simp [mainPlain, mainEffect, preparedPlain]))
  | _ => exact hquiet rfl (.inl rfl)

theorem owned_step {cfg : Config Stage Worker} {s s' : State Stage Worker} {a : Action Stage Worker}
    (h : Owned cfg s) (hs : step cfg s a = some s') : Owned cfg s' := by
  obtain ⟨-, hg, rfl⟩ := step_eq_some hs
  cases a with
  | worker w a => exact owned_workerEffect h hg
  | main a => exact owned_mainEffect h hg
  | signals a =>
    have hsub := signalEffect_keeps cfg s a State.sub fun _ => rfl
    refine h.of_same (signalEffect_keeps cfg s a State.mutex fun _ => rfl) (fun r p st n hin => ?_) fun w hw => ?_
    · exact hsub ▸ hin
    · rw [← eq_of_wake holdsMutex rfl (wk_signalEffect hg w)]
      exact hw
  | tick | cancel => exact ⟨h.main, h.worker⟩

end

/-! ### The active list -/

def kicksInSignal : Action Stage Worker → Bool
  | .signals (.kick _ _) => true
  | _ => false

/-- The state in which `send_to_pipeline` has linked the pipeline of the request it buffered. -/
def linkBuffered (s : State Stage Worker) : State Stage Worker :=
  match s.sub with
  | .buffered r p => countBuffered p r s
  | _ => s

theorem Active.link {s s' : State Stage Worker} (h : Active s) {p : Pipeline} {b : Pcb}
    (hentry : b.activeQueueEntry = true) (htmp : b.tmpRequestHead ≠ [])
    (hapq : s'.apq = if (s.pcb p).activeQueueEntry then s.apq else s.apq ++ [p])
    (hpcb : s'.pcb = Function.update s.pcb p b) : Active s' := by
  have hmem : ∀ q, q ∈ s'.apq ↔ q ∈ s.apq ∨ q = p := by
    intro q
    rw [hapq]
    split_ifs with he
    · exact ⟨.inl, fun hq => hq.elim id fun hq => hq ▸ (h.linked p).mpr he⟩
    · simp
  refine ⟨?_, fun q => ?_, fun q => ?_⟩
  · rw [hapq]
    split_ifs with he
    · exact h.nodup
    · refine List.Nodup.append h.nodup (List.nodup_singleton p) ?_
      intro q hq hqp
      rw [List.mem_singleton] at hqp
      exact he ((h.linked p).mp (hqp ▸ hq))
  · rw [hmem, hpcb]
    by_cases hq : q = p
    · subst hq
      simp [hentry]
    · simp [hq, h.linked]
  · rw [hpcb]
    by_cases hq : q = p
    · subst hq
      simp [hentry, htmp]
    · simp [hq, h.buffered]

theorem linkBuffered_of_same {s s' : State Stage Worker} (h : Active (linkBuffered s)) (hsub : s'.sub = s.sub)
    (hapq : s'.apq = s.apq) (hpcb : s'.pcb = s.pcb) : Active (linkBuffered s') := by
  apply h.of_same <;> unfold linkBuffered <;> rw [hsub] <;> split <;> simp only [countBuffered, hapq, hpcb]

variable [DecidableEq Stage] [DecidableEq Worker] [Fintype Stage] [Fintype Worker]

theorem active_mainEffect {cfg : Config Stage Worker} {s : State Stage Worker} {a : MainAct Stage Worker}
    (h : Active (linkBuffered s)) (hcall : s.sub ≠ .none → inCallback s.main = true) (hg : mainGuard cfg s a) :
    Active (linkBuffered (mainEffect cfg s a)) := by
  suffices hplain : Active (linkBuffered (mainPlain cfg s a)) from
    linkBuffered_of_same hplain (mainEffect_plain cfg s a State.sub fun _ => rfl)
      (mainEffect_plain cfg s a State.apq fun _ => rfl) (mainEffect_plain cfg s a State.pcb fun _ => rfl)
  -- outside of a callback the main thread is not inside `submit_request`
  have hout : ∀ {m}, s.main = m → inCallback m = false → s.sub = .none := by
    intro m hm hf
    by_contra hne
    rw [hm, hf] at hcall
    cases hcall hne
  have hself : (∀ r p, s.sub ≠ .buffered r p) → Active s := by
    intro hnot
    unfold linkBuffered at h
    split at h
    · rename_i r p hsub
      exact absurd hsub (hnot r p)
    · exact h
  cases a with
  | send r p st flags concat =>
    have hs : Active s := hself (by simp [hg.1])
    have hsend := hs.sendToPipeline cfg p st r flags concat
    have hmove := QueueMove.sendToPipeline cfg p st r flags concat s
    have hsub : (sendToPipeline cfg p st r flags concat s).1.sub = s.sub := by
      rcases hmove with ⟨hmove, -⟩ | ⟨ev, notice, -, hmove, -⟩ <;> exact hmove.keeps State.sub fun _ => rfl
    simp only [mainPlain, mainEffect, sendLocked]
    generalize sendToPipeline cfg p st r flags concat s = out at hsend hsub ⊢
    obtain ⟨s₁, res⟩ := out
    cases res with
    | full => exact hsend.of_same rfl rfl
    | nullHead =>
      simp only at hsub
      simp only [linkBuffered, hsub, hg.1]
      exact hsend.of_same rfl rfl
    | linked notice => exact hsend.of_same rfl rfl
  | buffer r p st flags concat =>
    have hsub : s.sub = .checked r p st flags concat := hg
    have hs : Active s := hself (by simp [hsub])
    refine hs.link (p := p) (b := { (bufferTmp p r s).pcb p with activeQueueEntry := true }) rfl ?_ ?_ ?_
    · simp [bufferTmp]
    · simp [mainPlain, mainEffect, linkBuffered, countBuffered, bufferTmp]
    · simp [mainPlain, mainEffect, linkBuffered, countBuffered, bufferTmp]
  | countBuffered r p =>
    have hsub : s.sub = .buffered r p := hg
    rw [linkBuffered, hsub] at h
    exact h.of_same rfl rfl
  | count r p st notice ws =>
    have hs : Active s := hself (by simp [hg.1])
    cases notice <;> exact hs.of_same rfl rfl
  | submit args p st =>
    have hs : Active s := hself (by simp [hg.2.1])
    exact hs.of_same rfl rfl
  | noticeSkip | noticeClear =>
    have hs : Active s := hself (by simp [hg.1])
    exact hs.of_same rfl rfl
  | noticeSet | noticeWrite =>
    have hsub : s.sub = _ := hg
    have hs : Active s := hself (by simp [hsub])
    exact hs.of_same rfl rfl
  | returnTid r p =>
    have hsub : s.sub = .sent r p := hg
    have hs : Active s := hself (by simp [hsub])
    refine hs.of_fields rfl fun q => ?_
    by_cases hq : q = p
    · subst hq
      simp [mainPlain, mainEffect, linkBuffered]
    · simp [mainPlain, mainEffect, linkBuffered, hq]
  | kick ev ok ws =>
    have hnone := hout hg.1 rfl
    have hs : Active s := hself (by simp [hnone])
    have hsub : (kickRequestQueue cfg ok s).sub = s.sub :=
      (QueueMove.kickRequestQueue cfg ok s).keeps State.sub fun _ => rfl
    simp only [mainPlain, mainEffect, kickAll, linkBuffered, hsub, hnone]
    exact (hs.kickRequestQueue cfg ok).of_same rfl rfl
  | _ => exact linkBuffered_of_same h rfl rfl rfl

theorem active_step {cfg : Config Stage Worker} {s s' : State Stage Worker} {a : Action Stage Worker}
    (h : Active (linkBuffered s)) (hcall : s.sub ≠ .none → inCallback s.main = true) (ha : kicksInSignal a = false)
    (hs : step cfg s a = some s') : Active (linkBuffered s') := by
  obtain ⟨-, hg, rfl⟩ := step_eq_some hs
  cases a with
  | worker w a =>
    exact linkBuffered_of_same h (workerEffect_keeps cfg s w a State.sub fun _ => rfl)
      (workerEffect_keeps cfg s w a State.apq fun _ => rfl) (workerEffect_keeps cfg s w a State.pcb fun _ => rfl)
  | main a => exact active_mainEffect h hcall hg
  | signals a =>
    cases a with
    | kick ok ws => simp [kicksInSignal] at ha
    | _ => exact linkBuffered_of_same h rfl rfl rfl
  | tick | cancel => exact linkBuffered_of_same h rfl rfl rfl

/-! ### The representation -/

/-- What the counters, the mutexes and the active list satisfy in every state of a run. -/
structure RepInv (cfg : Config Stage Worker) (s : State Stage Worker) : Prop where
  counted : Counted (uncounted s.sub) s
  owned : Owned cfg s
  callback : s.sub ≠ .none → inCallback s.main = true
  active : Active (linkBuffered s)

theorem repInv {cfg : Config Stage Worker} {s : State Stage Worker}
    (h : Reachable cfg (fun _ a _ => kicksInSignal a = false) s) : RepInv cfg s := by
  refine h.invariant (I := RepInv cfg) ?_ ?_
  · refine ⟨counted_init, ⟨by simp [State.init], by simp [State.init, holdsMutex]⟩, by simp [State.init], ?_⟩
    exact ⟨List.nodup_nil, by simp [linkBuffered, State.init], by simp [linkBuffered, State.init]⟩
  · intro s a s' hI ha hs
    exact ⟨counted_step hI.counted hs, owned_step hI.owned hs, callback_step hI.callback hs,
      active_step hI.active hI.callback ha hs⟩

/-- **Queue representation.** In every run in which only the main thread kicks the overflow queues: a stage whose
mutex is free and the done queue while its mutex is free carry their length, and so does every temporary queue;
and unless `send_to_pipeline` is just about to link the pipeline, `apq` holds it exactly once if it has buffered
requests and not at all otherwise, as the marker of its entry says. -/
theorem queue_representation (cfg : Config Stage Worker) {s : State Stage Worker}
    (h : Reachable cfg (fun _ a _ => kicksInSignal a = false) s) :
    (∀ st, s.mutex st = none → (s.rqcb st).requestHead.length < 2 ^ 32 →
      (s.rqcb st).queueLen.toNat = (s.rqcb st).requestHead.length) ∧
    (s.doneMutex = none → s.doneRqcb.requestHead.length < 2 ^ 32 →
      s.doneRqcb.queueLen.toNat = s.doneRqcb.requestHead.length) ∧
    (∀ p, (s.pcb p).tmpRequestHead.length < 2 ^ 32 →
      (s.pcb p).tmpQueueLen.toNat = (s.pcb p).tmpRequestHead.length) ∧
    ∀ p, (∀ r, s.sub ≠ .buffered r p) →
      s.apq.count p = (if (s.pcb p).tmpRequestHead = [] then 0 else 1) ∧
      ((s.pcb p).activeQueueEntry = true ↔ (s.pcb p).tmpRequestHead ≠ []) := by
  have hI := repInv h
  refine ⟨fun st hfree hlen => ?_, fun _ hlen => ?_, fun p hlen => toNat_of_eq_ofNat (hI.counted.tmp p) hlen,
    fun p hsettled => ?_⟩
  · have hzero : uncounted s.sub st = 0 := by
      cases hsub : s.sub with
      | inserted r p st' n =>
        have hne : st ≠ st' := by
          rintro rfl
          rw [hI.owned.main r p st n hsub] at hfree
          cases hfree
        rw [uncounted, Function.update_of_ne hne]
      | _ => rfl
    have hstage := hI.counted.stage st
    rw [hzero, Rqcb.Behind, UInt32.add_zero] at hstage
    exact toNat_of_eq_ofNat hstage hlen
  · have hdone := hI.counted.done
    rw [Rqcb.Behind, UInt32.add_zero] at hdone
    exact toNat_of_eq_ofNat hdone hlen
  · -- linking another pipeline does not touch this one
    have hactive := hI.active
    have hsame : (linkBuffered s).pcb p = s.pcb p ∧ (linkBuffered s).apq.count p = s.apq.count p := by
      unfold linkBuffered
      split
      · rename_i r q hsub
        have hne : p ≠ q := by
          rintro rfl
          exact hsettled r hsub
        refine ⟨Function.update_of_ne hne _ _, ?_⟩
        simp only [countBuffered]
        split
        · rfl
        · simp [List.count_append, Ne.symm hne]
      · exact ⟨rfl, rfl⟩
    have hbuffered := hactive.buffered p
    have hlinked := hactive.linked p
    rw [hsame.1] at hbuffered hlinked
    refine ⟨?_, hbuffered⟩
    rw [← hsame.2]
    split_ifs with htmp
    · apply List.count_eq_zero.mpr
      intro hmem
      exact hbuffered.mp (hlinked.mp hmem) htmp
    · exact List.count_eq_one_of_mem hactive.nodup (hlinked.mpr (hbuffered.mpr htmp))

/-- Both queues of a stage in use: one request waits in the stage, one in the temporary queue. -/
theorem queue_representation_run :
    ∃ s, Reachable (oneStage 8 0) (fun _ a _ => kicksInSignal a = false) s ∧ s.mutex 0 = none ∧
      (s.rqcb 0).requestHead = [0] ∧ (s.rqcb 0).queueLen.toNat = 1 ∧ (s.pcb 0).tmpRequestHead = [1] ∧
      s.apq.count 0 = 1 := by
  obtain ⟨s, hs, hfree, hhead, htmp, hsub⟩ := exists_reachable (oneStage 8 0)
    (fun _ a _ => kicksInSignal a = false)
    ([.main .accept, .main (.readable 0)] ++ submitSteps 0 0 ++ [.main (.submit (submitZero 0) 0 0),
      .main (.buffer 1 0 0 0 false), .main (.countBuffered 1 0), .main (.returnTid 1 0)])
    (P := fun s => s.mutex 0 = none ∧ (s.rqcb 0).requestHead = [0] ∧ (s.pcb 0).tmpRequestHead = [1] ∧ s.sub = .none)
    (by decide +kernel)
  have hrep := queue_representation (oneStage 8 0) hs
  refine ⟨s, hs, hfree, hhead, ?_, htmp, ?_⟩
  · rw [hrep.1 0 hfree (by rw [hhead]; decide), hhead]
    rfl
  · rw [(hrep.2.2.2 0 (by simp [hsub])).1, htmp]
    rfl

end Csf
