import Csf.System.Lengths
import Csf.System.Signal

/-!
# Locks

A thread of the process holds at most one lock at a time and never asks for a second one: the main and the signal thread
only try, and a worker that holds a lock comes to the end of its critical section by itself. `Held` says that the owner of
a lock is inside the critical section that it protects, the converse of `Owned`. From the two follows that no
interleaving ends in a deadlock (`no_deadlock`).
-/

namespace Csf

open Lib

variable {Stage Worker : Type}

/-- The locks of the process: one mutex for each stage and the one of the done queue. -/
inductive Lock (Stage : Type)
  | stage (st : Stage)
  | done

/-- The owner of a lock. -/
def holder (s : State Stage Worker) : Lock Stage → Option (Owner Worker)
  | .stage st => s.mutex st
  | .done => s.doneMutex.map .worker

/-- The thread is inside a critical section of the lock. -/
def InSection (cfg : Config Stage Worker) (s : State Stage Worker) : Owner Worker → Lock Stage → Prop
  | .main, .stage st => ∃ r p n, s.sub = .inserted r p st n
  | .main, .done => False
  | .worker w, .stage st => cfg.rqcb w = st ∧ holdsMutex (s.wk w) = true
  | .worker w, .done => holdsDone (s.wk w) = true

def wants (cfg : Config Stage Worker) (w : Worker) : WorkerPc Stage → Option (Lock Stage)
  | .top | .woken => some (.stage (cfg.rqcb w))
  | .routing _ (.stage st :: _) => some (.stage st)
  | .routing _ (.done :: _) => some .done
  | _ => none

/-- The worker has a request and no queue to put it in. -/
def strayed : WorkerPc Stage → Bool
  | .routing _ [] => true
  | _ => false

/-- A lock that is taken is held by a thread inside its critical section. -/
structure Held (cfg : Config Stage Worker) (s : State Stage Worker) : Prop where
  stage : ∀ st o, s.mutex st = some o → InSection cfg s o (.stage st)
  done : ∀ w, s.doneMutex = some w ↔ holdsDone (s.wk w) = true
  routed : ∀ w, strayed (s.wk w) = false

theorem strayed_resume (r : Nat) (rest : List (Dest Stage)) : strayed (resume r rest) = false := by
  cases rest <;> rfl

theorem holdsDone_resume (r : Nat) (rest : List (Dest Stage)) : holdsDone (resume r rest) = false := by
  cases rest <;> rfl

theorem strayed_handled [DecidableEq Stage] (cfg : Config Stage Worker) (st : Stage) (next : Option Stage) (nstage r : Nat)
    (ret err : Int) : strayed (.routing r (submitNext cfg st next nstage ret err).dests) = false := by
  by_cases hloop : passesOn ret ∧ maxStageJump < nstage
  · obtain ⟨d, hd⟩ := submitNext_looped cfg st next err hloop.1 hloop.2
    rw [hd]
    rfl
  · obtain ⟨d, hd⟩ := submitNext_single cfg st next nstage ret err fun hp => by
      by_contra hlt
      exact hloop ⟨hp, by omega⟩
    rw [hd]
    rfl

theorem lockHeld_init [Fintype Worker] (cfg : Config Stage Worker) : Held cfg (State.init : State Stage Worker) := by
  refine ⟨fun st o h => ?_, fun w => ?_, fun w => rfl⟩
  · cases h
  · constructor <;> intro h <;> cases h

section
variable [DecidableEq Stage] [DecidableEq Worker] {cfg : Config Stage Worker} {s s' : State Stage Worker}

omit [DecidableEq Stage] [DecidableEq Worker] in
theorem Held.move (h : Held cfg s) {w : Worker} (hsub : s'.sub = s.sub)
    (hother : ∀ v, v ≠ w → s'.wk v = s.wk v ∨ s'.wk v = .woken ∧ s.wk v = .waiting)
    (hmutex : ∀ st o, s'.mutex st = some o → s.mutex st = some o ∨ o = .worker w ∧ cfg.rqcb w = st)
    (hmine : s'.mutex (cfg.rqcb w) = some (.worker w) → holdsMutex (s'.wk w) = true)
    (hdone : s'.doneMutex = some w ↔ holdsDone (s'.wk w) = true)
    (hothers : ∀ v, v ≠ w → (s'.doneMutex = some v ↔ s.doneMutex = some v))
    (hrouted : strayed (s'.wk w) = false) : Held cfg s' := by
  refine ⟨fun st o ho => ?_, fun v => ?_, fun v => ?_⟩
  · have hin : InSection cfg s o (.stage st) ∨ o = .worker w ∧ cfg.rqcb w = st :=
      (hmutex st o ho).imp_left (h.stage st o)
    cases o with
    | main =>
      obtain ⟨r, p, n, hin⟩ | ⟨heq, -⟩ := hin
      · exact ⟨r, p, n, hsub ▸ hin⟩
      · cases heq
    | worker v =>
      by_cases hv : v = w
      · have hst : cfg.rqcb w = st := by
          rcases hin with hin | ⟨-, hin⟩
          · exact hv ▸ hin.1
          · exact hin
        subst hv hst
        exact ⟨rfl, hmine ho⟩
      · rcases hin with hin | ⟨heq, -⟩
        · refine ⟨hin.1, ?_⟩
          rw [eq_of_wake holdsMutex rfl (hother v hv)]
          exact hin.2
        · exact absurd (Owner.worker.inj heq) hv
  · by_cases hv : v = w
    · subst hv
      exact hdone
    · rw [hothers v hv, h.done, eq_of_wake holdsDone rfl (hother v hv)]
  · by_cases hv : v = w
    · subst hv
      exact hrouted
    · rw [eq_of_wake strayed rfl (hother v hv)]
      exact h.routed v

theorem lockHeld_workerEffect {w : Worker} {a : WorkerAct Stage Worker} (h : Held cfg s) (hg : workerGuard cfg s w a) :
    Held cfg (workerEffect cfg s w a) := by
  have hsub := workerEffect_keeps cfg s w a State.sub fun _ => rfl
  have hother : ∀ v, v ≠ w → _ := fun v hv => wk_workerEffect hg hv
  -- a step outside of the critical sections of the stages
  have hout : (workerEffect cfg s w a).mutex = s.mutex → holdsMutex (s.wk w) = false →
      ((workerEffect cfg s w a).doneMutex = some w ↔ holdsDone ((workerEffect cfg s w a).wk w) = true) →
      (∀ v, v ≠ w → ((workerEffect cfg s w a).doneMutex = some v ↔ s.doneMutex = some v)) →
      strayed ((workerEffect cfg s w a).wk w) = false → Held cfg (workerEffect cfg s w a) := by
    intro hmutex hpc hdone hothers hrouted
    apply h.move hsub hother _ _ hdone hothers hrouted
    · intro st o ho
      exact .inl (hmutex ▸ ho)
    · intro ho
      have hin : InSection cfg s (.worker w) (.stage (cfg.rqcb w)) := h.stage _ _ (hmutex ▸ ho)
      have hold := hin.2
      rw [hpc] at hold
      cases hold
  -- and one that also leaves the done mutex alone
  have hquiet : (workerEffect cfg s w a).mutex = s.mutex → (workerEffect cfg s w a).doneMutex = s.doneMutex →
      holdsMutex (s.wk w) = false → holdsDone ((workerEffect cfg s w a).wk w) = holdsDone (s.wk w) →
      strayed ((workerEffect cfg s w a).wk w) = false → Held cfg (workerEffect cfg s w a) := by
    intro hmutex hmine hpc hdone hrouted
    apply hout hmutex hpc _ _ hrouted
    · rw [hmine, hdone]
      exact h.done w
    · intro v _
      rw [hmine]
  -- the mutex of the stage is taken or given back
  have hlock : ∀ o, (workerEffect cfg s w a).mutex = Function.update s.mutex (cfg.rqcb w) o →
      (∀ o', o = some o' → o' = .worker w) → (o ≠ none → holdsMutex ((workerEffect cfg s w a).wk w) = true) →
      (workerEffect cfg s w a).doneMutex = s.doneMutex →
      holdsDone ((workerEffect cfg s w a).wk w) = holdsDone (s.wk w) →
      strayed ((workerEffect cfg s w a).wk w) = false → Held cfg (workerEffect cfg s w a) := by
    intro o hmutex howner hpc hmine hdone hrouted
    apply h.move hsub hother _ _ _ _ hrouted
    · intro st o' ho
      by_cases hst : st = cfg.rqcb w
      · rw [hmutex, hst, Function.update_self] at ho
        exact .inr ⟨howner o' ho, hst.symm⟩
      · rw [hmutex, Function.update_of_ne hst] at ho
        exact .inl ho
    · intro ho
      rw [hmutex, Function.update_self] at ho
      exact hpc (by rw [ho]; simp)
    · rw [hmine, hdone]
      exact h.done w
    · intro v _
      rw [hmine]
  cases a with
  | lock | retry =>
    apply hlock _ rfl (fun o' ho => (Option.some.inj ho).symm) _ rfl
    · simp [workerEffect, setWk, holdsDone, hg.1]
    · simp [workerEffect, setWk, strayed]
    · simp [workerEffect, setWk, holdsMutex]
  | wait =>
    have hpc : s.wk w = .aboutToWait := hg
    apply hlock _ rfl (fun o' ho => by cases ho) (fun hno => absurd rfl hno) rfl
    · simp [workerEffect, setWk, holdsDone, hpc]
    · simp [workerEffect, setWk, strayed]
  | delay r | dequeue r rest =>
    apply hlock _ rfl (fun o' ho => by cases ho) (fun hno => absurd rfl hno) rfl
    · simp [workerEffect, setWk, holdsDone, hg.1]
    · simp [workerEffect, setWk, strayed]
  | empty =>
    apply h.move hsub hother (fun st o ho => .inl ho)
    · intro _
      simp [workerEffect, setWk, holdsMutex]
    · have hdone := h.done w
      rw [hg.1] at hdone
      simpa [workerEffect, setWk, holdsDone] using hdone
    · exact fun v _ => Iff.rfl
    · simp [workerEffect, setWk, strayed]
  | spurious | exit =>
    have hpc : s.wk w = _ := hg
    apply hquiet rfl rfl (by rw [hpc]; rfl)
    · simp [workerEffect, setWk, holdsDone, hpc]
    · simp [workerEffect, setWk, strayed]
  | leave | timedOut | cancelled | noHandler =>
    apply hquiet rfl rfl (by rw [hg.1]; rfl)
    · simp [workerEffect, setWk, holdsDone, hg.1]
    · simp [workerEffect, setWk, strayed]
  | handle r cl calls ret errno =>
    have hoff := offConns_touchCsp r (handled cfg w r calls ret errno s)
    have hwk : (workerEffect cfg s w (.handle r cl calls ret errno)).wk w = .routing r _ :=
      (congrFun (keeps_of_offConns hoff State.wk fun _ => rfl) w).trans (Function.update_self w _ s.wk)
    apply hquiet (keeps_of_offConns hoff State.mutex fun _ => rfl) (keeps_of_offConns hoff State.doneMutex fun _ => rfl)
      (by rw [hg.1]; rfl)
    · rw [hwk, hg.1]
      rfl
    · rw [hwk]
      exact strayed_handled cfg _ _ _ r ret errno
  | forward r st rest ws =>
    have hwk : (workerEffect cfg s w (.forward r st rest ws)).wk w = resume r rest := Function.update_self w _ _
    apply hquiet rfl rfl (by rw [hg.1]; rfl)
    · rw [hwk, hg.1, holdsDone_resume]
      rfl
    · rw [hwk]
      exact strayed_resume r rest
  | doneSkip r rest =>
    have hwk : (workerEffect cfg s w (.doneSkip r rest)).wk w = resume r rest := Function.update_self w _ _
    apply hquiet rfl rfl (by rw [hg.1]; rfl)
    · rw [hwk, hg.1, holdsDone_resume]
      rfl
    · rw [hwk]
      exact strayed_resume r rest
  | doneLock r rest =>
    apply hout rfl (by rw [hg.1]; rfl)
    · simp [workerEffect, setWk, holdsDone]
    · intro v hv
      rw [hg.2]
      simpa [workerEffect, setWk] using fun hw : w = v => hv hw.symm
    · simp [workerEffect, setWk, strayed]
  | doneInsert r rest =>
    have hpc : s.wk w = _ := hg
    apply hquiet rfl rfl (by rw [hpc]; rfl)
    · simp [workerEffect, setWk, holdsDone, hpc]
    · simp [workerEffect, setWk, strayed]
  | doneUnlock r rest =>
    have hpc : s.wk w = _ := hg
    have hmine : s.doneMutex = some w := (h.done w).mpr (by rw [hpc]; rfl)
    apply hout rfl (by rw [hpc]; rfl)
    · simp [workerEffect, setWk, holdsDone]
    · intro v hv
      rw [hmine]
      simpa [workerEffect, setWk] using fun hw : w = v => hv hw.symm
    · simp [workerEffect, setWk, strayed]
  | doneClear =>
    apply hquiet rfl rfl (by rw [hg.1]; rfl)
    · simp [workerEffect, setWk, holdsDone, hg.1]
    · simp [workerEffect, setWk, strayed]
  | doneSet r rest =>
    have hpc : s.wk w = _ := hg
    apply hquiet rfl rfl (by rw [hpc]; rfl)
    · simp [workerEffect, setWk, holdsDone, hpc]
    · simp [workerEffect, setWk, strayed]
  | doneWrite r rest =>
    have hpc : s.wk w = _ := hg
    have hwk : (workerEffect cfg s w (.doneWrite r rest)).wk w = resume r rest :=
      (congrFun (writeByte_keeps cfg cfg.doneFd _ State.wk fun _ _ => rfl) w).trans (Function.update_self w _ s.wk)
    apply hquiet (writeByte_keeps cfg cfg.doneFd _ State.mutex fun _ _ => rfl)
      (writeByte_keeps cfg cfg.doneFd _ State.doneMutex fun _ _ => rfl) (by rw [hpc]; rfl)
    · rw [hwk, hpc, holdsDone_resume]
      rfl
    · rw [hwk]
      exact strayed_resume r rest

omit [DecidableEq Stage] [DecidableEq Worker] in
theorem Held.wakes (h : Held cfg s) (hdone : s'.doneMutex = s.doneMutex)
    (hwk : ∀ w, s'.wk w = s.wk w ∨ s'.wk w = .woken ∧ s.wk w = .waiting)
    (hmutex : ∀ st o, s'.mutex st = some o → s.mutex st = some o ∨ InSection cfg s' o (.stage st))
    (hsub : ∀ r p st n, s.sub = .inserted r p st n → s'.mutex st = some .main → ∃ r p n, s'.sub = .inserted r p st n) :
    Held cfg s' := by
  refine ⟨fun st o ho => ?_, fun w => ?_, fun w => ?_⟩
  · rcases hmutex st o ho with hold | hin
    · have hin := h.stage st o hold
      cases o with
      | main =>
        obtain ⟨r, p, n, hin⟩ := hin
        exact hsub r p st n hin ho
      | worker w =>
        refine ⟨hin.1, ?_⟩
        rw [eq_of_wake holdsMutex rfl (hwk w)]
        exact hin.2
    · exact hin
  · rw [hdone, h.done, eq_of_wake holdsDone rfl (hwk w)]
  · rw [eq_of_wake strayed rfl (hwk w)]
    exact h.routed w

variable [Fintype Stage] [Fintype Worker]

theorem lockHeld_mainEffect {a : MainAct Stage Worker} (h : Held cfg s) (hg : mainGuard cfg s a) :
    Held cfg (mainEffect cfg s a) := by
  have hwk := wk_mainEffect hg
  have hdone := mainEffect_keeps cfg s a State.doneMutex fun _ => rfl
  have hmutex := mainEffect_plain cfg s a State.mutex fun _ => rfl
  have hsub := mainEffect_plain cfg s a State.sub fun _ => rfl
  -- the steps that leave the mutexes alone are not between the insertion and the count
  have hquiet : (mainPlain cfg s a).mutex = s.mutex →
      ((mainPlain cfg s a).sub = s.sub ∨ ∀ r p st n, s.sub ≠ .inserted r p st n) → Held cfg (mainEffect cfg s a) := by
    intro hm hs
    apply h.wakes hdone hwk
    · intro st o ho
      rw [hmutex, hm] at ho
      exact .inl ho
    · intro r p st n hin _
      rcases hs with hs | hs
      · exact ⟨r, p, n, (hsub.trans hs).trans hin⟩
      · exact absurd hin (hs r p st n)
  cases a with
  | send r p st flags concat =>
    have hchecked : ∀ r' p' st' n, s.sub ≠ .inserted r' p' st' n := by
      intro r' p' st' n hin
      rw [hg.1] at hin
      cases hin
    rcases sendLocked_cases cfg r p st flags concat s with
      ⟨s₁, hmove, -, heq⟩ | ⟨s₁, hmove, heq⟩ | ⟨s₁, ev, hmove, -, heq⟩
    · exact hquiet ((congrArg State.mutex heq).trans (hmove.keeps State.mutex fun _ => rfl)) (.inr hchecked)
    · exact hquiet ((congrArg State.mutex heq).trans (hmove.keeps State.mutex fun _ => rfl)) (.inr hchecked)
    · have hm : (mainEffect cfg s (.send r p st flags concat)).mutex = Function.update s.mutex st (some .main) := by
        rw [mainEffect, heq, setMutex, hmove.keeps State.mutex fun _ => rfl]
      apply h.wakes hdone hwk
      · intro st' o ho
        by_cases hst : st' = st
        · rw [hm, hst, Function.update_self] at ho
          obtain rfl := Option.some.inj ho
          rw [hst]
          exact .inr ⟨r, p, _, congrArg State.sub heq⟩
        · rw [hm, Function.update_of_ne hst] at ho
          exact .inl ho
      · exact fun r' p' st' n hin _ => absurd hin (hchecked r' p' st' n)
  | count r p st notice ws =>
    apply h.wakes hdone hwk
    · intro st' o ho
      by_cases hst : st' = st
      · simp [mainEffect, setMutex, hst] at ho
      · simp only [mainEffect, setMutex, Function.update_of_ne hst] at ho
        exact .inl ho
    · intro r' p' st' n hin ho
      rw [hg.1] at hin
      cases hin
      simp [mainEffect, setMutex] at ho
  | kick ev ok ws =>
    have hmove := QueueMove.kickRequestQueue cfg ok s
    exact hquiet (hmove.keeps State.mutex fun _ => rfl) (.inl (hmove.keeps State.sub fun _ => rfl))
  | submit => exact hquiet rfl (.inr (by simp [hg.2.1]))
  | buffer | countBuffered | noticeSet | noticeWrite | returnTid => exact hquiet rfl (.inr (by simp [show s.sub = _ from hg]))
  | noticeSkip | noticeClear => exact hquiet rfl (.inr (by simp [hg.1]))
  | _ => exact hquiet rfl (.inl rfl)

theorem lockHeld_step {a : Action Stage Worker} (h : Held cfg s) (hs : step cfg s a = some s') : Held cfg s' := by
  obtain ⟨-, hg, rfl⟩ := step_eq_some hs
  cases a with
  | worker w a => exact lockHeld_workerEffect h hg
  | main a => exact lockHeld_mainEffect h hg
  | signals a =>
    have hsub := signalEffect_keeps cfg s a State.sub fun _ => rfl
    have hmutex := signalEffect_keeps cfg s a State.mutex fun _ => rfl
    apply h.wakes (signalEffect_keeps cfg s a State.doneMutex fun _ => rfl) (wk_signalEffect hg)
    · exact fun st o ho => .inl (hmutex ▸ ho)
    · exact fun r p st n hin _ => ⟨r, p, n, hsub.trans hin⟩
  | tick | cancel => exact ⟨h.stage, h.done, h.routed⟩

omit [DecidableEq Stage] [DecidableEq Worker] [Fintype Stage] [Fintype Worker] in
theorem Held.inSection (h : Held cfg s) {l : Lock Stage} {o : Owner Worker} (ho : holder s l = some o) :
    InSection cfg s o l := by
  cases l with
  | stage st => exact h.stage st o ho
  | done =>
    obtain ⟨w, hw, rfl⟩ := Option.map_eq_some_iff.mp ho
    exact (h.done w).mp hw

omit [DecidableEq Stage] [DecidableEq Worker] [Fintype Stage] [Fintype Worker] in
theorem Owned.holder (howned : Owned cfg s) (h : Held cfg s) {l : Lock Stage} {o : Owner Worker}
    (hin : InSection cfg s o l) : Csf.holder s l = some o := by
  cases o with
  | main =>
    cases l with
    | stage st =>
      obtain ⟨r, p, n, hsub⟩ := hin
      exact howned.main r p st n hsub
    | done => exact hin.elim
  | worker w =>
    cases l with
    | stage st => exact hin.1 ▸ howned.worker w hin.2
    | done => exact Option.map_eq_some_iff.mpr ⟨w, (h.done w).mpr hin, rfl⟩

/-! ### Progress -/

omit [Fintype Stage] in
theorem step_isSome {a : Action Stage Worker} (hrun : s.status = .running) (hg : Guard cfg s a) :
    (step cfg s a).isSome = true := by
  simp [step, hrun, hg]

omit [DecidableEq Worker] [Fintype Stage] in
theorem exists_signalOk (cfg : Config Stage Worker) (s : State Stage Worker) (st : Stage) : ∃ ws, SignalOk cfg s st ws := by
  classical
  refine ⟨(Finset.univ.filter fun w => s.wk w = .waiting ∧ cfg.rqcb w = st).toList, fun w hw => ?_, fun hnil w hw hwait => ?_⟩
  · simpa using hw
  · have hmem : w ∈ (Finset.univ.filter fun w => s.wk w = .waiting ∧ cfg.rqcb w = st).toList := by
      simp [hw, hwait]
    rw [hnil] at hmem
    cases hmem

omit [DecidableEq Worker] [Fintype Stage] in
theorem worker_ready {w : Worker} (hwait : s.wk w ≠ .waiting) (hgone : s.wk w ≠ .gone) (hrouted : strayed (s.wk w) = false)
    (hfree : ∀ l, wants cfg w (s.wk w) = some l → holder s l = none) : ∃ a, workerGuard cfg s w a := by
  cases hpc : s.wk w with
  | top =>
    have hmutex : s.mutex (cfg.rqcb w) = none := hfree (.stage _) (by rw [hpc]; rfl)
    exact ⟨.lock, hpc, hmutex⟩
  | locked =>
    cases hqueue : (s.rqcb (cfg.rqcb w)).requestHead with
    | nil => exact ⟨.empty, hpc, hqueue⟩
    | cons r rest =>
      by_cases hearly : tooEarly cfg s (cfg.rqcb w) r
      · exact ⟨.delay r, hpc, by rw [hqueue]; rfl, hearly⟩
      · exact ⟨.dequeue r rest, hpc, hqueue, hearly⟩
  | aboutToWait => exact ⟨.wait, hpc⟩
  | waiting => exact absurd hpc hwait
  | woken =>
    have hmutex : s.mutex (cfg.rqcb w) = none := hfree (.stage _) (by rw [hpc]; rfl)
    by_cases hdrained : drained s
    · exact ⟨.leave, hpc, hmutex, hdrained⟩
    · exact ⟨.retry, hpc, hmutex, hdrained⟩
  | leaving => exact ⟨.exit, hpc⟩
  | gone => exact absurd hpc hgone
  | holding r cl =>
    by_cases htimeout : workerTimedOut cfg s r cl
    · exact ⟨.timedOut r cl, hpc, htimeout⟩
    · cases hcancel : (s.heap r).cancelled with
      | true => exact ⟨.cancelled r cl, hpc, htimeout, hcancel⟩
      | false =>
        by_cases hready : cfg.requestHandler (cfg.rqcb w) = true ∧ cfg.initOk w = true
        · exact ⟨.handle r cl [] 0 0, hpc, htimeout, hcancel, hready⟩
        · exact ⟨.noHandler r cl, hpc, htimeout, hcancel, hready⟩
  | routing r dests =>
    cases dests with
    | nil =>
      rw [hpc] at hrouted
      cases hrouted
    | cons d rest =>
      cases d with
      | stage st =>
        have hmutex : s.mutex st = none := hfree (.stage st) (by rw [hpc]; rfl)
        obtain ⟨ws, hws⟩ := exists_signalOk cfg s st
        exact ⟨.forward r st rest ws, hpc, hmutex, hws⟩
      | done =>
        have hmutex : s.doneMutex = none := by
          have hnone : s.doneMutex.map Owner.worker = none := hfree .done (by rw [hpc]; rfl)
          exact Option.map_eq_none_iff.mp hnone
        exact ⟨.doneLock r rest, hpc, hmutex⟩
  | doneLocked r rest => exact ⟨.doneInsert r rest, hpc⟩
  | doneInserted r rest => exact ⟨.doneUnlock r rest, hpc⟩
  | doneTest r rest =>
    cases hsignalled : s.doneSignalled with
    | true => exact ⟨.doneSkip r rest, hpc, hsignalled⟩
    | false => exact ⟨.doneClear r rest, hpc, hsignalled⟩
  | doneSet r rest => exact ⟨.doneSet r rest, hpc⟩
  | doneWrite r rest => exact ⟨.doneWrite r rest, hpc⟩

omit [DecidableEq Worker] [Fintype Stage] in
theorem main_ready (cfg : Config Stage Worker) (s : State Stage Worker) : ∃ a, mainGuard cfg s a := by
  cases hsub : s.sub with
  | checked r p st flags concat => exact ⟨.buffer r p st flags concat, hsub⟩
  | inserted r p st n =>
    obtain ⟨ws, hws⟩ := exists_signalOk cfg s st
    exact ⟨.count r p st n ws, hsub, hws⟩
  | buffered r p => exact ⟨.countBuffered r p, hsub⟩
  | noticeTest r p =>
    cases hsignalled : s.doneSignalled with
    | true => exact ⟨.noticeSkip r p, hsub, hsignalled⟩
    | false => exact ⟨.noticeClear r p, hsub, hsignalled⟩
  | noticeSet r p => exact ⟨.noticeSet r p, hsub⟩
  | noticeWrite r p => exact ⟨.noticeWrite r p, hsub⟩
  | sent r p => exact ⟨.returnTid r p, hsub⟩
  | none =>
    cases hmain : s.main with
    | loop => exact ⟨.accept, hmain⟩
    | session c => exact ⟨.readDone c, hmain, hsub⟩
    | datagram c => exact ⟨.datagramEnd c, hmain, hsub⟩
    | drainTest ev =>
      cases hsignalled : s.doneSignalled with
      | true => exact ⟨.drainHit ev, hmain, hsignalled⟩
      | false => exact ⟨.drainMiss ev, hmain, hsignalled⟩
    | drainRead ev => exact ⟨.drainRead ev, hmain⟩
    | drainReset ev => exact ⟨.drainReset ev, hmain⟩
    | kick ev => exact ⟨.kick ev (fun _ => false) fun _ => [], hmain, fun _ _ hok => by cases hok⟩
    | testDone ev =>
      by_cases hskip : s.doneRqcb.requestHead = [] ∨ ev = .timeout
      · exact ⟨.skip ev, hmain, hskip⟩
      · cases ev with
        | read => exact ⟨.enter, hmain, fun hnil => hskip (.inl hnil)⟩
        | timeout => exact absurd (.inr rfl) hskip
    | take =>
      by_cases hfree : s.doneMutex = none
      · exact ⟨.take, hmain, hfree⟩
      · exact ⟨.takeBusy, hmain, hfree⟩
    | iter next rc =>
      cases next with
      | none => exact ⟨.finish rc, hmain⟩
      | some r =>
        by_cases hcsp : (s.heap r).csp = none
        · exact ⟨.takeNull r rc, hmain, hcsp⟩
        · exact ⟨.takeReq r rc, hmain, hcsp⟩
    | respond r next rc =>
      by_cases hcall : (s.heap r).cancelled = false ∧ (s.heap r).requestResponder = true
      · exact ⟨.respond r next rc, hmain, hcall⟩
      · exact ⟨.noResponder r next rc, hmain, hcall⟩
    | calling r next => exact ⟨.responderRet r next 0, hmain, hsub⟩
    | dispose r next rc => exact ⟨.dispose r next rc, hmain⟩
    | testExit next rc =>
      by_cases hdrained : drained s
      · exact ⟨.startBroadcast next rc, hmain, hdrained⟩
      · exact ⟨.quiet next rc, hmain, hdrained⟩
    | broadcast todo next rc =>
      cases todo with
      | nil => exact ⟨.broadcastEnd next rc, hmain⟩
      | cons st todo => exact ⟨.broadcast st todo next rc, hmain⟩

omit [DecidableEq Stage] [DecidableEq Worker] [Fintype Stage] [Fintype Worker] in
theorem signal_ready (cfg : Config Stage Worker) (s : State Stage Worker) : ∃ a, signalGuard cfg s a := by
  cases hsig : s.sig with
  | idle => exact ⟨.hup, hsig⟩
  | kick => exact ⟨.kick (fun _ => false) fun _ => [], hsig, fun _ _ hok => by cases hok⟩
  | testLen =>
    by_cases hlen : s.pipelineQueueLen = 0
    · exact ⟨.startBroadcast, hsig, hlen⟩
    · exact ⟨.quiet, hsig, hlen⟩
  | broadcast todo =>
    cases todo with
    | nil => exact ⟨.finish, hsig⟩
    | cons st todo => exact ⟨.broadcast st todo, hsig⟩

def actsAs : Owner Worker → Action Stage Worker → Prop
  | .main, .main _ => True
  | .worker w, .worker v _ => v = w
  | _, _ => False

/-- Thread `o` alone makes the steps `as`; no other worker that is not blocked moves. -/
structure Alone (cfg : Config Stage Worker) (o : Owner Worker) (s : State Stage Worker) (as : List (Action Stage Worker))
    (s' : State Stage Worker) : Prop where
  acts : ∀ a ∈ as, actsAs o a
  run : run (step cfg) (fun _ _ _ => true) s as = some s'
  others : ∀ w, o ≠ .worker w → s.wk w ≠ .waiting → s'.wk w = s.wk w

omit [Fintype Stage] in
theorem Alone.cons {o : Owner Worker} {a : Action Stage Worker} {as : List (Action Stage Worker)}
    (h : Alone cfg o (effect cfg s a) as s') (hrun : s.status = .running) (hg : Guard cfg s a) (hact : actsAs o a)
    (hwk : ∀ w, o ≠ .worker w → s.wk w ≠ .waiting → (effect cfg s a).wk w = s.wk w) : Alone cfg o s (a :: as) s' := by
  refine ⟨?_, ?_, fun w ho hwait => ?_⟩
  · simpa using ⟨hact, h.acts⟩
  · exact run_cons_eq_some.mpr ⟨_, if_pos ⟨hrun, hg⟩, rfl, h.run⟩
  · have hkeep := hwk w ho hwait
    rw [h.others w ho (hkeep ▸ hwait), hkeep]

omit [Fintype Stage] in
theorem Alone.one {o : Owner Worker} {a : Action Stage Worker} (hrun : s.status = .running) (hg : Guard cfg s a)
    (hact : actsAs o a) (hwk : ∀ w, o ≠ .worker w → s.wk w ≠ .waiting → (effect cfg s a).wk w = s.wk w) :
    Alone cfg o s [a] (effect cfg s a) :=
  Alone.cons ⟨by simp, rfl, fun _ _ _ => rfl⟩ hrun hg hact hwk

omit [Fintype Stage] [Fintype Worker] in
theorem wk_worker_alone {w : Worker} {a : WorkerAct Stage Worker} (hg : workerGuard cfg s w a) (v : Worker)
    (ho : Owner.worker w ≠ .worker v) (hwait : s.wk v ≠ .waiting) : (effect cfg s (.worker w a)).wk v = s.wk v := by
  have hv : v ≠ w := fun heq => ho (by rw [heq])
  rcases wk_workerEffect hg hv with heq | ⟨-, hblocked⟩
  · exact heq
  · exact absurd hblocked hwait

/-- The owner of a lock gives it back by itself within two steps. -/
theorem lock_released (h : Held cfg s) (hrun : s.status = .running) {l : Lock Stage} {o : Owner Worker}
    (ho : holder s l = some o) : ∃ as s', as.length ≤ 2 ∧ Alone cfg o s as s' ∧ holder s' l = none ∧ s'.status = .running := by
  -- one step of the owning worker
  have hone : ∀ w a, o = .worker w → workerGuard cfg s w a → holder (workerEffect cfg s w a) l = none →
      (workerEffect cfg s w a).status = s.status →
      ∃ as s', as.length ≤ 2 ∧ Alone cfg o s as s' ∧ holder s' l = none ∧ s'.status = .running := by
    rintro w a rfl hg hfree hstatus
    exact ⟨[.worker w a], _, by simp, .one hrun hg rfl (wk_worker_alone hg), hfree, hstatus.trans hrun⟩
  -- and two
  have htwo : ∀ w a b, o = .worker w → workerGuard cfg s w a → workerGuard cfg (workerEffect cfg s w a) w b →
      (workerEffect cfg s w a).status = s.status →
      holder (workerEffect cfg (workerEffect cfg s w a) w b) l = none →
      (workerEffect cfg (workerEffect cfg s w a) w b).status = s.status →
      ∃ as s', as.length ≤ 2 ∧ Alone cfg o s as s' ∧ holder s' l = none ∧ s'.status = .running := by
    rintro w a b rfl hga hgb hmid hfree hstatus
    have hlast : Alone cfg (.worker w) (effect cfg s (.worker w a)) [.worker w b] _ :=
      .one (hmid.trans hrun) hgb rfl (wk_worker_alone hgb)
    exact ⟨[.worker w a, .worker w b], _, by simp, hlast.cons hrun hga rfl (wk_worker_alone hga), hfree,
      hstatus.trans hrun⟩
  cases l with
  | stage st =>
    have hin := h.stage st o ho
    cases o with
    | main =>
      obtain ⟨r, p, n, hsub⟩ := hin
      obtain ⟨ws, hws⟩ := exists_signalOk cfg s st
      have hg : mainGuard cfg s (.count r p st n ws) := ⟨hsub, hws⟩
      refine ⟨[.main (.count r p st n ws)], _, by simp, .one hrun hg trivial ?_, ?_, hrun⟩
      · intro w _ hwait
        rcases wk_mainEffect hg w with heq | ⟨-, hblocked⟩
        · exact heq
        · exact absurd hblocked hwait
      · exact Function.update_self st _ _
    | worker w =>
      obtain ⟨rfl, hpc⟩ := hin
      cases hwk : s.wk w with
      | locked =>
        cases hqueue : (s.rqcb (cfg.rqcb w)).requestHead with
        | nil =>
          refine htwo w .empty .wait rfl ⟨hwk, hqueue⟩ (Function.update_self w _ s.wk) rfl ?_ rfl
          exact Function.update_self (cfg.rqcb w) _ _
        | cons r rest =>
          by_cases hearly : tooEarly cfg s (cfg.rqcb w) r
          · refine hone w (.delay r) rfl ⟨hwk, by rw [hqueue]; rfl, hearly⟩ ?_ rfl
            exact Function.update_self (cfg.rqcb w) _ _
          · refine hone w (.dequeue r rest) rfl ⟨hwk, hqueue, hearly⟩ ?_ rfl
            exact Function.update_self (cfg.rqcb w) _ _
      | aboutToWait => exact hone w .wait rfl hwk (Function.update_self (cfg.rqcb w) _ _) rfl
      | _ => simp [hwk, holdsMutex] at hpc
  | done =>
    obtain ⟨w, hw, rfl⟩ := Option.map_eq_some_iff.mp ho
    have hpc := (h.done w).mp hw
    cases hwk : s.wk w with
    | doneLocked r rest =>
      exact htwo w (.doneInsert r rest) (.doneUnlock r rest) rfl hwk (Function.update_self w _ s.wk) rfl rfl rfl
    | doneInserted r rest => exact hone w (.doneUnlock r rest) rfl hwk rfl rfl
    | _ => simp [hwk, holdsDone] at hpc

omit [DecidableEq Stage] [DecidableEq Worker] [Fintype Stage] [Fintype Worker] in
theorem Held.ne_holder (h : Held cfg s) {w : Worker} {l : Lock Stage} (hw : wants cfg w (s.wk w) = some l) :
    holder s l ≠ some (.worker w) := by
  intro ho
  have hpc : holdsMutex (s.wk w) = true ∨ holdsDone (s.wk w) = true := by
    cases l with
    | stage st => exact .inl (h.stage st _ ho).2
    | done =>
      obtain ⟨v, hv, hvw⟩ := Option.map_eq_some_iff.mp ho
      obtain rfl := Owner.worker.inj hvw
      exact .inr ((h.done v).mp hv)
  cases hwk : s.wk w <;> simp [hwk, holdsMutex, holdsDone, wants] at hpc hw

/-- No interleaving ends in a deadlock. In every state that the process reaches, a lock is held by a thread exactly while
it is inside a critical section of it; the main thread and the signal thread have a step; and every worker that is not
blocked on its condition and has not left has one, at the latest after two steps of the single thread that holds the lock
it waits for. The sweep of a queue under its mutex is one step here: past the loop limit the links of the queue can close
to a cycle, and the sweep then goes round until the requests in it have expired. -/
theorem no_deadlock (cfg : Config Stage Worker) {s : State Stage Worker} (h : Reachable cfg (fun _ _ _ => True) s)
    (hrun : s.status = .running) :
    (∀ l o, holder s l = some o ↔ InSection cfg s o l) ∧
      (∃ a, (step cfg s (.main a)).isSome = true) ∧ (∃ a, (step cfg s (.signals a)).isSome = true) ∧
      ∀ w, s.wk w ≠ .waiting → s.wk w ≠ .gone → ∃ o as s' a, as.length ≤ 2 ∧ Alone cfg o s as s' ∧ o ≠ .worker w ∧
        s'.wk w = s.wk w ∧ (step cfg s' (.worker w a)).isSome = true := by
  have howned : Owned cfg s := h.invariant (owned_init cfg) fun _ _ _ hinv _ hs => owned_step hinv hs
  have hheld : Held cfg s := h.invariant (lockHeld_init cfg) fun _ _ _ hinv _ hs => lockHeld_step hinv hs
  obtain ⟨m, hm⟩ := main_ready cfg s
  obtain ⟨n, hn⟩ := signal_ready cfg s
  refine ⟨fun l o => ⟨hheld.inSection, howned.holder hheld⟩, ⟨m, step_isSome hrun hm⟩, ⟨n, step_isSome hrun hn⟩, ?_⟩
  intro w hwait hgone
  by_cases hfree : ∀ l, wants cfg w (s.wk w) = some l → holder s l = none
  · obtain ⟨a, ha⟩ := worker_ready hwait hgone (hheld.routed w) hfree
    exact ⟨.main, [], s, a, by simp, ⟨by simp, rfl, fun _ _ _ => rfl⟩, by simp, rfl, step_isSome hrun ha⟩
  · -- somebody else holds the lock that the worker asks for
    obtain ⟨l, hl, htaken⟩ : ∃ l, wants cfg w (s.wk w) = some l ∧ holder s l ≠ none := by simpa using hfree
    obtain ⟨o, ho⟩ := Option.ne_none_iff_exists'.mp htaken
    have hother : o ≠ .worker w := fun heq => hheld.ne_holder hl (heq ▸ ho)
    obtain ⟨as, s', hlen, halone, hfree', hrun'⟩ := lock_released hheld hrun ho
    have hwk := halone.others w hother hwait
    have hready : ∃ a, workerGuard cfg s' w a := by
      apply worker_ready
      · rw [hwk]
        exact hwait
      · rw [hwk]
        exact hgone
      · rw [hwk]
        exact hheld.routed w
      · intro l' hl'
        rw [hwk, hl] at hl'
        rw [← Option.some.inj hl']
        exact hfree'
    obtain ⟨a, ha⟩ := hready
    exact ⟨o, as, s', a, hlen, halone, hother, hwk, step_isSome hrun' ha⟩

end

/-- The worker waits for the mutex of its stage, which the main thread holds between the insertion and the count. -/
theorem no_deadlock_run : ∃ s, Reachable (oneStage 2 0) (fun _ _ _ => True) s ∧ s.wk 0 = .top ∧
    holder s (.stage 0) = some .main ∧ ∃ o as s' a, as.length ≤ 2 ∧ Alone (oneStage 2 0) o s as s' ∧ o ≠ .worker 0 ∧
      s'.wk 0 = s.wk 0 ∧ (step (oneStage 2 0) s' (.worker 0 a)).isSome = true := by
  obtain ⟨s, hs, hrun, hwk, hmutex⟩ := exists_reachable (oneStage 2 0) (fun _ _ _ => True)
    [.main .accept, .main (.readable 0), .main (.submit (submitZero 0) 0 0), .main (.send 0 0 0 0 false)]
    (P := fun s => s.status = .running ∧ s.wk 0 = .top ∧ s.mutex 0 = some .main) (by decide +kernel)
  exact ⟨s, hs, hwk, hmutex, (no_deadlock (oneStage 2 0) hs hrun).2.2.2 0 (by simp [hwk]) (by simp [hwk])⟩

end Csf
