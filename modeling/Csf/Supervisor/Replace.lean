import Csf.Supervisor.OneWorker
import Mathlib.Tactic.Common

/-!
# A worker that has ended is replaced

Whatever signals came and went, `main` waits for `child_pid`. When that worker has ended and no handler is active, the
parent's own steps lead to the launch of a new one, unless the exit code says to give up or `fork` fails. `distance`
counts the steps of `main` up to the launch; `closer` is the step.
-/

namespace Csf.Supervisor

variable {s s' : State} {a : Action}

/-! ### `main` waits for `child_pid` -/

/-- The process that an activation of `process_wait` will ask for. -/
def WaitPc.target : WaitPc → Option Nat
  | .call pid | .result pid none | .testGraceful pid => some pid
  | _ => none

def Watching (s : State) : Prop :=
  match s.main with
  | .wait w => ∀ pid ∈ w.target, pid = s.childPid
  | _ => True

theorem target_interrupt (w : WaitPc) : w.interrupt.target = w.target := by
  cases w with
  | result pid re => cases re <;> rfl
  | _ => rfl

theorem target_processWait {e : Errno} {w w' : WaitPc} (h : processWait s e w = some (.goto w', s')) {pid : Nat}
    (hpid : pid ∈ w'.target) : pid ∈ w.target := by
  cases w with
  | call q =>
    rw [processWait] at h
    split at h
    · cases h
    · obtain ⟨hgoto, -⟩ := Prod.mk.inj (Option.some.inj h)
      obtain rfl := WaitNext.goto.inj hgoto
      cases hpid
    · obtain ⟨hgoto, -⟩ := Prod.mk.inj (Option.some.inj h)
      obtain rfl := WaitNext.goto.inj hgoto
      exact hpid
  | result q re =>
    cases re with
    | some status =>
      obtain ⟨hgoto, -⟩ := Prod.mk.inj (Option.some.inj h)
      obtain rfl := WaitNext.goto.inj hgoto
      cases hpid
    | none =>
      obtain ⟨hgoto, -⟩ := Prod.mk.inj (Option.some.inj h)
      rw [← WaitNext.goto.inj hgoto] at hpid
      split at hpid
      · exact hpid
      · cases hpid
  | testGraceful q =>
    obtain ⟨hgoto, -⟩ := Prod.mk.inj (Option.some.inj h)
    rw [← WaitNext.goto.inj hgoto] at hpid
    split at hpid
    · cases hpid
    · exact hpid
  | testChild =>
    obtain ⟨hgoto, -⟩ := Prod.mk.inj (Option.some.inj h)
    cases hgoto
  | examine status =>
    cases status with
    | exited rc =>
      obtain ⟨hgoto, -⟩ := Prod.mk.inj (Option.some.inj h)
      split at hgoto <;> cases hgoto
    | signaled sig => cases h

/-- `main` while a handler runs: it stays where it is, or its system call fails. -/
def Overlaid (s s' : State) : Prop :=
  s'.childPid = s.childPid ∧
    (s'.main = s.main ∨ (∃ w, s.main = .wait w ∧ s'.main = .wait w.interrupt) ∨ s'.main = .reset)

theorem Overlaid.watching (h : Overlaid s s') (hs : Watching s) : Watching s' := by
  obtain ⟨hpid, hmain | ⟨w, hw, hmain⟩ | hmain⟩ := h
  · rw [Watching, hmain, hpid]
    exact hs
  · rw [Watching, hmain, hpid]
    rw [Watching, hw] at hs
    exact fun pid hp => hs pid (target_interrupt w ▸ hp)
  · rw [Watching, hmain]
    trivial

theorem overlaid_handlerReturn (s : State) : Overlaid s (handlerReturn s) := by
  refine ⟨(handlerReturn_keeps s).1, ?_⟩
  unfold handlerReturn
  split
  · exact .inl rfl
  · split
    · split
      · split
        · exact .inr (.inl ⟨_, by assumption, rfl⟩)
        · exact .inr (.inr rfl)
        · exact .inl rfl
      · split <;> exact .inl rfl
    · exact .inl rfl

theorem overlaid_handlerStep {e : Errno} {top : Frame} (h : handlerStep s e top = some s') : Overlaid s s' := by
  -- what happens before the return leaves `main` alone
  have hreturn : ∀ t : State, t.childPid = s.childPid → t.main = s.main → Overlaid s (handlerReturn t) := by
    intro t hpid hmain
    have hover := overlaid_handlerReturn t
    rw [Overlaid, hpid, hmain] at hover
    exact hover
  have hset : ∀ (t : State) pc, t.childPid = s.childPid → t.main = s.main → Overlaid s (setPc pc t) := by
    intro t pc hpid hmain
    refine ⟨(setPc_keeps pc t).1.trans hpid, .inl ?_⟩
    unfold setPc
    split <;> exact hmain
  have htell := fewer_tell s.childPid s
  have hkeep := handlers_tell s.childPid s
  unfold handlerStep at h
  split at h
  · split at h
    · obtain rfl := Option.some.inj h
      exact hset _ _ rfl rfl
    · obtain rfl := Option.some.inj h
      exact hset _ _ htell.2 hkeep.2
    · obtain rfl := Option.some.inj h
      exact hset _ _ htell.2 hkeep.2
    · obtain rfl := Option.some.inj h
      exact hset _ _ htell.2 hkeep.2
    · obtain ⟨hfewer, -, hmain, -⟩ := forward_keeps s.childPid s
      obtain rfl := Option.some.inj h
      exact hreturn _ hfewer.2 hmain
    · cases h
  · obtain rfl := Option.some.inj h
    exact hreturn _ htell.2 hkeep.2
  · split at h
    · cases h
    all_goals
      rename_i s₁ hwait
      obtain ⟨hfewer, -, hmain, -⟩ := processWait_keeps hwait
      obtain rfl := Option.some.inj h
    · exact hset _ _ hfewer.2 hmain
    · unfold afterWait
      split
      · exact ⟨hfewer.2, .inl hmain⟩
      · exact ⟨hfewer.2, .inl hmain⟩
      · exact hreturn _ hfewer.2 hmain
    · exact ⟨hfewer.2, .inl hmain⟩

theorem watching_mainStep {e : Errno} {launch : Bool} (h : Watching s) (hs : mainStep s e launch = some s') :
    Watching s' := by
  unfold mainStep at hs
  split at hs
  · obtain rfl := Option.some.inj hs
    trivial
  · split at hs
    · obtain rfl := Option.some.inj hs
      trivial
    · obtain rfl := Option.some.inj hs
      exact h
  · obtain rfl := Option.some.inj hs
    exact fun pid hpid => (Option.some.inj hpid).symm
  · rename_i w hm
    rw [Watching, hm] at h
    split at hs
    · cases hs
    · rename_i w' s₁ hwait
      obtain ⟨hfewer, -, -, -⟩ := processWait_keeps hwait
      obtain rfl := Option.some.inj hs
      exact fun pid hpid => (h pid (target_processWait hwait hpid)).trans hfewer.2.symm
    · obtain rfl := Option.some.inj hs
      trivial
    · rename_i s₁ hwait
      obtain ⟨hfewer, -, hmain, -⟩ := processWait_keeps hwait
      obtain rfl := Option.some.inj hs
      rw [Watching, show s₁.main = _ from hmain.trans hm]
      exact fun pid hpid => (h pid hpid).trans hfewer.2.symm
  · obtain rfl := Option.some.inj hs
    trivial

theorem watching_step (h : Watching s) (hs : step s a = some s') : Watching s' := by
  unfold step at hs
  split at hs
  · cases hs
  split at hs
  · split at hs
    · exact watching_mainStep h hs
    · exact (overlaid_handlerStep hs).watching h
  · split at hs
    · cases hs
    · split at hs
      · cases hs
      · obtain rfl := Option.some.inj hs
        exact h
      · obtain rfl := Option.some.inj hs
        exact h
  · split at hs
    · obtain rfl := Option.some.inj hs
      exact h
    · cases hs
  · split at hs
    · obtain rfl := Option.some.inj hs
      exact h
    · cases hs

/-! ### The way to the launch -/

/-- The steps of `main` up to the launch when the worker has ended. -/
def distance (s : State) : Nat :=
  match s.main with
  | .assign _ => 0
  | .fork => 1
  | .reset => 2
  | .sleep _ => 3
  | .wait (.examine _) | .wait .testChild => 4
  | .wait (.result _ (some _)) => 5
  | .wait (.result _ none) => if s.errno = .eintr then 8 else 5
  | .wait (.call _) => 6
  | .wait (.testGraceful _) => 7

theorem distance_le (s : State) : distance s ≤ 8 := by
  unfold distance
  split <;> first | omega | (split <;> omega)

theorem distance_pos (h : ∀ pid, s.main ≠ .assign pid) : 1 ≤ distance s := by
  unfold distance
  split
  · rename_i pid hm
    exact absurd hm (h pid)
  all_goals first | omega | (split <;> omega)

/-- Before the launch, with nothing but the parent's own steps ahead. -/
structure Pending (s : State) : Prop where
  running : s.status = .running
  idle : s.handlers = []
  watching : Watching s
  dead : s.children s.childPid ≠ .running

section
variable {e : Errno} {launch : Bool} {w w' : WaitPc} {s₁ : State}

theorem mainStep_reset (hm : s.main = .reset) :
    mainStep s e launch = some { s with gracefulRestart := false, main := .fork } := by
  simp only [mainStep, hm]

theorem mainStep_sleep {ok : Bool} (hm : s.main = .sleep ok) : mainStep s e launch = some { s with main := .reset } := by
  simp only [mainStep, hm]

theorem mainStep_goto (hm : s.main = .wait w) (h : processWait s e w = some (.goto w', s₁)) :
    mainStep s e launch = some { s₁ with main := .wait w' } := by
  simp only [mainStep, hm, h]

theorem mainStep_ret {ok : Bool} (hm : s.main = .wait w) (h : processWait s e w = some (.ret ok, s₁)) :
    mainStep s e launch = some { s₁ with main := .sleep ok } := by
  simp only [mainStep, hm, h]

end

/-- The parent has launched a worker, or has given up: the last one ended with code 2, or `fork` failed. -/
def Settled (launch : Bool) (s : State) : Prop :=
  (∃ pid, s.main = .assign pid) ∨ s.status = .exited 2 ∨ launch = false ∧ s.status = .exited 1

theorem closer (h : Pending s) (hbefore : ∀ pid, s.main ≠ .assign pid) (e : Errno) (launch : Bool) :
    ∃ s', step s (.run e launch) = some s' ∧ (Settled launch s' ∨ Pending s' ∧ distance s' < distance s) := by
  obtain ⟨hrunning, hidle, hwatching, hdead⟩ := h
  have hstep : step s (.run e launch) = mainStep s e launch := by simp [step, hrunning, hidle]
  rw [hstep]
  -- the steps that neither launch a worker nor end the process
  have hnext : ∀ {s'}, mainStep s e launch = some s' → s'.status = s.status → s'.handlers = s.handlers →
      s'.children s'.childPid ≠ .running → distance s' < distance s → ∃ s', mainStep s e launch = some s' ∧
        (Settled launch s' ∨ Pending s' ∧ distance s' < distance s) := by
    intro s' hs hstatus hhandlers hdead' hcloser
    refine ⟨s', hs, .inr ⟨⟨hstatus.trans hrunning, hhandlers.trans hidle, ?_, hdead'⟩, hcloser⟩⟩
    exact watching_mainStep hwatching hs
  cases hm : s.main with
  | assign pid => exact absurd hm (hbefore pid)
  | fork =>
    cases launch with
    | true => exact ⟨_, by simp only [mainStep, hm]; rfl, .inl (.inl ⟨s.npid, rfl⟩)⟩
    | false => exact ⟨_, by simp only [mainStep, hm]; rfl, .inl (.inr (.inr ⟨rfl, rfl⟩))⟩
  | reset => exact hnext (mainStep_reset hm) rfl rfl hdead (by simp [distance, hm])
  | sleep ok => exact hnext (mainStep_sleep hm) rfl rfl hdead (by simp [distance, hm])
  | wait w =>
    cases w with
    | call pid =>
      have hpid : pid = s.childPid := by
        rw [Watching, hm] at hwatching
        exact hwatching pid rfl
      cases hchild : s.children pid with
      | running => exact absurd (hpid ▸ hchild) hdead
      | zombie status =>
        have hwait : processWait s e (.call pid) = some (.goto (.result pid (some status)),
            { s with children := Function.update s.children pid .absent }) := by simp only [processWait, hchild]
        exact hnext (mainStep_goto hm hwait) rfl rfl (by simp [hpid]) (by simp [distance, hm])
      | absent =>
        have hwait : processWait s e (.call pid) = some (.goto (.result pid none), { s with errno := .echild }) := by
          simp only [processWait, hchild]
        exact hnext (mainStep_goto hm hwait) rfl rfl hdead (by simp [distance, hm])
    | result pid re =>
      cases re with
      | some status => exact hnext (mainStep_goto hm rfl) rfl rfl hdead (by simp [distance, hm])
      | none =>
        refine hnext (mainStep_goto hm rfl) rfl rfl hdead ?_
        by_cases herrno : s.errno = .eintr <;> simp [distance, hm, herrno]
    | testGraceful pid =>
      refine hnext (mainStep_goto hm rfl) rfl rfl hdead ?_
      by_cases hset : s.gracefulRestart = true <;> simp [distance, hm, hset]
    | testChild => exact hnext (mainStep_ret hm rfl) rfl rfl hdead (by simp [distance, hm])
    | examine status =>
      cases status with
      | signaled sig => exact hnext (mainStep_ret hm rfl) rfl rfl hdead (by simp [distance, hm])
      | exited rc =>
        by_cases hrc : rc = 2
        · exact ⟨{ s with errno := e, status := .exited 2 }, by simp [mainStep, hm, processWait, hrc],
            .inl (.inr (.inl rfl))⟩
        · have hwait : processWait s e (.examine (.exited rc)) = some (.ret (decide (rc = 0)), { s with errno := e }) := by
            simp only [processWait, if_neg hrc]
          exact hnext (mainStep_ret hm hwait) rfl rfl hdead (by simp [distance, hm])

theorem settled_of_pending (h : Pending s) (e : Errno) (launch : Bool) :
    ∃ n ≤ distance s, ∃ s', Lib.run step (fun _ _ _ => true) s (List.replicate n (.run e launch)) = some s' ∧
      Settled launch s' := by
  induction hd : distance s using Nat.strongRecOn generalizing s with
  | ind d ih =>
    by_cases hlaunched : ∃ pid, s.main = .assign pid
    · exact ⟨0, Nat.zero_le _, s, rfl, .inl hlaunched⟩
    · obtain ⟨s₁, hs₁, hnext⟩ := closer h (fun pid hm => hlaunched ⟨pid, hm⟩) e launch
      have hrun : ∀ n s', Lib.run step (fun _ _ _ => true) s₁ (List.replicate n (.run e launch)) = some s' →
          Lib.run step (fun _ _ _ => true) s (List.replicate (n + 1) (.run e launch)) = some s' := by
        intro n s' hs'
        exact Lib.run_cons_eq_some.mpr ⟨s₁, hs₁, rfl, hs'⟩
      have hpos : 1 ≤ distance s := distance_pos fun pid hm => hlaunched ⟨pid, hm⟩
      rcases hnext with hsettled | ⟨hpending, hcloser⟩
      · exact ⟨1, hd ▸ hpos, s₁, hrun 0 s₁ rfl, hsettled⟩
      · obtain ⟨n, hn, s', hs', hgoal⟩ := ih (distance s₁) (hd ▸ hcloser) hpending rfl
        exact ⟨n + 1, by omega, s', hrun n s' hs', hgoal⟩

end Csf.Supervisor
