import Csf.Supervisor.Model

/-!
# One worker serves

A worker that was not told to leave listens on the port of the server, so there should be one of them. `main` launches a
worker when `process_wait` has returned, and that it returns means that the last one has ended or was told to leave, as
long as signals arrive only while the parent is blocked or right behind a `waitpid` that succeeded: then `errno` is what
`waitpid` left there whenever it is looked at, and `graceful_restart` is set by a handler that told the worker `main` is
waiting for. A worker that ends while `main` waits for it causes both, the return of `waitpid` and SIGCHLD.

A SIGHUP between the reset of `graceful_restart` and the assignment of `child_pid` is taken for one that concerns the new
worker. It stays set while the new worker serves, and the next signal of any kind makes the parent launch a second one.
-/

namespace Csf.Supervisor

variable {s s' : State} {a : Action}

def serving (s : State) (p : Nat) : Prop := s.children p = .running ∧ s.told p = false

instance (s : State) (p : Nat) : Decidable (serving s p) := inferInstanceAs (Decidable (_ ∧ _))

/-- `waitpid` has just returned a status to `process_wait`, which is not going to look at `errno`. -/
def WaitPc.succeeded : WaitPc → Bool
  | .result _ (some _) => true
  | _ => false

/-- The activation on top is right behind a `waitpid` that succeeded. -/
def returned (s : State) : Bool :=
  match s.handlers with
  | [] =>
    match s.main with
    | .wait w => w.succeeded
    | _ => false
  | top :: _ =>
    match top.pc with
    | .wait w => w.succeeded
    | _ => false

/-- Signals arrive while the parent is blocked in `waitpid` or `usleep`, or when `waitpid` returns a status. -/
def orderly (s : State) : Action → Bool
  | .deliver _ interrupts => interrupts || returned s
  | _ => true

/-! ### The invariant -/

/-- What `process_wait` of `main` has found out about the worker. -/
def WaitOk (s : State) : WaitPc → Prop
  | .call pid | .testGraceful pid => pid = s.childPid
  | .result pid none => pid = s.childPid ∧ (s.errno = .eintr ∨ s.errno = .echild ∧ ¬serving s s.childPid)
  | .result _ (some _) | .testChild | .examine _ => ¬serving s s.childPid

def Placed (s : State) : MainPc → Prop
  | .reset | .sleep _ => ∀ p, ¬serving s p
  | .fork => s.gracefulRestart = false ∧ ∀ p, ¬serving s p
  | .assign pid => s.gracefulRestart = false ∧ ∀ p, serving s p → p = pid
  | .wait w => WaitOk s w ∧ ∀ p, serving s p → p = s.childPid

/-- `process_wait` is in `waitpid`, or right behind one that succeeded. -/
def WaitPc.atCall : WaitPc → Bool
  | .call _ | .result _ (some _) => true
  | _ => false

def MainPc.atCall : MainPc → Bool
  | .wait w => w.atCall
  | .sleep _ => true
  | _ => false

def Frame.atCall (f : Frame) : Bool :=
  match f.pc with
  | .wait w => w.atCall
  | _ => false

/-- The activations below the one on top are where a signal may reach them. -/
structure Stacked (s : State) : Prop where
  frames : ∀ f ∈ s.handlers.tail, f.atCall = true
  main : s.handlers ≠ [] → s.main.atCall = true
  placed : Placed s s.main

/-- The handler of SIGHUP has set `graceful_restart` and not sent the signal yet. -/
def Telling (s : State) : Prop := ∃ f ∈ s.handlers.head?, f.sig = .hup ∧ f.pc = .kill

structure Inv (s : State) : Prop extends Stacked s where
  graceful : s.gracefulRestart = true → ¬serving s s.childPid ∨ Telling s

/-! ### Steps that leave `main` where it is -/

def Fewer (s s' : State) : Prop := (∀ p, serving s' p → serving s p) ∧ s'.childPid = s.childPid

theorem Fewer.refl (s : State) : Fewer s s := ⟨fun _ hp => hp, rfl⟩

theorem Fewer.not_serving (h : Fewer s s') (hs : ¬serving s s.childPid) : ¬serving s' s'.childPid := by
  rw [h.2]
  exact fun hp => hs (h.1 _ hp)

theorem fewer_tell (pid : Nat) (s : State) : Fewer s (tell pid s) := by
  unfold tell
  split
  · exact ⟨fun p hp => hp, rfl⟩
  · refine ⟨fun p hp => ⟨hp.1, ?_⟩, rfl⟩
    have htold := hp.2
    by_cases hpid : p = pid
    · subst hpid
      simp at htold
    · simpa [Function.update_of_ne hpid] using htold

theorem not_serving_tell (pid : Nat) (s : State) : ¬serving (tell pid s) pid := by
  unfold tell
  split
  · rename_i habsent
    rintro ⟨hrun, -⟩
    rw [habsent] at hrun
    cases hrun
  · rintro ⟨-, htold⟩
    simp at htold

theorem handlers_tell (pid : Nat) (s : State) : (tell pid s).handlers = s.handlers ∧ (tell pid s).main = s.main := by
  unfold tell
  split <;> exact ⟨rfl, rfl⟩

theorem forward_keeps (pid : Nat) (s : State) : Fewer s (forward pid s) ∧ (forward pid s).handlers = s.handlers ∧
    (forward pid s).main = s.main ∧ (forward pid s).gracefulRestart = s.gracefulRestart := by
  unfold forward
  split <;> exact ⟨⟨fun _ hp => hp, rfl⟩, rfl, rfl, rfl⟩

theorem fewer_update {pid : Nat} {c : ChildState} (hc : c ≠ .running) (s : State) (e : Errno) :
    Fewer s { s with children := Function.update s.children pid c, errno := e } := by
  refine ⟨fun p hp => ⟨?_, hp.2⟩, rfl⟩
  have hrun := hp.1
  by_cases hpid : p = pid
  · subst hpid
    simp [hc] at hrun
  · simpa [Function.update_of_ne hpid] using hrun

theorem processWait_keeps {e : Errno} {w : WaitPc} {n : WaitNext} (h : processWait s e w = some (n, s')) :
    Fewer s s' ∧ s'.handlers = s.handlers ∧ s'.main = s.main ∧ s'.gracefulRestart = s.gracefulRestart := by
  cases w with
  | call pid =>
    rw [processWait] at h
    split at h
    · cases h
    · obtain ⟨-, rfl⟩ := Prod.mk.inj (Option.some.inj h)
      exact ⟨fewer_update (by simp) s s.errno, rfl, rfl, rfl⟩
    · obtain ⟨-, rfl⟩ := Prod.mk.inj (Option.some.inj h)
      exact ⟨⟨fun _ hp => hp, rfl⟩, rfl, rfl, rfl⟩
  | result pid re =>
    cases re with
    | none | some =>
      obtain ⟨-, rfl⟩ := Prod.mk.inj (Option.some.inj h)
      exact ⟨.refl s, rfl, rfl, rfl⟩
  | testGraceful | testChild =>
    obtain ⟨-, rfl⟩ := Prod.mk.inj (Option.some.inj h)
    exact ⟨.refl s, rfl, rfl, rfl⟩
  | examine status =>
    cases status with
    | exited | signaled =>
      obtain ⟨-, rfl⟩ := Prod.mk.inj (Option.some.inj h)
      exact ⟨⟨fun _ hp => hp, rfl⟩, rfl, rfl, rfl⟩

theorem Stacked.of_fewer (h : Stacked s) (hne : s.handlers ≠ []) (hfewer : Fewer s s')
    (hhandlers : s'.handlers = s.handlers) (hmain : s'.main = s.main) : Stacked s' := by
  refine ⟨hhandlers ▸ h.frames, fun _ => hmain ▸ h.main hne, ?_⟩
  have hplaced := h.placed
  have hcall := h.main hne
  rw [hmain]
  generalize s.main = m at hplaced hcall ⊢
  cases m with
  | sleep ok => exact fun p hp => hplaced p (hfewer.1 p hp)
  | wait w =>
    cases w with
    | call pid => exact ⟨hplaced.1.trans hfewer.2.symm, fun p hp => (hplaced.2 p (hfewer.1 p hp)).trans hfewer.2.symm⟩
    | result pid re =>
      cases re with
      | none => cases hcall
      | some => exact ⟨hfewer.not_serving hplaced.1, fun p hp => (hplaced.2 p (hfewer.1 p hp)).trans hfewer.2.symm⟩
    | _ => cases hcall
  | _ => cases hcall

theorem Stacked.setPc (h : Stacked s) (pc : HandlerPc) : Stacked (setPc pc s) := by
  unfold Supervisor.setPc
  split
  · exact h
  · rename_i top rest heq
    refine ⟨fun f hf => h.frames f (by rw [heq]; exact hf), fun _ => h.main (by rw [heq]; simp), h.placed⟩

theorem Stacked.handlerReturn (h : Stacked s) (hne : s.handlers ≠ []) : Stacked (handlerReturn s) := by
  have hcall := h.main hne
  have hplaced := h.placed
  have hframes := h.frames
  unfold Supervisor.handlerReturn
  split
  · exact h
  · rename_i top rest heq
    rw [heq, List.tail_cons] at hframes
    -- without an interrupted call only the stack changes
    have hpop : Stacked { s with handlers := rest } :=
      ⟨fun f hf => hframes f (List.mem_of_mem_tail hf), fun _ => hcall, hplaced⟩
    split
    · split
      · split
        · rename_i w hm
          rw [hm] at hcall hplaced
          cases w with
          | call pid => exact ⟨fun f hf => (by cases hf), fun hno => absurd rfl hno, ⟨hplaced.1, .inl rfl⟩, hplaced.2⟩
          | result pid re =>
            cases re with
            | none => cases hcall
            | some => exact ⟨fun f hf => (by cases hf), fun hno => absurd rfl hno, hplaced.1, hplaced.2⟩
          | _ => cases hcall
        · rename_i ok hm
          rw [hm] at hplaced
          exact ⟨fun f hf => (by cases hf), fun hno => absurd rfl hno, hplaced⟩
        · exact hpop
      · split
        · have herrno : Stacked { s with errno := .eintr } := h.of_fewer hne ⟨fun _ hp => hp, rfl⟩ rfl rfl
          exact ⟨fun f hf => hframes f (List.mem_cons_of_mem _ hf), fun _ => hcall, herrno.placed⟩
        · exact hpop
    · exact hpop

theorem handlerReturn_keeps (s : State) : (handlerReturn s).childPid = s.childPid ∧
    (handlerReturn s).gracefulRestart = s.gracefulRestart ∧ ∀ p, serving (handlerReturn s) p ↔ serving s p := by
  obtain ⟨handlers, e, m, heq⟩ : ∃ handlers e m,
      handlerReturn s = { s with handlers := handlers, errno := e, main := m } := by
    unfold handlerReturn
    split
    · exact ⟨_, _, _, rfl⟩
    · split
      · split <;> split <;> exact ⟨_, _, _, rfl⟩
      · exact ⟨_, _, _, rfl⟩
  rw [heq]
  exact ⟨rfl, rfl, fun _ => .rfl⟩

theorem setPc_keeps (pc : HandlerPc) (s : State) : (setPc pc s).childPid = s.childPid ∧
    (setPc pc s).gracefulRestart = s.gracefulRestart ∧ ∀ p, serving (setPc pc s) p ↔ serving s p := by
  unfold setPc
  split <;> exact ⟨rfl, rfl, fun _ => .rfl⟩

theorem inv_handlerReturn (h : Stacked s) (hne : s.handlers ≠ [])
    (hgraceful : s.gracefulRestart = true → ¬serving s s.childPid) : Inv (handlerReturn s) := by
  obtain ⟨hpid, hflag, hserving⟩ := handlerReturn_keeps s
  refine ⟨h.handlerReturn hne, fun hset => .inl ?_⟩
  rw [hpid, hserving]
  exact hgraceful (hflag ▸ hset)

theorem inv_setPc {pc : HandlerPc} (h : Stacked s) (hgraceful : s.gracefulRestart = true → ¬serving s s.childPid) :
    Inv (setPc pc s) := by
  obtain ⟨hpid, hflag, hserving⟩ := setPc_keeps pc s
  refine ⟨h.setPc pc, fun hset => .inl ?_⟩
  rw [hpid, hserving]
  exact hgraceful (hflag ▸ hset)

theorem inv_handlerStep {e : Errno} {top : Frame} {rest : List Frame} (h : Inv s) (hstack : s.handlers = top :: rest)
    (hstep : handlerStep s e top = some s') : Inv s' := by
  have hne : s.handlers ≠ [] := by rw [hstack]; simp
  -- outside of the step that sends the signal, `graceful_restart` means that it was sent
  have hgraceful : top.pc ≠ .kill → s.gracefulRestart = true → ¬serving s s.childPid := by
    intro hpc hset
    refine (h.graceful hset).resolve_right ?_
    rintro ⟨f, hf, -, hkill⟩
    rw [hstack, List.head?_cons, Option.mem_some_iff] at hf
    exact hpc (hf ▸ hkill)
  have htell := fewer_tell s.childPid s
  have htold : ¬serving (tell s.childPid s) (tell s.childPid s).childPid := by
    rw [htell.2]
    exact not_serving_tell s.childPid s
  have hkeep := handlers_tell s.childPid s
  have hstacked := h.toStacked.of_fewer hne htell hkeep.1 hkeep.2
  unfold handlerStep at hstep
  split at hstep
  · rename_i hpc
    have hbefore := hgraceful (by rw [hpc]; simp)
    split at hstep
    · -- SIGHUP: the flag is set before the signal is sent
      rename_i hsig
      obtain rfl := Option.some.inj hstep
      have hset : Stacked { s with gracefulRestart := true } := h.toStacked.of_fewer hne ⟨fun _ hp => hp, rfl⟩ rfl rfl
      refine ⟨hset.setPc .kill, fun _ => .inr ⟨{ top with pc := .kill }, ?_, hsig, rfl⟩⟩
      simp [setPc, hstack]
    · obtain rfl := Option.some.inj hstep
      exact inv_setPc hstacked fun _ => htold
    · obtain rfl := Option.some.inj hstep
      exact inv_setPc hstacked fun _ => htold
    · obtain rfl := Option.some.inj hstep
      exact inv_setPc hstacked fun _ => htold
    · obtain ⟨hfewer, hhandlers, hmain, hflag⟩ := forward_keeps s.childPid s
      obtain rfl := Option.some.inj hstep
      refine inv_handlerReturn (h.toStacked.of_fewer hne hfewer hhandlers hmain) (by rw [hhandlers]; exact hne) ?_
      exact fun hset => hfewer.not_serving (hbefore (hflag ▸ hset))
    · cases hstep
  · obtain rfl := Option.some.inj hstep
    exact inv_handlerReturn hstacked (by rw [hkeep.1]; exact hne) fun _ => htold
  · rename_i w hpc
    split at hstep
    · cases hstep
    all_goals
      rename_i s₁ hwait
      obtain ⟨hfewer, hhandlers, hmain, hflag⟩ := processWait_keeps hwait
      have hdone := h.toStacked.of_fewer hne hfewer hhandlers hmain
      have hafter : s₁.gracefulRestart = true → ¬serving s₁ s₁.childPid := fun hset =>
        hfewer.not_serving (hgraceful (by rw [hpc]; simp) (hflag ▸ hset))
      obtain rfl := Option.some.inj hstep
    · exact inv_setPc hdone hafter
    · unfold afterWait
      split
      · exact ⟨⟨hdone.frames, hdone.main, hdone.placed⟩, fun hset => .inl (hafter hset)⟩
      · exact ⟨⟨hdone.frames, hdone.main, hdone.placed⟩, fun hset => .inl (hafter hset)⟩
      · exact inv_handlerReturn hdone (by rw [hhandlers]; exact hne) hafter
    · exact ⟨⟨hdone.frames, hdone.main, hdone.placed⟩, fun hset => .inl (hafter hset)⟩

/-! ### Steps of `main` -/

/-- What `process_wait` of `main` has found out when it goes on, returns or ends the process. -/
def NextOk (s : State) : WaitNext → Prop
  | .goto w => WaitOk s w
  | .ret _ | .exit _ => ¬serving s s.childPid

theorem nextOk_processWait {e : Errno} {w : WaitPc} {n : WaitNext} (h : WaitOk s w)
    (hgraceful : s.gracefulRestart = true → ¬serving s s.childPid) (hwait : processWait s e w = some (n, s')) :
    NextOk s' n := by
  cases w with
  | call pid =>
    rw [processWait] at hwait
    split at hwait
    · cases hwait
    · rename_i status hzombie
      obtain ⟨rfl, rfl⟩ := Prod.mk.inj (Option.some.inj hwait)
      rintro ⟨hrun, -⟩
      rw [show pid = s.childPid from h] at hrun
      simp at hrun
    · rename_i habsent
      obtain ⟨rfl, rfl⟩ := Prod.mk.inj (Option.some.inj hwait)
      refine ⟨h, .inr ⟨rfl, ?_⟩⟩
      rintro ⟨hrun, -⟩
      rw [show pid = s.childPid from h] at habsent
      rw [show s.children s.childPid = _ from hrun] at habsent
      cases habsent
  | result pid re =>
    cases re with
    | some status =>
      obtain ⟨rfl, rfl⟩ := Prod.mk.inj (Option.some.inj hwait)
      exact h
    | none =>
      obtain ⟨rfl, rfl⟩ := Prod.mk.inj (Option.some.inj hwait)
      obtain ⟨hpid, heintr | ⟨hechild, hnot⟩⟩ := h
      · rw [if_pos heintr]
        exact hpid
      · rw [if_neg (by rw [hechild]; simp)]
        exact hnot
  | testGraceful pid =>
    obtain ⟨rfl, rfl⟩ := Prod.mk.inj (Option.some.inj hwait)
    by_cases hset : s.gracefulRestart = true
    · rw [if_pos hset]
      exact hgraceful hset
    · rw [if_neg hset]
      exact h
  | testChild =>
    obtain ⟨rfl, rfl⟩ := Prod.mk.inj (Option.some.inj hwait)
    exact h
  | examine status =>
    cases status with
    | exited rc =>
      obtain ⟨rfl, rfl⟩ := Prod.mk.inj (Option.some.inj hwait)
      by_cases hrc : rc = 2
      · rw [if_pos hrc]
        exact h
      · rw [if_neg hrc]
        exact h
    | signaled sig =>
      obtain ⟨rfl, rfl⟩ := Prod.mk.inj (Option.some.inj hwait)
      exact h

theorem waitOk_of_exit {e : Errno} {w : WaitPc} {code : Nat} (hwait : processWait s e w = some (.exit code, s'))
    (h : ¬serving s' s'.childPid) : WaitOk s' w := by
  cases w with
  | call pid =>
    rw [processWait] at hwait
    split at hwait <;> cases hwait
  | result pid re => cases re <;> cases hwait
  | testGraceful | testChild => cases hwait
  | examine => exact h

theorem inv_mainStep {e : Errno} {launch : Bool} (h : Inv s) (hstack : s.handlers = [])
    (hstep : mainStep s e launch = some s') : Inv s' := by
  have hgraceful : s.gracefulRestart = true → ¬serving s s.childPid := by
    intro hset
    refine (h.graceful hset).resolve_right ?_
    rintro ⟨f, hf, -⟩
    rw [hstack] at hf
    cases hf
  have hplaced := h.placed
  -- there is no activation above
  have hinv : s'.handlers = [] → Placed s' s'.main → (s'.gracefulRestart = true → ¬serving s' s'.childPid) → Inv s' := by
    intro hnone hmain hflag
    refine ⟨⟨fun f hf => ?_, fun hne => absurd hnone hne, hmain⟩, fun hset => .inl (hflag hset)⟩
    rw [hnone] at hf
    cases hf
  unfold mainStep at hstep
  split at hstep
  · rename_i hm
    rw [hm] at hplaced
    obtain rfl := Option.some.inj hstep
    exact hinv hstack ⟨rfl, hplaced⟩ fun hset => absurd hset (by simp)
  · rename_i hm
    rw [hm] at hplaced
    split at hstep
    · obtain rfl := Option.some.inj hstep
      refine hinv hstack ⟨hplaced.1, fun p hp => ?_⟩ fun hset => absurd (hplaced.1.symm.trans hset) (by simp)
      by_contra hne
      refine hplaced.2 p ⟨?_, hp.2⟩
      simpa [Function.update_of_ne hne] using hp.1
    · obtain rfl := Option.some.inj hstep
      refine hinv hstack ?_ hgraceful
      rw [hm]
      exact hplaced
  · rename_i pid hm
    rw [hm] at hplaced
    obtain rfl := Option.some.inj hstep
    exact hinv hstack ⟨rfl, hplaced.2⟩ fun hset => absurd (hplaced.1.symm.trans hset) (by simp)
  · rename_i w hm
    rw [hm] at hplaced
    split at hstep
    · cases hstep
    all_goals
      rename_i s₁ hwait
      obtain ⟨hfewer, hhandlers, hmain, hflag⟩ := processWait_keeps hwait
      have hnext := nextOk_processWait hplaced.1 hgraceful hwait
      have honly : ∀ p, serving s₁ p → p = s₁.childPid := fun p hp =>
        (hplaced.2 p (hfewer.1 p hp)).trans hfewer.2.symm
      have hafter : s₁.gracefulRestart = true → ¬serving s₁ s₁.childPid := fun hset =>
        hfewer.not_serving (hgraceful (hflag ▸ hset))
      obtain rfl := Option.some.inj hstep
    · exact hinv (hhandlers.trans hstack) ⟨hnext, honly⟩ hafter
    · exact hinv (hhandlers.trans hstack) (fun p hp => hnext (honly p hp ▸ hp)) hafter
    · refine hinv (hhandlers.trans hstack) ?_ hafter
      rw [show s₁.main = _ from hmain.trans hm]
      have hexit := waitOk_of_exit hwait hnext
      exact ⟨hexit, honly⟩
  · rename_i ok hm
    rw [hm] at hplaced
    obtain rfl := Option.some.inj hstep
    exact hinv hstack hplaced hgraceful

/-! ### The theorem -/

theorem WaitOk.of_fewer {w : WaitPc} (h : WaitOk s w) (hfewer : Fewer s s') (herrno : s'.errno = s.errno) :
    WaitOk s' w := by
  cases w with
  | call | testGraceful => exact Eq.trans h hfewer.2.symm
  | result pid re =>
    cases re with
    | some => exact hfewer.not_serving h
    | none => exact ⟨h.1.trans hfewer.2.symm, herrno ▸ h.2.imp_right fun hno => ⟨hno.1, hfewer.not_serving hno.2⟩⟩
  | testChild | examine => exact hfewer.not_serving h

theorem Inv.of_fewer (h : Inv s) (hfewer : Fewer s s') (hhandlers : s'.handlers = s.handlers) (hmain : s'.main = s.main)
    (hflag : s'.gracefulRestart = s.gracefulRestart) (herrno : s'.errno = s.errno) : Inv s' := by
  refine ⟨⟨hhandlers ▸ h.frames, hhandlers ▸ hmain ▸ h.main, ?_⟩, fun hset => ?_⟩
  · have hplaced := h.placed
    rw [hmain]
    generalize s.main = m at hplaced
    cases m with
    | reset | sleep => exact fun p hp => hplaced p (hfewer.1 p hp)
    | fork => exact ⟨hflag.trans hplaced.1, fun p hp => hplaced.2 p (hfewer.1 p hp)⟩
    | assign pid => exact ⟨hflag.trans hplaced.1, fun p hp => hplaced.2 p (hfewer.1 p hp)⟩
    | wait w => exact ⟨hplaced.1.of_fewer hfewer herrno, fun p hp => (hplaced.2 p (hfewer.1 p hp)).trans hfewer.2.symm⟩
  · refine (h.graceful (hflag ▸ hset)).imp hfewer.not_serving ?_
    rintro ⟨f, hf, hkill⟩
    exact ⟨f, hhandlers ▸ hf, hkill⟩

theorem WaitPc.atCall_of_succeeded {w : WaitPc} (h : w.succeeded = true) : w.atCall = true := by
  cases w with
  | result pid re =>
    cases re with
    | none => cases h
    | some => rfl
  | _ => cases h

theorem main_atCall (hnone : s.handlers = []) (h : blocked s = true ∨ returned s = true) : s.main.atCall = true := by
  rw [blocked, returned, hnone] at h
  dsimp only at h
  rcases h with h | h
  · split at h
    · rename_i hm
      rw [hm]
      rfl
    · rename_i hm
      rw [hm]
      rfl
    · cases h
  · split at h
    · rename_i hm
      rw [hm]
      exact WaitPc.atCall_of_succeeded h
    · cases h

theorem top_atCall {top : Frame} {rest : List Frame} (hstack : s.handlers = top :: rest)
    (h : blocked s = true ∨ returned s = true) : top.atCall = true := by
  rw [blocked, returned, hstack] at h
  dsimp only at h
  rcases h with h | h
  · split at h
    · rename_i hpc
      rw [Frame.atCall, hpc]
      rfl
    · cases h
  · split at h
    · rename_i hpc
      rw [Frame.atCall, hpc]
      exact WaitPc.atCall_of_succeeded h
    · cases h

theorem inv_enter {sig : Sig} {pc : HandlerPc} {interrupts : Bool} (h : Inv s)
    (hcall : blocked s = true ∨ returned s = true) : Inv (enter sig pc interrupts s) := by
  have hmain : s.main.atCall = true := by
    by_cases hnone : s.handlers = []
    · exact main_atCall hnone hcall
    · exact h.main hnone
  have htop : ∀ f ∈ s.handlers.head?, f.atCall = true := by
    intro f hf
    obtain ⟨rest, hstack⟩ := List.head?_eq_some_iff.mp hf
    exact top_atCall hstack hcall
  refine ⟨⟨fun f hf => ?_, fun _ => hmain, h.placed⟩, fun hset => .inl ((h.graceful hset).resolve_right ?_)⟩
  · cases hstack : s.handlers with
    | nil =>
      rw [show (enter sig pc interrupts s).handlers.tail = s.handlers from rfl, hstack] at hf
      cases hf
    | cons top rest =>
      rw [show (enter sig pc interrupts s).handlers.tail = s.handlers from rfl, hstack] at hf
      rcases List.mem_cons.mp hf with rfl | hrest
      · exact htop f (by rw [hstack]; rfl)
      · exact h.frames f (by rw [hstack]; exact hrest)
  · rintro ⟨f, hf, -, hkill⟩
    have hat := htop f hf
    rw [Frame.atCall, hkill] at hat
    cases hat

theorem inv_step (h : Inv s) (ha : orderly s a = true) (hs : step s a = some s') : Inv s' := by
  unfold step at hs
  split at hs
  · cases hs
  split at hs
  · rename_i e launch
    split at hs
    · rename_i hstack
      exact inv_mainStep h hstack hs
    · rename_i top rest hstack
      exact inv_handlerStep h hstack hs
  · rename_i sig interrupts
    split at hs
    · cases hs
    · rename_i hguard
      have hcall : blocked s = true ∨ returned s = true := by
        rcases Bool.or_eq_true_iff.mp ha with rfl | hreturned
        · refine .inl ?_
          by_contra hno
          exact hguard (.inr ⟨rfl, by simpa using hno⟩)
        · exact .inr hreturned
      split at hs
      · cases hs
      · rename_i pid _
        obtain rfl := Option.some.inj hs
        have hcleared : Inv { s with pendingChld := none } := h.of_fewer (.refl s) rfl rfl rfl rfl
        exact inv_enter hcleared hcall
      · obtain rfl := Option.some.inj hs
        exact inv_enter h hcall
  · rename_i pid status
    split at hs
    · obtain rfl := Option.some.inj hs
      exact h.of_fewer (fewer_update (by simp) s s.errno) rfl rfl rfl rfl
    · cases hs
  · rename_i pid
    split at hs
    · obtain rfl := Option.some.inj hs
      exact h.of_fewer ⟨fun _ hp => hp, rfl⟩ rfl rfl rfl rfl
    · cases hs

theorem inv_init : Inv State.init where
  frames f hf := by cases hf
  main hne := absurd rfl hne
  placed := by
    refine ⟨rfl, fun p hp => ?_⟩
    by_contra hne
    have hrun : Function.update (fun _ => ChildState.absent) 1 .running p = .running := hp.1
    rw [Function.update_of_ne (show p ≠ 1 from hne)] at hrun
    cases hrun
  graceful hset := by cases hset

/-- **One worker serves.** In every run in which signals reach the parent only while it is blocked in `waitpid` or `usleep`
or when `waitpid` returns a status, whatever signals these are, however children end or stop and however many handlers are
active at the same time, at most one worker runs without having been told to leave, and it is `child_pid` or was launched
just now. -/
theorem one_worker {s : State} (h : Reachable (fun s a _ => orderly s a = true) s) {p q : Nat} (hp : serving s p)
    (hq : serving s q) : p = q ∧ (s.childPid = p ∨ s.main = .assign p) := by
  have hinv : Inv s := h.invariant inv_init fun _ _ _ hI ha hs => inv_step hI ha hs
  have hplaced := hinv.placed
  cases hm : s.main with
  | reset | sleep =>
    rw [hm] at hplaced
    exact absurd hp (hplaced p)
  | fork =>
    rw [hm] at hplaced
    exact absurd hp (hplaced.2 p)
  | assign pid =>
    rw [hm] at hplaced
    obtain rfl := hplaced.2 p hp
    exact ⟨(hplaced.2 q hq).symm, .inr rfl⟩
  | wait w =>
    rw [hm] at hplaced
    exact ⟨(hplaced.2 p hp).trans (hplaced.2 q hq).symm, .inl (hplaced.2 p hp).symm⟩

/-- The parent goes on until its next system call blocks. -/
def runs (n : Nat) : List Action := List.replicate n (.run .other true)

/-- A graceful restart: the old worker still has requests when the new one serves. -/
theorem one_worker_run : ∃ s, Reachable (fun s a _ => orderly s a = true) s ∧ s.children 1 = .running ∧ serving s 2 ∧
    s.childPid = 2 := by
  obtain ⟨s, hs, hold, hnew, hmain⟩ := Lib.exists_reach step (fun s a _ => orderly s a = true) State.init
    (.deliver .hup true :: runs 9)
    (P := fun s => s.children 1 = .running ∧ serving s 2 ∧ s.main = .wait (.call 2)) (by decide +kernel)
  refine ⟨s, hs, hold, hnew, (one_worker hs hnew hnew).2.resolve_right ?_⟩
  rw [hmain]
  simp

/-- A second SIGHUP comes between the reset of `graceful_restart` and the launch, and then the first worker ends: two
workers serve that nobody told to leave. -/
theorem two_workers : ∃ s, Reachable (fun _ _ _ => True) s ∧ serving s 2 ∧ serving s 3 :=
  Lib.exists_reach step (fun _ _ _ => True) State.init
    (.deliver .hup true :: runs 7 ++ .deliver .hup false :: runs 4 ++ .childEnds 1 (.exited 0) :: .deliver .chld true ::
      runs 9)
    (by decide +kernel)

def hupOrderly : Action → Bool
  | .deliver .hup interrupts => interrupts
  | _ => true

/-- SIGCHLD comes between the return of `waitpid` and the test of `errno`, which `printf` in the handler overwrites: the
parent takes the interrupted call for one that failed. -/
theorem two_workers_errno : ∃ s, Reachable (fun _ a _ => hupOrderly a = true) s ∧ serving s 2 ∧ serving s 3 :=
  Lib.exists_reach step (fun _ a _ => hupOrderly a = true) State.init
    (.deliver .hup true :: runs 9 ++ .deliver .usr2 true :: runs 1 ++ .childEnds 1 (.exited 0) :: .deliver .chld false ::
      runs 8)
    (by decide +kernel)

end Csf.Supervisor
