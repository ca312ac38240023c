import Csf.System.Conserve

/-!
# Refused submissions

`submit_request` can say no at two points. Its own tests come before the allocation of the `REQUEST` and before
`CS_HOLD`; the test of the first stage in `send_to_pipeline` comes after both, and what `submit_request` does with
its result is to return `SUBMIT_GENERIC_ERROR`. A call is modelled from the step that starts it to the step that
returns, with the steps that the other threads make in between.
-/

namespace Csf

open Lib

variable {Stage Worker : Type}

/-! ### Calls -/

section
variable [DecidableEq Stage]

/-- The value that a step makes `submit_request` return. The transaction id is returned as an `int64_t`. -/
def returnValue (cfg : Config Stage Worker) (s : State Stage Worker) : Action Stage Worker → Option Int
  | .main (.refuse _ code) => some code
  | .main (.send r p st flags concat) =>
    if (sendToPipeline cfg p st r flags concat s).2 = .full then some submitGenericError else none
  | .main (.returnTid r _) => some (s.heap r).tid.toInt64.toInt
  | _ => none

/-- The step that returns is a test for a full queue that was met: the one of `submit_request`, which its earlier
tests come before, or the one of `send_to_pipeline`. -/
def meetsFull (cfg : Config Stage Worker) (s : State Stage Worker) : Action Stage Worker → Bool
  | .main (.refuse args _) =>
    !s.gracefulRestart && !hasFlag args.flags requestForce && decide (cfg.pipelineQueueSize ≤ s.pipelineQueueLen) &&
      if h : args.pipelineId.toNat < pipelineSize then (cfg.firstRqcb ⟨args.pipelineId.toNat, h⟩).isSome else false
  | .main (.send r p st flags concat) => decide ((sendToPipeline cfg p st r flags concat s).2 = .full)
  | _ => false

end

/-- The steps made while the main thread is inside `submit_request`: its own, and those of the other threads. -/
def inSubmit : Action Stage Worker → Bool
  | .main (.send ..) | .main (.buffer ..) | .main (.count ..) | .main (.countBuffered ..) | .main (.noticeSkip ..)
  | .main (.noticeClear ..) | .main (.noticeSet ..) | .main (.noticeWrite ..) | .main (.returnTid ..)
  | .worker .. | .signals _ | .tick | .cancel _ => true
  | .main _ => false

variable [DecidableEq Stage] [DecidableEq Worker] [Fintype Worker]

/-- A call of `submit_request` with arguments `args` in `s`, which returns `value` in `s'`; `full` says that a test
for a full queue made it return. -/
inductive SubmitCall (cfg : Config Stage Worker) (s : State Stage Worker) (args : SubmitArgs) :
    State Stage Worker → Int → Bool → Prop
  /-- one of its own tests refuses -/
  | tested {s' : State Stage Worker} {code : Int} (h : step cfg s (.main (.refuse args code)) = some s') :
      SubmitCall cfg s args s' code (meetsFull cfg s (.main (.refuse args code)))
  /-- it goes on to `send_to_pipeline` -/
  | sent {s₁ s₂ s' : State Stage Worker} {p : Pipeline} {st : Stage} {a : Action Stage Worker} {value : Int}
      (h₁ : step cfg s (.main (.submit args p st)) = some s₁)
      (h₂ : Reach (step cfg) (fun t a _ => inSubmit a = true ∧ returnValue cfg t a = none) s₁ s₂)
      (ha : inSubmit a = true) (hv : returnValue cfg s₂ a = some value) (h₃ : step cfg s₂ a = some s') :
      SubmitCall cfg s args s' value (meetsFull cfg s₂ a)

variable [Fintype Stage]

/-- Nothing that belongs to the caller or to the pipeline changed from `s` to `s'`. -/
structure NoTrace (s s' : State Stage Worker) : Prop where
  refCnt : ∀ c, (s'.conns c).refCnt = (s.conns c).refCnt
  len : s'.pipelineQueueLen = s.pipelineQueueLen
  counter : ∀ p, (s'.pcb p).counter = (s.pcb p).counter
  held : ∀ r, 0 < occ (places s') r ↔ 0 < occ (places s) r
  blocks : s'.blocks ⊆ s.blocks

/-! ### Blocks -/

theorem blocks_step {cfg : Config Stage Worker} {s s' : State Stage Worker} {a : Action Stage Worker}
    (hs : step cfg s a = some s') :
    s'.blocks = s.blocks ∨ (∃ args p st, a = .main (.submit args p st) ∧ s'.blocks = s.nreq :: s.blocks) ∨
      ∃ r next rc, a = .main (.dispose r next rc) ∧ s'.blocks = s.blocks.erase r := by
  obtain ⟨-, -, rfl⟩ := step_eq_some hs
  cases a with
  | worker w a => exact .inl (workerEffect_keeps cfg s w a State.blocks fun _ => rfl)
  | main a =>
    rw [effect, mainEffect_plain cfg s a State.blocks fun _ => rfl]
    cases a with
    | submit args p st => exact .inr (.inl ⟨args, p, st, rfl, rfl⟩)
    | dispose r next rc => exact .inr (.inr ⟨r, next, rc, rfl, rfl⟩)
    | send q p st flags concat => exact .inl (sendLocked_keeps cfg q p st flags concat s State.blocks fun _ => rfl)
    | kick ev ok ws => exact .inl ((QueueMove.kickRequestQueue cfg ok s).keeps State.blocks fun _ => rfl)
    | _ => exact .inl rfl
  | signals a => exact .inl (signalEffect_keeps cfg s a State.blocks fun _ => rfl)
  | tick | cancel => exact .inl rfl

theorem blocks_lt {cfg : Config Stage Worker}
    {R : State Stage Worker → Action Stage Worker → State Stage Worker → Prop} {s : State Stage Worker}
    (h : Reachable cfg R s) : ∀ r ∈ s.blocks, r < s.nreq := by
  refine h.invariant (I := fun s => ∀ r ∈ s.blocks, r < s.nreq) (fun r hr => absurd hr List.not_mem_nil) ?_
  intro s a s' hI _ hs r hr
  have hnreq := nreq_step_le hs
  rcases blocks_step hs with hb | ⟨args, p, st, rfl, hb⟩ | ⟨q, next, rc, rfl, hb⟩ <;> rw [hb] at hr
  · have := hI r hr
    omega
  · obtain ⟨-, -, rfl⟩ := step_eq_some hs
    have heq : (effect cfg s (.main (.submit args p st))).nreq = s.nreq + 1 :=
      mainEffect_plain cfg s _ State.nreq fun _ => rfl
    rw [heq]
    rcases List.mem_cons.mp hr with rfl | hr
    · exact Nat.lt_succ_self _
    · exact Nat.lt_succ_of_lt (hI r hr)
  · have := hI r (List.mem_of_mem_erase hr)
    omega

theorem blocks_inSubmit {cfg : Config Stage Worker} {s s' : State Stage Worker} {a : Action Stage Worker}
    (ha : inSubmit a = true) (hs : step cfg s a = some s') : s'.blocks = s.blocks := by
  rcases blocks_step hs with hb | ⟨args, p, st, rfl, -⟩ | ⟨r, next, rc, rfl, -⟩
  · exact hb
  · cases ha
  · cases ha

theorem block_of_sent {cfg : Config Stage Worker} {s s₁ s₂ s' : State Stage Worker} {args : SubmitArgs} {p : Pipeline}
    {st : Stage} {a : Action Stage Worker} (h₁ : step cfg s (.main (.submit args p st)) = some s₁)
    (h₂ : Reach (step cfg) (fun t a _ => inSubmit a = true ∧ returnValue cfg t a = none) s₁ s₂)
    (ha : inSubmit a = true) (h₃ : step cfg s₂ a = some s') : s.nreq ∈ s'.blocks := by
  have hbetween : s.nreq ∈ s₂.blocks := by
    refine h₂.invariant (I := fun t => s.nreq ∈ t.blocks) ?_ fun t a t' ht hR hs => ?_
    · obtain ⟨-, -, rfl⟩ := step_eq_some h₁
      rw [effect, mainEffect_plain cfg s _ State.blocks fun _ => rfl]
      exact List.mem_cons_self
    · rw [blocks_inSubmit hR.1 hs]
      exact ht
  rw [blocks_inSubmit ha h₃]
  exact hbetween

/-! ### The two refusals -/

omit [DecidableEq Worker] [Fintype Worker] [Fintype Stage] in
theorem code_of_meetsFull {cfg : Config Stage Worker} {s : State Stage Worker} {args : SubmitArgs} {code : Int}
    (hcheck : submitCheck cfg args s = .error code) (hfull : meetsFull cfg s (.main (.refuse args code)) = true) :
    code = submitQueueFull := by
  simp only [meetsFull, Bool.and_eq_true, Bool.not_eq_true', decide_eq_true_eq] at hfull
  obtain ⟨⟨⟨hgraceful, hforce⟩, hlen⟩, hfirst⟩ := hfull
  refine (code_of_submitCheck hcheck).resolve_right fun hgeneric => ?_
  split_ifs at hfirst with hid
  rw [hgeneric.2 hgraceful hid] at hfirst
  cases hfirst

/-- **Refused submissions.** For every state of every run and every call of `submit_request`, whatever value it
returns: the call leaves no trace and reports a full queue as `SUBMIT_QUEUE_FULL`, exactly when one of the tests of
`submit_request` itself refuses it. -/
theorem refusal_leaves_no_trace_iff (cfg : Config Stage Worker) {s s' : State Stage Worker} {args : SubmitArgs}
    {value : Int} {full : Bool} (h : Reachable cfg (fun _ _ _ => True) s)
    (hcall : SubmitCall cfg s args s' value full) :
    (NoTrace s s' ∧ (full = true → value = submitQueueFull)) ↔ ∃ code, submitCheck cfg args s = .error code := by
  cases hcall with
  | tested htest =>
    obtain ⟨-, hg, rfl⟩ := step_eq_some htest
    have hcheck := hg.2.2
    refine ⟨fun _ => ⟨value, hcheck⟩, fun _ => ⟨?_, code_of_meetsFull hcheck⟩⟩
    exact ⟨fun _ => rfl, rfl, fun _ => rfl, fun _ => Iff.rfl, List.Subset.refl _⟩
  | sent h₁ h₂ ha hv h₃ =>
    obtain ⟨-, hg, -⟩ := step_eq_some h₁
    refine ⟨fun hno => ?_, fun ⟨code, hcheck⟩ => ?_⟩
    · have hin := hno.1.blocks (block_of_sent h₁ h₂ ha h₃)
      exact absurd (blocks_lt h _ hin) (lt_irrefl _)
    · rw [hg.2.2.1] at hcheck
      cases hcheck

/-- One request fills the pipeline, and the next call is refused with `SUBMIT_QUEUE_FULL`. -/
theorem refusal_leaves_no_trace_run :
    ∃ s s', Reachable (oneStage 1 0) (fun _ _ _ => True) s ∧ (s.rqcb 0).requestHead = [0] ∧
      SubmitCall (oneStage 1 0) s (submitZero 0) s' submitQueueFull true ∧ NoTrace s s' := by
  obtain ⟨s, hs, hhead, hstep, hfull⟩ := exists_reachable (oneStage 1 0) (fun _ _ _ => True)
    ([.main .accept, .main (.readable 0)] ++ submitSteps 0 0)
    (P := fun s => (s.rqcb 0).requestHead = [0] ∧
      (step (oneStage 1 0) s (.main (.refuse (submitZero 0) submitQueueFull))).isSome = true ∧
      meetsFull (oneStage 1 0) s (.main (.refuse (submitZero 0) submitQueueFull)) = true)
    (by decide +kernel)
  obtain ⟨s', hstep⟩ := Option.isSome_iff_exists.mp hstep
  have hcall : SubmitCall (oneStage 1 0) s (submitZero 0) s' submitQueueFull true := hfull ▸ .tested hstep
  obtain ⟨-, hg, -⟩ := step_eq_some hstep
  exact ⟨s, s', hs, hhead, hcall, ((refusal_leaves_no_trace_iff (oneStage 1 0) hs hcall).mpr ⟨_, hg.2.2⟩).1⟩

/-- Request 1 is kicked out and counted down twice, so that request 2 waits in a full first stage while the counter
is 0. The next call passes the test of `submit_request` and is refused by `send_to_pipeline`: it returns
`SUBMIT_GENERIC_ERROR`, the connection keeps one reference more, and the block stays allocated. -/
theorem late_refusal_leaks :
    ∃ s s', Reachable (oneStage 1 0) (fun _ _ _ => True) s ∧
      SubmitCall (oneStage 1 0) s (submitZero 0) s' submitGenericError true ∧
      (s'.conns 0).refCnt = (s.conns 0).refCnt + 1 ∧ 3 ∈ s'.blocks ∧ 3 ∉ s.blocks := by
  obtain ⟨s, hs, hsteps⟩ := exists_reachable (oneStage 1 0) (fun _ _ _ => True)
    ([.main .accept, .main (.readable 0)] ++ submitSteps 0 requestForce ++
      [.worker 0 .lock, .worker 0 (.dequeue 0 [])] ++ submitSteps 1 requestForce ++
      [.worker 0 (.handle 0 0 [] 0 0)] ++ doneSteps 0 ++ kickOutSteps 2 true ++ [.main (.readBlocked 0)] ++ takeSteps ++
      completeSteps 1 (some 0) rcInit 1 ++ completeSteps 0 none 1 1 ++ [.main (.finish 1), .main (.readable 0)])
    (P := fun s => ((step (oneStage 1 0) s (.main (.submit (submitZero 0) 0 0))).any fun s₁ =>
      (step (oneStage 1 0) s₁ (.main (.send 3 0 0 0 false))).any fun s' =>
        returnValue (oneStage 1 0) s₁ (.main (.send 3 0 0 0 false)) == some submitGenericError &&
        meetsFull (oneStage 1 0) s₁ (.main (.send 3 0 0 0 false)) &&
        decide ((s'.conns 0).refCnt = (s.conns 0).refCnt + 1 ∧ 3 ∈ s'.blocks ∧ 3 ∉ s.blocks)) = true)
    (by decide +kernel)
  obtain ⟨s₁, h₁, hsend⟩ := (Option.any_eq_true _ _).mp hsteps
  obtain ⟨s', h₃, hsend⟩ := (Option.any_eq_true _ _).mp hsend
  simp only [Bool.and_eq_true, beq_iff_eq, decide_eq_true_eq] at hsend
  obtain ⟨⟨hvalue, hfull⟩, hleak⟩ := hsend
  exact ⟨s, s', hs, hfull ▸ .sent h₁ .init rfl hvalue h₃, hleak⟩

end Csf
