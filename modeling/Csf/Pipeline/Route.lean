import Csf.Pipeline.Model
import Mathlib.Data.List.Basic

/-!
# Routing: `set_next_stage` and `submit_next`

After a handler returns, `submit_next` picks the queues the request is inserted into. The jump target of
`set_next_stage` lives in the worker's `WTI` and is cleared only by the `PIPELINE_CONTINUE` branch, so it
can outlive the request whose handler set it; the last section says for which sequences of requests that
makes no difference.
-/

namespace Csf

variable {Stage Worker : Type} [DecidableEq Stage] (cfg : Config Stage Worker)

def stageSetOk : Int := 0
def stageSetErr : Int := -1

/-- `set_next_stage`: the return code and the new `wtip->next_rqcbp`. -/
def setNextStage (next : Option Stage) (name : List Char) : Int × Option Stage :=
  match cfg.stageFind name with
  | none => (stageSetErr, next)
  | some st => (stageSetOk, some st)

/-- `wtip->next_rqcbp` after the calls of `set_next_stage` that one handler makes. -/
def afterCalls (next : Option Stage) (calls : List (List Char)) : Option Stage :=
  calls.foldl (fun n name => (setNextStage cfg n name).2) next

/-- What `submit_next` does: the queues it inserts the request into, in order, the new
`wtip->next_rqcbp`, and the request's new `err`. -/
structure Routed (Stage : Type) where
  dests : List (Dest Stage)
  nextRqcbp : Option Stage
  err : Int

/-- A queue pointer that may be NULL, NULL standing for the end of the pipeline. -/
def destOf : Option Stage → Dest Stage
  | some st => .stage st
  | none => .done

/-- `submit_next` for a request with the given `nstage`, `ret` and `err`, in a worker of stage `st`. The
loop test inserts the request into the done queue and then falls through to the normal insertion. -/
def submitNext (st : Stage) (next : Option Stage) (nstage : Nat) (ret err : Int) : Routed Stage :=
  let looped := if maxStageJump < nstage then [Dest.done] else []
  let err' := if maxStageJump < nstage then requestLoop else err
  if ret = pipelineFailed then ⟨[.done], next, err⟩
  else if ret = pipelineContinue then
    match next with
    | some target => ⟨looped ++ [.stage target], none, err'⟩
    | none => ⟨looped ++ [destOf (cfg.nextRqcb st)], none, err'⟩
  else if ret = pipelineBreak then ⟨[.done], next, err⟩
  else if ret = pipelineRequeue then ⟨looped ++ [.stage st], next, err'⟩
  else ⟨[.done], next, err⟩

/-! ### The loop limit -/

/-- The two return codes on which `submit_next` tests for a loop. -/
def passesOn (ret : Int) : Prop := ret = pipelineContinue ∨ ret = pipelineRequeue

instance (ret : Int) : Decidable (passesOn ret) :=
  inferInstanceAs (Decidable (_ ∨ _))

theorem submitNext_single (st : Stage) (next : Option Stage) (nstage : Nat) (ret err : Int)
    (h : passesOn ret → nstage ≤ maxStageJump) :
    ∃ d, (submitNext cfg st next nstage ret err).dests = [d] := by
  unfold submitNext
  by_cases hp : passesOn ret
  · have hle := h hp
    rcases hp with rfl | rfl
    · cases next <;> simp [pipelineFailed, pipelineContinue, Nat.not_lt.mpr hle]
    · simp [pipelineFailed, pipelineContinue, pipelineBreak, pipelineRequeue, Nat.not_lt.mpr hle]
  · have hc : ret ≠ pipelineContinue := fun h => hp (Or.inl h)
    have hr : ret ≠ pipelineRequeue := fun h => hp (Or.inr h)
    simp only [if_neg hc, if_neg hr]
    split_ifs <;> exact ⟨_, rfl⟩

theorem passesOn_of_stage_mem {st : Stage} {next : Option Stage} {nstage : Nat} {ret err : Int} {t : Stage}
    (h : Dest.stage t ∈ (submitNext cfg st next nstage ret err).dests) : passesOn ret := by
  by_contra hp
  have hc : ret ≠ pipelineContinue := fun h => hp (Or.inl h)
  have hr : ret ≠ pipelineRequeue := fun h => hp (Or.inr h)
  simp only [submitNext, if_neg hc, if_neg hr] at h
  split_ifs at h <;> simp at h

theorem submitNext_looped (st : Stage) (next : Option Stage) {nstage : Nat} {ret : Int} (err : Int)
    (hp : passesOn ret) (h : maxStageJump < nstage) :
    ∃ d, (submitNext cfg st next nstage ret err).dests = [.done, d] := by
  rcases hp with rfl | rfl
  · cases next <;> simp [submitNext, pipelineFailed, pipelineContinue, h]
  · simp [submitNext, pipelineFailed, pipelineContinue, pipelineBreak, pipelineRequeue, h]

/-! ### One worker, one request after the other -/

/-- What a worker does with one request: it skips the handler (timed out, cancelled, no handler), or the
handler makes some calls of `set_next_stage`, returns `ret` and leaves `errno`. -/
inductive Job
  | bypass
  | handled (calls : List (List Char)) (ret errno : Int) (nstage : Nat)

/-- The queues a request goes to and `wtip->next_rqcbp` afterwards. -/
def Job.route (st : Stage) (next : Option Stage) : Job → List (Dest Stage) × Option Stage
  | .bypass => ([.done], next)
  | .handled calls ret errno nstage =>
    let routed := submitNext cfg st (afterCalls cfg next calls) nstage ret errno
    (routed.dests, routed.nextRqcbp)

/-- The queues that the requests of a worker go to, in order. -/
def routes (st : Stage) : Option Stage → List Job → List (List (Dest Stage))
  | _, [] => []
  | next, job :: jobs => (job.route cfg st next).1 :: routes st (job.route cfg st next).2 jobs

/-- The queues a request goes to when it is the only one the worker ever sees. -/
def Job.alone (st : Stage) (job : Job) : List (Dest Stage) := (job.route cfg st none).1

/-- The target of the last call of `set_next_stage` that found its stage. -/
def ownJump (calls : List (List Char)) : Option Stage := calls.reverse.findSome? cfg.stageFind

/-- The jump that earlier requests, the latest first, leave behind: the last one set since a handler
returned `PIPELINE_CONTINUE`. -/
def leftover : List Job → Option Stage
  | [] => none
  | .bypass :: older => leftover older
  | .handled calls ret _ _ :: older =>
    if ret = pipelineContinue then none else (ownJump cfg calls).or (leftover older)

/-- `job` meets no jump of an earlier request that would change its way: it sets one itself, it does not
continue, or what is left over is nothing or where it would go anyway. -/
def Undisturbed (st : Stage) (older : List Job) : Job → Prop
  | .handled calls ret _ _ => ret = pipelineContinue → ownJump cfg calls = none →
      leftover cfg older = none ∨ leftover cfg older = cfg.nextRqcb st
  | .bypass => True

omit [DecidableEq Stage] in
theorem afterCalls_eq (next : Option Stage) (calls : List (List Char)) :
    afterCalls cfg next calls = (ownJump cfg calls).or next := by
  induction calls generalizing next with
  | nil => rfl
  | cons name calls ih =>
    have hfold : afterCalls cfg next (name :: calls) = afterCalls cfg (setNextStage cfg next name).2 calls := rfl
    have hown : ownJump cfg (name :: calls) = (ownJump cfg calls).or (cfg.stageFind name) := by
      simp only [ownJump, List.reverse_cons, List.findSome?_append, List.findSome?]
      cases cfg.stageFind name <;> rfl
    rw [hfold, ih, hown, Option.or_assoc, setNextStage]
    cases cfg.stageFind name <;> rfl

theorem submitNext_nextRqcbp (st : Stage) (next : Option Stage) (nstage : Nat) (ret err : Int) :
    (submitNext cfg st next nstage ret err).nextRqcbp = if ret = pipelineContinue then none else next := by
  unfold submitNext
  by_cases hc : ret = pipelineContinue
  · subst hc
    cases next <;> simp [pipelineFailed, pipelineContinue]
  · simp only [if_neg hc]
    split_ifs <;> rfl

theorem submitNext_dests_eq_iff (st : Stage) (next : Option Stage) (nstage : Nat) (ret err : Int) :
    (submitNext cfg st next nstage ret err).dests = (submitNext cfg st none nstage ret err).dests ↔
      (ret = pipelineContinue → next = none ∨ next = cfg.nextRqcb st) := by
  unfold submitNext
  by_cases hc : ret = pipelineContinue
  · subst hc
    cases next with
    | none => simp [pipelineFailed, pipelineContinue]
    | some t =>
      cases cfg.nextRqcb st <;> simp [pipelineFailed, pipelineContinue, destOf]
  · simp only [hc, if_false, false_implies, iff_true]
    split_ifs <;> rfl

theorem route_leftover (st : Stage) (older : List Job) (job : Job) :
    (job.route cfg st (leftover cfg older)).2 = leftover cfg (job :: older) := by
  cases job with
  | bypass => rfl
  | handled calls ret errno nstage =>
    simp only [Job.route, submitNext_nextRqcbp, leftover, afterCalls_eq]

theorem route_eq_alone_iff (st : Stage) (older : List Job) (job : Job) :
    (job.route cfg st (leftover cfg older)).1 = job.alone cfg st ↔ Undisturbed cfg st older job := by
  cases job with
  | bypass => simp [Job.route, Job.alone, Undisturbed]
  | handled calls ret errno nstage =>
    simp only [Job.route, Job.alone, Undisturbed, afterCalls_eq]
    cases hown : ownJump cfg calls with
    | some t => simp
    | none => simpa using submitNext_dests_eq_iff cfg st (leftover cfg older) nstage ret errno

/-- Every request of the sequence is undisturbed by those before it; `older` are the ones before the
sequence, the latest first. -/
def AllUndisturbed (st : Stage) : List Job → List Job → Prop
  | _, [] => True
  | older, job :: jobs => Undisturbed cfg st older job ∧ AllUndisturbed st (job :: older) jobs

theorem routes_eq_alone_iff (st : Stage) (older jobs : List Job) :
    routes cfg st (leftover cfg older) jobs = jobs.map (Job.alone cfg st) ↔ AllUndisturbed cfg st older jobs := by
  induction jobs generalizing older with
  | nil => simp [routes, AllUndisturbed]
  | cons job jobs ih =>
    rw [routes, List.map_cons, List.cons.injEq, route_eq_alone_iff, route_leftover, ih, AllUndisturbed]

/-- **Routing isolation.** In a worker of stage `st` every request of a sequence goes where it would go
alone exactly when every request is undisturbed. -/
theorem routing_isolated_iff (st : Stage) (jobs : List Job) :
    routes cfg st none jobs = jobs.map (Job.alone cfg st) ↔ AllUndisturbed cfg st [] jobs :=
  routes_eq_alone_iff cfg st [] jobs

/-- One pipeline of the three stages `a`, `b` and `c`. -/
def threeStages : Config (Fin 3) (Fin 1) where
  chain p := if p = 0 then [0, 1, 2] else []
  chain_nodup := by decide
  chain_cover := by decide
  modName st := if st = 0 then ['a'] else if st = 1 then ['b'] else ['c']
  delay _ := 0
  requestHandler _ := true
  rqcb _ := 0
  initOk _ := true
  pipelineQueueSize := 8
  requestTimeout := 0
  doneFd := typicalDoneFd
  doneFd_pos := typicalDoneFd_pos
  pipeCapacity := typicalPipeCapacity
  pipeCapacity_pos := typicalPipeCapacity_pos
  maxBlocks := typicalMaxBlocks
  maxBlocks_lt := typicalMaxBlocks_lt

/-- A handler asks for stage `c` and breaks off; the next request, which only continues, goes to `c`
instead of `b`. -/
theorem routing_not_isolated :
    let jobs := [.handled [['c']] pipelineBreak 0 0, .handled [] pipelineContinue 0 0]
    routes threeStages 0 none jobs = [[.done], [.stage 2]] ∧
      jobs.map (Job.alone threeStages 0) = [[.done], [.stage 1]] ∧
      routes threeStages 0 none jobs ≠ jobs.map (Job.alone threeStages 0) := by
  decide

end Csf
