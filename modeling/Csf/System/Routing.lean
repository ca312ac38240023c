import Csf.System.Frame

/-!
# The requests of one worker

`routes` goes through the requests of one worker and leaves out the rest of the process. Here it is tied to
the machine. Along any run, whatever the other threads do in between, the `WTI` of a worker holds what the
worker's own requests left over, and `submit_next` sends each request where `routes` does.
-/

namespace Csf

variable {Stage Worker : Type} [DecidableEq Stage]

/-- What a step of a worker does with the request in its hands, if it decides about it. -/
def jobOf (s : State Stage Worker) : WorkerAct Stage Worker → Option Job
  | .handle r _ calls ret errno => some (.handled calls ret errno (s.heap r).nstage)
  | .timedOut .. | .cancelled .. | .noHandler .. => some .bypass
  | _ => none

theorem routes_concat (cfg : Config Stage Worker) (st : Stage) (older jobs : List Job) (job : Job) :
    routes cfg st (leftover cfg older) (jobs ++ [job]) = routes cfg st (leftover cfg older) jobs ++
      [(job.route cfg st (leftover cfg (jobs.reverse ++ older))).1] := by
  induction jobs generalizing older with
  | nil => rfl
  | cons first jobs ih =>
    rw [List.cons_append, routes, routes, route_leftover, ih, List.reverse_cons, List.append_assoc]
    rfl

variable [DecidableEq Worker] [Fintype Worker]

/-- The run brought worker `w` the jobs `jobs`, the latest first, and it chose the queues `outs` for them. -/
inductive Worked (cfg : Config Stage Worker) (w : Worker) :
    List Job → List (List (Dest Stage)) → State Stage Worker → Prop
  | init : Worked cfg w [] [] State.init
  | job {jobs : List Job} {outs : List (List (Dest Stage))} {s s' : State Stage Worker} {a : WorkerAct Stage Worker}
      {job : Job} {r : Nat} {dests : List (Dest Stage)} (h : Worked cfg w jobs outs s)
      (hs : step cfg s (.worker w a) = some s') (hj : jobOf s a = some job) (hw : s'.wk w = .routing r dests) :
      Worked cfg w (job :: jobs) (dests :: outs) s'
  | other {jobs : List Job} {outs : List (List (Dest Stage))} {s s' : State Stage Worker} {a : Action Stage Worker}
      (h : Worked cfg w jobs outs s) (hs : step cfg s a = some s') (hj : ∀ b, a = .worker w b → jobOf s b = none) :
      Worked cfg w jobs outs s'

theorem job_step {cfg : Config Stage Worker} {s s' : State Stage Worker} {w : Worker} {a : WorkerAct Stage Worker}
    {job : Job} (hs : step cfg s (.worker w a) = some s') (hj : jobOf s a = some job) :
    (∃ r, s'.wk w = .routing r (job.route cfg (cfg.rqcb w) (s.nextRqcbp w)).1) ∧
      s'.nextRqcbp w = (job.route cfg (cfg.rqcb w) (s.nextRqcbp w)).2 := by
  obtain ⟨-, -, rfl⟩ := step_eq_some hs
  cases a with
  | handle r cl calls ret errno =>
    obtain rfl := Option.some.inj hj
    obtain ⟨hwk, hnext⟩ := workerEffect_handle cfg s w r cl calls ret errno
    exact ⟨⟨r, hwk⟩, hnext⟩
  | timedOut r cl | cancelled r cl | noHandler r cl =>
    obtain rfl := Option.some.inj hj
    exact ⟨⟨r, Function.update_self _ _ _⟩, rfl⟩
  | _ => cases hj

theorem exists_worked {cfg : Config Stage Worker}
    {R : State Stage Worker → Action Stage Worker → State Stage Worker → Prop} {s : State Stage Worker}
    (h : Reachable cfg R s) (w : Worker) : ∃ jobs outs, Worked cfg w jobs outs s := by
  induction h with
  | init => exact ⟨[], [], .init⟩
  | @next s s' a _ _ hs ih =>
    obtain ⟨jobs, outs, hworked⟩ := ih
    by_cases hj : ∀ b, a = .worker w b → jobOf s b = none
    · exact ⟨jobs, outs, hworked.other hs hj⟩
    · push Not at hj
      obtain ⟨b, rfl, hsome⟩ := hj
      obtain ⟨job, hjob⟩ := Option.ne_none_iff_exists'.mp hsome
      obtain ⟨⟨r, hwk⟩, -⟩ := job_step hs hjob
      exact ⟨_, _, hworked.job hs hjob hwk⟩

variable [Fintype Stage]

theorem nextRqcbp_step {cfg : Config Stage Worker} {s s' : State Stage Worker} {w : Worker}
    {a : Action Stage Worker} (hs : step cfg s a = some s') (hj : ∀ b, a = .worker w b → jobOf s b = none) :
    s'.nextRqcbp w = s.nextRqcbp w := by
  obtain ⟨-, -, rfl⟩ := step_eq_some hs
  cases a with
  | worker v a =>
    cases a with
    | handle r cl calls ret errno =>
      have hv : w ≠ v := by
        rintro rfl
        cases hj _ rfl
      have hnext := keeps_of_offConns (offConns_touchCsp r (handled cfg v r calls ret errno s)) State.nextRqcbp
        fun _ => rfl
      exact (congrFun hnext w).trans (Function.update_of_ne hv _ _)
    | doneWrite r rest =>
      exact congrFun (writeByte_keeps cfg cfg.doneFd _ State.nextRqcbp fun _ _ => rfl) w
    | _ => rfl
  | main a => exact congrFun (mainEffect_keeps cfg s a State.nextRqcbp fun _ => rfl) w
  | signals a => exact congrFun (signalEffect_keeps cfg s a State.nextRqcbp fun _ => rfl) w
  | tick | cancel => rfl

theorem Worked.routes_eq {cfg : Config Stage Worker} {w : Worker} {jobs : List Job}
    {outs : List (List (Dest Stage))} {s : State Stage Worker} (h : Worked cfg w jobs outs s) :
    s.nextRqcbp w = leftover cfg jobs ∧ outs.reverse = routes cfg (cfg.rqcb w) none jobs.reverse := by
  induction h with
  | init => exact ⟨rfl, rfl⟩
  | @job jobs outs s s' a job r dests h hs hj hw ih =>
    obtain ⟨hnext, houts⟩ := ih
    obtain ⟨⟨r', hwk⟩, hnext'⟩ := job_step hs hj
    rw [hnext] at hwk hnext'
    rw [route_leftover] at hnext'
    have hdests : dests = (job.route cfg (cfg.rqcb w) (leftover cfg jobs)).1 := by
      rw [hw] at hwk
      exact (WorkerPc.routing.inj hwk).2
    have hconcat := routes_concat cfg (cfg.rqcb w) [] jobs.reverse job
    rw [List.reverse_reverse, List.append_nil] at hconcat
    refine ⟨hnext', ?_⟩
    rw [List.reverse_cons, List.reverse_cons, houts, hdests]
    exact hconcat.symm
  | other h hs hj ih => exact ⟨(nextRqcbp_step hs hj).trans ih.1, ih.2⟩

/-- Along any run, a worker sends every request where it would send it alone exactly when every request is
undisturbed. -/
theorem Worked.isolated_iff {cfg : Config Stage Worker} {w : Worker} {jobs : List Job}
    {outs : List (List (Dest Stage))} {s : State Stage Worker} (h : Worked cfg w jobs outs s) :
    outs.reverse = jobs.reverse.map (Job.alone cfg (cfg.rqcb w)) ↔
      AllUndisturbed cfg (cfg.rqcb w) [] jobs.reverse := by
  rw [h.routes_eq.2]
  exact routes_eq_alone_iff cfg (cfg.rqcb w) [] jobs.reverse

end Csf
