import Csf.System.Fifo
import Csf.System.Links

/-!
# First in, first out, on the pointers

`linkStep` carries the pointers of the queues along with the lists of the machine. Here the pointers decide: after every
step of `pointerStep` the lists are what a walk along the links finds (`Links.load`), so that what a step does to the
links is what the next one sees, also where one request is linked into two queues. As long as no handler passes on a
request past the loop limit the links hold the lists, the walk finds them again (`Represents.load_eq`), and every run is
one of the machine on lists. Past the limit `submit_next` puts a request on the done queue and on the queue of a stage;
the two queues then share an entry, and the next insertion at the end of one cuts off the end of the other
(`accepted_overtaken`).
-/

namespace Csf

open Lib

variable {Stage Worker : Type}

/-- The state with the lists that the links lead through. -/
def Links.load (m : Links Stage) (s : State Stage Worker) : State Stage Worker :=
  let read := fun q => m.requests.walk s.nreq (m.requests.tqhFirst q)
  { s with
    rqcb := fun st => { s.rqcb st with requestHead := read (.stage st) }
    pcb := fun p => { s.pcb p with tmpRequestHead := read (.tmp p), activeQueueEntry := !m.active.entryEmpty p }
    doneRqcb := { s.doneRqcb with requestHead := read .done }
    finalRequestHead := read .final
    apq := m.active.walk pipelineSize (m.active.tqhFirst ()) }

/-- One step of the process on the links of its queues. -/
def pointerStep [DecidableEq Stage] [DecidableEq Worker] [Fintype Worker] (cfg : Config Stage Worker)
    (x : State Stage Worker × Links Stage) (a : Action Stage Worker) : Option (State Stage Worker × Links Stage) :=
  (linkStep cfg x a).map fun x' => (x'.2.load x'.1, x'.2)

section
variable [DecidableEq Stage] [DecidableEq Worker] [Fintype Worker]

/-- The states of the process and of its links, with the list of requests that some worker has taken off a queue, in runs
all of whose steps meet `R`. -/
abbrev ReachablePointers (cfg : Config Stage Worker) (R : State Stage Worker → Action Stage Worker → Prop)
    (m₀ : Links Stage) : (State Stage Worker × Links Stage) × List Nat → Prop :=
  Reach (withHistory (pointerStep cfg) fun x => dispatches x.1) (fun x a _ => R x.1.1 a) ((State.init, m₀), [])

variable [Fintype Stage] {cfg : Config Stage Worker} {s : State Stage Worker} {m m₀ : Links Stage}

omit [DecidableEq Worker] [DecidableEq Stage] in
theorem FlowInv.queue_length_le (hflow : FlowInv s) (hrep : Represents s m) (q : QueueHead Stage) :
    (queues s q).length ≤ s.nreq := by
  refine (hrep.requests.holds q).length_le fun r hr => ?_
  exact hflow.lt_of_occ (Nat.pos_of_ne_zero fun hzero => notMem_queues hzero q hr)

omit [DecidableEq Worker] [DecidableEq Stage] in
theorem Represents.load_eq (hrep : Represents s m) (hflow : FlowInv s) : m.load s = s := by
  have hread : ∀ q, m.requests.walk s.nreq (m.requests.tqhFirst q) = queues s q := fun q =>
    (hrep.requests.holds q).walk_eq (hflow.queue_length_le hrep q)
  have hactive : m.active.walk pipelineSize (m.active.tqhFirst ()) = s.apq :=
    (hrep.active.holds ()).walk_eq hrep.apq_length_le
  simp only [Links.load, hread, hactive, hrep.entryEmpty_eq, Bool.not_not]
  rfl

/-- A run on the links that copies no request is one on the lists, which the links hold. -/
theorem pointers_reachable (hm₀ : m₀.Started) {x : (State Stage Worker × Links Stage) × List Nat}
    (h : ReachablePointers cfg Regular m₀ x) :
    FlowInv x.1.1 ∧ Represents x.1.1 x.1.2 ∧ ReachableDispatch cfg (x.1.1, x.2) := by
  refine h.invariant (I := fun x => FlowInv x.1.1 ∧ Represents x.1.1 x.1.2 ∧ ReachableDispatch cfg (x.1.1, x.2))
    ⟨flowInv_init, hm₀.represents, .init⟩ ?_
  rintro ⟨⟨s, m⟩, d⟩ a ⟨⟨s', m'⟩, d'⟩ ⟨hflow, hrep, hreach⟩ hR hx
  obtain ⟨hp, hd⟩ := withHistory_eq_some hx
  obtain ⟨⟨s₁, m₁⟩, hlink, heq⟩ := Option.map_eq_some_iff.mp hp
  obtain ⟨hload, rfl⟩ := Prod.mk.inj heq
  obtain ⟨hs₁, hrep₁⟩ := represents_linkStep hflow hrep hlink
  have hflow₁ : FlowInv s₁ := flowInv_step hflow hR hs₁
  obtain rfl : s₁ = s' := (hrep₁.load_eq hflow₁).symm.trans hload
  have hnext : withHistory (step cfg) dispatches (s, d) a = some (s₁, d') :=
    Option.map_eq_some_iff.mpr ⟨s₁, hs₁, congrArg _ hd.symm⟩
  exact ⟨hflow₁, hrep₁, hreach.next trivial hnext⟩

/-- **First in, first out.** In every run in which no handler passes on a request past the loop limit, for every pipeline:
the requests of the first stage's queue followed by those of the temporary queue that no worker has taken yet are in the
order of their submission; and when a worker of the first stage takes a request for the first time, every request of the
pipeline that was accepted before it has been taken by a worker, or was evicted. -/
theorem first_in_first_out (cfg : Config Stage Worker) {d : List Nat} (hm₀ : m₀.Started)
    (h : ReachablePointers cfg Regular m₀ ((s, m), d)) (p : Pipeline) (st : Stage)
    (hfirst : cfg.firstRqcb p = some st) :
    (((s.rqcb st).requestHead ++ (s.pcb p).tmpRequestHead).filter (· ∉ d)).Pairwise (SubmittedBefore s p) ∧
    ∀ w b rest, cfg.rqcb w = st → Guard cfg s (.worker w (.dequeue b rest)) → b ∉ d →
      ∀ a, .submitted a p ∈ s.trace → AcceptedBefore s a b → a ∈ d ∨ .evicted a ∈ s.trace :=
  dispatched_in_order cfg (pointers_reachable hm₀ h).2.2 p st hfirst

end

/-- Request 0 came back to the first stage and was done; request 1 was buffered, request 2 took the buffered one
along. The worker is about to take request 1. -/
theorem first_in_first_out_run :
    ∃ s m d, ReachablePointers (oneStage 8 0) Regular Links.zero ((s, m), d) ∧
      Guard (oneStage 8 0) s (.worker 0 (.dequeue 1 [2])) ∧
      [1, 2].Pairwise (SubmittedBefore s 0) ∧ (0 ∈ d ∨ .evicted 0 ∈ s.trace) := by
  obtain ⟨⟨⟨s, m⟩, d⟩, hs, hg, hline, hsub, hacc, hnot, htaken⟩ := exists_reach
    (withHistory (pointerStep (oneStage 8 0)) fun x => dispatches x.1) (fun x a _ => Regular x.1.1 a)
    ((State.init, Links.zero), [])
    ([.main .accept, .main (.readable 0)] ++ submitSteps 0 0 ++ [.main (.submit (submitZero 0) 0 0),
      .main (.buffer 1 0 0 0 false), .main (.countBuffered 1 0), .main (.returnTid 1 0)] ++
      handleSteps 0 [] pipelineRequeue ++ [.worker 0 (.forward 0 0 [] []), .main (.submit (submitZero 0) 0 0),
      .main (.send 2 0 0 0 true), .main (.count 2 0 0 false []), .main (.returnTid 2 0)] ++
      handleSteps 0 [1, 2] 0 ++ doneSteps 0 ++ [.worker 0 .lock])
    (P := fun x => Guard (oneStage 8 0) x.1.1 (.worker 0 (.dequeue 1 [2])) ∧
      ((x.1.1.rqcb 0).requestHead ++ (x.1.1.pcb 0).tmpRequestHead).filter (· ∉ x.2) = [1, 2] ∧
      .submitted 0 0 ∈ x.1.1.trace ∧ .accepted 0 ∈ x.1.1.trace ∧
      ¬[Event.accepted 0, .accepted 1].Sublist x.1.1.trace ∧ 1 ∉ x.2)
    (by decide +kernel)
  obtain ⟨hsorted, hfifo⟩ := first_in_first_out (oneStage 8 0) Links.started_zero hs 0 0 rfl
  rw [hline] at hsorted
  exact ⟨s, m, d, hs, hg, hsorted, hfifo 0 1 [2] rfl hg htaken 0 hsub ⟨hacc, by decide, hnot⟩⟩

/-- Request 0 is passed around until it is past the limit, and is then linked into the done queue and the queue of the
stage. Request 2 is linked and accepted behind it; request 1, which goes to the done queue, takes the place of request 2
behind request 0. The workers take 0 and 1, request 3 is accepted, and the worker that is about to take it as the first
one overtakes request 2, which no queue holds any more. -/
theorem accepted_overtaken :
    ∃ s m d, ReachablePointers twoWorkers (fun _ _ => True) Links.zero ((s, m), d) ∧
      twoWorkers.firstRqcb 0 = some (twoWorkers.rqcb 1) ∧ Guard twoWorkers s (.worker 1 (.dequeue 3 [])) ∧ 3 ∉ d ∧
      .submitted 2 0 ∈ s.trace ∧ AcceptedBefore s 2 3 ∧ 2 ∉ d ∧ .evicted 2 ∉ s.trace ∧ ∀ q, 2 ∉ queues s q := by
  obtain ⟨⟨⟨s, m⟩, d⟩, hs, hg, htaken, hsub, hacc, hnot, hwaits, hkept, hstage, hdone, hfinal⟩ := exists_reach
    (withHistory (pointerStep twoWorkers) fun x => dispatches x.1) (fun _ _ _ => True) ((State.init, Links.zero), [])
    ([.main .accept, .main (.readable 0)] ++ sharedSubmit 0 ++ sharedSubmit 1 ++ sharedRounds 1 [1] ++
      sharedTake 1 1 [0] ++ sharedRounds 256 [] ++ sharedPastLimit ++ sharedSubmit 2 ++ sharedFinish ++
      sharedTake 0 0 [1] ++ sharedTake 1 1 [] ++ sharedSubmit 3 ++ sharedFinish ++ [.worker 1 .lock])
    (P := fun x => Guard twoWorkers x.1.1 (.worker 1 (.dequeue 3 [])) ∧ 3 ∉ x.2 ∧ .submitted 2 0 ∈ x.1.1.trace ∧
      .accepted 2 ∈ x.1.1.trace ∧ ¬[Event.accepted 2, .accepted 3].Sublist x.1.1.trace ∧ 2 ∉ x.2 ∧
      .evicted 2 ∉ x.1.1.trace ∧ (∀ st, 2 ∉ (x.1.1.rqcb st).requestHead) ∧ 2 ∉ x.1.1.doneRqcb.requestHead ∧
      2 ∉ x.1.1.finalRequestHead ∧ ∀ p, 2 ∉ (x.1.1.pcb p).tmpRequestHead)
    (by decide +kernel)
  refine ⟨s, m, d, hs, rfl, hg, htaken, hsub, ⟨hacc, by decide, hnot⟩, hwaits, hkept, fun q => ?_⟩
  cases q with
  | stage st => exact hstage st
  | done => exact hdone
  | final => exact hfinal.1
  | tmp p => exact hfinal.2 p

end Csf
