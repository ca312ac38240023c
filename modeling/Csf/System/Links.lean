import Csf.Queue.Links
import Csf.System.Conserve

/-!
# The machine with the pointers of its queues

`linkStep` runs the machine next to the memory of the queues: every step of a thread does to the pointers what its
macros do. In runs that never copy a request, the memory represents the lists of the machine in every state
(`represents_step`), so that what is proved about the lists is true of the pointers, and no macro ever writes through a
pointer that leads nowhere.
-/

namespace Csf

open Lib

variable {Stage Worker : Type} [DecidableEq Stage] [DecidableEq Worker]

def linkEffect (cfg : Config Stage Worker) (s : State Stage Worker) :
    Action Stage Worker → Links Stage → Option (Links Stage)
  | .worker w (.dequeue _ _), m => (m.takeFirst (.stage (cfg.rqcb w))).map Prod.snd
  | .worker _ (.forward r st _ _), m => some (m.insertTail (.stage st) r)
  | .worker _ (.doneInsert r _), m => some (m.insertTail .done r)
  | .main (.send r p st flags concat), m => m.sendToPipeline cfg p st r flags concat s
  | .main (.buffer r p _ _ _), m => some (m.insertTail (.tmp p) r)
  | .main (.countBuffered _ p), m => some (m.linkActive p)
  | .main (.kick _ ok _), m => m.kickRequestQueue cfg ok
  | .main .take, m => m.concat .final .done
  | .main (.dispose r _ _), m => m.remove .final r
  | .signals (.kick ok _), m => m.kickRequestQueue cfg ok
  | _, m => some m

variable [Fintype Worker]

/-- One step of the process together with its effect on the pointers; none where a macro writes through a pointer that
leads nowhere. -/
def linkStep (cfg : Config Stage Worker) (x : State Stage Worker × Links Stage) (a : Action Stage Worker) :
    Option (State Stage Worker × Links Stage) :=
  (step cfg x.1 a).bind fun s' => (linkEffect cfg x.1 a x.2).map (s', ·)

/-- The memory after start-up: every head has been initialized and so have the entries of the pipelines. The entries
of the requests hold what the memory held before. -/
structure Links.Started (m : Links Stage) : Prop where
  first : ∀ q, m.requests.tqhFirst q = .null
  last : ∀ q, m.requests.tqhLast q = .first q
  activeFirst : m.active.tqhFirst () = .null
  activeLast : m.active.tqhLast () = .first ()
  entry : ∀ p, m.active.entryEmpty p = true

omit [DecidableEq Stage] [DecidableEq Worker] in
theorem Links.Started.represents {m : Links Stage} (h : m.Started) :
    Represents (State.init : State Stage Worker) m := by
  have hq : queues (State.init : State Stage Worker) = fun _ => [] := by
    funext q
    cases q <;> rfl
  refine ⟨hq ▸ .of_init h.first h.last, .of_init (fun _ => h.activeFirst) fun _ => h.activeLast, fun p => ?_, fun p => ?_⟩
  · simp [h.entry p, State.init]
  · simp [State.init]

variable [Fintype Stage] {cfg : Config Stage Worker} {s s' : State Stage Worker} {m : Links Stage}

/-! ### One step -/

theorem FlowInv.notMem_queues_of_hand {w : Worker} {r : Nat} (h : FlowInv s) (hr : r ∈ places s (.hand w))
    (q : QueueHead Stage) : r ∉ queues s q := by
  have hother : ∀ pl : Place Stage Worker, pl ≠ .hand w → r ∉ places s pl := fun pl hpl hmem =>
    hpl (h.place_unique hmem hr)
  cases q with
  | tmp p => exact hother (.tmp p) (by simp)
  | stage st => exact hother (.stage st) (by simp)
  | done => exact hother .done (by simp)
  | final => exact hother .final (by simp)

omit [DecidableEq Stage] [DecidableEq Worker] in
theorem FlowInv.occ_of_checked {r : Nat} {p : Pipeline} {st : Stage} {flags : UInt32} {concat : Bool} (h : FlowInv s)
    (hsub : s.sub = .checked r p st flags concat) : occ (places s) r = 0 := by
  have hcons := (h.life r).conserved
  have hnone := (h.life r).checked (by simp [Csf.life, hsub, subPhase])
  simp only [Csf.life] at hcons hnone
  omega

omit [Fintype Stage] [Fintype Worker] in
theorem represents_workerEffect {w : Worker} {a : WorkerAct Stage Worker}
    (hflow : ∀ r ∈ places s (.hand w), ∀ q, r ∉ queues s q) (h : Represents s m) (hg : workerGuard cfg s w a) :
    ∃ m', linkEffect cfg s (.worker w a) m = some m' ∧ Represents (workerEffect cfg s w a) m' := by
  have hsame : queues (workerEffect cfg s w a) = queues s → Represents (workerEffect cfg s w a) m := fun hq =>
    h.congr hq (workerEffect_keeps cfg s w a State.apq fun _ => rfl) fun p => by
      rw [workerEffect_keeps cfg s w a State.pcb fun _ => rfl]
  cases a with
  | dequeue r rest =>
    obtain ⟨-, hhead, -⟩ := hg
    have hq : m.requests.Holds (.stage (cfg.rqcb w)) (s.rqcb (cfg.rqcb w)).requestHead :=
      h.requests.holds (.stage (cfg.rqcb w))
    rw [hhead] at hq
    have hafter : queues (workerEffect cfg s w (.dequeue r rest)) = Function.update (queues s) (.stage (cfg.rqcb w))
        ((queues s (.stage (cfg.rqcb w))).erase r) := by
      funext q
      cases q with
      | stage st =>
        by_cases hst : st = cfg.rqcb w
        · subst hst; simp [queues, workerEffect, setWk, setMutex, hhead]
        · simp [queues, workerEffect, setWk, setMutex, hst]
      | _ => simp [queues, workerEffect, setWk, setMutex]
    obtain ⟨m', hm', h'⟩ := h.remove (r := r) (by simp [queues, hhead]) hafter rfl fun _ => rfl
    exact ⟨m', by simp [linkEffect, Links.takeFirst, hq.first_cons, hm'], h'⟩
  | forward r st rest ws =>
    have hr : r ∈ places s (.hand w) := by
      rw [show places s (.hand w) = inHand (s.wk w) from rfl, hg.1]
      exact List.mem_singleton_self r
    refine ⟨_, rfl, h.insertTail (hflow r hr) ?_ rfl fun _ => rfl⟩
    funext q
    cases q with
    | stage q =>
      by_cases hst : q = st
      · subst hst; simp [queues, workerEffect, setWk, setReq, toNextStage]
      · simp [queues, workerEffect, setWk, setReq, toNextStage, hst]
    | _ => simp [queues, workerEffect, setWk, setReq, toNextStage]
  | doneInsert r rest =>
    have hpc : s.wk w = .doneLocked r rest := hg
    have hr : r ∈ places s (.hand w) := by
      rw [show places s (.hand w) = inHand (s.wk w) from rfl, hpc]
      exact List.mem_singleton_self r
    refine ⟨_, rfl, h.insertTail (hflow r hr) ?_ rfl fun _ => rfl⟩
    funext q
    cases q <;> simp [queues, workerEffect, setWk]
  | handle r cl calls ret errno =>
    exact ⟨m, rfl, hsame (keeps_of_offConns (offConns_touchCsp r _) queues fun _ => rfl)⟩
  | doneWrite r rest => exact ⟨m, rfl, hsame (writeByte_keeps cfg cfg.doneFd _ queues fun _ _ => rfl)⟩
  | _ => exact ⟨m, rfl, hsame rfl⟩

theorem represents_send {r : Nat} {p : Pipeline} {st : Stage} {flags : UInt32} {concat : Bool} (hflow : FlowInv s)
    (h : Represents s m) (hsub : s.sub = .checked r p st flags concat) :
    (sendLocked cfg r p st flags concat s).status = .crashed ∧ m.sendToPipeline cfg p st r flags concat s = none ∨
      ∃ m', m.sendToPipeline cfg p st r flags concat s = some m' ∧
        Represents (sendLocked cfg r p st flags concat s) m' := by
  have hsend := h.sendToPipeline (r := r) cfg p st flags concat (fun _ => hflow.lt_of_occ) (hflow.occ_of_checked hsub)
  have hnull := h.sendToPipeline_nullHead (r := r) cfg p st flags concat
  unfold sendLocked
  generalize sendToPipeline cfg p st r flags concat s = out at hsend hnull ⊢
  obtain ⟨s₁, res⟩ := out
  cases res with
  | nullHead => exact .inl ⟨rfl, hnull rfl⟩
  | full | linked =>
    obtain ⟨m', hm', h'⟩ := hsend (by simp)
    exact .inr ⟨m', hm', h'.congr rfl rfl fun _ => rfl⟩

theorem represents_mainEffect {a : MainAct Stage Worker} (hflow : FlowInv s) (h : Represents s m)
    (hg : mainGuard cfg s a) (hsend : ∀ r p st flags concat, a ≠ .send r p st flags concat) :
    ∃ m', linkEffect cfg s (.main a) m = some m' ∧ Represents (mainEffect cfg s a) m' := by
  have hplain : ∀ {m'}, Represents (mainPlain cfg s a) m' → Represents (mainEffect cfg s a) m' := fun h' =>
    h'.congr (mainEffect_plain cfg s a queues fun _ => rfl) (mainEffect_plain cfg s a State.apq fun _ => rfl) fun p => by
      rw [mainEffect_plain cfg s a State.pcb fun _ => rfl]
  cases a with
  | send r p st flags concat => exact absurd rfl (hsend r p st flags concat)
  | buffer r p st flags concat =>
    have hsub : s.sub = .checked r p st flags concat := hg
    refine ⟨_, rfl, h.insertTail (notMem_queues (hflow.occ_of_checked hsub)) ?_ rfl fun q => ?_⟩
    · funext q
      cases q with
      | tmp q =>
        by_cases hq : q = p
        · subst hq; simp [queues, mainEffect, bufferTmp]
        · simp [queues, mainEffect, bufferTmp, hq]
      | _ => simp [queues, mainEffect, bufferTmp]
    · by_cases hq : q = p
      · subst hq; simp [mainEffect, bufferTmp]
      · simp [mainEffect, bufferTmp, hq]
  | countBuffered r p => exact ⟨_, rfl, (h.linkActive p r).congr rfl rfl fun _ => rfl⟩
  | kick ev ok ws =>
    obtain ⟨m', hm', h'⟩ := h.kickRequestQueue cfg ok
    exact ⟨m', hm', h'.congr rfl rfl fun _ => rfl⟩
  | take =>
    refine h.concat (by simp) ?_ rfl fun _ => rfl
    funext q
    cases q <;> simp [queues, mainEffect, takeDone]
  | dispose r next rc =>
    have hm : s.main = .dispose r next rc := hg
    have hafter : queues (mainPlain cfg s (.dispose r next rc)) = Function.update (queues s) .final
        ((queues s .final).erase r) := by
      funext q
      cases q <;> simp [queues, mainPlain, disposedPlain]
    have hr : r ∈ queues s .final := hflow.final_of_current hm rfl
    obtain ⟨m', hm', h'⟩ := h.remove hr hafter rfl fun _ => rfl
    exact ⟨m', hm', hplain h'⟩
  | count r p st notice ws =>
    refine ⟨m, rfl, h.congr ?_ rfl fun _ => rfl⟩
    funext q
    cases q with
    | stage q =>
      by_cases hst : q = st
      · subst hst; simp [queues, mainEffect, setMutex, countInserted]
      · simp [queues, mainEffect, setMutex, countInserted, hst]
    | _ => rfl
  | returnTid r p =>
    refine ⟨m, rfl, h.congr ?_ rfl fun q => ?_⟩
    · funext q
      cases q with
      | tmp q =>
        by_cases hq : q = p
        · subst hq; simp [queues, mainEffect]
        · simp [queues, mainEffect, hq]
      | _ => rfl
    · by_cases hq : q = p
      · subst hq; simp [mainEffect]
      · simp [mainEffect, hq]
  | _ => exact ⟨m, rfl, hplain (h.congr rfl rfl fun _ => rfl)⟩

/-- **Refinement.** The pointers follow a step of the machine and hold its new lists, or the step ends the process at a
pointer that leads nowhere. -/
theorem represents_step {a : Action Stage Worker} (hflow : FlowInv s) (h : Represents s m)
    (hs : step cfg s a = some s') :
    s'.status = .crashed ∧ linkEffect cfg s a m = none ∨
      ∃ m', linkEffect cfg s a m = some m' ∧ Represents s' m' := by
  obtain ⟨-, hg, rfl⟩ := step_eq_some hs
  cases a with
  | worker w a => exact .inr (represents_workerEffect (fun r hr => hflow.notMem_queues_of_hand hr) h hg)
  | main a =>
    by_cases hsend : ∃ r p st flags concat, a = .send r p st flags concat
    · obtain ⟨r, p, st, flags, concat, rfl⟩ := hsend
      exact represents_send hflow h hg.1
    · simp only [not_exists] at hsend
      exact .inr (represents_mainEffect hflow h hg hsend)
  | signals a =>
    right
    cases a with
    | kick ok ws =>
      obtain ⟨m', hm', h'⟩ := h.kickRequestQueue cfg ok
      exact ⟨m', hm', h'.congr rfl rfl fun _ => rfl⟩
    | _ => exact ⟨m, rfl, h.congr rfl rfl fun _ => rfl⟩
  | tick | cancel => exact .inr ⟨m, rfl, h.congr rfl rfl fun _ => rfl⟩

/-! ### Every run -/

omit [Fintype Stage] in
theorem linkStep_eq_some {x x' : State Stage Worker × Links Stage} {a : Action Stage Worker} :
    linkStep cfg x a = some x' ↔ step cfg x.1 a = some x'.1 ∧ linkEffect cfg x.1 a x.2 = some x'.2 := by
  rw [linkStep, Option.bind_eq_some_iff]
  constructor
  · rintro ⟨s₁, hs, hm⟩
    obtain ⟨m₁, hm₁, rfl⟩ := Option.map_eq_some_iff.mp hm
    exact ⟨hs, hm₁⟩
  · rintro ⟨hs, hm⟩
    exact ⟨x'.1, hs, Option.map_eq_some_iff.mpr ⟨x'.2, hm, rfl⟩⟩

theorem represents_linkStep {x' : State Stage Worker × Links Stage} {a : Action Stage Worker} (hflow : FlowInv s)
    (h : Represents s m) (hx : linkStep cfg (s, m) a = some x') :
    step cfg s a = some x'.1 ∧ Represents x'.1 x'.2 := by
  obtain ⟨hs, hm⟩ := linkStep_eq_some.mp hx
  refine ⟨hs, ?_⟩
  rcases represents_step hflow h hs with ⟨-, hnone⟩ | ⟨m', hm', h'⟩
  · rw [hm] at hnone
    cases hnone
  · obtain rfl : m' = x'.2 := Option.some.inj (hm'.symm.trans hm)
    exact h'

/-- What holds of the machine and its pointers in every run that copies no request. -/
theorem linked_reachable {m₀ : Links Stage} (hm₀ : m₀.Started) {x : State Stage Worker × Links Stage}
    (h : Lib.Reach (linkStep cfg) (fun x a _ => Regular x.1 a) (State.init, m₀) x) :
    FlowInv x.1 ∧ Represents x.1 x.2 := by
  refine h.invariant (I := fun x => FlowInv x.1 ∧ Represents x.1 x.2) ⟨flowInv_init, hm₀.represents⟩ ?_
  rintro ⟨s, m⟩ a x' ⟨hflow, hrep⟩ hR hx
  obtain ⟨hs, hrep'⟩ := represents_linkStep hflow hrep hx
  exact ⟨flowInv_step hflow hR hs, hrep'⟩

/-- The pointers of the queues hold the lists of the machine in every run that copies no request and in which only the
main thread runs `kick_request_queue`, and the next step of any thread finds no pointer that leads nowhere, unless it is
the kick-out from an empty queue. -/
theorem queues_linked {m₀ m : Links Stage} {s : State Stage Worker} (hm₀ : m₀.Started)
    (h : Lib.Reach (linkStep cfg) (fun x a _ => Regular x.1 a ∧ signalKicks a = false) (State.init, m₀) (s, m)) :
    (∀ q, m.requests.Holds q (queues s q)) ∧ m.active.Holds () s.apq ∧
      (∀ p, m.active.entryEmpty p = !(s.pcb p).activeQueueEntry) ∧
      ∀ a s', signalKicks a = false → step cfg s a = some s' → s'.status ≠ .crashed →
        ∃ m', linkStep cfg (s, m) a = some (s', m') := by
  obtain ⟨hflow, hrep⟩ := linked_reachable hm₀ (h.mono fun _ _ _ hR => hR.1)
  refine ⟨hrep.requests.holds, hrep.active.holds (), hrep.entryEmpty_eq, fun a s' _ hs hrun => ?_⟩
  rcases represents_step hflow hrep hs with ⟨hcrash, -⟩ | ⟨m', hm', -⟩
  · exact absurd hcrash hrun
  · exact ⟨m', linkStep_eq_some.mpr ⟨hs, hm'⟩⟩

/-- A memory after start-up whose other words are zero. -/
def Links.zero : Links Stage where
  requests := ⟨fun _ => .null, .first, fun _ => .null, fun _ => some (.first .done)⟩
  active := ⟨fun _ => .null, .first, fun _ => .invalid, fun _ => none⟩

omit [DecidableEq Stage] [Fintype Stage] in
theorem Links.started_zero : (Links.zero : Links Stage).Started := ⟨fun _ => rfl, fun _ => rfl, rfl, rfl, fun _ => rfl⟩

/-- Two requests are buffered, moved to the stage by a kick, and the worker takes the first of them. -/
theorem queues_linked_run : ∃ (s : State (Fin 1) (Fin 1)) (m : Links (Fin 1)), (s.rqcb 0).requestHead = [1] ∧
    m.requests.Holds (.stage 0) [1] ∧ m.active.Holds () [] := by
  obtain ⟨⟨s, m⟩, hreach, hhead, hapq⟩ := Lib.exists_reach (linkStep (oneStage 10 0))
    (fun x a _ => Regular x.1 a ∧ signalKicks a = false) (State.init, Links.zero)
    [.main .accept, .main (.readable 0), .main (.submit (submitZero 0) 0 0), .main (.buffer 0 0 0 0 false),
      .main (.countBuffered 0 0), .main (.returnTid 0 0), .main (.submit (submitZero 0) 0 0), .main (.buffer 1 0 0 0 true), .main (.countBuffered 1 0),
      .main (.returnTid 1 0), .main (.readDone 0), .main (.event .timeout), .main (.drainMiss .timeout),
      .main (.kick .timeout (fun _ => true) fun _ => []), .worker 0 .lock, .worker 0 (.dequeue 0 [1])]
    (P := fun x => (x.1.rqcb 0).requestHead = [1] ∧ x.1.apq = []) (by decide +kernel)
  obtain ⟨hholds, hactive, -, -⟩ := queues_linked Links.started_zero hreach
  refine ⟨s, m, hhead, ?_, ?_⟩
  · exact hhead ▸ hholds (.stage 0)
  · exact hapq ▸ hactive

end Csf
