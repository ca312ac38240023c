import Csf.Pipeline.Eviction
import Csf.System.Flow

/-!
# The two ways to time out

A request that waits too long is sorted out by the sweep of a later submission or by the worker that takes it off its
queue. Both compare the same age, so they agree on which requests are too old (`expired_iff`). They do not agree on
what they tell the responder: the worker writes `REQUEST_TIME_OUT` into the request, the sweep leaves `REQUEST_NONE`.

The runs here carry the list of the requests that timed out, each with the way it took. A request that is in this list
or has a flag is on its way out (`Out`): it is never again where another timeout or a kick-out could find it.
-/

namespace Csf

open Lib

variable {Stage Worker : Type}

/-- Where a request was found to be too old. -/
inductive TimeoutPath
  /-- in the queue of a first stage, by `send_to_pipeline` -/
  | sweep
  /-- in the hands of a worker -/
  | worker
  deriving DecidableEq

def TimeoutPath.flags : TimeoutPath → UInt32
  | .sweep => requestNone
  | .worker => requestTimeOut

theorem expired_iff {cfg : Config Stage Worker} {s : State Stage Worker} {x : Nat} (hclock : 1 ≤ (s.heap x).clock) :
    cfg.requestTimeout ≠ 0 ∧ expired cfg s x = true ↔ workerTimedOut cfg s x (age s x) := by
  rw [expired, decide_eq_true_iff, workerTimedOut, age]
  constructor
  · rintro ⟨hset, hold⟩
    exact ⟨hset, by omega, hold⟩
  · rintro ⟨hset, -, hold⟩
    exact ⟨hset, hold⟩

/-! ### On the way out -/

/-- The worker carries the request to the done queue and nowhere else. -/
def bringsOut : WorkerPc Stage → Nat → Prop
  | .routing r dests, x => r = x ∧ dests = [.done]
  | .doneLocked r rest, x => r = x ∧ rest = []
  | _, _ => False

/-- The request has left the stages. -/
def Out (s : State Stage Worker) (x : Nat) : Prop :=
  x ∈ s.doneRqcb.requestHead ∨ x ∈ s.finalRequestHead ∨ .freed x ∈ s.trace ∨ ∃ w, bringsOut (s.wk w) x

theorem mem_inHand_of_bringsOut {pc : WorkerPc Stage} {x : Nat} (h : bringsOut pc x) : x ∈ inHand pc := by
  cases pc with
  | routing r dests => exact List.mem_singleton.mpr h.1.symm
  | doneLocked r rest => exact List.mem_singleton.mpr h.1.symm
  | _ => exact h.elim

variable [DecidableEq Stage] [DecidableEq Worker] [Fintype Stage] [Fintype Worker]

theorem FlowInv.not_out {s : State Stage Worker} (h : FlowInv s) {x : Nat} {pl : Place Stage Worker}
    (hx : x ∈ places s pl) (hdone : pl ≠ .done) (hfinal : pl ≠ .final)
    (hhand : ∀ w, pl = .hand w → ¬ bringsOut (s.wk w) x) : ¬ Out s x := by
  rintro (hout | hout | hout | ⟨w, hout⟩)
  · have hmem : x ∈ places s .done := hout
    exact hdone (h.place_unique hx hmem)
  · have hmem : x ∈ places s .final := hout
    exact hfinal (h.place_unique hx hmem)
  · exact h.not_freed_of_mem hx hout
  · have hmem : x ∈ places s (.hand w) := mem_inHand_of_bringsOut hout
    exact hhand w (h.place_unique hx hmem) hout

theorem FlowInv.not_out_of_waiting {s : State Stage Worker} (h : FlowInv s) {x : Nat} {p : Pipeline} {st : Stage}
    {concat : Bool} (hx : x ∈ waitingQueue p st concat s) : x < s.nreq ∧ ¬ Out s x := by
  rcases List.mem_append.mp hx with hx | hx
  · have hplace : x ∈ places s (.stage st) := hx
    exact ⟨h.lt_of_mem hplace, h.not_out hplace (by simp) (by simp) (by simp)⟩
  · split_ifs at hx
    · have hplace : x ∈ places s (.tmp p) := hx
      exact ⟨h.lt_of_mem hplace, h.not_out hplace (by simp) (by simp) (by simp)⟩
    · exact absurd hx List.not_mem_nil

omit [Fintype Stage] [Fintype Worker] in
theorem out_workerEffect {cfg : Config Stage Worker} {s : State Stage Worker} {w : Worker} {a : WorkerAct Stage Worker}
    (hg : workerGuard cfg s w a) {x : Nat} (h : Out s x) : Out (workerEffect cfg s w a) x := by
  have hdone : x ∈ s.doneRqcb.requestHead → x ∈ (workerEffect cfg s w a).doneRqcb.requestHead := by
    intro hx
    cases a with
    | doneInsert r rest => exact List.mem_append_left _ hx
    | handle r cl calls ret errno =>
      rwa [workerEffect, keeps_of_offConns (offConns_touchCsp r (handled cfg w r calls ret errno s)) State.doneRqcb
        fun _ => rfl]
    | doneWrite r rest => rwa [workerEffect, writeByte_keeps cfg cfg.doneFd _ State.doneRqcb fun _ _ => rfl]
    | _ => exact hx
  rcases h with hx | hx | hx | ⟨v, hv⟩
  · exact .inl (hdone hx)
  · refine .inr (.inl ?_)
    rwa [workerEffect_keeps cfg s w a State.finalRequestHead fun _ => rfl]
  · refine .inr (.inr (.inl ?_))
    rcases trace_workerEffect cfg s w a with heq | ⟨q, heq⟩ <;> simp [heq, hx]
  · by_cases hvw : v = w
    · subst hvw
      -- the worker that carries the request takes its next step with it
      cases a with
      | doneLock r rest =>
        rw [hg.1] at hv
        obtain ⟨rfl, hrest⟩ := hv
        exact .inr (.inr (.inr ⟨v, by simpa [workerEffect, setWk, bringsOut] using hrest⟩))
      | doneInsert r rest =>
        rw [show s.wk v = _ from hg] at hv
        obtain ⟨rfl, -⟩ := hv
        exact .inl (List.mem_append_right _ (List.mem_singleton.mpr rfl))
      | forward r st rest ws =>
        rw [hg.1] at hv
        simp [bringsOut] at hv
      | wait | spurious | exit | doneUnlock | doneSet | doneWrite =>
        rw [show s.wk v = _ from hg] at hv
        exact hv.elim
      | _ =>
        rw [hg.1] at hv
        exact hv.elim
    · exact .inr (.inr (.inr ⟨v, eq_of_wake (bringsOut · x) rfl (wk_workerEffect hg hvw) ▸ hv⟩))

theorem out_mainEffect {cfg : Config Stage Worker} {s : State Stage Worker} {a : MainAct Stage Worker}
    (hg : mainGuard cfg s a) {x : Nat} (h : Out s x) : Out (mainEffect cfg s a) x := by
  have hdone : x ∈ s.doneRqcb.requestHead →
      x ∈ (mainPlain cfg s a).doneRqcb.requestHead ∨ x ∈ (mainPlain cfg s a).finalRequestHead := by
    intro hx
    cases a with
    | take => exact .inr (List.mem_append_right _ hx)
    | send q p st flags concat =>
      exact .inl ((sendLocked_keeps cfg q p st flags concat s State.doneRqcb fun _ => rfl).symm ▸ hx)
    | kick ev ok ws =>
      exact .inl (((QueueMove.kickRequestQueue cfg ok s).keeps State.doneRqcb fun _ => rfl).symm ▸ hx)
    | _ => exact .inl hx
  have hfinal : x ∈ s.finalRequestHead →
      x ∈ (mainPlain cfg s a).finalRequestHead ∨ .freed x ∈ (mainPlain cfg s a).trace := by
    intro hx
    cases a with
    | take => exact .inl (List.mem_append_left _ hx)
    | send q p st flags concat =>
      refine .inl ?_
      simp only [mainPlain, mainEffect]
      obtain ⟨s₁, ev, new, hmove, -, sub, mutex, status, heq⟩ := sendLocked_move cfg q p st flags concat s
      simp only [heq, hmove.final]
      exact List.mem_append_left _ hx
    | kick ev ok ws =>
      refine .inl ?_
      simp only [mainPlain, mainEffect, kickAll, (QueueMove.kickRequestQueue cfg ok s).final]
      exact List.mem_append_left _ hx
    | dispose q next rc =>
      by_cases hq : x = q
      · subst hq
        exact .inr List.mem_cons_self
      · exact .inl ((List.mem_erase_of_ne hq).mpr hx)
    | _ => exact .inl hx
  rcases h with hx | hx | hx | ⟨w, hw⟩
  · rw [Out, mainEffect_plain cfg s a State.doneRqcb fun _ => rfl,
      mainEffect_plain cfg s a State.finalRequestHead fun _ => rfl]
    exact (hdone hx).imp_right .inl
  · rw [Out, mainEffect_plain cfg s a State.finalRequestHead fun _ => rfl,
      mainEffect_plain cfg s a State.trace fun _ => rfl]
    exact .inr ((hfinal hx).imp_right .inl)
  · exact .inr (.inr (.inl ((mem_mainEffect cfg s a (by simp) (by simp)).mpr (.inr hx))))
  · exact .inr (.inr (.inr ⟨w, eq_of_wake (bringsOut · x) rfl (wk_mainEffect hg w) ▸ hw⟩))

theorem out_step {cfg : Config Stage Worker} {s s' : State Stage Worker} {a : Action Stage Worker}
    (hs : step cfg s a = some s') {x : Nat} (h : Out s x) : Out s' x := by
  obtain ⟨-, hg, rfl⟩ := step_eq_some hs
  cases a with
  | worker w a => exact out_workerEffect hg h
  | main a => exact out_mainEffect hg h
  | signals a =>
    rcases h with hx | hx | hx | ⟨w, hw⟩
    · exact .inl ((signalEffect_keeps cfg s a State.doneRqcb fun _ => rfl).symm ▸ hx)
    · obtain ⟨s₁, wk, sig, g, hmove, heq⟩ := signalEffect_move cfg s a
      refine .inr (.inl ?_)
      rw [effect, heq]
      exact hmove.final ▸ List.mem_append_left _ hx
    · exact .inr (.inr (.inl (mem_step hs (by simp) (by simp) hx)))
    · exact .inr (.inr (.inr ⟨w, eq_of_wake (bringsOut · x) rfl (wk_signalEffect hg w) ▸ hw⟩))
  | tick | cancel => exact h

/-! ### Flags and clocks along a step -/

theorem born_step {cfg : Config Stage Worker} {s s' : State Stage Worker} {a : Action Stage Worker}
    (hs : step cfg s a = some s') {r : Nat} (hr : r < s'.nreq) :
    r < s.nreq ∨ ∃ args, s'.heap r = newRequest args s := by
  obtain ⟨-, -, rfl⟩ := step_eq_some hs
  cases a with
  | worker w a => exact .inl ((workerEffect_keeps cfg s w a State.nreq fun _ => rfl) ▸ hr)
  | main a =>
    rcases nreq_mainEffect cfg s a with hsame | ⟨args, p, st, rfl, hnext⟩
    · exact .inl (hsame ▸ hr)
    · rw [effect, hnext] at hr
      rcases Nat.lt_succ_iff_lt_or_eq.mp hr with hold | rfl
      · exact .inl hold
      · refine .inr ⟨args, ?_⟩
        rw [effect, mainEffect_plain cfg s _ State.heap fun _ => rfl]
        simp [mainPlain, preparedPlain, allocRequest]
  | signals a => exact .inl ((signalEffect_keeps cfg s a State.nreq fun _ => rfl) ▸ hr)
  | tick | cancel => exact .inl hr

theorem clock_step {cfg : Config Stage Worker} {s s' : State Stage Worker} {a : Action Stage Worker}
    (hs : step cfg s a = some s') {r : Nat} (hr : r < s.nreq) : (s'.heap r).clock = (s.heap r).clock := by
  obtain ⟨n, f, x, e, d, c, h, -⟩ := block_step hs (Nat.ne_of_lt hr)
  rw [h]

theorem clockOff_step {cfg : Config Stage Worker} {s s' : State Stage Worker} {a : Action Stage Worker}
    (hs : step cfg s a = some s') : s.clockOff ≤ s'.clockOff := by
  obtain ⟨-, -, rfl⟩ := step_eq_some hs
  cases a with
  | worker w a => exact (workerEffect_keeps cfg s w a State.clockOff fun _ => rfl).ge
  | main a => exact (mainEffect_keeps cfg s a State.clockOff fun _ => rfl).ge
  | signals a => exact (signalEffect_keeps cfg s a State.clockOff fun _ => rfl).ge
  | tick => exact Int.le_of_lt (Int.lt_add_one_of_le le_rfl)
  | cancel q => exact le_rfl

omit [Fintype Stage] [Fintype Worker] in
theorem flags_workerEffect (cfg : Config Stage Worker) (s : State Stage Worker) (w : Worker)
    (a : WorkerAct Stage Worker) (x : Nat) :
    ((workerEffect cfg s w a).heap x).flags = (s.heap x).flags ∨
      ∃ cl, a = .timedOut x cl ∧ ((workerEffect cfg s w a).heap x).flags = requestTimeOut := by
  have hset : ∀ (q : Nat) (req : Request), req.flags = (s.heap q).flags →
      (Function.update s.heap q req x).flags = (s.heap x).flags := by
    intro q req h
    by_cases hq : x = q
    · subst hq
      rw [Function.update_self, h]
    · rw [Function.update_of_ne hq]
  cases a with
  | timedOut q cl =>
    by_cases hq : x = q
    · subst hq
      exact .inr ⟨cl, rfl, by simp [workerEffect, setWk, setReq]⟩
    · exact .inl (by simp [workerEffect, setWk, setReq, Function.update_of_ne hq])
  | cancelled q cl => exact .inl (hset q _ rfl)
  | handle q cl calls ret errno =>
    have h := keeps_of_offConns (offConns_touchCsp q (handled cfg w q calls ret errno s)) State.heap fun _ => rfl
    simp only [workerEffect, h]
    exact .inl (hset q _ rfl)
  | forward q st rest ws => exact .inl (hset q _ rfl)
  | doneWrite q rest =>
    exact .inl (by rw [workerEffect, writeByte_keeps cfg cfg.doneFd _ State.heap fun _ _ => rfl]; rfl)
  | _ => exact .inl rfl

omit [DecidableEq Worker] [Fintype Stage] [Fintype Worker] in
theorem heap_kickRequestQueue (cfg : Config Stage Worker) (ok : Pipeline → Bool) (s : State Stage Worker) :
    (kickRequestQueue cfg ok s).heap = s.heap := by
  have hone : ∀ (t : State Stage Worker) (p : Pipeline), (kickPcb cfg ok t p).heap = t.heap := by
    intro t p
    unfold kickPcb
    split
    · rfl
    · split
      · split <;> rfl
      · rfl
  unfold kickRequestQueue
  generalize s.apq = l
  induction l generalizing s with
  | nil => rfl
  | cons p l ih => exact (ih _).trans (hone s p)

omit [DecidableEq Worker] [Fintype Stage] [Fintype Worker] in
theorem sendLocked_fst {β : Type} (cfg : Config Stage Worker) (r : Nat) (p : Pipeline) (st : Stage) (flags : UInt32)
    (concat : Bool) (s : State Stage Worker) (f : State Stage Worker → β)
    (hf : ∀ t sub status mutex, f { t with sub := sub, status := status, mutex := mutex } = f t) :
    f (sendLocked cfg r p st flags concat s) = f (sendToPipeline cfg p st r flags concat s).1 := by
  unfold sendLocked
  rcases sendToPipeline cfg p st r flags concat s with ⟨t, full | nullHead | notice⟩
  · exact hf t .none t.status t.mutex
  · exact hf t t.sub .crashed t.mutex
  · exact hf t _ t.status _

omit [DecidableEq Worker] [Fintype Stage] [Fintype Worker] in
theorem heap_afterSweep (cfg : Config Stage Worker) (st : Stage) (r : Nat) (flags : UInt32)
    (s : State Stage Worker) : (insertTail st r (sweepTimedOut cfg st flags s)).heap = s.heap := by
  rw [sweepTimedOut_eq]
  split_ifs <;> rfl

omit [DecidableEq Worker] [Fintype Stage] [Fintype Worker] in
theorem flags_sendToPipeline (cfg : Config Stage Worker) (p : Pipeline) (st : Stage) (r : Nat) (flags : UInt32)
    (concat : Bool) (s : State Stage Worker) (x : Nat) :
    ((sendToPipeline cfg p st r flags concat s).1.heap x).flags = (s.heap x).flags ∨
      x ∈ waitingQueue p st concat s ∧ x ∈ (sendToPipeline cfg p st r flags concat s).1.finalRequestHead := by
  have hsame : (concatBuffered p st concat s).heap = s.heap :=
    concatBuffered_keeps p st concat s State.heap fun _ _ _ _ => rfl
  cases hsweep : beforeSweep cfg p st flags concat s with
  | none => exact .inl (by rw [sendToPipeline_of_none r hsweep, hsame])
  | some s₁ =>
    have hfinal : s₁.finalRequestHead ⊆ (insertTail st r (sweepTimedOut cfg st flags s₁)).finalRequestHead := by
      rw [sweepTimedOut_eq]
      split_ifs
      · exact List.subset_append_left _ _
      · exact List.Subset.refl _
    rw [sendToPipeline_of_beforeSweep r hsweep, heap_afterSweep]
    rcases beforeSweep_cases hsweep with rfl | ⟨k, rest, hqueue, rfl⟩
    · exact .inl (by rw [hsame])
    · by_cases hx : x = k
      · subst hx
        exact .inr ⟨hqueue ▸ List.mem_cons_self, hfinal (List.mem_append_right _ (List.mem_singleton.mpr rfl))⟩
      · refine .inl ?_
        simp only [moveToFinal, markKicked, List.mem_singleton, if_neg hx, hsame]

omit [Fintype Stage] [Fintype Worker] in
theorem flags_mainEffect (cfg : Config Stage Worker) (s : State Stage Worker) (a : MainAct Stage Worker) {x : Nat}
    (hx : x < s.nreq) :
    ((mainEffect cfg s a).heap x).flags = (s.heap x).flags ∨
      ∃ r p st flags concat, a = .send r p st flags concat ∧ x ∈ waitingQueue p st concat s ∧
        x ∈ (mainEffect cfg s a).finalRequestHead := by
  rw [mainEffect_plain cfg s a State.heap fun _ => rfl]
  cases a with
  | submit args p st =>
    refine .inl ?_
    simp only [mainPlain, preparedPlain, allocRequest, Function.update_of_ne hx.ne]
  | send r p st flags concat =>
    have hheap := sendLocked_fst cfg r p st flags concat s State.heap fun _ _ _ _ => rfl
    have hfinal := sendLocked_fst cfg r p st flags concat s State.finalRequestHead fun _ _ _ _ => rfl
    simp only [mainPlain, mainEffect, hheap, hfinal]
    rcases flags_sendToPipeline cfg p st r flags concat s x with h | ⟨hwaits, hout⟩
    · exact .inl h
    · exact .inr ⟨r, p, st, flags, concat, rfl, hwaits, hout⟩
  | kick ev ok ws => exact .inl (by simp only [mainPlain, mainEffect, kickAll, heap_kickRequestQueue])
  | dispose q next rc =>
    refine .inl ?_
    simp only [mainPlain, disposedPlain, dropCleaner]
    split
    · rfl
    · by_cases hq : x = q
      · subst hq
        simp
      · simp [Function.update_of_ne hq]
  | _ => exact .inl rfl

theorem flags_step {cfg : Config Stage Worker} {s s' : State Stage Worker} {a : Action Stage Worker}
    (hflow : FlowInv s) (hs : step cfg s a = some s') {x : Nat} (hx : x < s.nreq) :
    (s'.heap x).flags = (s.heap x).flags ∨ ¬ Out s x ∧ Out s' x := by
  obtain ⟨-, hg, rfl⟩ := step_eq_some hs
  cases a with
  | worker w a =>
    rcases flags_workerEffect cfg s w a x with h | ⟨cl, rfl, -⟩
    · exact .inl h
    · have hpc : s.wk w = .holding x cl := hg.1
      have hplace : x ∈ places s (.hand w) := by
        simp only [places, placesOf, hpc, inHand, List.mem_singleton]
      refine .inr ⟨hflow.not_out hplace (by simp) (by simp) ?_, ?_⟩
      · rintro v ⟨⟩
        rw [hpc]
        exact id
      · exact .inr (.inr (.inr ⟨w, by simp [effect, workerEffect, setWk, bringsOut]⟩))
  | main a =>
    rcases flags_mainEffect cfg s a hx with h | ⟨r, p, st, flags, concat, rfl, hwaits, hout⟩
    · exact .inl h
    · exact .inr ⟨(hflow.not_out_of_waiting hwaits).2, .inr (.inl hout)⟩
  | signals a =>
    refine .inl ?_
    cases a with
    | kick ok ws => simp only [effect, signalEffect, kickAll, heap_kickRequestQueue]
    | _ => rfl
  | tick => exact .inl rfl
  | cancel q =>
    refine .inl ?_
    by_cases hq : x = q
    · subst hq
      simp [effect, setReq]
    · simp [effect, setReq, Function.update_of_ne hq]

/-! ### Runs with the list of timeouts -/

def timeouts (cfg : Config Stage Worker) (s : State Stage Worker) : Action Stage Worker → List (TimeoutPath × Nat)
  | .worker _ (.timedOut r _) => [(.worker, r)]
  | .main (.send _ p st flags concat) =>
    ((beforeSweep cfg p st flags concat s).elim [] (sweptOut cfg st flags)).map (.sweep, ·)
  | _ => []

/-- What holds of the flags and clocks in every run, with the list of the timeouts. -/
structure ExpiryInv (s : State Stage Worker) (hist : List (TimeoutPath × Nat)) : Prop where
  clock : 1 ≤ s.clockOff
  stamped : ∀ r < s.nreq, 1 ≤ (s.heap r).clock
  noted : ∀ path r, (path, r) ∈ hist → r < s.nreq ∧ Out s r ∧ (s.heap r).flags = path.flags
  marked : ∀ r < s.nreq, (s.heap r).flags ≠ requestNone → Out s r

theorem FlowInv.nodup_waiting {s : State Stage Worker} (h : FlowInv s) (p : Pipeline) (st : Stage) (concat : Bool) :
    (waitingQueue p st concat s).Nodup := by
  rw [List.nodup_iff_count_le_one]
  intro x
  have hone := h.occ_le_one x
  have htwo : (s.rqcb st).requestHead.count x + (s.pcb p).tmpRequestHead.count x ≤ occ (places s) x :=
    add_count_le_occ (places s) (p := .stage st) (q := .tmp p) (by simp) x
  rw [waitingQueue, List.count_append]
  split_ifs
  · omega
  · rw [List.count_nil]
    omega

theorem waiting_of_sweptOut {cfg : Config Stage Worker} {s s₁ : State Stage Worker} (hflow : FlowInv s) {p : Pipeline}
    {st : Stage} {flags : UInt32} {concat : Bool} (hsweep : beforeSweep cfg p st flags concat s = some s₁) {x : Nat}
    (hx : x ∈ (s₁.rqcb st).requestHead) : x ∈ waitingQueue p st concat s ∧ s₁.heap x = s.heap x := by
  have hqueue := requestHead_concatBuffered p st concat s
  have hsame : (concatBuffered p st concat s).heap = s.heap :=
    concatBuffered_keeps p st concat s State.heap fun _ _ _ _ => rfl
  rcases beforeSweep_cases hsweep with rfl | ⟨k, rest, hhead, rfl⟩
  · exact ⟨hqueue ▸ hx, by rw [hsame]⟩
  · have hrest : x ∈ rest := by simpa [moveToFinal] using hx
    have hnodup := hflow.nodup_waiting p st concat
    rw [hhead, List.nodup_cons] at hnodup
    have hne : x ≠ k := fun h => hnodup.1 (h ▸ hrest)
    refine ⟨hhead ▸ List.mem_cons_of_mem k hrest, ?_⟩
    simp only [moveToFinal, markKicked, List.mem_singleton, if_neg hne, hsame]

theorem timeouts_step {cfg : Config Stage Worker} {s s' : State Stage Worker} {a : Action Stage Worker}
    (hflow : FlowInv s) (hmarked : ∀ r < s.nreq, (s.heap r).flags ≠ requestNone → Out s r)
    (hs : step cfg s a = some s') {path : TimeoutPath} {x : Nat} (hx : (path, x) ∈ timeouts cfg s a) :
    x < s.nreq ∧ Out s' x ∧ (s'.heap x).flags = path.flags := by
  obtain ⟨-, hg, rfl⟩ := step_eq_some hs
  unfold timeouts at hx
  split at hx
  · rename_i w r cl
    obtain ⟨rfl, rfl⟩ := Prod.mk.inj (List.mem_singleton.mp hx)
    have hplace : x ∈ places s (.hand w) := by
      simp only [places, placesOf, show s.wk w = .holding x cl from hg.1, inHand, List.mem_singleton]
    refine ⟨hflow.lt_of_mem hplace, .inr (.inr (.inr ⟨w, ?_⟩)), ?_⟩
    · simp [effect, workerEffect, setWk, bringsOut]
    · simp [effect, workerEffect, setWk, setReq, TimeoutPath.flags]
  · rename_i r p st flags concat
    obtain ⟨y, hy, heq⟩ := List.mem_map.mp hx
    obtain ⟨rfl, rfl⟩ := Prod.mk.inj heq
    cases hsweep : beforeSweep cfg p st flags concat s with
    | none =>
      rw [hsweep] at hy
      exact absurd hy List.not_mem_nil
    | some s₁ =>
      rw [hsweep] at hy
      have hy : y ∈ sweptOut cfg st flags s₁ := hy
      obtain ⟨hwaits, hblock⟩ := waiting_of_sweptOut hflow hsweep (mem_of_mem_sweptOut hy)
      obtain ⟨hborn, hnot⟩ := hflow.not_out_of_waiting hwaits
      have hnone : (s.heap y).flags = requestNone := by
        by_contra hflags
        exact hnot (hmarked y hborn hflags)
      refine ⟨hborn, .inr (.inl ?_), ?_⟩
      · rw [effect, mainEffect, sendLocked_fst cfg r p st flags concat s State.finalRequestHead fun _ _ _ _ => rfl,
          sendToPipeline_of_beforeSweep r hsweep]
        exact List.mem_of_mem_drop hy
      · rw [effect, mainEffect, sendLocked_fst cfg r p st flags concat s State.heap fun _ _ _ _ => rfl,
          sendToPipeline_of_beforeSweep r hsweep, heap_afterSweep, hblock]
        exact hnone
  · exact absurd hx List.not_mem_nil

theorem expiryInv_step {cfg : Config Stage Worker} {s s' : State Stage Worker} {a : Action Stage Worker}
    {hist : List (TimeoutPath × Nat)} (hflow : FlowInv s) (h : ExpiryInv s hist) (hs : step cfg s a = some s') :
    ExpiryInv s' (timeouts cfg s a ++ hist) where
  clock := h.clock.trans (clockOff_step hs)
  stamped r hr := by
    rcases born_step hs hr with hold | ⟨args, hnew⟩
    · rw [clock_step hs hold]
      exact h.stamped r hold
    · rw [hnew]
      exact h.clock
  noted path r hr := by
    rcases List.mem_append.mp hr with hnew | hold
    · obtain ⟨hborn, hout, hflags⟩ := timeouts_step hflow h.marked hs hnew
      exact ⟨hborn.trans_le (nreq_step_le hs), hout, hflags⟩
    · obtain ⟨hborn, hout, hflags⟩ := h.noted path r hold
      refine ⟨hborn.trans_le (nreq_step_le hs), out_step hs hout, ?_⟩
      rcases flags_step hflow hs hborn with hsame | ⟨hnot, -⟩
      · rw [hsame, hflags]
      · exact absurd hout hnot
  marked r hr hflags := by
    rcases born_step hs hr with hold | ⟨args, hnew⟩
    · rcases flags_step hflow hs hold with hsame | ⟨-, hout⟩
      · exact out_step hs (h.marked r hold (hsame ▸ hflags))
      · exact hout
    · rw [hnew] at hflags
      exact absurd rfl hflags

omit [DecidableEq Stage] [DecidableEq Worker] [Fintype Stage] in
theorem expiryInv_init : ExpiryInv (State.init : State Stage Worker) [] where
  clock := le_rfl
  stamped _ hr := absurd hr (Nat.not_lt_zero _)
  noted _ _ hr := absurd hr List.not_mem_nil
  marked _ hr := absurd hr (Nat.not_lt_zero _)

/-! ### The paths compared -/

/-- The states of the process with the list of the requests that timed out, in runs in which no handler passes on a
request past the loop limit. -/
abbrev ReachableTimeouts (cfg : Config Stage Worker) : State Stage Worker × List (TimeoutPath × Nat) → Prop :=
  Reach (withHistory (step cfg) (timeouts cfg)) (fun x a _ => Regular x.1 a) (State.init, [])

theorem expiryInv {cfg : Config Stage Worker} {x : State Stage Worker × List (TimeoutPath × Nat)}
    (h : ReachableTimeouts cfg x) : FlowInv x.1 ∧ ExpiryInv x.1 x.2 := by
  refine h.invariant (I := fun x => FlowInv x.1 ∧ ExpiryInv x.1 x.2) ⟨flowInv_init, expiryInv_init⟩ ?_
  rintro x a x' ⟨hflow, hI⟩ hR hx
  obtain ⟨hs, hhist⟩ := withHistory_eq_some hx
  rw [hhist]
  exact ⟨flowInv_step hflow hR hs, expiryInv_step hflow hI hs⟩

/-- **The two timeout paths.** In the runs in which no handler passes on a request past the loop limit: a sweep evicts a
request that it finds in the queue exactly if a worker that took the request at this moment would time it out; and when
the responder of a request that timed out is called, the flags are `REQUEST_TIME_OUT` exactly if it was the worker that
found it too old. -/
theorem timeout_paths_agree (cfg : Config Stage Worker) {s : State Stage Worker} {hist : List (TimeoutPath × Nat)}
    (h : ReachableTimeouts cfg (s, hist)) :
    (∀ r p st flags concat s₁, Guard cfg s (.main (.send r p st flags concat)) →
      hasFlag flags requestTimeOut = true → beforeSweep cfg p st flags concat s = some s₁ →
        ∀ x ∈ (s₁.rqcb st).requestHead, x ∈ sweptOut cfg st flags s₁ ↔ workerTimedOut cfg s x (age s x)) ∧
    ∀ path x next rc, (path, x) ∈ hist → Guard cfg s (.main (.respond x next rc)) →
      ((s.heap x).flags = requestTimeOut ↔ path = .worker) := by
  obtain ⟨hflow, hI⟩ := expiryInv h
  dsimp only at hflow hI
  constructor
  · intro r p st flags concat s₁ _ hflag hsweep x hx
    obtain ⟨hwaits, hblock⟩ := waiting_of_sweptOut hflow hsweep hx
    have hclock : s₁.clockOff = s.clockOff := by
      have hsame : (concatBuffered p st concat s).clockOff = s.clockOff :=
        concatBuffered_keeps p st concat s State.clockOff fun _ _ _ _ => rfl
      rcases beforeSweep_cases hsweep with rfl | ⟨k, rest, -, rfl⟩ <;> exact hsame
    have hage : expired cfg s₁ x = expired cfg s x := by rw [expired, expired, hclock, hblock]
    rw [← expired_iff (hI.stamped x (hflow.not_out_of_waiting hwaits).1), sweptOut_eq, sweeps, hflag, Bool.true_and]
    by_cases hset : cfg.requestTimeout = 0
    · simp [hset]
    · simp [hset, hx, hage]
  · intro path x next rc hx _
    rw [(hI.noted path x hx).2.2]
    cases path <;> simp [TimeoutPath.flags, requestNone, requestTimeOut]

/-- A session submits request 0, and three seconds pass. -/
def waitSteps : List (Action (Fin 1) (Fin 1)) :=
  [.main .accept, .main (.readable 0)] ++ submitSteps 0 0 ++ [.tick, .tick, .tick]

/-- The worker finds request 0 too old: its responder is called with `REQUEST_TIME_OUT`. -/
theorem timeout_by_worker :
    ∃ s hist, ReachableTimeouts (oneStage 8 1) (s, hist) ∧ (.worker, 0) ∈ hist ∧
      Guard (oneStage 8 1) s (.main (.respond 0 none rcInit)) ∧ (s.heap 0).flags = requestTimeOut := by
  obtain ⟨⟨s, hist⟩, hs, hhist, hg⟩ := exists_reach (withHistory (step (oneStage 8 1)) (timeouts (oneStage 8 1)))
    (fun x a _ => Regular x.1 a) (State.init, [])
    (waitSteps ++ [.main (.readBlocked 0), .worker 0 .lock, .worker 0 (.dequeue 0 []), .worker 0 (.timedOut 0 3)] ++
      doneSteps 0 ++ takeSteps ++ [.main (.takeReq 0 rcInit)])
    (P := fun x => (TimeoutPath.worker, 0) ∈ x.2 ∧ Guard (oneStage 8 1) x.1 (.main (.respond 0 none rcInit)))
    (by decide +kernel)
  exact ⟨s, hist, hs, hhist, hg, ((timeout_paths_agree (oneStage 8 1) hs).2 .worker 0 none rcInit hhist hg).mpr rfl⟩

/-- The submission of request 1 sweeps request 0 out of the queue: its responder is called with `REQUEST_NONE`, when
request 1 is done. -/
theorem timeout_by_sweep :
    ∃ s hist, ReachableTimeouts (oneStage 8 1) (s, hist) ∧ (.sweep, 0) ∈ hist ∧
      Guard (oneStage 8 1) s (.main (.respond 0 (some 1) rcInit)) ∧ (s.heap 0).flags = requestNone := by
  obtain ⟨⟨s, hist⟩, hs, hP⟩ := exists_reach (withHistory (step (oneStage 8 1)) (timeouts (oneStage 8 1)))
    (fun x a _ => Regular x.1 a) (State.init, [])
    (waitSteps ++ [.main (.submit (submitZero requestTimeOut) 0 0), .main (.send 1 0 0 requestTimeOut false),
      .main (.count 1 0 0 true []), .main (.noticeClear 1 0), .main (.noticeSet 1 0), .main (.noticeWrite 1 0),
      .main (.returnTid 1 0), .main (.readBlocked 0), .main (.event .timeout), .main (.drainHit .timeout),
      .main (.drainRead .timeout), .main (.drainReset .timeout), .main (.kick .timeout (fun _ => false) fun _ => []),
      .main (.skip .timeout)] ++ handleSteps 1 [] 0 ++ doneSteps 1 ++ takeSteps ++ [.main (.takeReq 0 rcInit)])
    (P := fun x => (TimeoutPath.sweep, 0) ∈ x.2 ∧ Guard (oneStage 8 1) x.1 (.main (.respond 0 (some 1) rcInit)) ∧
      (x.1.heap 0).flags = requestNone)
    (by decide +kernel)
  exact ⟨s, hist, hs, hP⟩

end Csf
