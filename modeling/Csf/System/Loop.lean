import Csf.System.Flow

/-!
# The loop limit

`to_next_stage` counts the hops of a request in `nstage`, and `submit_next` tests the count before it passes
the request on. As long as no handler passes on a request whose count is past the limit, the count bounds
the number of handler calls: every call but the last is followed by a hop. The bookkeeping is a potential,
`nstage` plus the occurrences past a handler minus the calls, that no step lowers.

Past the limit the test does not stop the request: `submit_next` puts it on the done queue and passes it on
all the same (`submitNext_looped`).
-/

namespace Csf

open Lib

variable {Stage Worker : Type}

/-- A worker that has not called the handler yet counts as empty-handed. -/
def pastHandler : WorkerPc Stage → WorkerPc Stage
  | .holding _ _ => .top
  | pc => pc

/-- The requests that are past a handler or past the stages altogether, place by place. -/
def spentPlaces (s : State Stage Worker) : Place Stage Worker → List Nat :=
  placesOf (fun _ => ⟨[], 0⟩) (fun _ => ⟨[], 0, false, 0⟩) (fun w => pastHandler (s.wk w)) s.doneRqcb
    s.finalRequestHead

variable [Fintype Stage] [Fintype Worker]

def spent (s : State Stage Worker) (r : Nat) : Nat := occ (spentPlaces s) r + s.trace.count (.freed r)

def handed (s : State Stage Worker) (r : Nat) : Nat := s.trace.count (.handed r)

theorem spent_le (s : State Stage Worker) (r : Nat) : spent s r ≤ occ (places s) r + s.trace.count (.freed r) := by
  refine Nat.add_le_add_right (occ_mono fun pl => ?_) _
  cases pl with
  | hand w =>
    show (inHand (pastHandler (s.wk w))).count r ≤ (inHand (s.wk w)).count r
    cases s.wk w with
    | holding => exact Nat.zero_le _
    | _ => exact le_rfl
  | tmp p => exact Nat.zero_le _
  | stage st => exact Nat.zero_le _
  | done => exact le_rfl
  | final => exact le_rfl

def Potential (s s' : State Stage Worker) (r : Nat) : Prop :=
  handed s' r + (s.heap r).nstage + spent s r ≤ handed s r + (s'.heap r).nstage + spent s' r

variable [DecidableEq Worker] [DecidableEq Stage]

theorem occ_spentPlaces_update (wk : Worker → WorkerPc Stage) (w : Worker) (pc : WorkerPc Stage) (done : Rqcb)
    (final : List Nat) (x : Nat) :
    occ (placesOf (fun _ : Stage => ⟨[], 0⟩) (fun _ => ⟨[], 0, false, 0⟩)
      (fun v => pastHandler (Function.update wk w pc v)) done final) x + (inHand (pastHandler (wk w))).count x =
    occ (placesOf (fun _ : Stage => ⟨[], 0⟩) (fun _ => ⟨[], 0, false, 0⟩) (fun v => pastHandler (wk v)) done final) x
      + (inHand (pastHandler pc)).count x := by
  have hupd : (fun v => pastHandler (Function.update wk w pc v)) =
      Function.update (fun v => pastHandler (wk v)) w (pastHandler pc) := by
    funext v
    by_cases hv : v = w
    · subst hv; simp
    · simp [Function.update_of_ne hv]
  rw [hupd, placesOf_update_wk]
  exact occ_update _ (Place.hand w) _ x

theorem potential_workerEffect {cfg : Config Stage Worker} {s : State Stage Worker} {w : Worker}
    {a : WorkerAct Stage Worker} (hg : workerGuard cfg s w a) (hsd : SingleDest (s.wk w)) (x : Nat) :
    Potential s (workerEffect cfg s w a) x := by
  have hupd := fun pc => occ_spentPlaces_update s.wk w pc s.doneRqcb s.finalRequestHead x
  -- a step that only moves the worker, and not back before the handler
  have hmove : ∀ (s' : State Stage Worker) pc, s'.wk = Function.update s.wk w pc → s'.doneRqcb = s.doneRqcb →
      s'.finalRequestHead = s.finalRequestHead → s'.trace = s.trace →
      (s'.heap x).nstage = (s.heap x).nstage →
      (inHand (pastHandler (s.wk w))).count x ≤ (inHand (pastHandler pc)).count x → Potential s s' x := by
    intro s' pc hwk hdone hfinal htrace hn hle
    have := hupd pc
    simp only [Potential, handed, spent, spentPlaces, hwk, hdone, hfinal, htrace, hn]
    omega
  have hreq : ∀ (q : Nat) (req : Request), req.nstage = (s.heap q).nstage →
      (Function.update s.heap q req x).nstage = (s.heap x).nstage := by
    intro q req h
    by_cases hx : x = q
    · subst hx; simpa using h
    · rw [Function.update_of_ne hx]
  cases a with
  | handle q cl calls ret errno =>
    obtain ⟨hpc, -⟩ := hg
    have hoff := offConns_touchCsp q (handled cfg w q calls ret errno s)
    have h := hupd (.routing q (submitNext cfg (cfg.rqcb w) (afterCalls cfg (s.nextRqcbp w) calls)
      (s.heap q).nstage ret errno).dests)
    have hn := hreq q { s.heap q with ret := ret, err := (submitNext cfg (cfg.rqcb w)
      (afterCalls cfg (s.nextRqcbp w) calls) (s.heap q).nstage ret errno).err } rfl
    simp only [Potential, Csf.handed, spent, spentPlaces, workerEffect, keeps_of_offConns hoff State.wk fun _ => rfl,
      keeps_of_offConns hoff State.trace fun _ => rfl, keeps_of_offConns hoff State.heap fun _ => rfl,
      keeps_of_offConns hoff State.doneRqcb fun _ => rfl,
      keeps_of_offConns hoff State.finalRequestHead fun _ => rfl]
    simp only [Csf.handled, setWk, setReq, hn]
    simp only [hpc, pastHandler, inHand, List.count_nil, List.count_cons, Event.handed.injEq, beq_iff_eq,
      reduceCtorEq, if_false] at h ⊢
    omega
  | forward q st rest ws =>
    obtain ⟨hpc, -, hsig, -⟩ := hg
    obtain ⟨d, hd⟩ : ∃ d, Dest.stage st :: rest = [d] := by rw [hpc] at hsd; exact hsd
    obtain ⟨-, rfl⟩ := List.cons.inj hd
    -- the signal changes neither the hands of the woken nor those of `w`
    have hhands : ∀ v, inHand (pastHandler (wake ws s.wk v)) = inHand (pastHandler (s.wk v)) := by
      intro v
      rcases wake_cases (fun u hu => (hsig u hu).1) v with h | ⟨h, h'⟩
      · rw [h]
      · rw [h, h']; rfl
    have hwake := placesOf_congr_wk (fun _ : Stage => (⟨[], 0⟩ : Rqcb)) (fun _ => (⟨[], 0, false, 0⟩ : Pcb))
      s.doneRqcb s.finalRequestHead hhands
    have h := occ_spentPlaces_update (wake ws s.wk) w .top s.doneRqcb s.finalRequestHead x
    rw [hhands w, hwake, hpc] at h
    have hn : ((toNextStage st q s).heap x).nstage = (s.heap x).nstage + [q].count x := by
      by_cases hx : x = q
      · subst hx; simp [toNextStage, setReq]
      · have hq : ¬q = x := fun h => hx h.symm
        simp [toNextStage, setReq, hx, hq]
    simp only [Potential, handed, spent, spentPlaces, workerEffect, setWk, resume, hn]
    simp only [pastHandler, inHand, List.count_nil, toNextStage, setReq] at h ⊢
    omega
  | dequeue q rest =>
    exact hmove _ _ rfl rfl rfl rfl rfl (by rw [hg.1]; exact le_rfl)
  | timedOut q cl =>
    refine hmove _ _ rfl rfl rfl rfl (hreq q _ rfl) (by rw [hg.1]; exact Nat.zero_le _)
  | cancelled q cl =>
    refine hmove _ _ rfl rfl rfl rfl (hreq q _ rfl) (by rw [hg.1]; exact Nat.zero_le _)
  | doneInsert q rest =>
    have hpc : s.wk w = .doneLocked q rest := hg
    have hrest : rest = [] := by rw [hpc] at hsd; exact hsd
    subst hrest
    have hhand := occ_spentPlaces_update s.wk w (.doneInserted q [])
      ⟨s.doneRqcb.requestHead ++ [q], s.doneRqcb.queueLen + 1⟩ s.finalRequestHead x
    have hdone := occ_update (spentPlaces s) .done (s.doneRqcb.requestHead ++ [q]) x
    have hplaces : placesOf (fun _ : Stage => ⟨[], 0⟩) (fun _ => ⟨[], 0, false, 0⟩)
        (fun v => pastHandler (s.wk v)) ⟨s.doneRqcb.requestHead ++ [q], s.doneRqcb.queueLen + 1⟩
        s.finalRequestHead = Function.update (spentPlaces s) .done (s.doneRqcb.requestHead ++ [q]) :=
      placesOf_done _ _ _ s.doneRqcb _ _
    rw [hplaces, hpc] at hhand
    simp only [Potential, handed, spent, workerEffect, setWk]
    simp only [spentPlaces, placesOf, pastHandler, inHand, List.isEmpty_nil, if_true, List.count_append,
      List.count_nil] at hhand hdone ⊢
    omega
  | doneWrite q rest =>
    have hpc : s.wk w = .doneWrite q rest := hg
    have hrest : rest = [] := by rw [hpc] at hsd; exact hsd
    have h : Potential s (setWk w (resume q rest) s) x :=
      hmove _ _ rfl rfl rfl rfl rfl (by rw [hpc, hrest]; exact le_rfl)
    exact (writeByte_keeps cfg cfg.doneFd _ (Potential s · x) fun _ _ => rfl).mpr h
  | doneSkip q rest =>
    obtain ⟨hpc, -⟩ := hg
    have hrest : rest = [] := by rw [hpc] at hsd; exact hsd
    exact hmove _ _ rfl rfl rfl rfl rfl (by rw [hpc, hrest]; exact le_rfl)
  | wait | spurious | exit | doneUnlock | doneSet =>
    have hpc : s.wk w = _ := hg
    exact hmove _ _ rfl rfl rfl rfl rfl (by rw [hpc]; exact le_rfl)
  | _ =>
    exact hmove _ _ rfl rfl rfl rfl rfl (by rw [hg.1]; first | exact le_rfl | exact Nat.zero_le _)

theorem spent_queueMove {s s₁ : State Stage Worker} {ev new : List Nat} (h : QueueMove s s₁ ev new) (x : Nat) :
    spent s x ≤ spent s₁ x := by
  have hspent : spentPlaces s₁ = Function.update (spentPlaces s) .final (s.finalRequestHead ++ ev) := by
    have hkeep := h.keeps (fun t => placesOf (fun _ : Stage => ⟨[], 0⟩) (fun _ => ⟨[], 0, false, 0⟩)
      (fun w => pastHandler (t.wk w)) t.doneRqcb (s.finalRequestHead ++ ev)) fun _ => rfl
    rw [spentPlaces, h.final, hkeep, placesOf_final _ _ _ _ s.finalRequestHead]
    rfl
  have hocc := occ_update (spentPlaces s) .final (s.finalRequestHead ++ ev) x
  simp only [spent, hspent, h.trace_other (e := .freed x) (by simp) (by simp)]
  simp only [spentPlaces, placesOf, List.count_append] at hocc ⊢
  omega

omit [DecidableEq Worker] [DecidableEq Stage] in
theorem spent_same {s s' : State Stage Worker} {x : Nat}
    (hhands : ∀ w, inHand (pastHandler (s'.wk w)) = inHand (pastHandler (s.wk w)))
    (hdone : s'.doneRqcb = s.doneRqcb) (hfinal : s'.finalRequestHead = s.finalRequestHead)
    (hfreed : s'.trace.count (.freed x) = s.trace.count (.freed x)) : spent s' x = spent s x := by
  rw [spent, spent, spentPlaces, hdone, hfinal, hfreed, placesOf_congr_wk _ _ _ _ hhands]
  rfl

theorem handed_mainEffect (cfg : Config Stage Worker) (s : State Stage Worker) (a : MainAct Stage Worker) (x : Nat) :
    handed (mainEffect cfg s a) x = handed s x := by
  rw [handed, count_mainEffect cfg s a (by simp) (by simp), handed, Nat.add_eq_right, List.count_eq_zero]
  cases a with
  | dispose q next rc =>
    simp only [records]
    split_ifs <;> simp
  | _ => simp [records]

theorem spent_mainEffect {cfg : Config Stage Worker} {s : State Stage Worker} {a : MainAct Stage Worker}
    (hg : mainGuard cfg s a) (hcur : Cursor s.finalRequestHead s.main) (x : Nat) :
    spent s x ≤ spent (mainEffect cfg s a) x := by
  have hhands : ∀ w, inHand (pastHandler ((mainPlain cfg s a).wk w)) = inHand (pastHandler (s.wk w)) := by
    intro w
    rw [← mainEffect_plain cfg s a State.wk fun _ => rfl]
    exact eq_of_wake (fun pc => inHand (pastHandler pc)) rfl (wk_mainEffect hg w)
  have hfreed := count_mainEffect cfg s a (e := .freed x) (by simp) (by simp)
  rw [mainEffect_plain cfg s a State.trace fun _ => rfl] at hfreed
  rw [mainEffect_plain cfg s a (spent · x) fun _ => rfl]
  cases a with
  | send q p st flags concat =>
    obtain ⟨s₁, ev, new, hmove, -, sub, mutex, status, heq⟩ := sendLocked_move cfg q p st flags concat s
    simp only [mainPlain, mainEffect, heq]
    exact spent_queueMove hmove x
  | kick ev ok ws =>
    have hmove := QueueMove.kickRequestQueue cfg ok s
    refine (spent_same hhands (hmove.keeps State.doneRqcb fun _ => rfl) ?_ ?_).ge
    · exact hmove.final.trans (List.append_nil _)
    · exact hmove.trace_other (by simp) (by simp)
  | take =>
    have h := occ_update₂ (spentPlaces s) (p := .done) (q := .final) (by simp) []
      (s.finalRequestHead ++ s.doneRqcb.requestHead) x
    simp only [mainPlain, mainEffect, takeDone, spent, spentPlaces] at h ⊢
    rw [placesOf_final _ _ _ ⟨[], 0⟩ s.finalRequestHead, placesOf_done _ _ _ s.doneRqcb _ ⟨[], 0⟩]
    simp only [placesOf, List.count_append, List.count_nil] at h ⊢
    omega
  | dispose q next rc =>
    have hm : s.main = .dispose q next rc := hg
    rw [hm] at hcur
    have hpos := List.count_pos_iff.mpr hcur.1
    have h := occ_update (spentPlaces s) .final (s.finalRequestHead.erase q) x
    have hplaces : spentPlaces (mainPlain cfg s (.dispose q next rc)) =
        Function.update (spentPlaces s) .final (s.finalRequestHead.erase q) :=
      placesOf_final _ _ _ _ s.finalRequestHead _
    have hone : [q].count x ≤ (records s (.dispose q next rc)).count (.freed x) := by
      simp only [records, List.count_cons, List.count_nil, Event.freed.injEq, beq_iff_eq]
      omega
    simp only [spent, hplaces, hfreed]
    simp only [spentPlaces, placesOf, List.count_erase, List.count_singleton] at h hone ⊢
    split_ifs at h hone ⊢ with hx
    · rw [beq_iff_eq] at hx
      subst hx
      omega
    · omega
  | _ => exact (spent_same hhands rfl rfl (by simpa [records] using hfreed)).ge

/-! ### The invariant -/

structure LoopInv (s : State Stage Worker) : Prop where
  handed_le : ∀ r, handed s r ≤ (s.heap r).nstage + spent s r
  routed : ∀ w r st rest, s.wk w = .routing r (.stage st :: rest) → (s.heap r).nstage ≤ maxStageJump
  bound : ∀ r, (s.heap r).nstage ≤ maxStageJump + 1
  fresh : ∀ r, s.nreq ≤ r → (s.heap r).nstage = 0

omit [DecidableEq Worker] [DecidableEq Stage] in
theorem loopInv_init : LoopInv (State.init : State Stage Worker) where
  handed_le r := Nat.zero_le _
  routed w r st rest h := by cases h
  bound r := Nat.zero_le _
  fresh r _ := rfl

theorem FlowInv.hand_unique {s : State Stage Worker} (h : FlowInv s) {w v : Worker} {r : Nat}
    (hw : r ∈ inHand (s.wk w)) (hv : r ∈ inHand (s.wk v)) : v = w := by
  have hplace := h.place_unique (show r ∈ places s (.hand v) from hv) (show r ∈ places s (.hand w) from hw)
  exact Place.hand.inj hplace

omit [Fintype Stage] [Fintype Worker] in
theorem routing_workerEffect {cfg : Config Stage Worker} {s : State Stage Worker} {w : Worker}
    {a : WorkerAct Stage Worker} {r : Nat} {st : Stage} {rest : List (Dest Stage)} (hg : workerGuard cfg s w a)
    (hsd : SingleDest (s.wk w)) (h : (workerEffect cfg s w a).wk w = .routing r (.stage st :: rest)) :
    ∃ cl calls ret errno, a = .handle r cl calls ret errno ∧ Dest.stage st ∈ (submitNext cfg (cfg.rqcb w)
      (afterCalls cfg (s.nextRqcbp w) calls) (s.heap r).nstage ret errno).dests := by
  cases a with
  | handle q cl calls ret errno =>
    rw [(workerEffect_handle cfg s w q cl calls ret errno).1] at h
    obtain ⟨rfl, hdests⟩ := WorkerPc.routing.inj h
    refine ⟨cl, calls, ret, errno, rfl, ?_⟩
    rw [show (submitNext cfg (cfg.rqcb w) (afterCalls cfg (s.nextRqcbp w) calls) (s.heap q).nstage ret errno).dests =
      .stage st :: rest from hdests]
    exact List.mem_cons_self
  | forward q st' rest' ws =>
    rw [hg.1] at hsd
    obtain ⟨d, hd⟩ := hsd
    obtain ⟨-, rfl⟩ := List.cons.inj hd
    simp [workerEffect, setWk, resume] at h
  | doneSkip q rest' =>
    rw [hg.1] at hsd
    obtain rfl : rest' = [] := hsd
    simp [workerEffect, setWk, resume] at h
  | doneWrite q rest' =>
    have hpc : s.wk w = .doneWrite q rest' := hg
    rw [hpc] at hsd
    obtain rfl : rest' = [] := hsd
    rw [workerEffect, writeByte_keeps cfg cfg.doneFd _ State.wk fun _ _ => rfl] at h
    simp [setWk, resume] at h
  | _ => simp [workerEffect, setWk] at h

theorem loopInv_workerEffect {cfg : Config Stage Worker} {s : State Stage Worker} {w : Worker}
    {a : WorkerAct Stage Worker} (hflow : FlowInv s) (h : LoopInv s) (hg : workerGuard cfg s w a)
    (hR : Regular s (.worker w a)) : LoopInv (workerEffect cfg s w a) := by
  have hheap := heap_workerEffect cfg s w a
  -- the only step that counts a hop is `to_next_stage`, below the limit
  have hhop : ∀ r st rest ws, a = .forward r st rest ws → r ∈ inHand (s.wk w) ∧ (s.heap r).nstage ≤ maxStageJump := by
    rintro r st rest ws rfl
    refine ⟨?_, h.routed w r st rest hg.1⟩
    rw [hg.1]
    exact List.mem_singleton_self r
  refine ⟨fun r => ?_, fun v r st rest hv => ?_, fun r => ?_, fun r hr => ?_⟩
  · have := potential_workerEffect hg (hflow.single w) r
    have := h.handed_le r
    simp only [Potential] at *
    omega
  · by_cases hvw : v = w
    · subst hvw
      obtain ⟨cl, calls, ret, errno, rfl, hmem⟩ := routing_workerEffect hg (hflow.single v) hv
      obtain ⟨n, f, x, e, heq, hn⟩ := hheap r
      rw [heq]
      rcases hn with rfl | ⟨-, _, _, _, ha⟩
      · exact hR (passesOn_of_stage_mem cfg hmem)
      · cases ha
    · -- another worker cannot hold the same request
      have hold : s.wk v = .routing r (.stage st :: rest) := by
        rcases wk_workerEffect hg hvw with heq | ⟨heq, -⟩ <;> rw [heq] at hv
        · exact hv
        · cases hv
      obtain ⟨n, f, x, e, heq, hn⟩ := hheap r
      rw [heq]
      rcases hn with rfl | ⟨-, st', rest', ws, ha⟩
      · exact h.routed v r st rest hold
      · refine absurd (hflow.hand_unique (hhop r st' rest' ws ha).1 ?_) hvw
        rw [hold]
        exact List.mem_singleton_self r
  · obtain ⟨n, f, x, e, heq, hn⟩ := hheap r
    rw [heq]
    rcases hn with rfl | ⟨rfl, st, rest, ws, ha⟩
    · exact h.bound r
    · exact Nat.succ_le_succ (hhop r st rest ws ha).2
  · rw [workerEffect_keeps cfg s w a State.nreq fun _ => rfl] at hr
    obtain ⟨n, f, x, e, heq, hn⟩ := hheap r
    rw [heq]
    rcases hn with rfl | ⟨rfl, st, rest, ws, ha⟩
    · exact h.fresh r hr
    · have hmem : r ∈ places s (.hand w) := (hhop r st rest ws ha).1
      have := hflow.lt_of_mem hmem
      omega

theorem loopInv_mainEffect {cfg : Config Stage Worker} {s : State Stage Worker} {a : MainAct Stage Worker}
    (hflow : FlowInv s) (h : LoopInv s) (hg : mainGuard cfg s a) : LoopInv (mainEffect cfg s a) := by
  -- `nstage` stays, and starts at 0
  have hn : ∀ r, ((mainEffect cfg s a).heap r).nstage = (s.heap r).nstage := by
    intro r
    rcases heap_mainEffect cfg s a r with ⟨f, d, heq⟩ | ⟨hr, args, p, st, -, heq⟩
    · rw [heq]
    · rw [heq, h.fresh r hr.ge]
      rfl
  refine ⟨fun r => ?_, fun w r st rest hw => ?_, fun r => ?_, fun r hr => ?_⟩
  · have hspent := spent_mainEffect hg hflow.cursor r
    have := h.handed_le r
    rw [handed_mainEffect, hn]
    omega
  · rw [hn]
    rcases wk_mainEffect hg w with heq | ⟨heq, -⟩ <;> rw [heq] at hw
    · exact h.routed w r st rest hw
    · cases hw
  · rw [hn]
    exact h.bound r
  · rw [hn]
    refine h.fresh r ?_
    rcases nreq_mainEffect cfg s a with heq | ⟨_, _, _, _, heq⟩ <;> omega

theorem loopInv_step {cfg : Config Stage Worker} {s s' : State Stage Worker} {a : Action Stage Worker}
    (hflow : FlowInv s) (h : LoopInv s) (hR : Regular s a) (hs : step cfg s a = some s') : LoopInv s' := by
  obtain ⟨-, hg, rfl⟩ := step_eq_some hs
  cases a with
  | worker w a => exact loopInv_workerEffect hflow h hg hR
  | main a => exact loopInv_mainEffect hflow h hg
  | signals a =>
    have hn : ∀ r, ((signalEffect cfg s a).heap r).nstage = (s.heap r).nstage := fun r => by
      obtain ⟨f, heq⟩ := heap_signalEffect cfg s a r
      rw [heq]
    refine ⟨fun r => ?_, fun w r st rest hw => ?_, fun r => ?_, fun r hr => ?_⟩
    · have hhands := fun w => eq_of_wake (fun pc => inHand (pastHandler pc)) rfl (wk_signalEffect hg w)
      have hle := h.handed_le r
      rw [effect, hn]
      obtain ⟨s₁, wk, sig, g, hmove, heq⟩ := signalEffect_move cfg s a
      rw [heq] at hhands ⊢
      have hspent := spent_same hhands (hmove.keeps State.doneRqcb fun _ => rfl)
        (hmove.final.trans (List.append_nil _)) (hmove.trace_other (e := .freed r) (by simp) (by simp))
      have hhanded : s₁.trace.count (.handed r) = s.trace.count (.handed r) :=
        hmove.trace_other (by simp) (by simp)
      rw [hspent, handed, hhanded]
      exact hle
    · rw [effect, hn]
      rcases wk_signalEffect hg w with heq | ⟨heq, -⟩ <;> rw [effect, heq] at hw
      · exact h.routed w r st rest hw
      · cases hw
    · rw [effect, hn]
      exact h.bound r
    · rw [effect, hn]
      exact h.fresh r ((signalEffect_keeps cfg s a State.nreq fun _ => rfl) ▸ hr)
  | tick => exact ⟨h.handed_le, h.routed, h.bound, h.fresh⟩
  | cancel q =>
    have hn : ∀ r, ((effect cfg s (.cancel q)).heap r).nstage = (s.heap r).nstage := fun r => by
      by_cases hr : r = q
      · subst hr; simp [effect, setReq]
      · simp [effect, setReq, Function.update_of_ne hr]
    exact ⟨fun r => hn r ▸ h.handed_le r, fun w r st rest hw => hn r ▸ h.routed w r st rest hw,
      fun r => hn r ▸ h.bound r, fun r hr => hn r ▸ h.fresh r hr⟩

theorem loopInv {cfg : Config Stage Worker}
    {R : State Stage Worker → Action Stage Worker → State Stage Worker → Prop}
    (hR : ∀ s a s', R s a s' → Regular s a) {s : State Stage Worker} (h : Reachable cfg R s) : LoopInv s := by
  have hboth : FlowInv s ∧ LoopInv s :=
    h.invariant (I := fun s => FlowInv s ∧ LoopInv s) ⟨flowInv_init, loopInv_init⟩ fun _ a s' hI hr hs =>
      ⟨flowInv_step hI.1 (hR _ a s' hr) hs, loopInv_step hI.1 hI.2 (hR _ a s' hr) hs⟩
  exact hboth.2

/-! ### Past the stages -/

/-- The request is on the done queue or on the final queue, or it is freed. -/
def Finished (s : State Stage Worker) (r : Nat) : Prop :=
  r ∈ s.doneRqcb.requestHead ∨ r ∈ s.finalRequestHead ∨ .freed r ∈ s.trace

omit [Fintype Stage] [Fintype Worker] [DecidableEq Worker] [DecidableEq Stage] in
theorem Finished.mono {s s' : State Stage Worker} {r : Nat} (h : Finished s r)
    (hdone : s.doneRqcb.requestHead ⊆ s'.doneRqcb.requestHead) (hfinal : s.finalRequestHead ⊆ s'.finalRequestHead)
    (hfreed : .freed r ∈ s.trace → .freed r ∈ s'.trace) : Finished s' r :=
  h.imp (fun h => hdone h) (Or.imp (fun h => hfinal h) hfreed)

omit [DecidableEq Worker] [DecidableEq Stage] in
theorem Finished.queueMove {s s₁ : State Stage Worker} {r : Nat} (h : Finished s r) {ev new : List Nat}
    (hmove : QueueMove s s₁ ev new) : Finished s₁ r := by
  refine h.mono ?_ ?_ ?_
  · rw [hmove.keeps State.doneRqcb fun _ => rfl]
    exact List.Subset.refl _
  · rw [hmove.final]
    exact List.subset_append_left _ _
  · rw [← List.count_pos_iff, ← List.count_pos_iff, hmove.trace_other (by simp) (by simp)]
    exact id

theorem finished_mainEffect (cfg : Config Stage Worker) {s : State Stage Worker} (a : MainAct Stage Worker) {r : Nat}
    (h : Finished s r) : Finished (mainEffect cfg s a) r := by
  have hfreed : .freed r ∈ s.trace → .freed r ∈ (mainEffect cfg s a).trace :=
    fun hin => (mem_mainEffect cfg s a (by simp) (by simp)).mpr (.inr hin)
  rw [mainEffect_plain cfg s a State.trace fun _ => rfl] at hfreed
  rw [mainEffect_plain cfg s a (Finished · r) fun _ => rfl]
  cases a with
  | send q p st flags concat =>
    obtain ⟨s₁, ev, new, hmove, -, sub, mutex, status, heq⟩ := sendLocked_move cfg q p st flags concat s
    simp only [mainPlain, mainEffect, heq]
    have hfin := h.queueMove hmove
    exact hfin
  | kick ev ok ws =>
    have hfin := h.queueMove (QueueMove.kickRequestQueue cfg ok s)
    exact hfin
  | take =>
    rcases h with h | h | h
    · exact .inr (.inl (List.mem_append_right _ h))
    · exact .inr (.inl (List.mem_append_left _ h))
    · exact .inr (.inr h)
  | dispose q next rc =>
    by_cases hr : r = q
    · subst hr
      exact .inr (.inr List.mem_cons_self)
    · exact h.imp id (Or.imp (fun h => (List.mem_erase_of_ne hr).mpr h) hfreed)
  | _ => exact h.mono (List.Subset.refl _) (List.Subset.refl _) hfreed

theorem finished_step {cfg : Config Stage Worker} {s s' : State Stage Worker} {a : Action Stage Worker} {r : Nat}
    (h : Finished s r) (hs : step cfg s a = some s') : Finished s' r := by
  obtain ⟨-, -, rfl⟩ := step_eq_some hs
  cases a with
  | worker w a =>
    have hfreed : .freed r ∈ s.trace → .freed r ∈ (workerEffect cfg s w a).trace := by
      rcases trace_workerEffect cfg s w a with heq | ⟨q, heq⟩ <;> rw [heq]
      · exact id
      · exact List.mem_cons_of_mem _
    have hfinal : s.finalRequestHead ⊆ (workerEffect cfg s w a).finalRequestHead := by
      rw [workerEffect_keeps cfg s w a State.finalRequestHead fun _ => rfl]
      exact List.Subset.refl _
    refine h.mono ?_ hfinal hfreed
    cases a with
    | handle q cl calls ret errno =>
      show s.doneRqcb.requestHead ⊆ (touchCsp q (handled cfg w q calls ret errno s)).doneRqcb.requestHead
      rw [keeps_of_offConns (offConns_touchCsp q _) State.doneRqcb fun _ => rfl]
      exact List.Subset.refl _
    | doneInsert q rest => exact List.subset_append_left _ _
    | doneWrite q rest =>
      rw [effect, workerEffect, writeByte_keeps cfg cfg.doneFd _ State.doneRqcb fun _ _ => rfl]
      exact List.Subset.refl _
    | _ => exact List.Subset.refl _
  | main a => exact finished_mainEffect cfg a h
  | signals a =>
    obtain ⟨s₁, wk, sig, g, hmove, heq⟩ := signalEffect_move cfg s a
    have hfin := h.queueMove hmove
    rw [effect, heq]
    exact hfin
  | _ => exact h

/-! ### The limit -/

/-- **Loop limit.** In every run in which no handler passes on a request past the limit, a request is handed
to handlers at most `MAX_STAGE_JUMP + 2` times and is never in two places; `submit_next` sends it to one
queue, the done queue if its count is past the limit, and from there it never comes back to a stage. -/
theorem loop_limit (cfg : Config Stage Worker) {s s' : State Stage Worker}
    (h : Reachable cfg (fun s a _ => Regular s a) s) (h' : Reach (step cfg) (fun s a _ => Regular s a) s s') (r : Nat) :
    s.trace.count (.handed r) ≤ maxStageJump + 2 ∧ occ (places s) r ≤ 1 ∧
    (∀ w dests, s.wk w = .routing r dests →
      ∃ d, dests = [d] ∧ (maxStageJump < (s.heap r).nstage → d = .done)) ∧
    (r ∈ s.doneRqcb.requestHead → ∀ st, r ∉ (s'.rqcb st).requestHead) := by
  have hflow := flowInv (fun _ _ _ hr => hr) h
  have hloop := loopInv (fun _ _ _ hr => hr) h
  refine ⟨?_, hflow.occ_le_one r, fun w dests hw => ?_, fun hdone st hst => ?_⟩
  · have hhanded := hloop.handed_le r
    have hspent := spent_le s r
    have hbound := hloop.bound r
    have hcons := (hflow.life r).conserved
    have honce := (hflow.life r).once
    simp only [handed, life] at hhanded hcons honce
    omega
  · have hsd := hflow.single w
    rw [hw] at hsd
    obtain ⟨d, rfl⟩ := hsd
    refine ⟨d, rfl, fun hpast => ?_⟩
    cases d with
    | done => rfl
    | stage st =>
      have := hloop.routed w r st [] hw
      omega
  · have hfin : Finished s' r := h'.invariant (I := (Finished · r)) (.inl hdone) fun _ _ _ hI _ hs => finished_step hI hs
    have hflow' := flowInv (fun _ _ _ hr => hr) (h.trans h')
    have hin' : r ∈ places s' (.stage st) := hst
    rcases hfin with hin | hin | hin
    · cases hflow'.place_unique hin' (show r ∈ places s' .done from hin)
    · cases hflow'.place_unique hin' (show r ∈ places s' .final from hin)
    · exact hflow'.not_freed_of_mem hin' hin

/-- A request that is handed on once and then completes. -/
theorem loop_limit_run :
    ∃ s, Reachable (oneStage 8 0) (fun s a _ => Regular s a) s ∧ 1 < s.trace.count (.handed 0) ∧
      0 ∈ s.doneRqcb.requestHead ∧ s.trace.count (.handed 0) ≤ maxStageJump + 2 ∧
      ∀ s', Reach (step (oneStage 8 0)) (fun s a _ => Regular s a) s s' → 0 ∉ (s'.rqcb 0).requestHead := by
  obtain ⟨s, hs, htwice, hdone⟩ := exists_reachable (oneStage 8 0) (fun s a _ => Regular s a)
    ([.main .accept, .main (.readable 0)] ++ submitSteps 0 0 ++ handleSteps 0 [] pipelineRequeue ++
      [.worker 0 (.forward 0 0 [] [])] ++ handleSteps 0 [] pipelineContinue ++ doneSteps 0)
    (P := fun s => 1 < s.trace.count (.handed 0) ∧ 0 ∈ s.doneRqcb.requestHead) (by decide +kernel)
  exact ⟨s, hs, htwice, hdone, (loop_limit (oneStage 8 0) hs .init 0).1,
    fun s' hs' => (loop_limit (oneStage 8 0) hs hs' 0).2.2.2 hdone 0⟩

/-! ### Past the limit -/

/-- Request 0 waits in the only stage, `n` handler calls behind it, and the worker is free. -/
structure Circling (n : Nat) (s : State (Fin 1) (Fin 1)) : Prop where
  running : s.status = .running
  pc : s.wk 0 = .top
  mutex : s.mutex 0 = none
  queue : (s.rqcb 0).requestHead = [0]
  nstage : (s.heap 0).nstage = n
  cancelled : (s.heap 0).cancelled = false
  handed : s.trace.count (.handed 0) = n
  doneMutex : s.doneMutex = none
  age : age s 0 = 0

theorem circling_next {n : Nat} {s : State (Fin 1) (Fin 1)} (h : Circling n s) (hn : n ≤ maxStageJump) :
    ∃ s', Reach (step (oneStage 8 0)) (fun _ _ _ => True) s s' ∧ Circling (n + 1) s' := by
  classical
  refine exists_reach _ _ s (handleSteps 0 [] pipelineRequeue ++ [.worker 0 (.forward 0 0 [] [])]) ?_
  obtain ⟨hrun, hpc, hmutex, hqueue, hnstage, hcancel, hhanded, hdone, hage⟩ := h
  simp only [age] at hage
  cases hc : (s.heap 0).csp <;>
  · simp [handleSteps, run, step, Guard, workerGuard, effect, workerEffect, setWk, setMutex, oneStage, tooEarly,
      workerTimedOut, age, handled, touchCsp, modifyConn, submitNext, pipelineRequeue, pipelineContinue,
      pipelineFailed, pipelineBreak, afterCalls, SignalOk, setReq, toNextStage, resume, ConnState.touch, *]
    constructor <;> simp [age, *]

theorem circling_past {n : Nat} {s : State (Fin 1) (Fin 1)} (h : Circling n s) (hn : maxStageJump < n) :
    ∃ s', Reach (step (oneStage 8 0)) (fun _ _ _ => True) s s' ∧ Circling (n + 1) s' ∧
      0 ∈ s'.doneRqcb.requestHead := by
  classical
  refine exists_reach _ _ s (pastLimitSteps s.doneSignalled) ?_
  obtain ⟨hrun, hpc, hmutex, hqueue, hnstage, hcancel, hhanded, hdone, hage⟩ := h
  simp only [age] at hage
  cases hc : (s.heap 0).csp <;> cases hsig : s.doneSignalled <;>
  · simp [pastLimitSteps, handleSteps, run, step, Guard, workerGuard, effect, workerEffect, setWk, setMutex, oneStage,
      tooEarly, workerTimedOut, age, handled, touchCsp, modifyConn, submitNext, pipelineRequeue, pipelineContinue,
      pipelineFailed, pipelineBreak, afterCalls, SignalOk, setReq, toNextStage, resume, ConnState.touch, writeByte, *]
    constructor <;> simp [age, *]

theorem exists_circling (n : Nat) (hn : n ≤ maxStageJump + 1) :
    ∃ s, Reachable (oneStage 8 0) (fun _ _ _ => True) s ∧ Circling n s := by
  induction n with
  | zero =>
    obtain ⟨s, hs, hrun, hpc, hmutex, hqueue, hnstage, hcancel, hhanded, hdone, hage⟩ :=
      exists_reachable (oneStage 8 0) (fun _ _ _ => True) ([.main .accept, .main (.readable 0)] ++ submitSteps 0 0)
        (P := fun s => s.status = .running ∧ s.wk 0 = .top ∧ s.mutex 0 = none ∧ (s.rqcb 0).requestHead = [0] ∧
          (s.heap 0).nstage = 0 ∧ (s.heap 0).cancelled = false ∧ s.trace.count (.handed 0) = 0 ∧
          s.doneMutex = none ∧ age s 0 = 0) (by decide +kernel)
    exact ⟨s, hs, hrun, hpc, hmutex, hqueue, hnstage, hcancel, hhanded, hdone, hage⟩
  | succ n ih =>
    obtain ⟨s, hs, hcirc⟩ := ih (by omega)
    obtain ⟨s', hs', hcirc'⟩ := circling_next hcirc (by omega)
    exact ⟨s', hs.trans hs', hcirc'⟩

/-- A handler that always asks for a requeue: the request is on the done queue and on the queue of the stage
at once, and it has been handed to the handler more than `MAX_STAGE_JUMP + 2` times. -/
theorem loop_limit_exceeded :
    ∃ s, Reachable (oneStage 8 0) (fun _ _ _ => True) s ∧ 0 ∈ s.doneRqcb.requestHead ∧ 0 ∈ (s.rqcb 0).requestHead ∧
      maxStageJump + 2 < s.trace.count (.handed 0) := by
  obtain ⟨s, hs, hcirc⟩ := exists_circling (maxStageJump + 1) le_rfl
  obtain ⟨s₁, hs₁, hcirc₁, -⟩ := circling_past hcirc (by omega)
  obtain ⟨s₂, hs₂, hcirc₂, hdone⟩ := circling_past hcirc₁ (by omega)
  refine ⟨s₂, (hs.trans hs₁).trans hs₂, hdone, ?_, ?_⟩
  · rw [hcirc₂.queue]
    exact List.mem_singleton_self 0
  · rw [hcirc₂.handed]
    omega

end Csf
