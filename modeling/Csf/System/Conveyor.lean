import Csf.System.Fifo
import Mathlib.Data.List.Flatten

/-!
# A pipeline with one worker per stage is a conveyor

When every stage has one worker and no handler requeues a request or jumps, the requests of a pipeline pass its stages one
behind the other: the handler of each stage gets them in the order of their submission, whatever fails, times out, is
cancelled or evicted on the way. `behind` is the line of the requests that a stage has not been given yet, from its own
worker back over the queues and the workers of the stages before it to the request that is just being submitted. Every
step takes requests out of that line, or puts the new one at its end (`line_step`).
-/

namespace Csf

open Lib

variable {Stage Worker : Type}

/-- No handler calls `set_next_stage` or returns `PIPELINE_REQUEUE`. -/
def straight : Action Stage Worker → Bool
  | .worker _ (.handle _ _ calls ret _) => calls.isEmpty && decide (ret ≠ pipelineRequeue)
  | _ => true

/-- The request that a step gives to the handler of a stage. -/
def handsOver (cfg : Config Stage Worker) (_ : State Stage Worker) : Action Stage Worker → List (Stage × Nat)
  | .worker w (.handle r _ _ _ _) => [(cfg.rqcb w, r)]
  | _ => []

/-- The requests that the handler of `st` was given, the latest first. -/
def given [DecidableEq Stage] (h : List (Stage × Nat)) (st : Stage) : List Nat :=
  (h.filter fun x => x.1 = st).map Prod.snd

/-- The request that the worker has taken and not yet given to the handler. -/
def WorkerPc.unhandled : WorkerPc Stage → List Nat
  | .holding r _ => [r]
  | _ => []

/-- The request that `submit_request` is about to insert. -/
def pending (p : Pipeline) : SubmitPc Stage → List Nat
  | .checked r q _ _ _ => if q = p then [r] else []
  | _ => []

/-- What is at a stage: the request in the hands of its worker `own st`, and its queue. -/
def station (own : Stage → Worker) (s : State Stage Worker) (st : Stage) : List Nat :=
  (s.wk (own st)).req.toList ++ (s.rqcb st).requestHead

/-- The requests of pipeline `p` that the handler of `st` has not been given, where `pre` are the stages before it. -/
def behind (own : Stage → Worker) (s : State Stage Worker) (p : Pipeline) (pre : List Stage) (st : Stage) : List Nat :=
  ((s.wk (own st)).unhandled ++ (s.rqcb st).requestHead) ++
    (pre.reverse.flatMap (station own s) ++ ((s.pcb p).tmpRequestHead ++ pending p s.sub))

/-! ### Chains -/

theorem chain_inj (cfg : Config Stage Worker) {p q : Pipeline} {st : Stage} (hp : st ∈ cfg.chain p)
    (hq : st ∈ cfg.chain q) : p = q := by
  have : Std.Symm (Function.onFun List.Disjoint cfg.chain) := ⟨fun _ _ h => List.Disjoint.symm h⟩
  by_contra hne
  exact (List.nodup_flatMap.mp cfg.chain_nodup).2.forall (List.mem_finRange p) (List.mem_finRange q) hne hp hq

theorem nodup_chain (cfg : Config Stage Worker) (p : Pipeline) : (cfg.chain p).Nodup :=
  (List.nodup_flatMap.mp cfg.chain_nodup).1 p (List.mem_finRange p)

theorem exists_of_tailqNext {α : Type} [DecidableEq α] {x y : α} {l : List α} (h : tailqNext x l = some y) :
    ∃ a b, l = a ++ x :: y :: b := by
  induction l with
  | nil => cases h
  | cons z l ih =>
    rw [tailqNext] at h
    split_ifs at h with hz
    · obtain ⟨b, rfl⟩ := List.head?_eq_some_iff.mp h
      exact ⟨[], b, by rw [hz]; rfl⟩
    · obtain ⟨a, b, rfl⟩ := ih h
      exact ⟨z :: a, b, rfl⟩

section
variable [DecidableEq Stage] {cfg : Config Stage Worker}

theorem exists_of_nextRqcb {c t : Stage} (h : cfg.nextRqcb c = some t) : ∃ p a b, cfg.chain p = a ++ c :: t :: b := by
  obtain ⟨p, -, hp⟩ := List.exists_of_findSome?_eq_some h
  obtain ⟨a, b, hab⟩ := exists_of_tailqNext hp
  exact ⟨p, a, b, hab⟩

theorem nextRqcb_ne {c t : Stage} (h : cfg.nextRqcb c = some t) : c ≠ t := by
  obtain ⟨p, a, b, hab⟩ := exists_of_nextRqcb h
  have hnodup := nodup_chain cfg p
  rw [hab] at hnodup
  rintro rfl
  simp [List.nodup_append] at hnodup

theorem nextRqcb_cases {c t st : Stage} {p : Pipeline} {pre post : List Stage} (h : cfg.nextRqcb c = some t)
    (hchain : cfg.chain p = pre ++ st :: post) :
    (st = t ∧ ∃ a, pre = a ++ [c] ∧ c ∉ a ∧ t ∉ a) ∨
      (st ≠ t ∧ st ≠ c ∧ ∃ a b, pre = a ++ c :: t :: b ∧ c ∉ a ∧ t ∉ a ∧ c ∉ b ∧ t ∉ b) ∨ st ≠ t ∧ c ∉ pre ∧ t ∉ pre := by
  obtain ⟨q, a, b, hab⟩ := exists_of_nextRqcb h
  have hc : c ∈ cfg.chain q := by simp [hab]
  have ht : t ∈ cfg.chain q := by simp [hab]
  by_cases hqp : q = p
  · subst hqp
    have hnodup := nodup_chain cfg q
    rw [hab] at hnodup
    have hsplit : (a ++ [c]) ++ t :: b = pre ++ st :: post := by
      rw [← hchain, hab, List.append_assoc]
      rfl
    simp only [List.nodup_append, List.nodup_cons, List.mem_cons, ne_eq] at hnodup
    by_cases hst : st = t
    · subst hst
      obtain ⟨hpre, -, -⟩ := (List.append_cons_inj_of_notMem (by grind) (by grind)).mp hsplit
      exact .inl ⟨rfl, a, hpre.symm, by grind, by grind⟩
    by_cases hmem : t ∈ pre
    · obtain ⟨u, v, rfl⟩ := List.append_of_mem hmem
      rw [List.append_assoc u, List.cons_append] at hsplit
      obtain ⟨rfl, -, rfl⟩ := (List.append_cons_inj_of_notMem (by grind) (by grind)).mp hsplit
      exact .inr (.inl ⟨hst, by grind, a, v, by simp, by grind, by grind, by grind, by grind⟩)
    · refine .inr (.inr ⟨hst, fun hcpre => ?_, hmem⟩)
      obtain ⟨u, v, rfl⟩ := List.append_of_mem hcpre
      rw [List.append_assoc, List.append_assoc u, List.singleton_append, List.cons_append] at hsplit
      obtain ⟨-, -, hrest⟩ := (List.append_cons_inj_of_notMem (by grind) (by grind)).mp hsplit
      cases v with
      | nil => exact hst (List.cons.inj hrest).1.symm
      | cons x v => exact hmem (by simp [List.cons.inj hrest])
  · refine .inr (.inr ⟨?_, fun hmem => ?_, fun hmem => ?_⟩)
    · rintro rfl
      exact hqp (chain_inj cfg ht (by rw [hchain]; simp))
    · exact hqp (chain_inj cfg hc (by rw [hchain]; simp [hmem]))
    · exact hqp (chain_inj cfg ht (by rw [hchain]; simp [hmem]))

end

/-! ### The line behind a stage -/

/-- The requests of `p` in the order in which they come to the handler of `st`: those it was given, then those behind. -/
def lineOf [DecidableEq Stage] (own : Stage → Worker) (h : List (Stage × Nat)) (s : State Stage Worker) (p : Pipeline)
    (pre : List Stage) (st : Stage) : List Nat :=
  (given h st).reverse ++ behind own s p pre st

theorem behind_sublist {own : Stage → Worker} {s s' : State Stage Worker} {p : Pipeline} {pre : List Stage} {st : Stage}
    (hfront : ((s'.wk (own st)).unhandled ++ (s'.rqcb st).requestHead).Sublist
      ((s.wk (own st)).unhandled ++ (s.rqcb st).requestHead))
    (hstations : ∀ x ∈ pre, (station own s' x).Sublist (station own s x)) (hpcb : s'.pcb = s.pcb) (hsub : s'.sub = s.sub) :
    (behind own s' p pre st).Sublist (behind own s p pre st) := by
  unfold behind
  rw [hpcb, hsub]
  refine hfront.append (List.Sublist.append ?_ (List.Sublist.refl _))
  exact List.Sublist.flatMap_right _ fun x hx => hstations x (List.mem_reverse.mp hx)

section
variable [DecidableEq Stage] [DecidableEq Worker] {cfg : Config Stage Worker} {s s' : State Stage Worker}
  {own : Stage → Worker} {h : List (Stage × Nat)}

/-- Where a request can go when no handler jumps or requeues: to the done queue, or to the next stage. -/
def Onward (cfg : Config Stage Worker) (w : Worker) : WorkerPc Stage → Prop
  | .routing _ dests => dests = [.done] ∨ ∃ t, dests = [.stage t] ∧ cfg.nextRqcb (cfg.rqcb w) = some t
  | .doneLocked _ rest | .doneInserted _ rest | .doneTest _ rest | .doneSet _ rest | .doneWrite _ rest => rest = []
  | _ => True

theorem req_sublist {w : Worker} {a : WorkerAct Stage Worker} (hg : workerGuard cfg s w a)
    (hdequeue : ∀ r rest, a ≠ .dequeue r rest) (v : Worker) :
    ((workerEffect cfg s w a).wk v).req.toList.Sublist (s.wk v).req.toList := by
  cases hreq : ((workerEffect cfg s w a).wk v).req with
  | none => exact List.nil_sublist _
  | some x =>
    rcases req_workerEffect hg hreq with hold | hnew
    · rw [hold]
    · unfold dispatches at hnew
      split at hnew
      · rename_i r rest heq
        cases heq
        exact absurd rfl (hdequeue r rest)
      · cases hnew

omit [DecidableEq Stage] [DecidableEq Worker] in
theorem unhandled_of_wake {pc pc' : WorkerPc Stage} (hwake : pc' = pc ∨ pc' = .woken ∧ pc = .waiting) :
    pc'.unhandled = pc.unhandled := eq_of_wake WorkerPc.unhandled rfl hwake

theorem unhandled_sublist {w : Worker} {a : WorkerAct Stage Worker} (hg : workerGuard cfg s w a)
    (hdequeue : ∀ r rest, a ≠ .dequeue r rest) (v : Worker) :
    ((workerEffect cfg s w a).wk v).unhandled.Sublist (s.wk v).unhandled := by
  by_cases hv : v = w
  · subst hv
    have hresume : ∀ (r : Nat) (rest : List (Dest Stage)), (resume r rest).unhandled = [] := by
      intro r rest
      cases rest <;> rfl
    suffices hnil : ((workerEffect cfg s v a).wk v).unhandled = [] by
      rw [hnil]
      exact List.nil_sublist _
    cases a with
    | dequeue r rest => exact absurd rfl (hdequeue r rest)
    | handle r cl calls ret errno =>
      rw [(workerEffect_handle cfg s v r cl calls ret errno).1]
      rfl
    | doneWrite r rest =>
      rw [workerEffect, writeByte_keeps cfg cfg.doneFd _ State.wk fun _ _ => rfl]
      simp [setWk, hresume]
    | forward | doneSkip => simp [workerEffect, setWk, hresume]
    | _ => simp [workerEffect, setWk, WorkerPc.unhandled]
  · rw [unhandled_of_wake (wk_workerEffect hg hv)]

theorem behind_forward {w : Worker} {r : Nat} {t : Stage} {ws : List Worker} (hown : ∀ st, cfg.rqcb (own st) = st)
    (hone : ∀ v, own (cfg.rqcb v) = v) (hg : workerGuard cfg s w (.forward r t [] ws))
    (hnext : cfg.nextRqcb (cfg.rqcb w) = some t) {p : Pipeline} {pre post : List Stage} {st : Stage}
    (hchain : cfg.chain p = pre ++ st :: post) :
    (behind own (workerEffect cfg s w (.forward r t [] ws)) p pre st).Sublist (behind own s p pre st) := by
  have hct := nextRqcb_ne hnext
  have hne : ∀ x, x ≠ cfg.rqcb w → own x ≠ w := fun x hx heq => hx (by rw [← heq, hown])
  generalize hs' : workerEffect cfg s w (.forward r t [] ws) = s'
  have hpcb : s'.pcb = s.pcb := by rw [← hs']; rfl
  have hsub : s'.sub = s.sub := by rw [← hs']; rfl
  have hmine : s'.wk w = .top := by
    rw [← hs']
    exact Function.update_self w _ _
  have hqueue : (s'.rqcb t).requestHead = (s.rqcb t).requestHead ++ [r] := by
    rw [← hs']
    simp [workerEffect, setWk, toNextStage, setReq]
  have hother : ∀ x, x ≠ t → s'.rqcb x = s.rqcb x := by
    intro x hx
    rw [← hs']
    exact Function.update_of_ne hx _ _
  have hwake : ∀ x, x ≠ cfg.rqcb w → s'.wk (own x) = s.wk (own x) ∨ s'.wk (own x) = .woken ∧ s.wk (own x) = .waiting := by
    intro x hx
    rw [← hs']
    exact wk_workerEffect hg (hne x hx)
  have hunhandled : ∀ x, (s'.wk (own x)).unhandled = (s.wk (own x)).unhandled := by
    intro x
    by_cases hx : x = cfg.rqcb w
    · rw [hx, hone, hmine, hg.1]
      rfl
    · exact unhandled_of_wake (hwake x hx)
  have hstation : ∀ x, x ≠ cfg.rqcb w → x ≠ t → station own s' x = station own s x := by
    intro x hx hxt
    unfold station
    rw [eq_of_wake WorkerPc.req rfl (hwake x hx), hother x hxt]
  have htarget : station own s' t = station own s t ++ [r] := by
    unfold station
    rw [eq_of_wake WorkerPc.req rfl (hwake t hct.symm), hqueue, List.append_assoc]
  have hsource : r :: station own s' (cfg.rqcb w) = station own s (cfg.rqcb w) := by
    unfold station
    rw [hone, hmine, hg.1, hother _ hct]
    rfl
  have hsame : ∀ l : List Stage, cfg.rqcb w ∉ l → t ∉ l →
      l.reverse.flatMap (station own s') = l.reverse.flatMap (station own s) := by
    intro l hc ht
    refine List.flatMap_congr fun x hx => hstation x ?_ ?_
    · rintro rfl
      exact hc (List.mem_reverse.mp hx)
    · rintro rfl
      exact ht (List.mem_reverse.mp hx)
  unfold behind
  rw [hpcb, hsub, hunhandled]
  rcases nextRqcb_cases hnext hchain with ⟨rfl, a, rfl, hc, ht⟩ | ⟨hst, hsc, a, b, rfl, hca, hta, hcb, htb⟩ | ⟨hst, hc, ht⟩
  · rw [hqueue, List.reverse_append, List.flatMap_append, List.flatMap_append, hsame a hc ht]
    simp [← hsource]
  · rw [hother st hst]
    simp [hsame a hca hta, hsame b hcb htb, htarget, ← hsource]
  · rw [hother st hst, hsame pre hc ht]

theorem line_worker {w : Worker} {a : WorkerAct Stage Worker} (hown : ∀ st, cfg.rqcb (own st) = st)
    (hone : ∀ v, own (cfg.rqcb v) = v) (hroute : Onward cfg w (s.wk w)) (hg : workerGuard cfg s w a) {p : Pipeline}
    {pre post : List Stage} {st : Stage} (hchain : cfg.chain p = pre ++ st :: post) :
    (lineOf own (handsOver cfg s (.worker w a) ++ h) (workerEffect cfg s w a) p pre st).Sublist (lineOf own h s p pre st) := by
  have hpcb := workerEffect_keeps cfg s w a State.pcb fun _ => rfl
  have hsub := workerEffect_keeps cfg s w a State.sub fun _ => rfl
  have hne : ∀ x, x ≠ cfg.rqcb w → own x ≠ w := fun x hx heq => hx (by rw [← heq, hown])
  -- the steps that leave the queues and the handlers alone
  have hquiet : (∀ r rest, a ≠ .dequeue r rest) → (workerEffect cfg s w a).rqcb = s.rqcb →
      (behind own (workerEffect cfg s w a) p pre st).Sublist (behind own s p pre st) := by
    intro hdequeue hrqcb
    apply behind_sublist _ _ hpcb hsub
    · rw [hrqcb]
      exact (unhandled_sublist hg hdequeue _).append_right _
    · intro x _
      unfold station
      rw [hrqcb]
      exact (req_sublist hg hdequeue _).append_right _
  unfold lineOf
  cases a with
  | dequeue r rest =>
    refine List.Sublist.append (List.Sublist.refl _) (behind_sublist ?_ (fun x _ => ?_) hpcb hsub)
    · by_cases hx : st = cfg.rqcb w
      · rw [hx, hone]
        simp [workerEffect, setWk, setMutex, WorkerPc.unhandled, hg.1, hg.2.1]
      · simp [workerEffect, setWk, setMutex, Function.update_of_ne (hne st hx), Function.update_of_ne hx]
    · unfold station
      by_cases hx : x = cfg.rqcb w
      · rw [hx, hone]
        simp [workerEffect, setWk, setMutex, WorkerPc.req, hg.1, hg.2.1]
      · simp [workerEffect, setWk, setMutex, Function.update_of_ne (hne x hx), Function.update_of_ne hx]
  | forward r t rest ws =>
    rw [hg.1] at hroute
    obtain ⟨rfl, hnext⟩ : rest = [] ∧ cfg.nextRqcb (cfg.rqcb w) = some t := by
      rcases hroute with hdone | ⟨t', ht', hnext⟩
      · cases hdone
      · cases ht'
        exact ⟨rfl, hnext⟩
    exact List.Sublist.append (List.Sublist.refl _) (behind_forward hown hone hg hnext hchain)
  | handle r cl calls ret errno =>
    have hrqcb := rqcb_workerEffect cfg s w (a := .handle r cl calls ret errno) (by simp) (by simp)
    by_cases hst : st = cfg.rqcb w
    · -- the request comes from the head of the line to the end of what the handler was given
      have hbefore : (s.wk (own st)).unhandled = [r] := by
        rw [hst, hone, hg.1]
        rfl
      have hafter : ((workerEffect cfg s w (.handle r cl calls ret errno)).wk (own st)).unhandled = [] := by
        rw [hst, hone, (workerEffect_handle cfg s w r cl calls ret errno).1]
        rfl
      have hgiven : given (handsOver cfg s (.worker w (.handle r cl calls ret errno)) ++ h) st = r :: given h st := by
        simp [given, handsOver, hst]
      have htail : (pre.reverse.flatMap (station own (workerEffect cfg s w (.handle r cl calls ret errno)))).Sublist
          (pre.reverse.flatMap (station own s)) := by
        refine List.Sublist.flatMap_right _ fun x _ => ?_
        unfold station
        rw [hrqcb]
        exact (req_sublist hg (by simp) _).append_right _
      unfold behind
      rw [hgiven, hbefore, hafter, hrqcb, hpcb, hsub, List.reverse_cons]
      simpa using htail
    · have hgiven : given (handsOver cfg s (.worker w (.handle r cl calls ret errno)) ++ h) st = given h st := by
        simp [given, handsOver, Ne.symm hst]
      rw [hgiven]
      exact List.Sublist.append (List.Sublist.refl _) (hquiet (by simp) hrqcb)
  | _ =>
    refine List.Sublist.append (List.Sublist.refl _) (hquiet (by simp) ?_)
    exact rqcb_workerEffect cfg s w (by simp) (by simp)

omit [DecidableEq Stage] [DecidableEq Worker] in
theorem ne_firstRqcb_of_mem {p : Pipeline} {c x : Stage} {l : List Stage} (hchain : cfg.chain p = c :: l) (hx : x ∈ l)
    (q : Pipeline) : cfg.firstRqcb q ≠ some x := by
  intro hfirst
  have hq : x ∈ cfg.chain q := List.mem_of_head? hfirst
  obtain rfl := chain_inj cfg hq (by rw [hchain]; exact List.mem_cons_of_mem c hx)
  have hnodup := nodup_chain cfg q
  rw [Config.firstRqcb, hchain] at hfirst
  rw [hchain] at hnodup
  exact (List.nodup_cons.mp hnodup).1 (Option.some.inj hfirst ▸ hx)

omit [DecidableEq Stage] [DecidableEq Worker] in
theorem behind_of_waiting {p : Pipeline} {pre post : List Stage} {st : Stage} (hchain : cfg.chain p = pre ++ st :: post)
    (hwk : ∀ w, s'.wk w = s.wk w ∨ s'.wk w = .woken ∧ s.wk w = .waiting)
    (hinner : ∀ x, (∀ q, cfg.firstRqcb q ≠ some x) → (s'.rqcb x).requestHead = (s.rqcb x).requestHead) {fresh : List Nat}
    (hwait : (waiting cfg s' p ++ pending p s'.sub).Sublist (waiting cfg s p ++ pending p s.sub ++ fresh)) :
    (behind own s' p pre st).Sublist (behind own s p pre st ++ fresh) := by
  have hunhandled : ∀ x, (s'.wk (own x)).unhandled = (s.wk (own x)).unhandled := fun x => unhandled_of_wake (hwk _)
  have hreq : ∀ x, (s'.wk (own x)).req = (s.wk (own x)).req := fun x => eq_of_wake WorkerPc.req rfl (hwk _)
  unfold behind
  rw [hunhandled]
  cases pre with
  | nil =>
    have hfirst : cfg.firstRqcb p = some st := by rw [Config.firstRqcb, hchain]; rfl
    rw [waiting_eq hfirst, waiting_eq hfirst] at hwait
    simpa using hwait
  | cons c pre =>
    have hfirst : cfg.firstRqcb p = some c := by rw [Config.firstRqcb, hchain]; rfl
    have hst := hinner st (ne_firstRqcb_of_mem hchain (by simp))
    have hstations : pre.reverse.flatMap (station own s') = pre.reverse.flatMap (station own s) := by
      refine List.flatMap_congr fun x hx => ?_
      have hmem : x ∈ pre ++ st :: post := List.mem_append_left _ (List.mem_reverse.mp hx)
      rw [station, station, hreq, hinner x (ne_firstRqcb_of_mem hchain hmem)]
    rw [waiting_eq hfirst, waiting_eq hfirst] at hwait
    rw [hst]
    simpa [station, hreq, hstations] using hwait

variable [Fintype Stage] [Fintype Worker]

theorem waiting_mainPlain {a : MainAct Stage Worker} (hledger : Ledger cfg s) (hg : mainGuard cfg s a)
    (hsubmit : ∀ args q st, a ≠ .submit args q st) (p : Pipeline) :
    (waiting cfg (mainPlain cfg s a) p ++ pending p (mainPlain cfg s a).sub).Sublist (waiting cfg s p ++ pending p s.sub) := by
  have hsame : waiting cfg (mainPlain cfg s a) p = waiting cfg s p →
      pending p (mainPlain cfg s a).sub = pending p s.sub →
      (waiting cfg (mainPlain cfg s a) p ++ pending p (mainPlain cfg s a).sub).Sublist
        (waiting cfg s p ++ pending p s.sub) := by
    intro hw hp
    rw [hw, hp]
  cases a with
  | submit args q st => exact absurd rfl (hsubmit args q st)
  | send r q st flags concat =>
    obtain ⟨hfirst, -, -, hconcat⟩ := hledger.checked r q st flags concat hg.1
    obtain ⟨s₁, hthin, htmp, -, hsub, heq⟩ := sendLocked_order hfirst r flags hconcat
    have hmain : mainPlain cfg s (.send r q st flags concat) = sendLocked cfg r q st flags concat s := rfl
    rw [hmain]
    rcases heq with heq | heq | ⟨notice, heq⟩ <;> rw [heq]
    · exact (hthin.sublist p).append (List.nil_sublist _)
    · refine (hthin.sublist p).append ?_
      rw [hsub]
    · have hwait : waiting cfg (setMutex st (some .main) { insertTail st r s₁ with sub := .inserted r q st notice }) p =
          waiting cfg s₁ p ++ if p = q then [r] else [] := waiting_insertTail hfirst r htmp p
      rw [hwait, hg.1]
      by_cases hpq : p = q
      · simpa [pending, hpq, setMutex] using hthin.sublist q
      · simpa [pending, hpq, Ne.symm hpq, setMutex] using hthin.sublist p
  | buffer r q st flags concat =>
    have hwait : waiting cfg (mainPlain cfg s (.buffer r q st flags concat)) p =
        waiting cfg s p ++ if p = q then [r] else [] := waiting_bufferTmp r s p
    rw [hwait, show s.sub = _ from hg]
    by_cases hpq : p = q
    · simp [pending, hpq, mainPlain, mainEffect]
    · simp [pending, hpq, Ne.symm hpq, mainPlain, mainEffect]
  | count r q st notice ws =>
    apply hsame
    · refine waiting_congr cfg (fun x _ => ?_) rfl
      by_cases hx : x = st
      · simp [hx, mainPlain, mainEffect, setMutex, countInserted]
      · simp [mainPlain, mainEffect, setMutex, countInserted, Function.update_of_ne hx]
    · rw [hg.1]
      cases notice <;> rfl
  | countBuffered r q | returnTid r q =>
    apply hsame
    · refine waiting_congr cfg (fun _ _ => rfl) ?_
      by_cases hpq : p = q
      · simp [hpq, mainPlain, mainEffect, Csf.countBuffered]
      · simp [mainPlain, mainEffect, Csf.countBuffered, Function.update_of_ne hpq]
    · rw [show s.sub = _ from hg]
      rfl
  | noticeSkip | noticeClear =>
    apply hsame rfl
    rw [hg.1]
    rfl
  | noticeSet | noticeWrite =>
    apply hsame rfl
    rw [show s.sub = _ from hg]
    rfl
  | kick ev ok ws =>
    have hsub : (mainPlain cfg s (.kick ev ok ws)).sub = s.sub :=
      (QueueMove.kickRequestQueue cfg ok s).keeps State.sub fun _ => rfl
    rw [hsub]
    exact ((Thinned.kickRequestQueue cfg ok s).sublist p).append_right _
  | _ => exact hsame rfl rfl

theorem inner_mainPlain {a : MainAct Stage Worker} (hledger : Ledger cfg s) (hg : mainGuard cfg s a) {x : Stage}
    (hx : ∀ q, cfg.firstRqcb q ≠ some x) : ((mainPlain cfg s a).rqcb x).requestHead = (s.rqcb x).requestHead := by
  cases a with
  | send r q st flags concat =>
    obtain ⟨hfirst, -, -, hconcat⟩ := hledger.checked r q st flags concat hg.1
    obtain ⟨s₁, hthin, -, -, -, heq⟩ := sendLocked_order hfirst r flags hconcat
    show ((sendLocked cfg r q st flags concat s).rqcb x).requestHead = _
    rw [← hthin.inner x hx]
    rcases heq with heq | heq | ⟨notice, heq⟩ <;> rw [heq]
    simp [setMutex, insertTail, Function.update_of_ne (ne_of_inner hfirst hx)]
  | count r q st notice ws =>
    by_cases hst : x = st
    · simp [hst, mainPlain, mainEffect, setMutex, countInserted]
    · simp [mainPlain, mainEffect, setMutex, countInserted, Function.update_of_ne hst]
  | kick ev ok ws => exact congrArg Rqcb.requestHead ((Thinned.kickRequestQueue cfg ok s).inner x hx)
  | _ => rfl

/-- Every step takes requests out of the line to a stage, or puts a new one at its end. -/
theorem line_step {a : Action Stage Worker} (hown : ∀ st, cfg.rqcb (own st) = st) (hone : ∀ v, own (cfg.rqcb v) = v)
    (hledger : Ledger cfg s) (hroute : ∀ w, Onward cfg w (s.wk w)) (hs : step cfg s a = some s') {p : Pipeline}
    {pre post : List Stage} {st : Stage} (hchain : cfg.chain p = pre ++ st :: post) :
    ∃ fresh, (lineOf own (handsOver cfg s a ++ h) s' p pre st).Sublist (lineOf own h s p pre st ++ fresh) ∧
      (fresh = [] ∨ fresh = [s.nreq] ∧ .submitted s.nreq p ∈ s'.trace) := by
  obtain ⟨-, hg, rfl⟩ := step_eq_some hs
  -- the steps in front of the first stage
  have hfront : ∀ fresh t, handsOver cfg s a = [] → (∀ w, t.wk w = s.wk w ∨ t.wk w = .woken ∧ s.wk w = .waiting) →
      (∀ x, (∀ q, cfg.firstRqcb q ≠ some x) → (t.rqcb x).requestHead = (s.rqcb x).requestHead) →
      (waiting cfg t p ++ pending p t.sub).Sublist (waiting cfg s p ++ pending p s.sub ++ fresh) →
      (lineOf own (handsOver cfg s a ++ h) t p pre st).Sublist (lineOf own h s p pre st ++ fresh) := by
    intro fresh t hhist hwk hinner hwait
    rw [hhist, List.nil_append, lineOf, lineOf, List.append_assoc]
    exact List.Sublist.append (List.Sublist.refl _) (behind_of_waiting hchain hwk hinner hwait)
  cases a with
  | worker w a =>
    refine ⟨[], ?_, .inl rfl⟩
    rw [List.append_nil]
    exact line_worker hown hone (hroute w) hg hchain
  | main a =>
    have hwait := mainEffect_plain cfg s a (fun t => waiting cfg t p ++ pending p t.sub) fun _ => rfl
    have hinner : ∀ x, (∀ q, cfg.firstRqcb q ≠ some x) →
        ((effect cfg s (.main a)).rqcb x).requestHead = (s.rqcb x).requestHead := by
      intro x hx
      rw [effect, mainEffect_plain cfg s a State.rqcb fun _ => rfl]
      exact inner_mainPlain hledger hg hx
    by_cases hsubmit : ∃ args q c, a = .submit args q c
    · obtain ⟨args, q, c, rfl⟩ := hsubmit
      have htrace := mainEffect_plain cfg s (.submit args q c) State.trace fun _ => rfl
      refine ⟨if q = p then [s.nreq] else [], hfront _ _ rfl (wk_mainEffect hg) hinner ?_, ?_⟩
      · rw [effect, hwait, hg.2.1, show pending p (.none : SubmitPc Stage) = [] from rfl, List.append_nil]
        exact List.Sublist.refl _
      · split_ifs with hqp
        · refine .inr ⟨rfl, ?_⟩
          rw [effect, htrace, ← hqp]
          exact List.mem_cons_self
        · exact .inl rfl
    · refine ⟨[], hfront _ _ rfl (wk_mainEffect hg) hinner ?_, .inl rfl⟩
      rw [effect, hwait, List.append_nil]
      exact waiting_mainPlain hledger hg (fun args q c heq => hsubmit ⟨args, q, c, heq⟩) p
  | signals a =>
    have hsub := signalEffect_keeps cfg s a State.sub fun _ => rfl
    refine ⟨[], hfront _ _ rfl (wk_signalEffect hg) (fun x hx => ?_) ?_, .inl rfl⟩
    · cases a with
      | kick ok ws => exact congrArg Rqcb.requestHead ((Thinned.kickRequestQueue cfg ok s).inner x hx)
      | _ => rfl
    · rw [effect, hsub, List.append_nil]
      cases a with
      | kick ok ws => exact ((Thinned.kickRequestQueue cfg ok s).sublist p).append_right _
      | _ => exact List.Sublist.refl _
  | tick | cancel =>
    refine ⟨[], hfront [] _ rfl (fun _ => .inl rfl) (fun _ _ => rfl) ?_, .inl rfl⟩
    rw [List.append_nil]
    exact List.Sublist.refl _

/-! ### Handlers that send their requests on -/

omit [DecidableEq Worker] [Fintype Stage] [Fintype Worker] in
theorem submitNext_straight (cfg : Config Stage Worker) (st : Stage) {nstage : Nat} {ret : Int} (err : Int)
    (hrequeue : ret ≠ pipelineRequeue) (hlimit : passesOn ret → nstage ≤ maxStageJump) :
    (submitNext cfg st none nstage ret err).dests = [.done] ∨
      ∃ t, (submitNext cfg st none nstage ret err).dests = [.stage t] ∧ cfg.nextRqcb st = some t := by
  unfold submitNext
  by_cases hc : ret = pipelineContinue
  · have hle := hlimit (.inl hc)
    cases hnext : cfg.nextRqcb st <;>
    simp [hc, pipelineFailed, pipelineContinue, Nat.not_lt.mpr hle, destOf]
  · left
    simp only [if_neg hc, if_neg hrequeue]
    split_ifs <;> rfl

omit [Fintype Stage] [Fintype Worker] in
theorem onward_worker {w : Worker} {a : WorkerAct Stage Worker} (h : Onward cfg w (s.wk w)) (hnext : ∀ w, s.nextRqcbp w = none)
    (hstraight : straight (.worker w a : Action Stage Worker) = true) (hregular : Regular s (.worker w a))
    (hg : workerGuard cfg s w a) :
    Onward cfg w ((workerEffect cfg s w a).wk w) ∧ ∀ v, (workerEffect cfg s w a).nextRqcbp v = none := by
  cases a with
  | handle r cl calls ret errno =>
    obtain ⟨rfl, hret⟩ : calls = [] ∧ ret ≠ pipelineRequeue := by simpa [straight] using hstraight
    obtain ⟨hwk, hmine⟩ := workerEffect_handle cfg s w r cl [] ret errno
    rw [hnext w] at hwk hmine
    constructor
    · rw [hwk]
      exact submitNext_straight cfg _ errno hret hregular
    · intro v
      by_cases hv : v = w
      · rw [hv, hmine]
        show (submitNext cfg (cfg.rqcb w) none (s.heap r).nstage ret errno).nextRqcbp = none
        rw [submitNext_nextRqcbp]
        exact ite_self none
      · have hoff := offConns_touchCsp r (handled cfg w r [] ret errno s)
        have hother := congrFun (keeps_of_offConns hoff State.nextRqcbp fun _ => rfl) v
        exact (hother.trans (Function.update_of_ne hv _ _)).trans (hnext v)
  | forward r t rest ws =>
    have hwk : (workerEffect cfg s w (.forward r t rest ws)).wk w = resume r rest := Function.update_self w _ _
    rw [hg.1] at h
    obtain rfl : rest = [] := by
      rcases h with hdone | ⟨t', ht', -⟩
      · cases hdone
      · cases ht'
        rfl
    exact ⟨by rw [hwk]; trivial, hnext⟩
  | doneLock r rest =>
    rw [hg.1] at h
    obtain rfl : rest = [] := by
      rcases h with hdone | ⟨t', ht', -⟩
      · cases hdone
        rfl
      · cases ht'
    exact ⟨by simp [workerEffect, setWk, Onward], hnext⟩
  | doneSkip r rest =>
    rw [hg.1] at h
    obtain rfl : rest = [] := h
    exact ⟨by simp [workerEffect, setWk, Onward, resume], hnext⟩
  | doneClear r rest =>
    rw [hg.1] at h
    obtain rfl : rest = [] := h
    exact ⟨by simp [workerEffect, setWk, Onward], hnext⟩
  | doneInsert r rest | doneUnlock r rest | doneSet r rest =>
    rw [show s.wk w = _ from hg] at h
    obtain rfl : rest = [] := h
    exact ⟨by simp [workerEffect, setWk, Onward], hnext⟩
  | doneWrite r rest =>
    rw [show s.wk w = _ from hg] at h
    obtain rfl : rest = [] := h
    have hwk := writeByte_keeps cfg cfg.doneFd (setWk w (resume r []) s) State.wk fun _ _ => rfl
    have hjump := writeByte_keeps cfg cfg.doneFd (setWk w (resume r []) s) State.nextRqcbp fun _ _ => rfl
    refine ⟨?_, fun v => ?_⟩
    · rw [workerEffect, hwk]
      simp [setWk, Onward, resume]
    · rw [workerEffect, hjump]
      exact hnext v
  | _ => exact ⟨by simp [workerEffect, setWk, Onward], hnext⟩

theorem onward_step {a : Action Stage Worker} (h : ∀ w, Onward cfg w (s.wk w)) (hnext : ∀ w, s.nextRqcbp w = none)
    (hstraight : straight a = true) (hregular : Regular s a) (hs : step cfg s a = some s') :
    (∀ w, Onward cfg w (s'.wk w)) ∧ ∀ w, s'.nextRqcbp w = none := by
  obtain ⟨-, hg, rfl⟩ := step_eq_some hs
  have hwake : ∀ {w : Worker} {pc : WorkerPc Stage}, (pc = s.wk w ∨ pc = .woken ∧ s.wk w = .waiting) → Onward cfg w pc := by
    rintro w pc (rfl | ⟨rfl, -⟩)
    · exact h w
    · trivial
  cases a with
  | worker v a =>
    have hself : Onward cfg v ((workerEffect cfg s v a).wk v) ∧
        ∀ w, (workerEffect cfg s v a).nextRqcbp w = none := onward_worker (h v) hnext hstraight hregular hg
    refine ⟨fun w => ?_, hself.2⟩
    by_cases hw : w = v
    · rw [hw]
      exact hself.1
    · exact hwake (wk_workerEffect hg hw)
  | main a =>
    refine ⟨fun w => hwake (wk_mainEffect hg w), fun w => ?_⟩
    rw [effect, mainEffect_keeps cfg s a State.nextRqcbp fun _ => rfl]
    exact hnext w
  | signals a =>
    refine ⟨fun w => hwake (wk_signalEffect hg w), fun w => ?_⟩
    rw [effect, signalEffect_keeps cfg s a State.nextRqcbp fun _ => rfl]
    exact hnext w
  | tick | cancel => exact ⟨h, hnext⟩

/-! ### The conveyor -/

/-- The invariant: each line is in the order of submission and holds requests of its pipeline only. -/
structure Conveyor (cfg : Config Stage Worker) (own : Stage → Worker) (s : State Stage Worker) (h : List (Stage × Nat)) :
    Prop where
  ledger : Ledger cfg s
  onward : (∀ w, Onward cfg w (s.wk w)) ∧ ∀ w, s.nextRqcbp w = none
  sorted : ∀ p pre st post, cfg.chain p = pre ++ st :: post → (lineOf own h s p pre st).Pairwise (· < ·)
  home : ∀ p pre st post, cfg.chain p = pre ++ st :: post → ∀ x ∈ lineOf own h s p pre st, .submitted x p ∈ s.trace

omit [DecidableEq Worker] [Fintype Stage] in
theorem conveyor_init (cfg : Config Stage Worker) (own : Stage → Worker) :
    Conveyor cfg own (State.init : State Stage Worker) [] := by
  have hline : ∀ p pre st, lineOf own [] (State.init : State Stage Worker) p pre st = [] := by
    intro p pre st
    simp [lineOf, given, behind, station, State.init, WorkerPc.unhandled, WorkerPc.req, pending]
  refine ⟨.init cfg, ⟨fun w => trivial, fun w => rfl⟩, fun p pre st post _ => ?_, fun p pre st post _ x hx => ?_⟩
  · rw [hline]
    exact List.Pairwise.nil
  · rw [hline] at hx
    cases hx

theorem conveyor_step {a : Action Stage Worker} (hown : ∀ st, cfg.rqcb (own st) = st) (hone : ∀ v, own (cfg.rqcb v) = v)
    (hc : Conveyor cfg own s h) (hstraight : straight a = true) (hregular : Regular s a) (hs : step cfg s a = some s') :
    Conveyor cfg own s' (handsOver cfg s a ++ h) := by
  refine ⟨ledger_step hc.ledger hs, onward_step hc.onward.1 hc.onward.2 hstraight hregular hs, ?_, ?_⟩
  · intro p pre st post hchain
    obtain ⟨fresh, hsublist, hfresh⟩ := line_step hown hone hc.ledger hc.onward.1 hs hchain
    refine List.Pairwise.sublist hsublist ?_
    rcases hfresh with rfl | ⟨rfl, -⟩
    · rw [List.append_nil]
      exact hc.sorted p pre st post hchain
    · refine List.pairwise_append.mpr ⟨hc.sorted p pre st post hchain, List.pairwise_singleton _ _, fun x hx y hy => ?_⟩
      rw [List.mem_singleton.mp hy]
      exact hc.ledger.old x p (hc.home p pre st post hchain x hx)
  · intro p pre st post hchain x hx
    obtain ⟨fresh, hsublist, hfresh⟩ := line_step hown hone hc.ledger hc.onward.1 hs hchain
    rcases List.mem_append.mp (hsublist.subset hx) with hold | hnew
    · exact mem_step hs (by simp) (by simp) (hc.home p pre st post hchain x hold)
    · rcases hfresh with rfl | ⟨rfl, hsubmitted⟩
      · cases hnew
      · rw [List.mem_singleton.mp hnew]
        exact hsubmitted

/-- In every run in which no handler calls `set_next_stage`, returns `PIPELINE_REQUEUE` or passes a request beyond the loop
limit, and with one worker for each stage, the handler of every stage of a pipeline is given the requests in the order of
their submission: try-locks that fail, evictions, timeouts, cancellations and failures of earlier stages included. -/
theorem stages_in_order (cfg : Config Stage Worker) (hworkers : Function.Bijective cfg.rqcb) {s : State Stage Worker}
    {h : List (Stage × Nat)} (hreach : Reach (withHistory (step cfg) (handsOver cfg))
      (fun x a _ => Regular x.1 a ∧ straight a = true) (State.init, []) (s, h))
    (p : Pipeline) (st : Stage) (hst : st ∈ cfg.chain p) : (given h st).reverse.Pairwise (SubmittedBefore s p) := by
  obtain ⟨own, hone, hown⟩ := Function.bijective_iff_has_inverse.mp hworkers
  have hinv : Conveyor cfg own s h := by
    refine hreach.invariant (I := fun x => Conveyor cfg own x.1 x.2) (conveyor_init cfg own) ?_
    intro x a x' hI hR hx
    obtain ⟨hs, hd⟩ := withHistory_eq_some hx
    rw [hd]
    exact conveyor_step hown hone hI hR.2 hR.1 hs
  obtain ⟨pre, post, hchain⟩ := List.append_of_mem hst
  have hgiven : (given h st).reverse.Sublist (lineOf own h s p pre st) := List.sublist_append_left _ _
  have hhome : ∀ x ∈ (given h st).reverse, .submitted x p ∈ s.trace := fun x hx =>
    hinv.home p pre st post hchain x (hgiven.subset hx)
  refine ((hinv.sorted p pre st post hchain).sublist hgiven).imp_of_mem fun {a b} ha hb hab => ?_
  exact hinv.ledger.submittedOrder a b p p (hhome a ha) (hhome b hb) hab

end

/-- One pipeline with two stages, and one worker for each. -/
def twoStages : Config (Fin 2) (Fin 2) where
  chain p := if p = 0 then List.finRange 2 else []
  chain_nodup := by decide
  chain_cover := by decide
  modName _ := ['a']
  delay _ := 0
  requestHandler _ := true
  rqcb := id
  initOk _ := true
  pipelineQueueSize := 8
  requestTimeout := 0
  doneFd := typicalDoneFd
  doneFd_pos := typicalDoneFd_pos
  pipeCapacity := typicalPipeCapacity
  pipeCapacity_pos := typicalPipeCapacity_pos
  maxBlocks := typicalMaxBlocks
  maxBlocks_lt := typicalMaxBlocks_lt

/-- Both requests have passed both stages. -/
theorem stages_in_order_run : ∃ s h, Reach (withHistory (step twoStages) (handsOver twoStages))
      (fun x a _ => Regular x.1 a ∧ straight a = true) (State.init, []) (s, h) ∧ given h 1 = [1, 0] ∧
    [0, 1].Pairwise (SubmittedBefore s 0) := by
  obtain ⟨⟨s, h⟩, hs, hgiven⟩ := Lib.exists_reach (withHistory (step twoStages) (handsOver twoStages))
    (fun x a _ => Regular x.1 a ∧ straight a = true) (State.init, [])
    [.main .accept, .main (.readable 0), .main (.submit (submitZero 0) 0 0), .main (.send 0 0 0 0 false),
      .main (.count 0 0 0 false []), .main (.returnTid 0 0), .main (.submit (submitZero 0) 0 0),
      .main (.send 1 0 0 0 false), .main (.count 1 0 0 false []), .main (.returnTid 1 0),
      .worker 0 .lock, .worker 0 (.dequeue 0 [1]), .worker 0 (.handle 0 0 [] pipelineContinue 0),
      .worker 0 (.forward 0 1 [] []), .worker 0 .lock, .worker 0 (.dequeue 1 []),
      .worker 0 (.handle 1 0 [] pipelineContinue 0), .worker 0 (.forward 1 1 [] []),
      .worker 1 .lock, .worker 1 (.dequeue 0 [1]), .worker 1 (.handle 0 0 [] pipelineContinue 0),
      .worker 1 (.doneLock 0 []), .worker 1 (.doneInsert 0 []), .worker 1 (.doneUnlock 0 []), .worker 1 (.doneClear 0 []),
      .worker 1 (.doneSet 0 []), .worker 1 (.doneWrite 0 []), .worker 1 .lock, .worker 1 (.dequeue 1 []),
      .worker 1 (.handle 1 0 [] pipelineContinue 0)]
    (P := fun x => given x.2 1 = [1, 0]) (by decide +kernel)
  have horder := stages_in_order twoStages Function.bijective_id hs 0 1 (by decide)
  rw [hgiven] at horder
  exact ⟨s, h, hs, hgiven, horder⟩

end Csf
