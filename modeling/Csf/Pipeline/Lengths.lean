import Csf.Pipeline.Submit
import Mathlib.Tactic.Common

/-!
# Queues and their counters

Every queue keeps its length in a 32-bit counter beside the list, and a pipeline with buffered requests is
linked into `apq`. `Rqcb.Behind k` says that a counter is `k` behind the length of its list, modulo the width:
`send_to_pipeline` links a request before it counts it, so the counter of its stage is one behind for a moment.
`Active` says that `apq`, the markers of the entries and the temporary queues agree. The queue operations of
the main thread keep both.
-/

namespace Csf

variable {Stage Worker : Type}

/-- `queue_len` is `k` behind the length of `request_head`. -/
def Rqcb.Behind (k : UInt32) (q : Rqcb) : Prop := q.queueLen + k = UInt32.ofNat q.requestHead.length

/-- `tmp_queue_len` is the length of `tmp_request_head`. -/
def Pcb.Exact (b : Pcb) : Prop := b.tmpQueueLen = UInt32.ofNat b.tmpRequestHead.length

theorem toNat_of_eq_ofNat {n : UInt32} {k : Nat} (h : n = UInt32.ofNat k) (hk : k < 2 ^ 32) : n.toNat = k := by
  rw [h]
  exact UInt32.toNat_ofNat_of_lt' hk

theorem eq_ofNat_of_toNat_eq {n : UInt32} {k : Nat} (h : n.toNat = k) : n = UInt32.ofNat k := by
  rw [← h, UInt32.ofNat_toNat]

namespace Rqcb.Behind

variable {k : UInt32} {q : Rqcb} {r : Nat}

theorem append (h : Behind k q) (l : List Nat) :
    Behind k ⟨q.requestHead ++ l, q.queueLen + UInt32.ofNat l.length⟩ := by
  unfold Behind at h ⊢
  rw [List.length_append, UInt32.ofNat_add, ← h]
  ac_rfl

theorem tail {rest : List Nat} (h : Behind k q) (hq : q.requestHead = r :: rest) :
    Behind k ⟨rest, q.queueLen - 1⟩ := by
  unfold Behind at h ⊢
  rw [hq, List.length_cons, UInt32.ofNat_add] at h
  grind

theorem erase (h : Behind k q) (hr : r ∈ q.requestHead) : Behind k ⟨q.requestHead.erase r, q.queueLen - 1⟩ := by
  have hlen := List.length_erase_add_one hr
  unfold Behind at h ⊢
  rw [← hlen, UInt32.ofNat_add] at h
  grind

end Rqcb.Behind

/-- The counter of every stage is `off` behind, the other ones are exact. -/
structure Counted (off : Stage → UInt32) (s : State Stage Worker) : Prop where
  stage : ∀ st, (s.rqcb st).Behind (off st)
  tmp : ∀ p, (s.pcb p).Exact
  done : s.doneRqcb.Behind 0

/-- The active list holds the pipelines with buffered requests, each once. -/
structure Active (s : State Stage Worker) : Prop where
  nodup : s.apq.Nodup
  linked : ∀ p, p ∈ s.apq ↔ (s.pcb p).activeQueueEntry = true
  buffered : ∀ p, (s.pcb p).activeQueueEntry = true ↔ (s.pcb p).tmpRequestHead ≠ []

/-! ### The counters -/

namespace Counted

variable {off : Stage → UInt32} {s : State Stage Worker}

theorem unlinkActive (h : Counted off s) (p : Pipeline) : Counted off (unlinkActive p s) where
  stage := h.stage
  tmp := (Function.forall_update_iff s.pcb fun _ b => b.Exact).mpr ⟨h.tmp p, fun q _ => h.tmp q⟩
  done := h.done

variable [DecidableEq Stage] {st : Stage} {r : Nat}

theorem setRqcb (h : Counted off s) {q : Rqcb} (hq : q.Behind (off st)) :
    ∀ st', (Function.update s.rqcb st q st').Behind (off st') :=
  (Function.forall_update_iff s.rqcb fun st' q => q.Behind (off st')).mpr ⟨hq, fun st' _ => h.stage st'⟩

theorem concatTmp (h : Counted off s) (p : Pipeline) (st : Stage) : Counted off (concatTmp p st s) where
  stage := by
    have htmp : (s.pcb p).tmpQueueLen = _ := h.tmp p
    apply h.setRqcb
    rw [htmp]
    exact (h.stage st).append _
  tmp := (Function.forall_update_iff s.pcb fun _ b => b.Exact).mpr ⟨rfl, fun q _ => h.tmp q⟩
  done := h.done

theorem evict (h : Counted off s) (hr : r ∈ (s.rqcb st).requestHead) : Counted off (evict st r s) where
  stage := h.setRqcb ((h.stage st).erase hr)
  tmp := h.tmp
  done := h.done

theorem kickOutHead (h : Counted off s) (hr : r ∈ (s.rqcb st).requestHead) : Counted off (kickOutHead st r s) :=
  evict (s := { s with heap := _ }) ⟨h.stage, h.tmp, h.done⟩ hr

theorem insertTail (h : Counted off s) (st : Stage) (r : Nat) :
    Counted (Function.update off st (off st + 1)) (insertTail st r s) where
  stage st' := by
    by_cases hst : st' = st
    · subst hst
      have hbehind := h.stage st'
      simp only [Csf.insertTail, Function.update_self, Rqcb.Behind, List.length_append, List.length_singleton,
        UInt32.ofNat_add] at hbehind ⊢
      rw [← hbehind]
      ac_rfl
    · simp only [Csf.insertTail, Function.update_of_ne hst]
      exact h.stage st'
  tmp := h.tmp
  done := h.done

theorem kickPcb (h : Counted off s) (cfg : Config Stage Worker) (ok : Pipeline → Bool) (p : Pipeline) :
    Counted off (kickPcb cfg ok s p) := by
  unfold Csf.kickPcb
  split
  · exact h.unlinkActive p
  · split
    · split
      · exact (h.concatTmp p _).unlinkActive p
      · exact h
    · exact h

theorem kickRequestQueue (h : Counted off s) (cfg : Config Stage Worker) (ok : Pipeline → Bool) :
    Counted off (kickRequestQueue cfg ok s) := by
  unfold Csf.kickRequestQueue
  generalize s.apq = l
  induction l generalizing s with
  | nil => exact h
  | cons p l ih => exact ih (h.kickPcb cfg ok p)

theorem concatBuffered (h : Counted off s) (p : Pipeline) (st : Stage) (concat : Bool) :
    Counted off (concatBuffered p st concat s) := by
  unfold Csf.concatBuffered
  split
  · split
    · exact (h.concatTmp p st).unlinkActive p
    · exact h.concatTmp p st
  · exact h

theorem sweep (cfg : Config Stage Worker) (st : Stage) (l : List Nat) (h : Counted off s)
    (hl : ∀ x, l.count x ≤ (s.rqcb st).requestHead.count x) : Counted off (l.foldl (sweepOne cfg st) s) := by
  induction l generalizing s with
  | nil => exact h
  | cons r l ih =>
    have hr : r ∈ (s.rqcb st).requestHead := by
      have hle := hl r
      rw [List.count_cons_self] at hle
      exact List.count_pos_iff.mp (by omega)
    rw [List.foldl_cons, sweepOne]
    split
    · apply ih (h.evict hr)
      intro x
      have hle := hl x
      rw [List.count_cons] at hle
      simp only [Csf.evict, Function.update_self, List.count_erase]
      split_ifs at hle ⊢ <;> simp_all
      omega
    · apply ih h
      intro x
      have hle := hl x
      rw [List.count_cons] at hle
      omega

theorem sweepTimedOut (h : Counted off s) (cfg : Config Stage Worker) (st : Stage) (flags : UInt32) :
    Counted off (sweepTimedOut cfg st flags s) := by
  unfold Csf.sweepTimedOut
  split
  · exact h.sweep cfg st _ fun _ => le_rfl
  · exact h

theorem sendToPipeline (h : Counted off s) (cfg : Config Stage Worker) (p : Pipeline) (st : Stage) (r : Nat)
    (flags : UInt32) (concat : Bool) :
    (Counted off (sendToPipeline cfg p st r flags concat s).1 ∧
      ((sendToPipeline cfg p st r flags concat s).2 = .full ∨
        (sendToPipeline cfg p st r flags concat s).2 = .nullHead)) ∨
    Counted (Function.update off st (off st + 1)) (sendToPipeline cfg p st r flags concat s).1 ∧
      ∃ notice, (sendToPipeline cfg p st r flags concat s).2 = .linked notice := by
  have hc := h.concatBuffered p st concat
  unfold Csf.sendToPipeline
  simp only
  generalize Csf.concatBuffered p st concat s = s' at hc ⊢
  split
  · exact .inl ⟨hc, .inl rfl⟩
  · split
    · split
      · exact .inl ⟨hc, .inr rfl⟩
      · rename_i x rest hhead
        have hmem : x ∈ (s'.rqcb st).requestHead := by
          rw [hhead]
          exact List.mem_cons_self
        exact .inr ⟨((hc.kickOutHead hmem).sweepTimedOut cfg st flags).insertTail st r, _, rfl⟩
    · exact .inr ⟨(hc.sweepTimedOut cfg st flags).insertTail st r, _, rfl⟩

end Counted

/-! ### The active list -/

namespace Active

variable {s s' : State Stage Worker}

theorem of_fields (h : Active s) (hapq : s'.apq = s.apq)
    (hpcb : ∀ p, (s'.pcb p).activeQueueEntry = (s.pcb p).activeQueueEntry ∧
      (s'.pcb p).tmpRequestHead = (s.pcb p).tmpRequestHead) : Active s' := by
  refine ⟨?_, fun p => ?_, fun p => ?_⟩
  · rw [hapq]
    exact h.nodup
  · rw [hapq, (hpcb p).1]
    exact h.linked p
  · rw [(hpcb p).1, (hpcb p).2]
    exact h.buffered p

theorem of_same (h : Active s) (hapq : s'.apq = s.apq) (hpcb : s'.pcb = s.pcb) : Active s' :=
  h.of_fields hapq fun p => by rw [hpcb]; exact ⟨rfl, rfl⟩

theorem unlink (h : Active s) {p : Pipeline} {b : Pcb} (hentry : b.activeQueueEntry = false)
    (htmp : b.tmpRequestHead = []) (hapq : s'.apq = s.apq.erase p) (hpcb : s'.pcb = Function.update s.pcb p b) :
    Active s' := by
  refine ⟨?_, fun q => ?_, fun q => ?_⟩
  · rw [hapq]
    exact h.nodup.erase p
  · by_cases hq : q = p
    · subst hq
      rw [hapq, hpcb, Function.update_self, hentry, h.nodup.mem_erase_iff]
      simp
    · rw [hapq, hpcb, Function.update_of_ne hq, h.nodup.mem_erase_iff, ← h.linked q]
      simp [hq]
  · by_cases hq : q = p
    · subst hq
      rw [hpcb, Function.update_self, hentry, htmp]
      simp
    · rw [hpcb, Function.update_of_ne hq]
      exact h.buffered q

variable [DecidableEq Stage]

omit [DecidableEq Stage] in
theorem unlinkActive (h : Active s) {p : Pipeline} (htmp : (s.pcb p).tmpRequestHead = []) :
    Active (unlinkActive p s) :=
  h.unlink (b := { s.pcb p with activeQueueEntry := false }) rfl htmp rfl rfl

theorem concatTmp (h : Active s) (p : Pipeline) (st : Stage) : Active (Csf.unlinkActive p (concatTmp p st s)) := by
  apply h.unlink (p := p) (b := ⟨[], 0, false, (s.pcb p).counter⟩) rfl rfl rfl
  simp [Csf.unlinkActive, Csf.concatTmp]

theorem kickPcb (h : Active s) (cfg : Config Stage Worker) (ok : Pipeline → Bool) (p : Pipeline) :
    Active (kickPcb cfg ok s p) := by
  unfold Csf.kickPcb
  split
  · rename_i htmp
    exact h.unlinkActive htmp
  · split
    · split
      · exact h.concatTmp p _
      · exact h
    · exact h

theorem kickRequestQueue (h : Active s) (cfg : Config Stage Worker) (ok : Pipeline → Bool) :
    Active (kickRequestQueue cfg ok s) := by
  unfold Csf.kickRequestQueue
  generalize s.apq = l
  induction l generalizing s with
  | nil => exact h
  | cons p l ih => exact ih (h.kickPcb cfg ok p)

theorem concatBuffered (h : Active s) (p : Pipeline) (st : Stage) (concat : Bool) :
    Active (concatBuffered p st concat s) := by
  unfold Csf.concatBuffered
  split
  · split
    · exact h.concatTmp p st
    · -- not linked: there is nothing to move, and unlinking the pipeline would change nothing
      rename_i hentry
      rw [Bool.not_eq_true] at hentry
      have hnot : p ∉ s.apq := by
        rw [h.linked, hentry]
        simp
      exact h.unlink (b := { s.pcb p with tmpRequestHead := [], tmpQueueLen := 0 }) hentry rfl
        (List.erase_of_not_mem hnot).symm rfl
  · exact h

theorem sweepAndInsert (h : Active s) (cfg : Config Stage Worker) (st : Stage) (r : Nat) (flags : UInt32)
    (kicked : Bool) : Active (sweepAndInsert cfg st r flags kicked s).1 := by
  have hfold : ∀ l : List Nat, ∀ s : State Stage Worker, Active s → Active (l.foldl (sweepOne cfg st) s) := by
    intro l
    induction l with
    | nil => exact fun _ h => h
    | cons x l ih =>
      intro s h
      rw [List.foldl_cons, sweepOne]
      split
      · exact ih _ (h.of_same rfl rfl)
      · exact ih _ h
  have hsweep : Active (sweepTimedOut cfg st flags s) := by
    unfold sweepTimedOut
    split
    · exact hfold _ s h
    · exact h
  exact hsweep.of_same rfl rfl

theorem sendToPipeline (h : Active s) (cfg : Config Stage Worker) (p : Pipeline) (st : Stage) (r : Nat)
    (flags : UInt32) (concat : Bool) : Active (sendToPipeline cfg p st r flags concat s).1 := by
  have hc := h.concatBuffered p st concat
  unfold Csf.sendToPipeline
  simp only
  generalize Csf.concatBuffered p st concat s = s' at hc ⊢
  split
  · exact hc
  · split
    · split
      · exact hc
      · apply sweepAndInsert
        exact hc.of_same rfl rfl
    · exact hc.sweepAndInsert cfg st r flags false

end Active

end Csf
