import Csf.Lib.Places
import Csf.Pipeline.Submit
import Mathlib.Tactic.DeriveFintype

/-!
# Where the requests are

`places s` lists, for every queue and every worker, the requests that lie there. The queue operations of
the main thread (`kick_request_queue`, both branches of `send_to_pipeline`) are sequences of the moves
`unlinkActive`, `concatTmp`, `evict`, `insertTail` and `bufferTmp`; `QueueMove s s' ev new` says what such
a sequence does: it evicts `ev`, links `new`, and loses or duplicates nothing.
-/

namespace Csf

open Lib

variable {Stage Worker : Type}

/-- The places a request can be in between its submission and its clean-up. -/
inductive Place (Stage Worker : Type)
  /-- the temporary queue of a pipeline -/
  | tmp (p : Pipeline)
  | stage (st : Stage)
  /-- the hands of a worker -/
  | hand (w : Worker)
  | done
  | final
  deriving DecidableEq, Fintype

/-- The request a worker holds. After an insertion it still holds it if `submit_next` has another
insertion to make. -/
def inHand : WorkerPc Stage → List Nat
  | .holding r _ | .routing r _ | .doneLocked r _ => [r]
  | .doneInserted r rest | .doneTest r rest | .doneSet r rest | .doneWrite r rest =>
    if rest.isEmpty then [] else [r]
  | _ => []

/-- The content of every place, from the components of a state that decide it. -/
def placesOf (rqcb : Stage → Rqcb) (pcb : Pipeline → Pcb) (wk : Worker → WorkerPc Stage) (done : Rqcb)
    (final : List Nat) : Place Stage Worker → List Nat
  | .tmp p => (pcb p).tmpRequestHead
  | .stage st => (rqcb st).requestHead
  | .hand w => inHand (wk w)
  | .done => done.requestHead
  | .final => final

/-- The content of every place. -/
def places (s : State Stage Worker) : Place Stage Worker → List Nat :=
  placesOf s.rqcb s.pcb s.wk s.doneRqcb s.finalRequestHead

/-! ### One component changes -/

section
variable [DecidableEq Stage] [DecidableEq Worker] (rqcb : Stage → Rqcb) (pcb : Pipeline → Pcb)
  (wk : Worker → WorkerPc Stage) (done : Rqcb) (final : List Nat)

@[simp] theorem placesOf_update_rqcb (st : Stage) (q : Rqcb) :
    placesOf (Function.update rqcb st q) pcb wk done final =
      Function.update (placesOf rqcb pcb wk done final) (.stage st) q.requestHead := by
  funext pl
  cases pl with
  | stage st' =>
    by_cases h : st' = st
    · subst h; simp [placesOf]
    · rw [Function.update_of_ne (by simpa using h)]; simp [placesOf, Function.update_of_ne h]
  | _ => simp [placesOf]

@[simp] theorem placesOf_update_pcb (p : Pipeline) (b : Pcb) :
    placesOf rqcb (Function.update pcb p b) wk done final =
      Function.update (placesOf rqcb pcb wk done final) (.tmp p) b.tmpRequestHead := by
  funext pl
  cases pl with
  | tmp p' =>
    by_cases h : p' = p
    · subst h; simp [placesOf]
    · rw [Function.update_of_ne (by simpa using h)]; simp [placesOf, Function.update_of_ne h]
  | _ => simp [placesOf]

@[simp] theorem placesOf_update_wk (w : Worker) (pc : WorkerPc Stage) :
    placesOf rqcb pcb (Function.update wk w pc) done final =
      Function.update (placesOf rqcb pcb wk done final) (.hand w) (inHand pc) := by
  funext pl
  cases pl with
  | hand w' =>
    by_cases h : w' = w
    · subst h; simp [placesOf]
    · rw [Function.update_of_ne (by simpa using h)]; simp [placesOf, Function.update_of_ne h]
  | _ => simp [placesOf]

theorem placesOf_done (done' : Rqcb) :
    placesOf rqcb pcb wk done' final =
      Function.update (placesOf rqcb pcb wk done final) .done done'.requestHead := by
  funext pl
  cases pl <;> simp [placesOf]

theorem placesOf_final (final' : List Nat) :
    placesOf rqcb pcb wk done final' =
      Function.update (placesOf rqcb pcb wk done final) .final final' := by
  funext pl
  cases pl <;> simp [placesOf]

end

theorem placesOf_congr_wk (rqcb : Stage → Rqcb) (pcb : Pipeline → Pcb) (done : Rqcb) (final : List Nat)
    {wk wk' : Worker → WorkerPc Stage} (h : ∀ w, inHand (wk' w) = inHand (wk w)) :
    placesOf rqcb pcb wk' done final = placesOf rqcb pcb wk done final := by
  funext pl
  cases pl with
  | hand w => exact h w
  | _ => rfl

/-! ### Moves of the main thread -/

/-- The state apart from what the queue operations of the main thread change. -/
def offQueues (s : State Stage Worker) : State Stage Worker :=
  { s with
    heap := fun _ => default
    rqcb := fun _ => ⟨[], 0⟩
    pcb := fun _ => ⟨[], 0, false, 0⟩
    apq := []
    finalRequestHead := []
    pipelineQueueLen := 0
    trace := [] }

variable [Fintype Stage] [Fintype Worker]

/-- From `s` to `s'` the requests `ev` were evicted from a stage queue to the final queue and `new` were
linked, and nothing else entered or left a place. -/
structure QueueMove (s s' : State Stage Worker) (ev new : List Nat) : Prop where
  frame : offQueues s' = offQueues s
  heap : ∀ r, ∃ f, s'.heap r = { s.heap r with flags := f }
  tmp : ∀ p, (s'.pcb p).tmpRequestHead ⊆ (s.pcb p).tmpRequestHead
  occ : ∀ x, Lib.occ (places s') x = Lib.occ (places s) x + new.count x
  evicted : ∀ x, s.finalRequestHead.count x + ev.count x ≤ Lib.occ (places s) x
  final : s'.finalRequestHead = s.finalRequestHead ++ ev
  len : s'.pipelineQueueLen = s.pipelineQueueLen - UInt64.ofNat ev.length
  trace : ∀ e, s'.trace.count e =
    s.trace.count e + (ev.map Event.evicted).count e + (new.map Event.inserted).count e

namespace QueueMove

variable {s s' s'' : State Stage Worker} {ev ev' new : List Nat} {st : Stage} {p : Pipeline} {r : Nat}

theorem keeps {β : Type} (h : QueueMove s s' ev new) (f : State Stage Worker → β)
    (hf : ∀ t, f t = f (offQueues t)) : f s' = f s := by
  rw [hf s', hf s, h.frame]

theorem trace_other (h : QueueMove s s' ev new) {e : Event} (hev : ∀ x, e ≠ .evicted x)
    (hin : ∀ x, e ≠ .inserted x) : s'.trace.count e = s.trace.count e := by
  have hzero : ∀ (f : Nat → Event) (l : List Nat), (∀ x, e ≠ f x) → (l.map f).count e = 0 := by
    intro f l hf
    apply List.count_eq_zero.mpr
    intro hmem
    obtain ⟨x, -, hx⟩ := List.mem_map.mp hmem
    exact hf x hx.symm
  rw [h.trace e, hzero _ _ hev, hzero _ _ hin, Nat.add_zero]

theorem trace_evicted (h : QueueMove s s' ev new) (r : Nat) :
    s'.trace.count (.evicted r) = s.trace.count (.evicted r) + ev.count r := by
  have hzero : (new.map Event.inserted).count (.evicted r) = 0 := List.count_eq_zero.mpr (by simp)
  rw [h.trace, hzero, List.count_map_of_injective _ _ fun _ _ => Event.evicted.inj, Nat.add_zero]

theorem trace_inserted (h : QueueMove s s' ev new) (r : Nat) :
    s'.trace.count (.inserted r) = s.trace.count (.inserted r) + new.count r := by
  have hzero : (ev.map Event.evicted).count (.inserted r) = 0 := List.count_eq_zero.mpr (by simp)
  rw [h.trace, hzero, List.count_map_of_injective _ _ fun _ _ => Event.inserted.inj, Nat.add_zero]

theorem refl (s : State Stage Worker) : QueueMove s s [] [] where
  frame := rfl
  heap r := ⟨(s.heap r).flags, rfl⟩
  tmp _ := List.Subset.refl _
  occ x := by simp
  evicted x := count_le_occ (places s) .final x
  final := by simp
  len := by simp
  trace e := by simp

theorem trans (h : QueueMove s s' ev []) (h' : QueueMove s' s'' ev' new) :
    QueueMove s s'' (ev ++ ev') new where
  frame := h'.frame.trans h.frame
  heap r := by
    obtain ⟨f, hf⟩ := h.heap r
    obtain ⟨f', hf'⟩ := h'.heap r
    exact ⟨f', by rw [hf', hf]⟩
  tmp p := List.Subset.trans (h'.tmp p) (h.tmp p)
  occ x := by
    have h₁ := h.occ x
    have h₂ := h'.occ x
    rw [List.count_nil] at h₁
    omega
  evicted x := by
    have h₁ := h.occ x
    have h₂ := h'.evicted x
    rw [h.final, List.count_append] at h₂
    rw [List.count_nil] at h₁
    rw [List.count_append]
    omega
  final := by rw [h'.final, h.final, List.append_assoc]
  len := by
    rw [h'.len, h.len, List.length_append, UInt64.ofNat_add]
    grind
  trace e := by
    have h₁ := h.trace e
    have h₂ := h'.trace e
    rw [List.map_nil, List.count_nil] at h₁
    rw [List.map_append, List.count_append]
    omega

theorem of_occ (frame : offQueues s' = offQueues s) (heap : s'.heap = s.heap)
    (final : s'.finalRequestHead = s.finalRequestHead) (len : s'.pipelineQueueLen = s.pipelineQueueLen)
    (trace : s'.trace = s.trace) (tmp : ∀ p, (s'.pcb p).tmpRequestHead ⊆ (s.pcb p).tmpRequestHead)
    (occ : ∀ x, Lib.occ (places s') x = Lib.occ (places s) x) :
    QueueMove s s' [] [] where
  frame := frame
  heap r := ⟨(s.heap r).flags, by rw [heap]⟩
  tmp := tmp
  occ x := by simp [occ x]
  evicted x := count_le_occ (places s) .final x
  final := by simp [final]
  len := by simp [len]
  trace e := by simp [trace]

theorem setFlags (r : Nat) (f : UInt32) (s : State Stage Worker) :
    QueueMove s { s with heap := Function.update s.heap r { s.heap r with flags := f } } [] [] where
  frame := rfl
  heap x := by
    by_cases hx : x = r
    · subst hx; exact ⟨f, by simp⟩
    · exact ⟨(s.heap x).flags, by simp [Function.update_of_ne hx]⟩
  tmp _ := List.Subset.refl _
  occ x := by simp [places]
  evicted x := count_le_occ (places s) .final x
  final := by simp
  len := by simp
  trace e := by simp

variable [DecidableEq Stage] [DecidableEq Worker]

theorem unlinkActive (p : Pipeline) (s : State Stage Worker) : QueueMove s (unlinkActive p s) [] [] := by
  refine .of_occ rfl rfl rfl rfl rfl (fun q => ?_) fun x => ?_
  · by_cases hq : q = p
    · subst hq; simp [Csf.unlinkActive]
    · simp [Csf.unlinkActive, Function.update_of_ne hq]
  have h := occ_update (places s) (.tmp p) (s.pcb p).tmpRequestHead x
  simp only [places, Csf.unlinkActive, placesOf_update_pcb, placesOf] at h ⊢
  omega

theorem concatTmp (p : Pipeline) (st : Stage) (s : State Stage Worker) :
    QueueMove s (concatTmp p st s) [] [] := by
  refine .of_occ rfl rfl rfl rfl rfl (fun q => ?_) fun x => ?_
  · by_cases hq : q = p
    · subst hq; simp [Csf.concatTmp]
    · simp [Csf.concatTmp, Function.update_of_ne hq]
  have h := occ_update₂ (places s) (p := .tmp p) (q := .stage st) (by simp) []
    ((s.rqcb st).requestHead ++ (s.pcb p).tmpRequestHead) x
  simp only [places, Csf.concatTmp, placesOf_update_pcb, placesOf_update_rqcb, placesOf, List.count_append,
    List.count_nil] at h ⊢
  rw [Function.update_comm (by simp)]
  omega

theorem evict (hr : r ∈ (s.rqcb st).requestHead) : QueueMove s (evict st r s) [r] [] where
  frame := rfl
  heap x := ⟨(s.heap x).flags, rfl⟩
  tmp _ := List.Subset.refl _
  occ x := by
    have h := occ_update₂ (places s) (p := .stage st) (q := .final) (by simp)
      ((s.rqcb st).requestHead.erase r) (s.finalRequestHead ++ [r]) x
    have hpos := List.count_pos_iff.mpr hr
    simp only [places, Csf.evict, placesOf_update_rqcb, placesOf, List.count_append, List.count_erase,
      List.count_singleton, List.count_nil] at h ⊢
    rw [placesOf_final s.rqcb s.pcb s.wk s.doneRqcb s.finalRequestHead]
    rw [Function.update_comm (by simp)]
    split_ifs at h with hx
    · simp only [beq_iff_eq] at hx
      subst hx
      omega
    · omega
  evicted x := by
    have hle := add_count_le_occ (places s) (p := .final) (q := .stage st) (by simp) x
    have hpos := List.count_pos_iff.mpr hr
    simp only [places, placesOf, List.count_singleton] at hle ⊢
    split_ifs with hx
    · rw [beq_iff_eq] at hx
      subst hx
      omega
    · omega
  final := rfl
  len := rfl
  trace e := by simp [Csf.evict, List.count_cons]

theorem kickOutHead (hr : r ∈ (s.rqcb st).requestHead) : QueueMove s (kickOutHead st r s) [r] [] :=
  (setFlags r requestKickOut s).trans (evict hr)

theorem insertTail (st : Stage) (r : Nat) (s : State Stage Worker) :
    QueueMove s (insertTail st r s) [] [r] where
  frame := rfl
  heap x := ⟨(s.heap x).flags, rfl⟩
  tmp _ := List.Subset.refl _
  occ x := by
    have h := occ_update (places s) (.stage st) ((s.rqcb st).requestHead ++ [r]) x
    simp only [places, Csf.insertTail, placesOf_update_rqcb, placesOf, List.count_append] at h ⊢
    omega
  evicted x := count_le_occ (places s) .final x
  final := by simp [Csf.insertTail]
  len := by simp [Csf.insertTail]
  trace e := by simp [Csf.insertTail, List.count_cons]

theorem kickPcb (cfg : Config Stage Worker) (ok : Pipeline → Bool) (s : State Stage Worker) (p : Pipeline) :
    QueueMove s (kickPcb cfg ok s p) [] [] := by
  unfold Csf.kickPcb
  split
  · exact unlinkActive p s
  · split
    · split
      · exact (concatTmp p _ s).trans (unlinkActive p _)
      · exact refl s
    · exact refl s

theorem kickRequestQueue (cfg : Config Stage Worker) (ok : Pipeline → Bool) (s : State Stage Worker) :
    QueueMove s (kickRequestQueue cfg ok s) [] [] := by
  unfold Csf.kickRequestQueue
  generalize s.apq = l
  induction l generalizing s with
  | nil => exact refl s
  | cons p l ih => exact (kickPcb cfg ok s p).trans (ih _)

theorem concatBuffered (p : Pipeline) (st : Stage) (concat : Bool) (s : State Stage Worker) :
    QueueMove s (concatBuffered p st concat s) [] [] := by
  unfold Csf.concatBuffered
  split
  · split
    · exact (concatTmp p st s).trans (unlinkActive p _)
    · exact concatTmp p st s
  · exact refl s

theorem sweep (cfg : Config Stage Worker) (st : Stage) (l : List Nat) (s : State Stage Worker)
    (hl : ∀ x, l.count x ≤ (s.rqcb st).requestHead.count x) :
    QueueMove s (l.foldl (sweepOne cfg st) s) (l.filter (expired cfg s)) [] := by
  induction l generalizing s with
  | nil => exact refl s
  | cons r l ih =>
    have hr : r ∈ (s.rqcb st).requestHead := by
      have := hl r
      rw [List.count_cons_self] at this
      exact List.count_pos_iff.mp (by omega)
    rw [List.foldl_cons, sweepOne]
    split
    · rename_i hexp
      have hrest : ∀ x, l.count x ≤ ((Csf.evict st r s).rqcb st).requestHead.count x := by
        intro x
        have := hl x
        simp only [Csf.evict, Function.update_self, List.count_erase, List.count_cons] at this ⊢
        split_ifs at * <;> simp_all; omega
      have hsame : expired cfg (Csf.evict st r s) = expired cfg s := rfl
      rw [List.filter_cons_of_pos hexp, ← hsame]
      exact (evict hr).trans (ih _ hrest)
    · rename_i hexp
      rw [List.filter_cons_of_neg hexp]
      exact ih s fun x => le_trans (by rw [List.count_cons]; omega) (hl x)

theorem sweepTimedOut (cfg : Config Stage Worker) (st : Stage) (flags : UInt32) (s : State Stage Worker) :
    ∃ ev, QueueMove s (sweepTimedOut cfg st flags s) ev [] ∧ (sweepHits cfg st flags s = true ↔ ev ≠ []) := by
  unfold Csf.sweepTimedOut sweepHits
  split
  · rename_i hsw
    refine ⟨_, sweep cfg st _ s fun _ => le_rfl, ?_⟩
    simp [hsw, List.filter_eq_nil_iff]
  · rename_i hsw
    exact ⟨[], refl s, by simp [hsw]⟩

theorem sweepAndInsert (cfg : Config Stage Worker) (st : Stage) (r : Nat) (flags : UInt32) (kicked : Bool)
    (s : State Stage Worker) :
    ∃ ev notice, (sweepAndInsert cfg st r flags kicked s).2 = .linked notice ∧
      QueueMove s (sweepAndInsert cfg st r flags kicked s).1 ev [r] ∧
      (notice = true ↔ kicked = true ∨ ev ≠ []) := by
  obtain ⟨ev, hmove, hev⟩ := sweepTimedOut cfg st flags s
  refine ⟨ev, _, rfl, ?_, by simp [hev]⟩
  simpa [Csf.sweepAndInsert] using hmove.trans (insertTail st r _)

/-- The locked branch of `send_to_pipeline`: a refusal links and evicts nothing; otherwise the request is
linked, and `notice_flags` says whether something was evicted. -/
theorem sendToPipeline (cfg : Config Stage Worker) (p : Pipeline) (st : Stage) (r : Nat) (flags : UInt32)
    (concat : Bool) (s : State Stage Worker) :
    (QueueMove s (sendToPipeline cfg p st r flags concat s).1 [] [] ∧
      ((sendToPipeline cfg p st r flags concat s).2 = .full ∨
        (sendToPipeline cfg p st r flags concat s).2 = .nullHead)) ∨
    ∃ ev notice, (sendToPipeline cfg p st r flags concat s).2 = .linked notice ∧
      QueueMove s (sendToPipeline cfg p st r flags concat s).1 ev [r] ∧ (notice = true ↔ ev ≠ []) := by
  have hc := concatBuffered p st concat s
  unfold Csf.sendToPipeline
  simp only
  generalize Csf.concatBuffered p st concat s = s' at hc ⊢
  split
  · exact .inl ⟨hc, .inl rfl⟩
  · split
    · split
      · exact .inl ⟨hc, .inr rfl⟩
      · rename_i h rest hhead
        have hmem : h ∈ (s'.rqcb st).requestHead := by rw [hhead]; exact List.mem_cons_self
        obtain ⟨ev, notice, hres, hmove, hn⟩ := sweepAndInsert cfg st r flags true (Csf.kickOutHead st h s')
        exact .inr ⟨h :: ev, notice, hres, (hc.trans (kickOutHead hmem)).trans hmove, by simp [hn]⟩
    · obtain ⟨ev, notice, hres, hmove, hn⟩ := sweepAndInsert cfg st r flags false s'
      exact .inr ⟨ev, notice, hres, hc.trans hmove, by simp [hn]⟩

end QueueMove

end Csf
