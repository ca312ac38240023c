import Csf.Pipeline.Queues

/-!
# The order in which requests wait

The requests of a pipeline wait in the queue of its first stage and, when the try-lock failed, behind it in the
temporary queue. `waiting` is the one list that both queues make up. Every queue operation of the main thread
either leaves that list alone, takes evicted requests out of it (`Thinned`), or puts the new request at its end,
whichever of the four routes the submission takes.
-/

namespace Csf

variable {Stage Worker : Type}

/-- The requests that wait for the first stage of a pipeline: its queue, and behind it the temporary queue. -/
def waiting (cfg : Config Stage Worker) (s : State Stage Worker) (p : Pipeline) : List Nat :=
  ((cfg.firstRqcb p).elim [] fun st => (s.rqcb st).requestHead) ++ (s.pcb p).tmpRequestHead

theorem waiting_eq {cfg : Config Stage Worker} {p : Pipeline} {st : Stage} (h : cfg.firstRqcb p = some st)
    (s : State Stage Worker) : waiting cfg s p = (s.rqcb st).requestHead ++ (s.pcb p).tmpRequestHead := by
  rw [waiting, h, Option.elim_some]

theorem waiting_congr (cfg : Config Stage Worker) {s s' : State Stage Worker} {p : Pipeline}
    (hrqcb : ∀ st ∈ cfg.firstRqcb p, (s'.rqcb st).requestHead = (s.rqcb st).requestHead)
    (htmp : (s'.pcb p).tmpRequestHead = (s.pcb p).tmpRequestHead) : waiting cfg s' p = waiting cfg s p := by
  cases hfirst : cfg.firstRqcb p with
  | none => rw [waiting, waiting, hfirst, htmp]; rfl
  | some st => rw [waiting_eq hfirst, waiting_eq hfirst, hrqcb st hfirst, htmp]

theorem firstRqcb_inj (cfg : Config Stage Worker) {p q : Pipeline} {st : Stage} (hp : cfg.firstRqcb p = some st)
    (hq : cfg.firstRqcb q = some st) : p = q := by
  have hmem : ∀ {r}, cfg.firstRqcb r = some st → st ∈ cfg.chain r := fun h => List.mem_of_head? h
  have : Std.Symm (Function.onFun List.Disjoint cfg.chain) := ⟨fun _ _ h => List.Disjoint.symm h⟩
  by_contra hne
  have hdisjoint := (List.nodup_flatMap.mp cfg.chain_nodup).2.forall (List.mem_finRange p) (List.mem_finRange q) hne
  exact hdisjoint (hmem hp) (hmem hq)

theorem waiting_of_ne {cfg : Config Stage Worker} {s s' : State Stage Worker} {p q : Pipeline} {st : Stage}
    (hfirst : cfg.firstRqcb p = some st) (hq : q ≠ p)
    (hrqcb : ∀ st', st' ≠ st → (s'.rqcb st').requestHead = (s.rqcb st').requestHead)
    (htmp : (s'.pcb q).tmpRequestHead = (s.pcb q).tmpRequestHead) : waiting cfg s' q = waiting cfg s q := by
  refine waiting_congr cfg (fun st' hst' => hrqcb st' ?_) htmp
  rintro rfl
  exact hq (firstRqcb_inj cfg hst' hfirst)

theorem ne_of_inner {cfg : Config Stage Worker} {p : Pipeline} {st st' : Stage} (hfirst : cfg.firstRqcb p = some st)
    (hinner : ∀ q, cfg.firstRqcb q ≠ some st') : st' ≠ st := by
  rintro rfl
  exact hinner p hfirst

/-- From `s` to `s'` the waiting requests keep their order, and those that are gone were evicted; the stages inside
the pipelines are left alone. -/
structure Thinned (cfg : Config Stage Worker) (s s' : State Stage Worker) : Prop where
  sublist : ∀ p, (waiting cfg s' p).Sublist (waiting cfg s p)
  gone : ∀ p, ∀ x ∈ waiting cfg s p, x ∈ waiting cfg s' p ∨ .evicted x ∈ s'.trace
  trace : ∃ ev : List Nat, s'.trace = ev.map .evicted ++ s.trace
  inner : ∀ st, (∀ p, cfg.firstRqcb p ≠ some st) → s'.rqcb st = s.rqcb st

namespace Thinned

variable {cfg : Config Stage Worker} {s s' s'' : State Stage Worker} {p : Pipeline} {st : Stage} {r : Nat}

theorem of_waiting (hwaiting : ∀ p, waiting cfg s' p = waiting cfg s p) (htrace : s'.trace = s.trace)
    (hinner : ∀ st, (∀ p, cfg.firstRqcb p ≠ some st) → s'.rqcb st = s.rqcb st) : Thinned cfg s s' where
  sublist p := by rw [hwaiting p]
  gone p x hx := .inl (by rw [hwaiting p]; exact hx)
  trace := ⟨[], htrace⟩
  inner := hinner

theorem refl (s : State Stage Worker) : Thinned cfg s s := of_waiting (fun _ => rfl) rfl fun _ _ => rfl

theorem trans (h : Thinned cfg s s') (h' : Thinned cfg s' s'') : Thinned cfg s s'' where
  sublist p := (h'.sublist p).trans (h.sublist p)
  gone p x hx := by
    rcases h.gone p x hx with hin | hev
    · exact h'.gone p x hin
    · obtain ⟨ev, htrace⟩ := h'.trace
      exact .inr (htrace ▸ List.mem_append_right _ hev)
  trace := by
    obtain ⟨ev, htrace⟩ := h.trace
    obtain ⟨ev', htrace'⟩ := h'.trace
    exact ⟨ev' ++ ev, by rw [htrace', htrace, List.map_append, List.append_assoc]⟩
  inner st hst := (h'.inner st hst).trans (h.inner st hst)

theorem unlinkActive (p : Pipeline) (s : State Stage Worker) : Thinned cfg s (unlinkActive p s) := by
  refine of_waiting (fun q => waiting_congr cfg (fun _ _ => rfl) ?_) rfl fun _ _ => rfl
  by_cases hq : q = p
  · subst hq; simp [Csf.unlinkActive]
  · simp [Csf.unlinkActive, Function.update_of_ne hq]

variable [DecidableEq Stage]

theorem concatTmp (hfirst : cfg.firstRqcb p = some st) (s : State Stage Worker) :
    Thinned cfg s (concatTmp p st s) := by
  refine of_waiting (fun q => ?_) rfl fun st' hst' => Function.update_of_ne (ne_of_inner hfirst hst') _ _
  by_cases hq : q = p
  · subst hq
    rw [waiting_eq hfirst, waiting_eq hfirst]
    simp [Csf.concatTmp]
  · refine waiting_of_ne hfirst hq (fun st' hne => ?_) ?_
    · simp [Csf.concatTmp, Function.update_of_ne hne]
    · simp [Csf.concatTmp, Function.update_of_ne hq]

theorem evict (hfirst : cfg.firstRqcb p = some st) (r : Nat) (s : State Stage Worker) :
    Thinned cfg s (evict st r s) := by
  have hother : ∀ q, q ≠ p → waiting cfg (Csf.evict st r s) q = waiting cfg s q := fun q hq =>
    waiting_of_ne hfirst hq (fun st' hne => by simp [Csf.evict, Function.update_of_ne hne]) rfl
  have hself : waiting cfg (Csf.evict st r s) p = (s.rqcb st).requestHead.erase r ++ (s.pcb p).tmpRequestHead := by
    rw [waiting_eq hfirst]
    simp [Csf.evict]
  refine ⟨fun q => ?_, fun q x hx => ?_, ⟨[r], rfl⟩,
    fun st' hst' => Function.update_of_ne (ne_of_inner hfirst hst') _ _⟩
  · by_cases hq : q = p
    · subst hq
      rw [hself, waiting_eq hfirst]
      exact List.erase_sublist.append_right _
    · rw [hother q hq]
  · by_cases hxr : x = r
    · subst hxr
      exact .inr List.mem_cons_self
    left
    by_cases hq : q = p
    · subst hq
      rw [waiting_eq hfirst, List.mem_append] at hx
      rw [hself, List.mem_append, List.mem_erase_of_ne hxr]
      exact hx
    · rw [hother q hq]
      exact hx

theorem kickOutHead (hfirst : cfg.firstRqcb p = some st) (h : Nat) (s : State Stage Worker) :
    Thinned cfg s (kickOutHead st h s) := by
  have hflags : Thinned cfg s { s with heap := Function.update s.heap h { s.heap h with flags := requestKickOut } } :=
    of_waiting (fun _ => rfl) rfl fun _ _ => rfl
  exact hflags.trans (evict hfirst h _)

theorem sweepTimedOut (hfirst : cfg.firstRqcb p = some st) (flags : UInt32) (s : State Stage Worker) :
    Thinned cfg s (sweepTimedOut cfg st flags s) := by
  unfold Csf.sweepTimedOut
  split
  · generalize (s.rqcb st).requestHead = l
    induction l generalizing s with
    | nil => exact refl s
    | cons r l ih =>
      refine trans ?_ (ih _)
      unfold sweepOne
      split
      · exact evict hfirst r s
      · exact refl s
  · exact refl s

theorem kickRequestQueue (cfg : Config Stage Worker) (ok : Pipeline → Bool) (s : State Stage Worker) :
    Thinned cfg s (kickRequestQueue cfg ok s) := by
  unfold Csf.kickRequestQueue
  generalize s.apq = l
  induction l generalizing s with
  | nil => exact refl s
  | cons p l ih =>
    refine trans ?_ (ih _)
    unfold kickPcb
    split
    · exact unlinkActive p s
    · split
      · rename_i st hfirst
        split
        · exact (concatTmp hfirst s).trans (unlinkActive p _)
        · exact refl s
      · exact refl s

theorem concatBuffered (hfirst : cfg.firstRqcb p = some st) (concat : Bool) (s : State Stage Worker) :
    Thinned cfg s (concatBuffered p st concat s) := by
  unfold Csf.concatBuffered
  split
  · split
    · exact (concatTmp hfirst s).trans (unlinkActive p _)
    · exact concatTmp hfirst s
  · exact refl s

end Thinned

/-! ### The new request goes to the end -/

section
variable {cfg : Config Stage Worker} {p q : Pipeline} {st : Stage} [DecidableEq Stage]

theorem waiting_insertTail (hfirst : cfg.firstRqcb p = some st) (r : Nat) {s : State Stage Worker}
    (htmp : (s.pcb p).tmpRequestHead = []) (q : Pipeline) :
    waiting cfg (insertTail st r s) q = waiting cfg s q ++ if q = p then [r] else [] := by
  by_cases hq : q = p
  · subst hq
    rw [waiting_eq hfirst, waiting_eq hfirst]
    simp [insertTail, htmp]
  · rw [if_neg hq, List.append_nil]
    refine waiting_of_ne hfirst hq (fun st' hne => ?_) rfl
    simp [insertTail, Function.update_of_ne hne]

omit [DecidableEq Stage] in
theorem waiting_bufferTmp (r : Nat) (s : State Stage Worker) (q : Pipeline) :
    waiting cfg (bufferTmp p r s) q = waiting cfg s q ++ if q = p then [r] else [] := by
  by_cases hq : q = p
  · subst hq
    simp [waiting, bufferTmp]
  · simp [waiting, bufferTmp, hq]

theorem tmp_concatBuffered (st : Stage) {concat : Bool} {s : State Stage Worker}
    (hconcat : concat = false → (s.pcb p).tmpRequestHead = []) :
    ((concatBuffered p st concat s).pcb p).tmpRequestHead = [] := by
  unfold concatBuffered
  split
  · split <;> simp [unlinkActive, concatTmp]
  · rename_i hno
    exact hconcat (by simpa using hno)

theorem sendToPipeline_order [Fintype Stage] [Fintype Worker] [DecidableEq Worker]
    (hfirst : cfg.firstRqcb p = some st) (r : Nat) (flags : UInt32) {concat : Bool} {s : State Stage Worker}
    (hconcat : concat = false → (s.pcb p).tmpRequestHead = []) :
    ∃ s₁, Thinned cfg s s₁ ∧ (s₁.pcb p).tmpRequestHead = [] ∧
      (sendToPipeline cfg p st r flags concat s = (s₁, .full) ∨
        sendToPipeline cfg p st r flags concat s = (s₁, .nullHead) ∨
        ∃ notice, sendToPipeline cfg p st r flags concat s = (insertTail st r s₁, .linked notice)) := by
  have hthin := Thinned.concatBuffered hfirst concat s
  have htmp := tmp_concatBuffered st hconcat
  unfold sendToPipeline
  simp only
  generalize concatBuffered p st concat s = t at hthin htmp ⊢
  -- the sweep leaves the temporary queues alone
  have hsweep : ∀ t' : State Stage Worker, (t'.pcb p).tmpRequestHead = [] →
      ((sweepTimedOut cfg st flags t').pcb p).tmpRequestHead = [] := by
    intro t' ht'
    obtain ⟨ev, hmove, -⟩ := QueueMove.sweepTimedOut cfg st flags t'
    have hsub := hmove.tmp p
    rw [ht'] at hsub
    exact List.subset_nil.mp hsub
  split
  · exact ⟨t, hthin, htmp, .inl rfl⟩
  · split
    · split
      · exact ⟨t, hthin, htmp, .inr (.inl rfl)⟩
      · rename_i h rest hhead
        exact ⟨_, (hthin.trans (.kickOutHead hfirst h t)).trans (.sweepTimedOut hfirst flags _), hsweep _ htmp,
          .inr (.inr ⟨_, rfl⟩)⟩
    · exact ⟨_, hthin.trans (.sweepTimedOut hfirst flags t), hsweep t htmp, .inr (.inr ⟨_, rfl⟩)⟩

end

end Csf
