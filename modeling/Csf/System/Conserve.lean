import Csf.System.Flow

/-!
# Conservation of requests

Runs in which every submission names a connection and no request hops too often are the ones `Benign`
admits; they never take the branch of the done loop that leaves a request where it is, and never reach the
double insertion of `submit_next`. In them every accepted request is in exactly one place until it is freed.
-/

namespace Csf

open Lib

variable {Stage Worker : Type} [DecidableEq Stage] [DecidableEq Worker] [Fintype Stage] [Fintype Worker]

/-! ### Benign runs -/

def connected : Action Stage Worker → Bool
  | .main (.submit args _ _) => args.p.isSome
  | _ => true

/-- The steps with a connection for every request and no request past `MAX_STAGE_JUMP`. -/
def Benign (a : Action Stage Worker) (s' : State Stage Worker) : Prop :=
  connected a = true ∧ ∀ r < s'.nreq, (s'.heap r).nstage ≤ maxStageJump

instance (a : Action Stage Worker) (s' : State Stage Worker) : Decidable (Benign a s') :=
  inferInstanceAs (Decidable (_ ∧ _))

/-- The done loop meets a request without a connection. -/
def meetsNull : Action Stage Worker → Bool
  | .main (.takeNull _ _) => true
  | _ => false

def AllConnected (s : State Stage Worker) : Prop := ∀ r < s.nreq, (s.heap r).csp ≠ none

theorem allConnected_step {cfg : Config Stage Worker} {s s' : State Stage Worker} {a : Action Stage Worker}
    (h : AllConnected s) (ha : connected a = true) (hs : step cfg s a = some s') : AllConnected s' := by
  intro r hr
  by_cases hold : r < s.nreq
  · rw [(heap_step hs (by omega)).1]
    exact h r hold
  -- the block is new, so the step is a submission and fills in its connection
  obtain ⟨-, -, rfl⟩ := step_eq_some hs
  cases a with
  | worker w a =>
    rw [effect, workerEffect_keeps cfg s w a State.nreq fun _ => rfl] at hr
    exact absurd hr hold
  | main a =>
    rcases nreq_mainEffect cfg s a with heq | ⟨args, p, st, rfl, heq⟩
    · exact absurd (heq ▸ hr) hold
    · obtain rfl : r = s.nreq := by rw [effect, heq] at hr; omega
      obtain ⟨c, hc⟩ := Option.isSome_iff_exists.mp ha
      rw [effect, mainEffect_plain cfg s _ State.heap fun _ => rfl]
      simp [mainPlain, preparedPlain, allocRequest, newRequest, hc]
  | signals a =>
    rw [effect, signalEffect_keeps cfg s a State.nreq fun _ => rfl] at hr
    exact absurd hr hold
  | tick | cancel => exact absurd hr hold

theorem regular_of_benign {cfg : Config Stage Worker} {s s' : State Stage Worker} {a : Action Stage Worker}
    (h : FlowInv s) (hb : Benign a s') (hs : step cfg s a = some s') : Regular s a := by
  obtain ⟨-, hg, rfl⟩ := step_eq_some hs
  cases a with
  | worker w a =>
    cases a with
    | handle r cl calls ret errno =>
      intro _
      have hheld : r ∈ places s (.hand w) := by
        rw [show places s (.hand w) = inHand (s.wk w) from rfl, hg.1]
        exact List.mem_singleton_self r
      have hnreq := workerEffect_keeps cfg s w (.handle r cl calls ret errno) State.nreq fun _ => rfl
      obtain ⟨n, f, x, e, hheap, -⟩ := heap_workerEffect cfg s w (.handle r cl calls ret errno) r
      have hle := hb.2 r (by rw [effect, hnreq]; exact h.lt_of_mem hheld)
      rw [effect, hheap] at hle
      exact le_trans (Nat.le_add_right _ n) hle
    | _ => trivial
  | _ => trivial

theorem meetsNull_eq_false {cfg : Config Stage Worker} {s s' : State Stage Worker} {a : Action Stage Worker}
    (h : FlowInv s) (hc : AllConnected s) (hs : step cfg s a = some s') : meetsNull a = false := by
  obtain ⟨-, hg, -⟩ := step_eq_some hs
  cases a with
  | main a =>
    cases a with
    | takeNull r rc =>
      obtain ⟨hm, hnull⟩ := hg
      exact absurd hnull (hc r (h.lt_of_mem (h.final_of_current hm rfl)))
    | _ => rfl
  | _ => rfl

theorem connected_reachable {cfg : Config Stage Worker}
    {R : State Stage Worker → Action Stage Worker → State Stage Worker → Prop}
    (hconn : ∀ s a s', R s a s' → connected a = true)
    (hreg : ∀ s a s', FlowInv s → R s a s' → step cfg s a = some s' → Regular s a) {s : State Stage Worker}
    (h : Reachable cfg R s) :
    Reachable cfg (fun s a s' => R s a s' ∧ Regular s a ∧ meetsNull a = false) s ∧ FlowInv s := by
  have hI := h.strengthen (fun s a s' => R s a s' ∧ Regular s a ∧ meetsNull a = false)
    (fun s => FlowInv s ∧ AllConnected s)
    ⟨flowInv_init, fun r hr => absurd hr (Nat.not_lt_zero r)⟩
    (fun s a s' hI hr hs => ⟨hr, hreg s a s' hI.1 hr hs, meetsNull_eq_false hI.1 hI.2 hs⟩)
    (fun s a s' hI hr hr' hs => ⟨flowInv_step hI.1 hr'.2.1 hs, allConnected_step hI.2 (hconn s a s' hr) hs⟩)
  exact ⟨hI.1, hI.2.1⟩

theorem benign_reachable {cfg : Config Stage Worker}
    {R : State Stage Worker → Action Stage Worker → State Stage Worker → Prop}
    (hR : ∀ s a s', R s a s' → Benign a s') {s : State Stage Worker} (h : Reachable cfg R s) :
    Reachable cfg (fun s a s' => R s a s' ∧ Regular s a ∧ meetsNull a = false) s ∧ FlowInv s :=
  connected_reachable (fun s a s' hr => (hR s a s' hr).1)
    (fun s a s' hflow hr hs => regular_of_benign hflow (hR s a s' hr) hs) h

/-! ### The pipeline a request belongs to -/

omit [DecidableEq Stage] [DecidableEq Worker] in
theorem submitted_queueMove {s s₁ : State Stage Worker} {ev new : List Nat} (h : QueueMove s s₁ ev new)
    (r : Nat) (p : Pipeline) : Event.submitted r p ∈ s₁.trace ↔ Event.submitted r p ∈ s.trace := by
  rw [← List.count_pos_iff, ← List.count_pos_iff, h.trace_other (by simp) (by simp)]

theorem submitted_mainEffect (cfg : Config Stage Worker) (s : State Stage Worker) (a : MainAct Stage Worker)
    (r : Nat) (p : Pipeline) :
    Event.submitted r p ∈ (mainEffect cfg s a).trace ↔
      Event.submitted r p ∈ s.trace ∨ r = s.nreq ∧ ∃ args st, a = .submit args p st := by
  rw [mem_mainEffect cfg s a (by simp) (by simp), or_comm]
  refine or_congr_right ?_
  cases a with
  | submit args q st =>
    simp only [records, List.mem_singleton, Event.submitted.injEq, MainAct.submit.injEq]
    grind
  | dispose q next rc =>
    simp only [records]
    split_ifs <;> simp
  | _ => simp [records]

theorem tmp_mainEffect (cfg : Config Stage Worker) (s : State Stage Worker) (a : MainAct Stage Worker)
    {r : Nat} {p : Pipeline} (h : r ∈ ((mainEffect cfg s a).pcb p).tmpRequestHead) :
    r ∈ (s.pcb p).tmpRequestHead ∨ ∃ st flags concat, a = .buffer r p st flags concat := by
  rw [mainEffect_plain cfg s a State.pcb fun _ => rfl] at h
  have hupd : ∀ (q : Pipeline) (b : Pcb), r ∈ (Function.update s.pcb q b p).tmpRequestHead →
      r ∈ (s.pcb p).tmpRequestHead ∨ p = q ∧ r ∈ b.tmpRequestHead := fun q b hb => by
    by_cases hq : p = q
    · subst hq
      exact .inr ⟨rfl, by simpa using hb⟩
    · rw [Function.update_of_ne hq] at hb
      exact .inl hb
  cases a with
  | buffer q p' st flags concat =>
    rcases hupd _ _ h with hmem | ⟨rfl, hmem⟩
    · exact .inl hmem
    · rcases List.mem_append.mp hmem with hmem | hmem
      · exact .inl hmem
      · rw [List.mem_singleton] at hmem
        exact .inr ⟨st, flags, concat, by rw [hmem]⟩
  | countBuffered q p' =>
    rcases hupd _ _ h with hmem | ⟨rfl, hmem⟩ <;> exact .inl hmem
  | returnTid q p' =>
    rcases hupd _ _ h with hmem | ⟨rfl, hmem⟩ <;> exact .inl hmem
  | send q p' st flags concat =>
    refine .inl ?_
    obtain ⟨s₁, ev, new, hmove, -, sub, mutex, status, heq⟩ := sendLocked_move cfg q p' st flags concat s
    simp only [mainPlain, mainEffect, heq] at h
    exact hmove.tmp p h
  | kick ev ok ws => exact .inl ((QueueMove.kickRequestQueue cfg ok s).tmp p h)
  | _ => exact .inl h

/-- A request waits only in the temporary queue of the pipeline it was submitted to. -/
structure Homed (s : State Stage Worker) : Prop where
  tmp : ∀ p r, r ∈ (s.pcb p).tmpRequestHead → .submitted r p ∈ s.trace
  sub : ∀ r p st flags concat, s.sub = .checked r p st flags concat → .submitted r p ∈ s.trace
  one : ∀ r p q, .submitted r p ∈ s.trace → .submitted r q ∈ s.trace → p = q
  old : ∀ r p, .submitted r p ∈ s.trace → r < s.nreq

omit [DecidableEq Stage] [DecidableEq Worker] [Fintype Stage] [Fintype Worker] in
theorem Homed.of_same {s s' : State Stage Worker} (h : Homed s)
    (htrace : ∀ r p, .submitted r p ∈ s'.trace ↔ .submitted r p ∈ s.trace) (hnreq : s'.nreq = s.nreq)
    (htmp : ∀ p, (s'.pcb p).tmpRequestHead ⊆ (s.pcb p).tmpRequestHead) (hsub : s'.sub = s.sub) : Homed s' where
  tmp p r hr := (htrace r p).mpr (h.tmp p r (htmp p hr))
  sub r p st flags concat hs := (htrace r p).mpr (h.sub r p st flags concat (hsub ▸ hs))
  one r p q hp hq := h.one r p q ((htrace r p).mp hp) ((htrace r q).mp hq)
  old r p hp := hnreq ▸ h.old r p ((htrace r p).mp hp)

theorem sub_mainEffect_checked {cfg : Config Stage Worker} {s : State Stage Worker} {a : MainAct Stage Worker}
    {r : Nat} {p : Pipeline} {st : Stage} {flags : UInt32} {concat : Bool}
    (h : (mainEffect cfg s a).sub = .checked r p st flags concat) :
    s.sub = .checked r p st flags concat ∨
      r = s.nreq ∧ concat = decide ((s.pcb p).tmpRequestHead ≠ []) ∧
        ∃ args, a = .submit args p st ∧ flags = args.flags := by
  rw [mainEffect_plain cfg s a State.sub fun _ => rfl] at h
  cases a with
  | submit args q st' =>
    obtain ⟨rfl, rfl, rfl, rfl, rfl⟩ := SubmitPc.checked.inj h
    exact .inr ⟨rfl, rfl, args, rfl, rfl⟩
  | send q p' st' flags' concat' =>
    rcases sendLocked_cases cfg q p' st' flags' concat' s with
      ⟨s₁, hmove, -, heq⟩ | ⟨s₁, hmove, heq⟩ | ⟨s₁, ev, hmove, -, heq⟩
    · simp [mainPlain, mainEffect, heq] at h
    · simp only [mainPlain, mainEffect, heq, hmove.keeps State.sub fun _ => rfl] at h
      exact .inl h
    · simp [mainPlain, mainEffect, heq, setMutex] at h
  | kick ev ok ws =>
    exact .inl (((QueueMove.kickRequestQueue cfg ok s).keeps State.sub fun _ => rfl) ▸ h)
  | count q p' st' notice ws => cases notice <;> simp [mainPlain, mainEffect, setMutex] at h
  | buffer | countBuffered | noticeSkip | noticeClear | noticeSet | noticeWrite | returnTid =>
    simp [mainPlain, mainEffect] at h
  | _ => exact .inl h

theorem sub_step_checked {cfg : Config Stage Worker} {s s' : State Stage Worker} {a : Action Stage Worker}
    (hs : step cfg s a = some s') {r : Nat} {p : Pipeline} {st : Stage} {flags : UInt32} {concat : Bool}
    (h : s'.sub = .checked r p st flags concat) :
    s.sub = .checked r p st flags concat ∨
      r = s.nreq ∧ concat = decide ((s.pcb p).tmpRequestHead ≠ []) ∧
        ∃ args, a = .main (.submit args p st) ∧ flags = args.flags := by
  obtain ⟨-, -, rfl⟩ := step_eq_some hs
  cases a with
  | worker w a => exact .inl ((workerEffect_keeps cfg s w a State.sub fun _ => rfl) ▸ h)
  | main a =>
    rcases sub_mainEffect_checked h with hold | ⟨hr, hconcat, args, rfl, hflags⟩
    · exact .inl hold
    · exact .inr ⟨hr, hconcat, args, rfl, hflags⟩
  | signals a => exact .inl ((signalEffect_keeps cfg s a State.sub fun _ => rfl) ▸ h)
  | tick | cancel => exact .inl h

theorem homed_step {cfg : Config Stage Worker} {s s' : State Stage Worker} {a : Action Stage Worker}
    (h : Homed s) (hs : step cfg s a = some s') : Homed s' := by
  obtain ⟨-, hg, rfl⟩ := step_eq_some hs
  cases a with
  | worker w a =>
    refine h.of_same (fun r p => ?_) (workerEffect_keeps cfg s w a State.nreq fun _ => rfl) (fun p => ?_)
      (workerEffect_keeps cfg s w a State.sub fun _ => rfl)
    · rcases trace_workerEffect cfg s w a with ht | ⟨x, ht⟩ <;> simp [effect, ht]
    · rw [effect, workerEffect_keeps cfg s w a State.pcb fun _ => rfl]
      exact List.Subset.refl _
  | main a =>
    have hsubmitted := submitted_mainEffect cfg s a
    have hmono : ∀ r p, .submitted r p ∈ s.trace → .submitted r p ∈ (mainEffect cfg s a).trace :=
      fun r p hr => (hsubmitted r p).mpr (.inl hr)
    exact {
      tmp := fun p r hr => by
        rcases tmp_mainEffect cfg s a hr with hold | ⟨st, flags, concat, rfl⟩
        · exact hmono r p (h.tmp p r hold)
        · exact hmono r p (h.sub r p st flags concat hg)
      sub := fun r p st flags concat hsub => by
        rcases sub_mainEffect_checked hsub with hold | ⟨hr, -, args, ha, -⟩
        · exact hmono r p (h.sub r p st flags concat hold)
        · exact (hsubmitted r p).mpr (.inr ⟨hr, args, st, ha⟩)
      one := fun r p q hp hq => by
        rcases (hsubmitted r p).mp hp with hp | ⟨hr, args, st, rfl⟩ <;>
        rcases (hsubmitted r q).mp hq with hq | ⟨hr', args', st', ha⟩
        · exact h.one r p q hp hq
        · exact absurd (h.old r p hp) (by omega)
        · exact absurd (h.old r q hq) (by omega)
        · cases ha
          rfl
      old := fun r p hp => by
        have hnreq := nreq_mainEffect cfg s a
        rcases (hsubmitted r p).mp hp with hp | ⟨hr, args, st, rfl⟩
        · have := h.old r p hp
          rcases hnreq with heq | ⟨-, -, -, -, heq⟩ <;> rw [effect, heq] <;> omega
        · rw [effect, mainEffect_plain cfg s _ State.nreq fun _ => rfl, hr]
          exact Nat.lt_succ_self _ }
  | signals a =>
    obtain ⟨s₁, wk, sig, g, hmove, heq⟩ := signalEffect_move cfg s a
    rw [effect, heq]
    exact h.of_same (fun r p => submitted_queueMove hmove r p) (hmove.keeps State.nreq fun _ => rfl)
      (fun p => hmove.tmp p) (hmove.keeps State.sub fun _ => rfl)
  | tick | cancel => exact h.of_same (fun _ _ => Iff.rfl) rfl (fun _ => List.Subset.refl _) rfl

omit [DecidableEq Stage] [DecidableEq Worker] [Fintype Stage] in
theorem homed_init : Homed (State.init : State Stage Worker) where
  tmp _ _ h := absurd h List.not_mem_nil
  sub _ _ _ _ _ h := by cases h
  one _ _ _ h := absurd h List.not_mem_nil
  old _ _ h := absurd h List.not_mem_nil

/-! ### Conservation -/

/-- **Request conservation.** In every state of a benign run, a request whose transaction id was returned is
in exactly one place, and there once, until `cleanup_request` frees it, and in none after that; if the place
is a temporary queue it is the one of the pipeline the request was submitted to. Its responder and its data
cleaner ran at most once. -/
theorem request_conservation (cfg : Config Stage Worker) {s : State Stage Worker}
    (h : Reachable cfg (fun _ a s' => Benign a s') s) {r : Nat} (hacc : .accepted r ∈ s.trace) :
    (.freed r ∉ s.trace → ∃ pl, (places s pl).count r = 1 ∧ (∀ pl', pl' ≠ pl → r ∉ places s pl') ∧
      ∀ p, pl = .tmp p → ∀ p', .submitted r p' ∈ s.trace ↔ p' = p) ∧
    (.freed r ∈ s.trace → ∀ pl, r ∉ places s pl) ∧
    s.trace.count (.responded r) ≤ 1 ∧ s.trace.count (.cleaned r) ≤ 1 := by
  obtain ⟨hreg, hflow⟩ := benign_reachable (fun _ _ _ hb => hb) h
  have hhome : Homed s := hreg.invariant homed_init fun _ _ _ hI _ hs => homed_step hI hs
  have hok := hflow.life r
  have haccepted := List.count_pos_iff.mpr hacc
  have hcons := hok.conserved
  have honce := hok.once
  have haeq := hok.accepted_eq
  have hresp := hok.responded_le
  have hclean := hok.cleaned_le
  have hheld := hok.held_final
  have hpast : (life s r).loop.past ≤ (life s r).loop.held := by cases (life s r).loop <;> decide
  have hfinal := hok.final_le
  simp only [life] at hcons honce haeq hresp hclean hheld hpast hfinal
  refine ⟨fun hfree => ?_, fun hfree => ?_, by omega, by omega⟩
  · rw [← List.count_eq_zero] at hfree
    obtain ⟨pl, hone, hothers⟩ := occ_eq_one_iff.mp (show occ (places s) r = 1 by omega)
    refine ⟨pl, hone, hothers, fun p hp p' => ?_⟩
    have hin : r ∈ places s (.tmp p) := by
      rw [← hp, ← List.count_pos_iff, hone]
      exact Nat.one_pos
    have hsubmitted := hhome.tmp p r hin
    exact ⟨fun hp' => hhome.one r p' p hp' hsubmitted, fun hp' => hp' ▸ hsubmitted⟩
  · rw [← List.count_pos_iff] at hfree
    exact occ_eq_zero_iff.mp (by omega)

/-- A run that frees one request and leaves another in the first stage. -/
theorem request_conservation_run :
    ∃ s, Reachable (oneStage 8 0) (fun _ a s' => Benign a s') s ∧ .accepted 0 ∈ s.trace ∧
      .accepted 1 ∈ s.trace ∧ (∀ pl, 0 ∉ places s pl) ∧
      ∃ pl, (places s pl).count 1 = 1 ∧ ∀ pl', pl' ≠ pl → 1 ∉ places s pl' := by
  obtain ⟨s, hs, hacc, hfreed, hacc', hfreed'⟩ := exists_reachable (oneStage 8 0) (fun _ a s' => Benign a s')
    ([.main .accept, .main (.readable 0)] ++ submitSteps 0 0 ++ submitSteps 1 0 ++ [.main (.readBlocked 0)] ++
      handleSteps 0 [1] 0 ++ doneSteps 0 ++ takeSteps ++
      completeSteps 0 none rcInit 1)
    (P := fun s => .accepted 0 ∈ s.trace ∧ .freed 0 ∈ s.trace ∧ .accepted 1 ∈ s.trace ∧ .freed 1 ∉ s.trace)
    (by decide +kernel)
  obtain ⟨pl, hone, hothers, -⟩ := (request_conservation (oneStage 8 0) hs hacc').1 hfreed'
  exact ⟨s, hs, hacc, hacc', (request_conservation (oneStage 8 0) hs hacc).2.1 hfreed, pl, hone, hothers⟩

end Csf
