import Csf.System.Counter
import Csf.System.Lengths

/-!
# The admission bound

`submit_request` admits a request while `pipeline_queue_len` is below `pipeline_queue_size`, and
`send_to_pipeline` tests the first stage against the same bound a second time. Between the two tests the counter
can only go down, and what waits in a stage is counted, so the second test never refuses what the first one let
through. `Room` carries the first test to the second; `head_length_le` bounds a stage by the counter.
-/

namespace Csf

open Lib

variable {Stage Worker : Type} [DecidableEq Stage] [DecidableEq Worker] [Fintype Stage] [Fintype Worker]

/-- A submission carries `REQUEST_NONE`. -/
def unflagged : Action Stage Worker → Bool
  | .main (.submit args _ _) => args.flags == requestNone
  | _ => true

/-- What the test of `submit_request` is worth later: the submission in progress carries no flags, there is room
for it until it is counted, and the counter is within its bound. -/
structure Room (cfg : Config Stage Worker) (s : State Stage Worker) : Prop where
  plain : ∀ r p st flags concat, s.sub = .checked r p st flags concat → flags = requestNone
  below : uncountedSubmit s.sub = true → s.pipelineQueueLen < cfg.pipelineQueueSize
  bound : s.pipelineQueueLen ≤ cfg.pipelineQueueSize

omit [DecidableEq Stage] [DecidableEq Worker] [Fintype Stage] in
theorem room_init (cfg : Config Stage Worker) : Room cfg State.init where
  plain _ _ _ _ _ h := by cases h
  below h := by cases h
  bound := UInt64.zero_le

omit [Fintype Stage] [Fintype Worker] [DecidableEq Worker] in
theorem evicts_requestNone (cfg : Config Stage Worker) (p : Pipeline) (st : Stage) (concat : Bool)
    (s : State Stage Worker) : evicts cfg p st requestNone concat s = false := by
  have hforce : hasFlag requestNone requestForce = false := by decide
  have htimeout : hasFlag requestNone requestTimeOut = false := by decide
  simp [evicts, kicksOut, sweepHits, sweeps, hforce, htimeout]

omit [Fintype Stage] in
theorem Room.calm {cfg : Config Stage Worker} {s s' : State Stage Worker} {a : Action Stage Worker}
    (h : Room cfg s) (hs : step cfg s a = some s') : evicting cfg s a = false := by
  obtain ⟨-, hg, -⟩ := step_eq_some hs
  unfold evicting
  split
  · rename_i r p st flags concat
    rw [h.plain r p st flags concat hg.1]
    exact evicts_requestNone cfg p st concat s
  · rfl

theorem len_of_uncounted {cfg : Config Stage Worker} {s s' : State Stage Worker} {a : Action Stage Worker}
    (hcall : s.sub ≠ .none → inCallback s.main = true) (hev : evicting cfg s a = false)
    (hs : step cfg s a = some s') (h : uncountedSubmit s'.sub = true) :
    s'.pipelineQueueLen = s.pipelineQueueLen := by
  have hmove := (lenMove_of_not_evicting hev hs).len
  rcases uncountedSubmit_of_step hs h with ⟨hbefore, hcounts⟩ | ⟨args, p, st, rfl⟩
  · have htakes : takes a = [] := by
      obtain ⟨-, hg, -⟩ := step_eq_some hs
      have hin := hcall (by rintro hnone; rw [hnone] at hbefore; cases hbefore)
      unfold takes
      split
      · rw [hg.1] at hin
        cases hin
      · rw [hg.1] at hin
        cases hin
      · rfl
    simpa [hcounts, htakes] using hmove
  · simpa [counts, takes] using hmove

omit [Fintype Stage] [Fintype Worker] [DecidableEq Stage] [DecidableEq Worker] in
theorem takes_length_le (a : Action Stage Worker) : (takes a).length ≤ 1 := by
  unfold takes
  split <;> simp

theorem room_step {cfg : Config Stage Worker} {s s' : State Stage Worker} {a : Action Stage Worker}
    (h : Room cfg s) (hcalm : CalmInv cfg s) (hcalm' : CalmInv cfg s') (ha : unflagged a = true)
    (hs : step cfg s a = some s') : Room cfg s' := by
  have hev := h.calm hs
  refine ⟨fun r p st flags concat hsub => ?_, fun hunc => ?_, ?_⟩
  · rcases sub_step_checked hs hsub with hold | ⟨-, -, args, rfl, rfl⟩
    · exact h.plain r p st flags concat hold
    · exact beq_iff_eq.mp ha
  · rw [len_of_uncounted hcalm.flow.callback hev hs hunc]
    rcases uncountedSubmit_of_step hs hunc with ⟨hbefore, -⟩ | ⟨args, p, st, rfl⟩
    · exact h.below hbefore
    · obtain ⟨-, hg, -⟩ := step_eq_some hs
      have hflags : args.flags = requestNone := beq_iff_eq.mp ha
      refine (submitCheck_eq_ok_iff.mp hg.2.2.1).2.2.2.resolve_left ?_
      rw [hflags]
      decide
  · have hlen := congrArg UInt64.toNat (lenMove_of_not_evicting hev hs).len
    simp only [UInt64.toNat_add, UInt64.toNat_ofNat', List.length_nil] at hlen
    have hbound := UInt64.le_iff_toNat_le.mp h.bound
    have hsize := cfg.pipelineQueueSize.toNat_lt
    have hwidth := s'.pipelineQueueLen.toNat_lt
    rw [UInt64.le_iff_toNat_le]
    rcases counts_step hs with hcounts | ⟨htakes, hcounts, hunc⟩
    · -- the counter does not go down from 0: it is a number of blocks afterwards
      have hfit := (hcalm'.counter.toNat_len hcalm'.flow hcalm'.stored).2
      have hmax := cfg.maxBlocks_lt
      have hone := takes_length_le a
      rw [hcounts, List.length_nil] at hlen
      omega
    · have hbelow := UInt64.lt_iff_toNat_lt.mp (h.below hunc)
      rw [htakes, hcounts, List.length_nil] at hlen
      omega

/-! ### What waits in the first stage -/

theorem CalmInv.inFlight_of_mem {cfg : Config Stage Worker} {s : State Stage Worker} (h : CalmInv cfg s)
    {r : Nat} {p : Pipeline} {st : Stage} {flags : UInt32} {concat : Bool}
    (hsub : s.sub = .checked r p st flags concat) {x : Nat}
    (hx : x ∈ ((concatBuffered p st concat s).rqcb st).requestHead) : x ∈ inFlight .counted s := by
  have hmove := QueueMove.concatBuffered p st concat s
  have hok := h.flow.life x
  have hcons := hok.conserved
  have honce := hok.once
  have hcounted := hok.counted_eq
  have htaken := hok.taken_eq
  have hheld := hok.held_final
  have huncounted : (subPhase s.sub x).uncounted = 0 := by
    rw [hsub, subPhase]
    split_ifs <;> rfl
  simp only [life, huncounted, h.counter.passed x] at hcons honce hcounted htaken hheld
  -- it is in a stage and nowhere else, so the done loop has not seen it
  have hpos := List.count_pos_iff.mpr hx
  have hocc := hmove.occ x
  have hplaces := add_count_le_occ (places (concatBuffered p st concat s)) (p := .final) (q := .stage st)
    (by simp) x
  simp only [places, placesOf, hmove.final, List.append_nil, List.count_nil] at hplaces hocc hcons
  have hin : .counted x ∈ s.trace := List.count_pos_iff.mp (by omega)
  have hnot : .taken x ∉ s.trace := List.count_eq_zero.mp (by omega)
  have hborn : x < s.nreq := h.flow.lt_of_occ (by simp only [places]; omega)
  exact Finset.mem_filter.mpr ⟨Finset.mem_range.mpr hborn, hin, h.unevicted x, hnot⟩

theorem CalmInv.head_length_le {cfg : Config Stage Worker} {s : State Stage Worker} (h : CalmInv cfg s)
    {r : Nat} {p : Pipeline} {st : Stage} {flags : UInt32} {concat : Bool}
    (hsub : s.sub = .checked r p st flags concat) :
    ((concatBuffered p st concat s).rqcb st).requestHead.length ≤ s.pipelineQueueLen.toNat := by
  have hnodup : ((concatBuffered p st concat s).rqcb st).requestHead.Nodup := by
    refine List.nodup_iff_count_le_one.mpr fun x => ?_
    have hocc := (QueueMove.concatBuffered p st concat s).occ x
    have hle := count_le_occ (places (concatBuffered p st concat s)) (.stage st) x
    have hone := h.flow.occ_le_one x
    simp only [places, placesOf, List.count_nil] at hocc hle hone
    omega
  rw [(h.counter.toNat_len h.flow h.stored).1, ← List.toFinset_card_of_nodup hnodup]
  apply Finset.card_le_card
  intro x hx
  exact h.inFlight_of_mem hsub (List.mem_toFinset.mp hx)

theorem not_full_of_room {cfg : Config Stage Worker} {s : State Stage Worker} (hcalm : CalmInv cfg s)
    (hroom : Room cfg s) (hcounted : Counted (uncounted s.sub) s) {r : Nat} {p : Pipeline} {st : Stage}
    {flags : UInt32} {concat : Bool} (hsub : s.sub = .checked r p st flags concat) :
    (sendToPipeline cfg p st r flags concat s).2 ≠ .full := by
  intro hfull
  have hrefuses := refuses_of_full hfull
  have hstage := (hcounted.concatBuffered p st concat).stage st
  have hlength := hcalm.head_length_le hsub
  have hbelow := UInt64.lt_iff_toNat_lt.mp (hroom.below (by rw [hsub]; rfl))
  rw [hsub, show uncounted (.checked r p st flags concat) st = 0 from rfl, Rqcb.Behind, UInt32.add_zero] at hstage
  simp only [refuses, stageFull, Bool.and_eq_true, decide_eq_true_eq, UInt64.le_iff_toNat_le,
    UInt32.toNat_toUInt64] at hrefuses
  have hle := Nat.mod_le ((concatBuffered p st concat s).rqcb st).requestHead.length (2 ^ 32)
  rw [hstage, UInt32.toNat_ofNat'] at hrefuses
  omega

/-- The requests with event `e` behind them that the loop of `done_requests_handler` has not taken. -/
def untaken (e : Nat → Event) (s : State Stage Worker) : Finset Nat :=
  (Finset.range s.nreq).filter fun r => e r ∈ s.trace ∧ .taken r ∉ s.trace

omit [DecidableEq Stage] [DecidableEq Worker] in
theorem CalmInv.toNat_len {cfg : Config Stage Worker} {s : State Stage Worker} (h : CalmInv cfg s) :
    s.pipelineQueueLen.toNat = (untaken .counted s).card := by
  rw [(h.counter.toNat_len h.flow h.stored).1]
  congr 1
  refine Finset.filter_congr fun r _ => and_congr_right fun _ => ?_
  exact and_iff_right (h.unevicted r)

/-- **Admission bound.** In every run in which each submission names a connection and carries no flags and no
request passes the jump limit: `pipeline_queue_len` is the number of counted requests that the done loop has not
taken, which outside of `submit_request` are the accepted ones; it is within `pipeline_queue_size`; and
`send_to_pipeline` does not refuse a request that `submit_request` let through. -/
theorem admission_bound (cfg : Config Stage Worker) {s : State Stage Worker}
    (h : Reachable cfg (fun _ a s' => Benign a s' ∧ unflagged a = true) s) :
    s.pipelineQueueLen.toNat = (untaken .counted s).card ∧
    (s.sub = .none → s.pipelineQueueLen.toNat = (untaken .accepted s).card) ∧
    (untaken .accepted s).card ≤ cfg.pipelineQueueSize.toNat ∧
    s.pipelineQueueLen ≤ cfg.pipelineQueueSize ∧
    ∀ r p st flags concat, s.sub = .checked r p st flags concat →
      (sendToPipeline cfg p st r flags concat s).2 ≠ .full := by
  obtain ⟨hreg, -⟩ := benign_reachable (fun _ _ _ hr => hr.1) h
  obtain ⟨hcalm, hroom, hcounted⟩ : CalmInv cfg s ∧ Room cfg s ∧ Counted (uncounted s.sub) s := by
    refine hreg.invariant (I := fun s => CalmInv cfg s ∧ Room cfg s ∧ Counted (uncounted s.sub) s) ?_ ?_
    · exact ⟨calmInv_init cfg, room_init cfg, counted_init⟩
    · rintro s a s' ⟨hcalm, hroom, hcounted⟩ ⟨⟨hbenign, hplain⟩, hregular, -⟩ hs
      have hcalm' := calmInv_step hcalm ⟨hregular, hbenign.1, hroom.calm hs⟩ hs
      exact ⟨hcalm', room_step hroom hcalm hcalm' hplain hs, counted_step hcounted hs⟩
  have hlen := hcalm.toNat_len
  refine ⟨hlen, fun hsub => ?_, ?_, hroom.bound, fun r p st flags concat hsub =>
    not_full_of_room hcalm hroom hcounted hsub⟩
  · rw [hlen]
    congr 1
    exact Finset.filter_congr fun r _ => and_congr_left fun _ => (hcalm.flow.accepted_iff hsub r).symm
  · have hbound := UInt64.le_iff_toNat_le.mp hroom.bound
    refine le_trans (Finset.card_le_card ?_) (hlen ▸ hbound)
    intro r hr
    obtain ⟨hborn, hacc, htaken⟩ := Finset.mem_filter.mp hr
    exact Finset.mem_filter.mpr ⟨hborn, hcalm.flow.counted_of_accepted hacc, htaken⟩

/-- With a bound of two, one request waits in the first stage and a second one is about to be linked. -/
theorem admission_bound_run :
    ∃ s, Reachable (oneStage 2 0) (fun _ a s' => Benign a s' ∧ unflagged a = true) s ∧
      s.sub = .checked 1 0 0 0 false ∧ (s.rqcb 0).requestHead = [0] ∧ (untaken .counted s).card = 1 ∧
      (sendToPipeline (oneStage 2 0) 0 0 1 0 false s).2 ≠ .full := by
  obtain ⟨s, hs, hsub, hhead, hlen⟩ := exists_reachable (oneStage 2 0)
    (fun _ a s' => Benign a s' ∧ unflagged a = true)
    ([.main .accept, .main (.readable 0)] ++ submitSteps 0 0 ++ [.main (.submit (submitZero 0) 0 0)])
    (P := fun s => s.sub = .checked 1 0 0 0 false ∧ (s.rqcb 0).requestHead = [0] ∧ s.pipelineQueueLen = 1)
    (by decide +kernel)
  obtain ⟨hcount, -, -, -, hnot⟩ := admission_bound (oneStage 2 0) hs
  refine ⟨s, hs, hsub, hhead, ?_, hnot 1 0 0 0 false hsub⟩
  rw [← hcount, hlen]
  rfl

end Csf
