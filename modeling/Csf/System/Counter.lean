import Csf.System.Conserve
import Mathlib.Tactic.Ring

/-!
# The in-flight counter

`pipeline_queue_len` is incremented when a request is counted and decremented when it is evicted and when the
done loop takes it. `LenMove` says that every step keeps the counter and the history in line, modulo `2^64`.
An evicted request stays in the final queue, so the done loop takes it later and decrements a second time;
as long as that does not happen the counter is the number of requests in flight.
-/

namespace Csf

open Lib

variable {Stage Worker : Type}

def counts : Action Stage Worker → List Nat
  | .main (.count r _ _ _ _) | .main (.countBuffered r _) => [r]
  | _ => []

/-- The requests that a step of the done loop takes. -/
def takes : Action Stage Worker → List Nat
  | .main (.takeReq r _) | .main (.takeNull r _) => [r]
  | _ => []

/-- The requests that a step of the done loop leaves in the final queue. -/
def passes : Action Stage Worker → List Nat
  | .main (.takeNull r _) => [r]
  | _ => []

/-- From `s` to `s'` the requests `c` were counted, `ev` evicted, `tk` taken and `ps` of these left where they
were, and the counter followed. -/
structure LenMove (s s' : State Stage Worker) (c ev tk ps : List Nat) : Prop where
  counted : ∀ r, s'.trace.count (.counted r) = s.trace.count (.counted r) + c.count r
  evicted : ∀ r, s'.trace.count (.evicted r) = s.trace.count (.evicted r) + ev.count r
  taken : ∀ r, s'.trace.count (.taken r) = s.trace.count (.taken r) + tk.count r
  passed : ∀ r, s'.trace.count (.passed r) = s.trace.count (.passed r) + ps.count r
  len : s'.pipelineQueueLen + UInt64.ofNat ev.length + UInt64.ofNat tk.length =
    s.pipelineQueueLen + UInt64.ofNat c.length

theorem LenMove.of_same {s s' : State Stage Worker}
    (h : ∀ e : Event, e.about ≠ none → s'.trace.count e = s.trace.count e)
    (hlen : s'.pipelineQueueLen = s.pipelineQueueLen) : LenMove s s' [] [] [] [] where
  counted r := h _ (by simp [Event.about])
  evicted r := h _ (by simp [Event.about])
  taken r := h _ (by simp [Event.about])
  passed r := h _ (by simp [Event.about])
  len := by simp [hlen]

theorem LenMove.congr {s t t' : State Stage Worker} {c ev tk ps : List Nat} (h : LenMove s t c ev tk ps)
    (htrace : t'.trace = t.trace) (hlen : t'.pipelineQueueLen = t.pipelineQueueLen) : LenMove s t' c ev tk ps := by
  constructor
  · rw [htrace]; exact h.counted
  · rw [htrace]; exact h.evicted
  · rw [htrace]; exact h.taken
  · rw [htrace]; exact h.passed
  · rw [hlen]; exact h.len

variable [Fintype Stage] [Fintype Worker]

theorem LenMove.of_queueMove {s s₁ : State Stage Worker} {ev new : List Nat} (h : QueueMove s s₁ ev new) :
    LenMove s s₁ [] ev [] [] where
  counted r := h.trace_other (by simp) (by simp)
  evicted r := h.trace_evicted r
  taken r := h.trace_other (by simp) (by simp)
  passed r := h.trace_other (by simp) (by simp)
  len := by simp [h.len]

variable [DecidableEq Stage] [DecidableEq Worker]

theorem lenMove_mainEffect (cfg : Config Stage Worker) (s : State Stage Worker) (a : MainAct Stage Worker) :
    ∃ ev, LenMove s (mainEffect cfg s a) (counts (.main a)) ev (takes (.main a)) (passes (.main a)) ∧
      (∀ r, s.finalRequestHead.count r + ev.count r ≤ occ (places s) r) ∧
      (ev ≠ [] → evicting cfg s (.main a) = true) := by
  have hfinal : ∀ r, s.finalRequestHead.count r + ([] : List Nat).count r ≤ occ (places s) r :=
    count_le_occ (places s) .final
  suffices h : ∃ ev, LenMove s (mainPlain cfg s a) (counts (.main a)) ev (takes (.main a)) (passes (.main a)) ∧
      (∀ r, s.finalRequestHead.count r + ev.count r ≤ occ (places s) r) ∧
      (ev ≠ [] → evicting cfg s (.main a) = true) by
    obtain ⟨ev, hmove, hrest⟩ := h
    exact ⟨ev, hmove.congr (mainEffect_plain cfg s a State.trace fun _ => rfl)
      (mainEffect_plain cfg s a State.pipelineQueueLen fun _ => rfl), hrest⟩
  cases a with
  | send q p st flags concat =>
    simp only [mainPlain, mainEffect]
    obtain ⟨s₁, ev, new, hmove, hevicts, sub, mutex, status, heq⟩ := sendLocked_move cfg q p st flags concat s
    rw [heq]
    exact ⟨ev, (LenMove.of_queueMove hmove).congr rfl rfl, hmove.evicted, hevicts⟩
  | kick ev ok ws =>
    have h := LenMove.of_queueMove (QueueMove.kickRequestQueue cfg ok s)
    exact ⟨[], h.congr rfl rfl, hfinal, absurd rfl⟩
  | count | countBuffered | takeReq | takeNull =>
    refine ⟨[], ?_, hfinal, absurd rfl⟩
    constructor <;>
    simp [mainPlain, mainEffect, setMutex, countInserted, countBuffered, takeRequest, counts, takes, passes,
      List.count_cons]
  | dispose q next rc =>
    have hsame : ∀ e : Event, e ≠ .freed q → e ≠ .cleaned q →
        (mainPlain cfg s (.dispose q next rc)).trace.count e = s.trace.count e := by
      intro e hfreed hcleaned
      simp only [mainPlain, disposedPlain]
      split_ifs <;> simp [hfreed.symm, hcleaned.symm]
    refine ⟨[], ⟨fun r => hsame _ (by simp) (by simp), fun r => hsame _ (by simp) (by simp),
      fun r => hsame _ (by simp) (by simp), fun r => hsame _ (by simp) (by simp), ?_⟩, hfinal, absurd rfl⟩
    simp [mainPlain, disposedPlain, counts, takes]
  | _ =>
    refine ⟨[], ?_, hfinal, absurd rfl⟩
    constructor <;>
    simp [mainPlain, mainEffect, preparedPlain, allocRequest, bufferTmp, takeDone, counts, takes, passes]

theorem lenMove_step {cfg : Config Stage Worker} {s s' : State Stage Worker} {a : Action Stage Worker}
    (hs : step cfg s a = some s') :
    ∃ ev, LenMove s s' (counts a) ev (takes a) (passes a) ∧
      (∀ r, s.finalRequestHead.count r + ev.count r ≤ occ (places s) r) ∧ (ev ≠ [] → evicting cfg s a = true) := by
  obtain ⟨-, hg, rfl⟩ := step_eq_some hs
  have hfinal : ∀ r, s.finalRequestHead.count r + ([] : List Nat).count r ≤ occ (places s) r :=
    count_le_occ (places s) .final
  cases a with
  | worker w a =>
    refine ⟨[], .of_same (fun e he => ?_) ?_, hfinal, absurd rfl⟩
    · rcases trace_workerEffect cfg s w a with h | ⟨q, h⟩ <;> rw [effect, h]
      exact List.count_cons_of_ne (by rintro rfl; exact he rfl)
    · exact workerEffect_keeps cfg s w a State.pipelineQueueLen fun _ => rfl
  | main a => exact lenMove_mainEffect cfg s a
  | signals a =>
    obtain ⟨s₁, wk, sig, g, hmove, heq⟩ := signalEffect_move cfg s a
    rw [effect, heq]
    exact ⟨[], (LenMove.of_queueMove hmove).congr rfl rfl, hfinal, absurd rfl⟩
  | tick | cancel => exact ⟨[], .of_same (fun _ _ => rfl) rfl, hfinal, absurd rfl⟩

omit [Fintype Stage] [Fintype Worker] [DecidableEq Worker] in
theorem takes_of_evicting {cfg : Config Stage Worker} {s : State Stage Worker} {a : Action Stage Worker}
    (h : evicting cfg s a = true) : takes a = [] := by
  unfold evicting at h
  split at h
  · rfl
  · cases h

/-! ### The counter and the totals -/

def total (e : Nat → Event) (s : State Stage Worker) : Nat := ∑ r ∈ Finset.range s.nreq, s.trace.count (e r)

/-- The counter is the number of counted requests, less one for every eviction and every taking. -/
def LenTotals (s : State Stage Worker) : Prop :=
  s.pipelineQueueLen + UInt64.ofNat (total .evicted s) + UInt64.ofNat (total .taken s) =
    UInt64.ofNat (total .counted s)

omit [DecidableEq Stage] [DecidableEq Worker] in
theorem FlowInv.unborn {s : State Stage Worker} (h : FlowInv s) {r : Nat} (hr : s.nreq ≤ r) :
    s.trace.count (.counted r) = 0 ∧ s.trace.count (.evicted r) = 0 ∧ s.trace.count (.taken r) = 0 := by
  have hok := h.life r
  have hborn := hok.unborn (by simp only [Csf.life]; omega)
  have hcounted := hok.counted_eq
  have hevicted := hok.evicted_counted
  have htaken := hok.taken_counted
  simp only [Csf.life] at hborn hcounted hevicted htaken
  omega

theorem lenTotals_step {cfg : Config Stage Worker} {s s' : State Stage Worker} {a : Action Stage Worker}
    (hflow : FlowInv s) (h : LenTotals s) (hs : step cfg s a = some s') : LenTotals s' := by
  obtain ⟨ev, hmove, hev, -⟩ := lenMove_step hs
  have hnreq := nreq_step_le hs
  obtain ⟨-, hg, -⟩ := step_eq_some hs
  have hevicted : ∀ r ∈ ev, r < s.nreq := fun r hr => by
    have := List.count_pos_iff.mpr hr
    have := hev r
    exact hflow.lt_of_occ (by omega)
  have hcounts : ∀ r ∈ counts a, r < s.nreq := by
    intro r hr
    have hphase : subPhase s.sub r = .linked := by
      unfold counts at hr
      split at hr
      · obtain rfl := List.mem_singleton.mp hr
        simp [hg.1, subPhase]
      · obtain rfl := List.mem_singleton.mp hr
        have hsub : s.sub = _ := hg
        simp [hsub, subPhase]
      · exact absurd hr List.not_mem_nil
    by_contra hborn
    have hidle := ((hflow.life r).unborn (by simpa [life] using hborn)).2
    simp [life, hphase] at hidle
  have htakes : ∀ r ∈ takes a, r < s.nreq := by
    intro r hr
    have hmain : ∃ rc, s.main = .iter (some r) rc := by
      unfold takes at hr
      split at hr
      · obtain rfl := List.mem_singleton.mp hr
        exact ⟨_, hg.1⟩
      · obtain rfl := List.mem_singleton.mp hr
        exact ⟨_, hg.1⟩
      · exact absurd hr List.not_mem_nil
    obtain ⟨rc, hm⟩ := hmain
    exact hflow.lt_of_mem (hflow.final_of_current hm rfl)
  have hunborn := fun r (hr : s.nreq ≤ r) => hflow.unborn hr
  have hc := sum_range_add_count hnreq (fun r hr => (hunborn r hr).1) hcounts hmove.counted
  have he := sum_range_add_count hnreq (fun r hr => (hunborn r hr).2.1) hevicted hmove.evicted
  have ht := sum_range_add_count hnreq (fun r hr => (hunborn r hr).2.2) htakes hmove.taken
  have hlen := hmove.len
  simp only [LenTotals, total, hc, he, ht, UInt64.ofNat_add] at h ⊢
  grind

/-! ### Blocks in use -/

/-- A block is in use until `cleanup_request` frees it, and memory bounds their number. -/
structure Stored (cfg : Config Stage Worker) (s : State Stage Worker) : Prop where
  kept : ∀ r < s.nreq, .freed r ∉ s.trace → r ∈ s.blocks
  bound : s.blocks.length ≤ cfg.maxBlocks

omit [Fintype Stage] [DecidableEq Stage] [DecidableEq Worker] in
theorem stored_init (cfg : Config Stage Worker) : Stored cfg State.init :=
  ⟨fun _ h => absurd h (Nat.not_lt_zero _), Nat.zero_le _⟩

omit [Fintype Stage] [Fintype Worker] [DecidableEq Stage] [DecidableEq Worker] in
theorem Stored.of_same {cfg : Config Stage Worker} {s s' : State Stage Worker} (h : Stored cfg s)
    (hnreq : s'.nreq = s.nreq) (hblocks : s'.blocks = s.blocks)
    (hfreed : ∀ r, .freed r ∈ s.trace → .freed r ∈ s'.trace) : Stored cfg s' := by
  refine ⟨fun r hr hnot => ?_, by rw [hblocks]; exact h.bound⟩
  rw [hblocks]
  exact h.kept r (hnreq ▸ hr) fun hin => hnot (hfreed r hin)

theorem stored_mainEffect {cfg : Config Stage Worker} {s : State Stage Worker} {a : MainAct Stage Worker}
    (h : Stored cfg s) (hg : mainGuard cfg s a) : Stored cfg (mainEffect cfg s a) := by
  have hfreed : ∀ r, .freed r ∈ s.trace → .freed r ∈ (mainEffect cfg s a).trace := fun r hr =>
    (mem_mainEffect cfg s a (by simp) (by simp)).mpr (.inr hr)
  suffices hplain : (mainPlain cfg s a).nreq = s.nreq ∧ (mainPlain cfg s a).blocks = s.blocks ∨
      Stored cfg (mainPlain cfg s a) by
    have hnreq := mainEffect_plain cfg s a State.nreq fun _ => rfl
    have hblocks := mainEffect_plain cfg s a State.blocks fun _ => rfl
    rcases hplain with ⟨hn, hb⟩ | hplain
    · exact h.of_same (hnreq.trans hn) (hblocks.trans hb) hfreed
    · exact hplain.of_same hnreq hblocks fun r hr => (mainEffect_plain cfg s a State.trace fun _ => rfl) ▸ hr
  cases a with
  | submit args p st =>
    obtain ⟨-, -, -, hroom⟩ := hg
    refine .inr ⟨fun r hr hnot => ?_, hroom⟩
    rcases Nat.lt_succ_iff_lt_or_eq.mp hr with hr | rfl
    · exact List.mem_cons_of_mem _ (h.kept r hr fun hin => hnot (List.mem_cons_of_mem _ hin))
    · exact List.mem_cons_self
  | dispose q next rc =>
    refine .inr ⟨fun r hr hnot => ?_, (List.length_erase_le).trans h.bound⟩
    have hne : r ≠ q := by
      rintro rfl
      exact hnot List.mem_cons_self
    refine (List.mem_erase_of_ne hne).mpr (h.kept r hr fun hin => hnot ?_)
    exact List.mem_cons_of_mem _ (List.mem_append_right _ hin)
  | send q p st flags concat =>
    exact .inl ⟨sendLocked_keeps cfg q p st flags concat s State.nreq fun _ => rfl,
      sendLocked_keeps cfg q p st flags concat s State.blocks fun _ => rfl⟩
  | kick ev ok ws =>
    have hmove := QueueMove.kickRequestQueue cfg ok s
    exact .inl ⟨hmove.keeps State.nreq fun _ => rfl, hmove.keeps State.blocks fun _ => rfl⟩
  | _ => exact .inl ⟨rfl, rfl⟩

theorem stored_step {cfg : Config Stage Worker} {s s' : State Stage Worker} {a : Action Stage Worker}
    (h : Stored cfg s) (hs : step cfg s a = some s') : Stored cfg s' := by
  have hfreed : ∀ r, .freed r ∈ s.trace → .freed r ∈ s'.trace := fun r => mem_step hs (by simp) (by simp)
  obtain ⟨-, hg, rfl⟩ := step_eq_some hs
  cases a with
  | worker w a =>
    exact h.of_same (workerEffect_keeps cfg s w a State.nreq fun _ => rfl)
      (workerEffect_keeps cfg s w a State.blocks fun _ => rfl) hfreed
  | main a => exact stored_mainEffect h hg
  | signals a =>
    exact h.of_same (signalEffect_keeps cfg s a State.nreq fun _ => rfl)
      (signalEffect_keeps cfg s a State.blocks fun _ => rfl) hfreed
  | tick | cancel => exact h.of_same rfl rfl hfreed

/-! ### The number in flight -/

/-- The done loop takes no request that was evicted. -/
def TakesUnevicted (s : State Stage Worker) (a : Action Stage Worker) : Prop := ∀ r ∈ takes a, .evicted r ∉ s.trace

instance (s : State Stage Worker) (a : Action Stage Worker) : Decidable (TakesUnevicted s a) :=
  inferInstanceAs (Decidable (∀ _ ∈ _, _))

/-- The requests with event `e` behind them that were neither evicted nor taken. -/
def inFlight (e : Nat → Event) (s : State Stage Worker) : Finset Nat :=
  (Finset.range s.nreq).filter fun r => e r ∈ s.trace ∧ .evicted r ∉ s.trace ∧ .taken r ∉ s.trace

structure CounterInv (s : State Stage Worker) : Prop where
  totals : LenTotals s
  passed : ∀ r, s.trace.count (.passed r) = 0
  removed : ∀ r, s.trace.count (.evicted r) = 0 ∨ s.trace.count (.taken r) = 0

theorem counterInv_step {cfg : Config Stage Worker} {s s' : State Stage Worker} {a : Action Stage Worker}
    (hflow : FlowInv s) (h : CounterInv s) (hR : TakesUnevicted s a) (hnull : passes a = [])
    (hs : step cfg s a = some s') : CounterInv s' := by
  obtain ⟨ev, hmove, hev, hone⟩ := lenMove_step hs
  refine ⟨lenTotals_step hflow h.totals hs, fun r => ?_, fun r => ?_⟩
  · rw [hmove.passed r, h.passed r, hnull, List.count_nil]
  · have hok := hflow.life r
    have hcons := hok.conserved
    have honce := hok.once
    have htaken := hok.taken_eq
    have hheld := hok.held_final
    simp only [life, h.passed r] at hcons honce htaken hheld
    have hle := hev r
    rw [hmove.evicted r, hmove.taken r]
    by_cases hin : r ∈ ev
    · -- it lies in a stage queue, so the done loop has not seen it
      have hpos := List.count_pos_iff.mpr hin
      have htakes := takes_of_evicting (hone (List.ne_nil_of_mem hin))
      rw [htakes, List.count_nil]
      omega
    · rw [List.count_eq_zero.mpr hin]
      by_cases htk : r ∈ takes a
      · exact .inl (List.count_eq_zero.mpr (hR r htk))
      · rw [List.count_eq_zero.mpr htk]
        exact h.removed r

omit [DecidableEq Stage] [DecidableEq Worker] in
theorem CounterInv.len_eq {s : State Stage Worker} (hflow : FlowInv s) (h : CounterInv s) :
    s.pipelineQueueLen = UInt64.ofNat (inFlight .counted s).card := by
  have hcard : total .counted s = (inFlight .counted s).card + total .evicted s + total .taken s := by
    rw [inFlight, Finset.card_filter, total, total, total, ← Finset.sum_add_distrib, ← Finset.sum_add_distrib]
    apply Finset.sum_congr rfl
    intro r _
    have hok := hflow.life r
    have hcounted := hok.counted_eq
    have honce := hok.once
    have hevicted := hok.evicted_counted
    have htaken := hok.taken_counted
    have heq := hok.taken_eq
    have hcons := hok.conserved
    have hheld := hok.held_final
    have hfinal := hok.final_le
    simp only [life, h.passed r] at hcounted honce hevicted htaken heq hcons hheld hfinal
    have hremoved := h.removed r
    simp only [← List.count_pos_iff]
    split_ifs <;> omega
  have htotals := h.totals
  rw [LenTotals, hcard, UInt64.ofNat_add, UInt64.ofNat_add] at htotals
  grind

omit [DecidableEq Stage] [DecidableEq Worker] in
theorem inFlight_card_le {cfg : Config Stage Worker} {s : State Stage Worker} (hflow : FlowInv s)
    (hstored : Stored cfg s) (e : Nat → Event) : (inFlight e s).card ≤ cfg.maxBlocks := by
  have hsub : inFlight e s ⊆ s.blocks.toFinset := by
    intro r hr
    simp only [inFlight, Finset.mem_filter, Finset.mem_range] at hr
    obtain ⟨hr, -, -, htaken⟩ := hr
    refine List.mem_toFinset.mpr (hstored.kept r hr fun hfreed => htaken ?_)
    have heq := (hflow.life r).taken_eq
    simp only [life] at heq
    rw [← List.count_pos_iff] at hfreed ⊢
    omega
  exact (Finset.card_le_card hsub).trans ((List.toFinset_card_le _).trans hstored.bound)

omit [Fintype Stage] [Fintype Worker] [DecidableEq Stage] [DecidableEq Worker] in
theorem passes_eq_nil {a : Action Stage Worker} (h : meetsNull a = false) : passes a = [] := by
  unfold passes
  split
  · simp [meetsNull] at h
  · rfl

theorem counterInv {cfg : Config Stage Worker}
    {R : State Stage Worker → Action Stage Worker → State Stage Worker → Prop}
    (hR : ∀ s a s', R s a s' → TakesUnevicted s a ∧ Regular s a ∧ meetsNull a = false) {s : State Stage Worker}
    (h : Reachable cfg R s) : FlowInv s ∧ CounterInv s ∧ Stored cfg s := by
  refine h.invariant (I := fun s => FlowInv s ∧ CounterInv s ∧ Stored cfg s) ?_ ?_
  · exact ⟨flowInv_init, ⟨rfl, fun _ => rfl, fun _ => .inl rfl⟩, stored_init cfg⟩
  · rintro s a s' ⟨hflow, hcounter, hstored⟩ hr hs
    obtain ⟨htakes, hregular, hnull⟩ := hR s a s' hr
    exact ⟨flowInv_step hflow hregular hs, counterInv_step hflow hcounter htakes (passes_eq_nil hnull) hs,
      stored_step hstored hs⟩

omit [DecidableEq Stage] [DecidableEq Worker] in
theorem CounterInv.toNat_len {cfg : Config Stage Worker} {s : State Stage Worker} (hcounter : CounterInv s)
    (hflow : FlowInv s) (hstored : Stored cfg s) :
    s.pipelineQueueLen.toNat = (inFlight .counted s).card ∧ s.pipelineQueueLen.toNat ≤ cfg.maxBlocks := by
  have hbound := inFlight_card_le hflow hstored .counted
  have hfit := cfg.maxBlocks_lt
  have hlen : s.pipelineQueueLen.toNat = (inFlight .counted s).card := by
    rw [hcounter.len_eq hflow]
    exact UInt64.toNat_ofNat_of_lt' (by rw [UInt64.size]; omega)
  exact ⟨hlen, hlen ▸ hbound⟩

omit [DecidableEq Stage] [DecidableEq Worker] in
theorem FlowInv.counted_of_accepted {s : State Stage Worker} (h : FlowInv s) {r : Nat}
    (hr : .accepted r ∈ s.trace) : .counted r ∈ s.trace := by
  have hcounted := (h.life r).counted_eq
  have haccepted := (h.life r).accepted_eq
  have hphase : (Csf.life s r).sub.uncounted ≤ (Csf.life s r).sub.unreturned := by cases (Csf.life s r).sub <;> decide
  simp only [Csf.life] at hcounted haccepted hphase
  rw [← List.count_pos_iff] at hr ⊢
  omega

omit [DecidableEq Stage] [DecidableEq Worker] in
theorem FlowInv.accepted_iff {s : State Stage Worker} (h : FlowInv s) (hsub : s.sub = .none) (r : Nat) :
    .accepted r ∈ s.trace ↔ .counted r ∈ s.trace := by
  have hcounted := (h.life r).counted_eq
  have haccepted := (h.life r).accepted_eq
  simp only [Csf.life, hsub, subPhase, SubPhase.uncounted, SubPhase.unreturned] at hcounted haccepted
  rw [← List.count_pos_iff, ← List.count_pos_iff]
  omega

/-- **The in-flight counter.** In every benign run in which the done loop takes no evicted request, the
counter is the number of requests that were counted and neither evicted nor taken, it stays within memory and
so never wraps, and outside of `submit_request` the counted requests are the accepted ones. Every accepted
request is added once and subtracted at most once, exactly once when it is freed. -/
theorem counter_exact (cfg : Config Stage Worker) {s : State Stage Worker}
    (h : Reachable cfg (fun s a s' => Benign a s' ∧ TakesUnevicted s a) s) :
    s.pipelineQueueLen.toNat = (inFlight .counted s).card ∧ s.pipelineQueueLen.toNat ≤ cfg.maxBlocks ∧
    (s.sub = .none → s.pipelineQueueLen.toNat = (inFlight .accepted s).card) ∧
    ∀ r, .accepted r ∈ s.trace → s.trace.count (.counted r) = 1 ∧
      s.trace.count (.evicted r) + s.trace.count (.taken r) ≤ 1 ∧
      (.freed r ∈ s.trace → s.trace.count (.evicted r) + s.trace.count (.taken r) = 1) := by
  obtain ⟨hreg, -⟩ := benign_reachable (fun _ _ _ hr => hr.1) h
  obtain ⟨hflow, hcounter, hstored⟩ := counterInv (fun _ _ _ hr => ⟨hr.1.2, hr.2⟩) hreg
  obtain ⟨hlen, hbound⟩ := hcounter.toNat_len hflow hstored
  refine ⟨hlen, hbound, fun hsub => ?_, fun r hacc => ?_⟩
  · rw [hlen]
    congr 1
    exact Finset.filter_congr fun r _ => and_congr_left fun _ => (hflow.accepted_iff hsub r).symm
  · have hok := hflow.life r
    have hcounted := hok.counted_eq
    have haccepted := hok.accepted_eq
    have honce := hok.once
    have hevicted := hok.evicted_counted
    have htaken := hok.taken_counted
    have heq := hok.taken_eq
    have hcons := hok.conserved
    have hheld := hok.held_final
    have hfinal := hok.final_le
    have hphase : (life s r).sub.uncounted ≤ (life s r).sub.unreturned := by cases (life s r).sub <;> decide
    simp only [life, hcounter.passed r] at hcounted haccepted honce hevicted htaken heq hcons hheld hfinal hphase
    have hremoved := hcounter.removed r
    rw [← List.count_pos_iff] at hacc ⊢
    omega

/-- One request is completed, one is evicted, one waits. -/
theorem counter_exact_run :
    ∃ s, Reachable (oneStage 1 0) (fun s a s' => Benign a s' ∧ TakesUnevicted s a) s ∧ .evicted 1 ∈ s.trace ∧
      .freed 0 ∈ s.trace ∧ s.pipelineQueueLen = 1 ∧ (inFlight .accepted s).card = 1 := by
  obtain ⟨s, hs, hevicted, hfreed, hlen, hsub⟩ := exists_reachable (oneStage 1 0)
    (fun s a s' => Benign a s' ∧ TakesUnevicted s a)
    ([.main .accept, .main (.readable 0)] ++ submitSteps 0 0 ++ [.main (.readBlocked 0)] ++ handleSteps 0 [] 0 ++
      doneSteps 0 ++ takeSteps ++ completeSteps 0 none rcInit 1 ++ [.main (.finish 1), .main .accept,
      .main (.readable 1)] ++ submitSteps 1 0 ++ kickOutSteps 2 false)
    (P := fun s => .evicted 1 ∈ s.trace ∧ .freed 0 ∈ s.trace ∧ s.pipelineQueueLen = 1 ∧ s.sub = .none)
    (by decide +kernel)
  refine ⟨s, hs, hevicted, hfreed, hlen, ?_⟩
  rw [← (counter_exact (oneStage 1 0) hs).2.2.1 hsub, hlen]
  rfl

/-- The done loop takes the request that was kicked out: in the end no accepted request is in flight and the
counter has wrapped. -/
theorem counter_wraps :
    ∃ s, Reachable (oneStage 1 0) (fun _ a s' => Benign a s') s ∧ inFlight .accepted s = ∅ ∧ s.sub = .none ∧
      s.pipelineQueueLen.toNat = 2 ^ 64 - 1 :=
  exists_reachable (oneStage 1 0) (fun _ a s' => Benign a s')
    ([.main .accept, .main (.readable 0)] ++ submitSteps 0 requestForce ++
      [.worker 0 .lock, .worker 0 (.dequeue 0 [])] ++ submitSteps 1 requestForce ++
      [.worker 0 (.handle 0 0 [] 0 0)] ++ doneSteps 0 ++ kickOutSteps 2 true ++ [.main (.readBlocked 0)] ++ takeSteps ++
      completeSteps 1 (some 0) rcInit 1 ++ completeSteps 0 none 1 1 ++ [.main (.finish 1)] ++ handleSteps 2 [] 0 ++
      doneSteps 2 ++ takeSteps ++ [.main (.takeReq 2 rcInit)])
    (by decide +kernel)

/-! ### Runs without evictions -/

/-- The steps of a regular run with a connection for every request and without evictions. -/
def Calm (cfg : Config Stage Worker) (s : State Stage Worker) (a : Action Stage Worker) : Prop :=
  Regular s a ∧ connected a = true ∧ evicting cfg s a = false

instance (cfg : Config Stage Worker) (s : State Stage Worker) (a : Action Stage Worker) :
    Decidable (Calm cfg s a) := inferInstanceAs (Decidable (_ ∧ _))

structure CalmInv (cfg : Config Stage Worker) (s : State Stage Worker) : Prop where
  flow : FlowInv s
  counter : CounterInv s
  stored : Stored cfg s
  connected : AllConnected s
  unevicted : ∀ r, .evicted r ∉ s.trace

omit [DecidableEq Stage] [DecidableEq Worker] in
theorem calmInv_init (cfg : Config Stage Worker) : CalmInv cfg State.init where
  flow := flowInv_init
  counter := ⟨rfl, fun _ => rfl, fun _ => .inl rfl⟩
  stored := stored_init cfg
  connected r hr := absurd hr (Nat.not_lt_zero r)
  unevicted _ := List.not_mem_nil

theorem lenMove_of_not_evicting {cfg : Config Stage Worker} {s s' : State Stage Worker} {a : Action Stage Worker}
    (hev : evicting cfg s a = false) (hs : step cfg s a = some s') :
    LenMove s s' (counts a) [] (takes a) (passes a) := by
  obtain ⟨ev, hmove, -, hevicting⟩ := lenMove_step hs
  obtain rfl : ev = [] := by
    by_contra hne
    rw [hevicting hne] at hev
    cases hev
  exact hmove

theorem calmInv_step {cfg : Config Stage Worker} {s s' : State Stage Worker} {a : Action Stage Worker}
    (h : CalmInv cfg s) (ha : Calm cfg s a) (hs : step cfg s a = some s') : CalmInv cfg s' := by
  obtain ⟨hregular, hconn, hev⟩ := ha
  have hnull := passes_eq_nil (meetsNull_eq_false h.flow h.connected hs)
  refine ⟨flowInv_step h.flow hregular hs, counterInv_step h.flow h.counter (fun r _ => h.unevicted r) hnull hs,
    stored_step h.stored hs, allConnected_step h.connected hconn hs, fun r hr => h.unevicted r ?_⟩
  rw [← List.count_pos_iff] at hr ⊢
  exact hr.trans_eq ((lenMove_of_not_evicting hev hs).evicted r)

omit [DecidableEq Stage] [DecidableEq Worker] in
theorem CalmInv.taken_of_len {cfg : Config Stage Worker} {s : State Stage Worker} (h : CalmInv cfg s)
    (hlen : s.pipelineQueueLen = 0) {r : Nat} (hr : .counted r ∈ s.trace) : .taken r ∈ s.trace := by
  have hcard := (h.counter.toNat_len h.flow h.stored).1
  rw [hlen, UInt64.toNat_zero, eq_comm, Finset.card_eq_zero] at hcard
  by_contra htaken
  have hborn : r < s.nreq := by
    by_contra hnot
    exact List.count_eq_zero.mp (h.flow.unborn (not_lt.mp hnot)).1 hr
  have hin : r ∈ inFlight .counted s := by
    simp only [inFlight, Finset.mem_filter, Finset.mem_range]
    exact ⟨hborn, hr, h.unevicted r, htaken⟩
  rw [hcard] at hin
  exact Finset.notMem_empty r hin

/-! ### A submission that is not counted yet -/

/-- `submit_request` is past its check of `graceful_restart` and has not counted its request. -/
def uncountedSubmit : SubmitPc Stage → Bool
  | .checked .. | .inserted .. | .buffered .. => true
  | _ => false

omit [DecidableEq Stage] [Fintype Stage] in
theorem subPhase_of_counted {sub : SubmitPc Stage} (h : uncountedSubmit sub = false) (r : Nat) :
    subPhase sub r = .idle ∨ subPhase sub r = .counted := by
  cases sub with
  | none => exact .inl rfl
  | checked | inserted | buffered => cases h
  | _ =>
    simp only [subPhase]
    split_ifs
    · exact .inr rfl
    · exact .inl rfl

theorem uncountedSubmit_of_step {cfg : Config Stage Worker} {s s' : State Stage Worker} {a : Action Stage Worker}
    (hs : step cfg s a = some s') (h : uncountedSubmit s'.sub = true) :
    uncountedSubmit s.sub = true ∧ counts a = [] ∨ ∃ args p st, a = .main (.submit args p st) := by
  obtain ⟨-, hg, rfl⟩ := step_eq_some hs
  cases a with
  | worker w a =>
    rw [effect, workerEffect_keeps cfg s w a State.sub fun _ => rfl] at h
    exact .inl ⟨h, rfl⟩
  | main a =>
    rw [effect, mainEffect_plain cfg s a State.sub fun _ => rfl] at h
    cases a with
    | submit args p st => exact .inr ⟨args, p, st, rfl⟩
    | send q p st flags concat => exact .inl ⟨by rw [hg.1]; rfl, rfl⟩
    | buffer q p st flags concat => exact .inl ⟨by rw [show s.sub = _ from hg]; rfl, rfl⟩
    | count q p st notice ws => cases notice <;> cases h
    | countBuffered | noticeSkip | noticeClear | noticeSet | noticeWrite | returnTid => cases h
    | kick ev ok ws =>
      have hsub := (QueueMove.kickRequestQueue cfg ok s).keeps State.sub fun _ => rfl
      exact .inl ⟨(congrArg uncountedSubmit hsub) ▸ h, rfl⟩
    | _ => exact .inl ⟨h, rfl⟩
  | signals a =>
    rw [effect, signalEffect_keeps cfg s a State.sub fun _ => rfl] at h
    exact .inl ⟨h, rfl⟩
  | tick | cancel => exact .inl ⟨h, rfl⟩

omit [Fintype Stage] in
theorem counts_step {cfg : Config Stage Worker} {s s' : State Stage Worker} {a : Action Stage Worker}
    (hs : step cfg s a = some s') :
    counts a = [] ∨ takes a = [] ∧ (counts a).length = 1 ∧ uncountedSubmit s.sub = true := by
  obtain ⟨-, hg, -⟩ := step_eq_some hs
  unfold counts
  split
  · exact .inr ⟨rfl, rfl, by rw [hg.1]; rfl⟩
  · exact .inr ⟨rfl, rfl, by rw [show s.sub = _ from hg]; rfl⟩
  · exact .inl rfl

end Csf
