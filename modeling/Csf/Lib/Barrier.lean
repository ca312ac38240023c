import Csf.Lib.Reach
import Mathlib.Data.Fintype.Card

/-!
# A counting barrier

Each party arrives once, adds one to a counter of `w` bits and signals. One thread waits in a loop until the counter is
equal to the number it expects; it goes to sleep in the same critical section in which it compares, and may also wake up
without a signal. All this happens under one mutex, so the steps are atomic, and the parties may come in any order and
before the comparison is made for the first time.

The barrier is right if the wait ends with the last arrival, and not before (`Right`). This is so exactly if the number
expected is the number of parties (`right_iff`): with a smaller one the wait can end early, with a larger one it need not
end at all.
-/

namespace Csf.Lib.Barrier

inductive Waiter
  /-- before the comparison -/
  | testing
  /-- asleep on the condition variable -/
  | waiting
  | passed
  deriving DecidableEq

/-- A signal wakes the thread, which compares again. -/
def Waiter.signalled : Waiter → Waiter
  | .testing => .testing
  | .waiting => .testing
  | .passed => .passed

structure State (ι : Type*) (w : Nat) where
  arrived : Finset ι
  count : BitVec w
  waiter : Waiter

inductive Event (ι : Type*)
  | arrive (i : ι)
  | test
  /-- the thread wakes up by itself -/
  | wake

variable {ι : Type*} {w : Nat}

def State.initial : State ι w := ⟨∅, 0, .testing⟩

variable [DecidableEq ι]

def step (expected : BitVec w) (s : State ι w) : Event ι → Option (State ι w)
  | .arrive i => if i ∈ s.arrived then none else some ⟨insert i s.arrived, s.count + 1, s.waiter.signalled⟩
  | .test =>
    if s.waiter = .testing then some { s with waiter := if expected = s.count then .passed else .waiting } else none
  | .wake => if s.waiter = .waiting then some { s with waiter := .testing } else none

/-- The states of all runs. -/
abbrev Reachable (expected : BitVec w) : State ι w → Prop := Reach (step expected) (fun _ _ _ => True) State.initial

/-- The wait ends once all parties have arrived, and not before. -/
structure Right (ι : Type*) [DecidableEq ι] [Fintype ι] (expected : BitVec w) : Prop where
  notBefore : ∀ s : State ι w, Reachable expected s → s.waiter = .passed → s.arrived = Finset.univ
  ends : ∀ s : State ι w, Reachable expected s → s.arrived = Finset.univ →
    s.waiter = .passed ∨ step expected s .test = some { s with waiter := .passed }

/-! ### Steps -/

section Steps

variable {expected : BitVec w} {s s' : State ι w}

theorem step_arrive {i : ι} (h : step expected s (.arrive i) = some s') :
    i ∉ s.arrived ∧ s' = ⟨insert i s.arrived, s.count + 1, s.waiter.signalled⟩ := by
  rw [step] at h
  split_ifs at h with hi
  exact ⟨hi, (Option.some.inj h).symm⟩

theorem step_test (h : step expected s .test = some s') :
    s.waiter = .testing ∧ s' = { s with waiter := if expected = s.count then .passed else .waiting } := by
  rw [step] at h
  by_cases htest : s.waiter = .testing
  · rw [if_pos htest] at h
    exact ⟨htest, (Option.some.inj h).symm⟩
  · rw [if_neg htest] at h
    exact absurd h (Option.some_ne_none _).symm

theorem step_wake (h : step expected s .wake = some s') : s.waiter = .waiting ∧ s' = { s with waiter := .testing } := by
  rw [step] at h
  split_ifs at h with hwait
  exact ⟨hwait, (Option.some.inj h).symm⟩

theorem signalled_ne_waiting (v : Waiter) : v.signalled ≠ .waiting := by
  cases v with
  | testing => exact Waiter.noConfusion
  | waiting => exact Waiter.noConfusion
  | passed => exact Waiter.noConfusion

theorem signalled_eq_passed {v : Waiter} (h : v.signalled = .passed) : v = .passed := by
  cases v with
  | testing => exact Waiter.noConfusion h
  | waiting => exact Waiter.noConfusion h
  | passed => rfl

/-- The counter counts the arrivals, and nobody sleeps on the number that is expected. -/
structure Counts (expected : BitVec w) (s : State ι w) : Prop where
  count : s.count = BitVec.ofNat w s.arrived.card
  asleep : s.waiter = .waiting → expected ≠ s.count

theorem counts_of_reachable (h : Reachable expected s) : Counts expected s := by
  refine h.invariant ⟨?_, fun hwait => Waiter.noConfusion hwait⟩ fun s a s' hs _ hstep => ?_
  · rw [State.initial, Finset.card_empty]
    rfl
  · cases a with
    | arrive i =>
      obtain ⟨hi, rfl⟩ := step_arrive hstep
      refine ⟨?_, fun hwait => absurd hwait (signalled_ne_waiting _)⟩
      dsimp only
      rw [Finset.card_insert_of_notMem hi, hs.count, ← BitVec.ofNat_add_ofNat]
      rfl
    | test =>
      obtain ⟨-, rfl⟩ := step_test hstep
      refine ⟨hs.count, fun hwait heq => ?_⟩
      dsimp only at hwait heq
      rw [if_pos heq] at hwait
      exact Waiter.noConfusion hwait
    | wake =>
      obtain ⟨-, rfl⟩ := step_wake hstep
      exact ⟨hs.count, fun hwait => Waiter.noConfusion hwait⟩

end Steps

/-! ### The number that is expected -/

section Expected

variable [Fintype ι] {expected : BitVec w} {s s' : State ι w}

omit [DecidableEq ι] in
theorem Counts.all_arrived (h : Counts expected s) (hcard : expected.toNat = Fintype.card ι)
    (heq : expected = s.count) : s.arrived = Finset.univ := by
  have hle := Finset.card_le_univ s.arrived
  have hlt := expected.isLt
  rw [h.count] at heq
  rw [heq, BitVec.toNat_ofNat, Nat.mod_eq_of_lt (by omega)] at hcard
  exact Finset.eq_univ_of_card _ hcard

omit [DecidableEq ι] in
theorem Counts.eq_count (h : Counts expected s) (hcard : expected.toNat = Fintype.card ι)
    (hall : s.arrived = Finset.univ) : expected = s.count := by
  rw [h.count, hall, Finset.card_univ, ← hcard, BitVec.ofNat_toNat, BitVec.setWidth_eq]

theorem right_of_eq (hcard : expected.toNat = Fintype.card ι) : Right ι expected where
  notBefore := by
    intro s hs
    induction hs with
    | init => exact fun hpassed => Waiter.noConfusion hpassed
    | @next s s' a hs _ hstep ih =>
      intro hpassed
      cases a with
      | arrive i =>
        obtain ⟨hi, rfl⟩ := step_arrive hstep
        -- after the end of the wait nobody is left to arrive
        have hall := ih (signalled_eq_passed hpassed)
        exact absurd (hall ▸ Finset.mem_univ i) hi
      | test =>
        obtain ⟨-, rfl⟩ := step_test hstep
        dsimp only at hpassed
        split_ifs at hpassed with heq
        exact (counts_of_reachable hs).all_arrived hcard heq
      | wake =>
        obtain ⟨-, rfl⟩ := step_wake hstep
        exact Waiter.noConfusion hpassed
  ends := by
    intro s hs hall
    have hcounts := counts_of_reachable hs
    have heq := hcounts.eq_count hcard hall
    cases hwaiter : s.waiter with
    | testing =>
      refine Or.inr ?_
      rw [step, if_pos hwaiter, if_pos heq]
    | waiting => exact absurd heq (hcounts.asleep hwaiter)
    | passed => exact Or.inl rfl

theorem exists_arrived (expected : BitVec w) {k : Nat} (hk : k ≤ Fintype.card ι) :
    ∃ s : State ι w, Reachable expected s ∧ s.arrived.card = k ∧ s.waiter = .testing := by
  induction k with
  | zero => exact ⟨.initial, .init, Finset.card_empty, rfl⟩
  | succ k ih =>
    obtain ⟨s, hs, hcard, hwaiter⟩ := ih (Nat.le_of_succ_le hk)
    have hnot : ∃ i, i ∉ s.arrived := by
      by_contra hall
      rw [not_exists_not] at hall
      rw [Finset.eq_univ_iff_forall.mpr hall, Finset.card_univ] at hcard
      omega
    obtain ⟨i, hi⟩ := hnot
    refine ⟨⟨insert i s.arrived, s.count + 1, s.waiter.signalled⟩, hs.next (a := .arrive i) trivial (if_neg hi), ?_, ?_⟩
    · rw [Finset.card_insert_of_notMem hi, hcard]
    · rw [hwaiter]
      rfl

theorem exists_early (hlt : expected.toNat < Fintype.card ι) :
    ∃ s : State ι w, Reachable expected s ∧ s.waiter = .passed ∧ s.arrived ≠ Finset.univ := by
  obtain ⟨s, hs, hcard, hwaiter⟩ := exists_arrived expected (Nat.le_of_lt hlt)
  have heq : expected = s.count := by
    rw [(counts_of_reachable hs).count, hcard, BitVec.ofNat_toNat, BitVec.setWidth_eq]
  refine ⟨{ s with waiter := .passed }, hs.next (a := .test) trivial ?_, rfl, ?_⟩
  · rw [step, if_pos hwaiter, if_pos heq]
  · intro hall
    dsimp only at hall
    rw [hall, Finset.card_univ] at hcard
    omega

theorem never_passes (hne : expected ≠ s.count) (hall : s.arrived = Finset.univ) (hwaiter : s.waiter ≠ .passed)
    (h : Reach (step expected) (fun _ _ _ => True) s s') : s'.waiter ≠ .passed := by
  refine (h.invariant (I := fun s => expected ≠ s.count ∧ s.arrived = Finset.univ ∧ s.waiter ≠ .passed)
    ⟨hne, hall, hwaiter⟩ ?_).2.2
  rintro s a s' ⟨hne, hall, hwaiter⟩ - hstep
  cases a with
  | arrive i =>
    obtain ⟨hi, -⟩ := step_arrive hstep
    exact absurd (hall ▸ Finset.mem_univ i) hi
  | test =>
    obtain ⟨-, rfl⟩ := step_test hstep
    dsimp only
    rw [if_neg hne]
    exact ⟨hne, hall, Waiter.noConfusion⟩
  | wake =>
    obtain ⟨-, rfl⟩ := step_wake hstep
    exact ⟨hne, hall, Waiter.noConfusion⟩

theorem exists_stuck (hlt : Fintype.card ι < expected.toNat) :
    ∃ s : State ι w, Reachable expected s ∧ s.arrived = Finset.univ ∧ s.waiter = .waiting ∧
      ∀ s', Reach (step expected) (fun _ _ _ => True) s s' → s'.waiter ≠ .passed := by
  obtain ⟨s, hs, hcard, hwaiter⟩ := exists_arrived expected (Nat.le_refl (Fintype.card ι))
  have hall := Finset.eq_univ_of_card _ hcard
  have hne : expected ≠ s.count := by
    intro heq
    rw [heq, (counts_of_reachable hs).count, hcard, BitVec.toNat_ofNat] at hlt
    exact Nat.not_lt_of_le (Nat.mod_le _ _) hlt
  refine ⟨{ s with waiter := .waiting }, hs.next (a := .test) trivial ?_, hall, rfl, fun s' hs' => ?_⟩
  · rw [step, if_pos hwaiter, if_neg hne]
  · exact never_passes (s := { s with waiter := .waiting }) hne hall Waiter.noConfusion hs'

theorem right_iff : Right ι expected ↔ expected.toNat = Fintype.card ι := by
  refine ⟨fun hright => ?_, right_of_eq⟩
  rcases Nat.lt_trichotomy expected.toNat (Fintype.card ι) with hlt | heq | hlt
  · obtain ⟨s, hs, hpassed, hnot⟩ := exists_early hlt
    exact absurd (hright.notBefore s hs hpassed) hnot
  · exact heq
  · obtain ⟨s, hs, hall, hwaiting, -⟩ := exists_stuck hlt
    have hcase := hright.ends s hs hall
    rw [hwaiting, step, if_neg (by rw [hwaiting]; exact Waiter.noConfusion)] at hcase
    rcases hcase with hcase | hcase
    · exact Waiter.noConfusion hcase
    · exact absurd hcase (Option.some_ne_none _).symm

end Expected

end Csf.Lib.Barrier
